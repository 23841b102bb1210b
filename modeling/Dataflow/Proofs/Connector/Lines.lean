import Dataflow.Proofs.Connector
import Dataflow.Proofs.Json.Lines
import Dataflow.Proofs.Streaming.Denotation
import Dataflow.Proofs.Value.Data

/-!
# Values written and read back

A sink of documents writes one line for each value, and passes them on in pieces of its own; a source takes
the file apart into lines again.

Main statement (`Connector.lines_roundTrip`): data that are written are read back.
-/

namespace Dataflow

open List Json

variable {vs : List Value} {js : List Json}

/-! ### Files that are written -/

theorem Text.dropEndWhile_of_endsWith {t : Text} (h : t.endsWith "/" = false) :
    t.dropEndWhile (· = byte '/') = t := by
  have hslash : (ofString "/").bytes = [byte '/'] := by cbv
  rw [endsWith, hslash] at h
  refine Text.ext ?_
  show (t.bytes.reverse.dropWhile _).reverse = t.bytes
  cases hrev : t.bytes.reverse with
  | nil => rw [← reverse_reverse t.bytes, hrev]; rfl
  | cons b r =>
    have hbytes : t.bytes = r.reverse ++ [b] := by
      rw [← reverse_reverse t.bytes, hrev, reverse_cons]
    have hb : b ≠ byte '/' := by
      rintro rfl
      rw [hbytes, isSuffixOf_iff_suffix.mpr (suffix_append _ _)] at h
      cases h
    rw [dropWhile_cons_of_neg (by simpa using hb), hbytes, reverse_cons]

namespace Files

variable {fs fs' : Files} {path : Text} {parts here : List Text} {s s' : Stored}

/-- The path leads to a place where a file can stand. -/
structure Places (fs : Files) (path : Text) (parts : List Text) : Prop where
  resolve : fs.resolve path = .ok parts
  bare : path.endsWith "/" = false
  free : fs.entry? parts ≠ some .directory

theorem entry?_put (fs : Files) (parts : List Text) (s : Stored) :
    Files.entry? (fs.put parts s) parts = some (.file s) := by
  have hfind : (fs.put parts s).entries.find? (·.1 = parts) = some (parts, s) := by
    rw [put, List.find?_append, List.find?_eq_none.mpr (by simp)]
    simp
  unfold entry?
  rw [hfind]

theorem entry?_put_of_directory (h : fs.entry? here = some .directory) (hne : parts ≠ here) :
    Files.entry? (fs.put parts s) here = some .directory := by
  unfold entry? at h ⊢
  split at h
  · cases h
  · next hnone =>
    have hfind : (fs.put parts s).entries.find? (·.1 = here) = none := by
      rw [List.find?_eq_none] at hnone ⊢
      intro e he
      rcases mem_append.mp he with he | he
      · exact hnone e (mem_filter.mp he).1
      · rw [mem_singleton.mp he]
        simpa using hne
    rw [hfind]
    refine if_pos ?_
    -- what was below the directory still is, also if it is the file that is written
    have hbelow : (here.isEmpty || fs.entries.any fun e => here.isPrefixOf e.1) = true := by
      by_contra hempty
      rw [if_neg hempty] at h
      cases h
    rw [Bool.or_eq_true] at hbelow ⊢
    refine hbelow.imp_right fun hany => ?_
    obtain ⟨e, he, hprefix⟩ := any_eq_true.mp hany
    refine any_eq_true.mpr ?_
    by_cases hkey : e.1 = parts
    · exact ⟨(parts, s), mem_append_right _ mem_cons_self, hkey ▸ hprefix⟩
    · exact ⟨e, mem_append_left _ (mem_filter.mpr ⟨he, by simpa using hkey⟩), hprefix⟩

theorem put_put (fs : Files) (parts : List Text) (s s' : Stored) :
    (fs.put parts s).put parts s' = fs.put parts s' := by
  simp [put, filter_append]

/-- A file that is written does not change the way to its place. -/
theorem follow_put (hfree : fs.entry? parts ≠ some .directory) {path : List Text}
    (h : fs.follow here path = .ok parts) : (fs.put parts s).follow here path = .ok parts := by
  induction path generalizing here with
  | nil => exact h
  | cons part path ih =>
    rw [follow] at h ⊢
    cases hentry : fs.entry? here with
    | none =>
      rw [hentry] at h
      cases h
    | some e =>
      rw [hentry] at h
      cases e with
      | file s => cases h
      | directory =>
        have hne : parts ≠ here := by
          rintro rfl
          exact hfree hentry
        rw [entry?_put_of_directory hentry hne]
        simp only at h ⊢
        split_ifs at h ⊢
        · exact ih h
        · exact ih h
        · exact ih h

namespace Places

theorem resolve_put (h : fs.Places path parts) (s : Stored) : (fs.put parts s).resolve path = .ok parts := by
  have hresolve := h.resolve
  unfold Files.resolve at hresolve ⊢
  split_ifs at hresolve ⊢
  exact follow_put h.free hresolve

theorem write_put (h : fs.Places path parts) (s s' : Stored) :
    (fs.put parts s).write path s' = .ok (fs.put parts s') := by
  simp only [write, Text.dropEndWhile_of_endsWith h.bare, h.resolve_put s, Except.mapError, bind,
    Except.bind, entry?_put, h.bare, put_put]
  rfl

theorem openAt_put (h : fs.Places path parts) (s : Stored) :
    (fs.put parts s).openAt path = .ok (.file s) := by
  have hlookup : (fs.put parts s).lookup path = .ok (.file s) := by
    simp only [lookup, h.resolve_put s, bind, Except.bind, entry?_put]
  rw [openAt, hlookup]
  rfl

end Places

theorem exists_places (h : fs.write path s = .ok fs') :
    ∃ parts, fs.Places path parts ∧ fs' = fs.put parts s := by
  obtain ⟨parts, hparts, h⟩ := Outcome.bind_eq_ok h
  have hplaces (hslash : ¬ path.endsWith "/" = true) (hfree : fs.entry? parts ≠ some .directory) :
      fs.Places path parts := by
    have hbare : path.endsWith "/" = false := Bool.not_eq_true _ ▸ hslash
    rw [Text.dropEndWhile_of_endsWith hbare] at hparts
    cases hresolve : fs.resolve path with
    | error e =>
      rw [hresolve] at hparts
      cases hparts
    | ok parts' =>
      rw [hresolve] at hparts
      cases hparts
      exact ⟨hresolve, hbare, hfree⟩
  split at h
  · cases h
  · next hentry =>
    split_ifs at h with hslash
    cases h
    exact ⟨parts, hplaces hslash (by rw [hentry]; nofun), rfl⟩
  · next hentry =>
    split at h
    · split_ifs at h with hslash
      cases h
      exact ⟨parts, hplaces hslash (by rw [hentry]; nofun), rfl⟩
    · cases h
    · cases h

end Files

namespace Connector

variable {l : Location} {w : Workspace} {fs : Files} {parts : List Text}

/-! ### Writing lines -/

/-- A writer that holds text back loses none. -/
theorem spill_append (passed held t : Text) :
    (spill passed held t).1 ++ (spill passed held t).2 = passed ++ held ++ t := by
  refine Text.ext ?_
  have hempty : (Text.ofString "").bytes = [] := by cbv
  simp only [spill]
  split_ifs with hfits hheld hrest
  · simp
  · have hbytes : held.bytes = [] := by simpa [Text.isEmpty] using hheld
    simp [hempty, hbytes]
  · simp [Text.take, Text.drop]
  · simp [Text.take, Text.drop, hempty]

theorem run_createFile (h : fs.Places l.path parts) (s s' : Stored) :
    (createFile l s').run.run { w with files := fs.put parts s } =
      (.ok (), { w with files := fs.put parts s' }) := by
  unfold createFile
  rw [run_get_bind]
  simp only [h.write_put s s']
  rfl

/-- The file in the end: what has been passed on, what is held back, and a line for each document. -/
theorem run_writeLines (hw : w.cancelled = false) (h : fs.Places l.path parts)
    (hjs : Forall₂ (fun v j => v.toJson? = some j) vs js) (passed held : Text) (s : Stored) :
    (writeLines l passed held vs).run.run { w with files := fs.put parts s } =
      (.ok (), { w with files := fs.put parts (.text (passed ++ held ++ Text.lines (js.map print))) }) := by
  induction hjs generalizing passed held s with
  | nil =>
    have htext : passed ++ held ++ Text.lines [] = passed ++ held := Text.ext (append_nil _)
    rw [map_nil, htext, writeLines]
    exact run_createFile h s _
  | @cons v j vs js hj _ ih =>
    have htext : passed ++ held ++ Text.lines ((j :: js).map print) =
        (spill passed held (j.print ++ "\n")).1 ++ (spill passed held (j.print ++ "\n")).2 ++
          Text.lines (js.map print) := by
      rw [spill_append, List.map_cons, Text.lines_cons]
      exact Text.ext (by simp)
    rw [writeLines, Backend.run_checkpoint, if_neg (by simp [hw])]
    simp only [hj]
    rw [run_bind_ok (run_createFile h s _), ih, htext]

/-- Values that have documents are written to a file that can be created: it holds a line for each of them. -/
theorem exists_run_write (hformat : l.format = some .jsonl) (hw : w.cancelled = false)
    (hfile : w.files.write l.path (.text "") = .ok fs)
    (hjs : Forall₂ (fun v j => v.toJson? = some j) vs js) :
    ∃ w', (write l vs).run.run w = (.ok vs.length, w') ∧ w'.cancelled = false ∧
      w'.files.openAt l.path = .ok (.file (.text (Text.lines (js.map print)))) := by
  obtain ⟨parts, hplaces, rfl⟩ := Files.exists_places hfile
  have hcreate : (createFile l (.text "")).run.run w =
      (.ok (), { w with files := w.files.put parts (.text "") }) := by
    unfold createFile
    rw [run_get_bind]
    simp only [hfile]
    rfl
  refine ⟨{ w with files := w.files.put parts (.text (Text.lines (js.map print))) }, ?_, hw,
    hplaces.openAt_put _⟩
  unfold write
  rw [hformat]
  simp only
  rw [run_bind_ok hcreate, run_bind_ok (run_writeLines hw hplaces hjs "" "" _)]
  rfl

/-! ### Reading lines -/

theorem lineValues_lines (h : ∀ j ∈ js, j.Numeric ∧ j.print.length < lineLimit) :
    lineValues l (js.map print ++ [("" : Text)]) = js.map fun j => lineValue l j.print := by
  induction js with
  | nil => rfl
  | cons j js ih =>
    obtain ⟨⟨hnumeric, hshort⟩, hjs⟩ := forall_mem_cons.mp h
    have htight : j.print.Tight := tight_write true hnumeric
    rw [List.map_cons, cons_append, lineValues, if_neg (by omega), htight.trim, htight.not_isEmpty, ih hjs]
    rfl

theorem run_jsonlValues (hw : w.cancelled = false)
    (hopen : w.files.openAt l.path = .ok (.file (.text (Text.lines (js.map print)))))
    (h : ∀ j ∈ js, j.Numeric ∧ j.print.length < lineLimit) :
    (jsonlValues l).run.run w = (.ok (js.map fun j => lineValue l j.print), w) := by
  have hfile : (openFile l).run.run w = (.ok (.file (.text (Text.lines (js.map print)))), w) := by
    rw [openFile, Backend.run_checkpoint, if_neg (by simp [hw]), run_get_bind, hopen]
    rfl
  have hfeed : ∀ t ∈ js.map print, 10 ∉ t.bytes :=
    forall_mem_map.mpr fun j hj => (printed_write true j (h j hj).1).not_mem
  rw [jsonlValues, run_bind_ok hfile]
  simp only [readText]
  rw [Text.split_lines hfeed, lineValues_lines h]
  rfl

/-- A line gives the value that was written, unless that is too deep. -/
theorem lineValue_print {v : Value} {j : Json} (h : v.Writes j) : lineValue l j.print =
      if v.depth ≤ maxDepth then .ok v else .error (ioFailure l (.reader "malformed document")) := by
  have hnumeric := Value.numeric_toJson? v h.written
  rw [lineValue, print, ← h.depth]
  split_ifs with hdepth
  · rw [read?_write true hnumeric hdepth, h.displayed, Option.bind_some, h.read]
  · rw [read?_write_of_lt true hnumeric (by omega)]
    rfl

end Connector

/-- Values up to the first one that stands for a failure. -/
theorem Meaning.ofResults_map (p : Value → Bool) (f : Failure) (vs : List Value) :
    ofResults (vs.map fun v => if p v then .ok v else .error f) =
      ⟨vs.takeWhile p, if vs.all p then none else some (.failure f)⟩ := by
  induction vs with
  | nil => rfl
  | cons v vs ih =>
    rw [List.map_cons, takeWhile_cons, all_cons]
    cases hv : p v with
    | false => rfl
    | true =>
      rw [if_pos rfl, ofResults, ih]
      rfl

theorem Value.exists_forall₂_writes (h : ∀ v ∈ vs, v.IsData) : ∃ js, Forall₂ Writes vs js :=
  exists_forall₂ fun v hv => IsData.exists_writes v (h v hv)

namespace Connector

/-- What a source of the lines of data means. -/
theorem denotes_source {uri : Text} (hformat : (Location.parse uri).format = some .jsonl) (config : Row)
    {w : Workspace} (hw : w.cancelled = false) (hjs : Forall₂ Value.Writes vs js)
    (hopen : w.files.openAt (Location.parse uri).path = .ok (.file (.text (Text.lines (js.map print)))))
    (hshort : ∀ j ∈ js, j.print.length < lineLimit) :
    Pipe.Denotes (.files w) (source uri config) ⟨vs.takeWhile (·.depth ≤ maxDepth),
      if vs.all (·.depth ≤ maxDepth) then none
      else some (.failure (ioFailure (Location.parse uri) (.reader "malformed document")))⟩ := by
  have hnumeric : ∀ j ∈ js, j.Numeric := by
    intro j hj
    obtain ⟨v, -, hv⟩ := exists_mem_of_forall₂ hjs.flip hj
    exact Value.numeric_toJson? v hv.written
  have hrun := run_jsonlValues hw hopen fun j hj => ⟨hnumeric j hj, hshort j hj⟩
  have hsource : source uri config = .feed (jsonlValues (Location.parse uri)) := by
    simp only [source, hformat]
  have hvalues : (js.map fun j => lineValue (Location.parse uri) j.print) = vs.map fun v =>
      if decide (v.depth ≤ maxDepth) then .ok v
      else .error (ioFailure (Location.parse uri) (.reader "malformed document")) := by
    clear hopen hshort hnumeric hrun
    induction hjs with
    | nil => rfl
    | cons h _ ih =>
      rw [List.map_cons, List.map_cons, ih, lineValue_print h]
      simp only [decide_eq_true_eq]
  have hfeed := Pipe.denotes_feed ((readOnly_jsonlValues (Location.parse uri)).steady hw)
  rw [hrun, hvalues] at hfeed
  rw [hsource, ← Meaning.ofResults_map]
  exact hfeed

/-- **Data are read back from lines.**  Let the location be that of a file of documents which can be created.
Data whose documents are not too long for a line are written there, and a source of the location gives them
again, in order and without a failure.  Only documents that are deeper than any that can be read are an
exception: the first of them ends the reading with a failure. -/
theorem lines_roundTrip (uri : Text) (hformat : (Location.parse uri).format = some .jsonl) (config : Row)
    {w : Workspace} (hw : w.cancelled = false) {files : Files}
    (hfile : w.files.write (Location.parse uri).path (.text "") = .ok files) {items : List Value}
    (hitems : ∀ v ∈ items, v.IsData)
    (hshort : ∀ v ∈ items, ∀ j, v.toJson? = some j → j.print.length < lineLimit) :
    ∃ w', (write (Location.parse uri) items).run.run w = (.ok items.length, w') ∧
      ∃ bound, ∀ limit, bound ≤ limit →
        ((∀ v ∈ items, v.depth ≤ Json.maxDepth) →
          ∃ w'', ((source uri config).collected limit).run.run w' = (.ok (items, none), w'')) ∧
        (¬ (∀ v ∈ items, v.depth ≤ Json.maxDepth) →
          ∃ w'' f, ((source uri config).collected limit).run.run w' =
            (.ok (items.takeWhile (·.depth ≤ Json.maxDepth), some f), w'')) := by
  obtain ⟨js, hjs⟩ := Value.exists_forall₂_writes hitems
  obtain ⟨w', hwritten, hw', hopen⟩ := exists_run_write hformat hw hfile (hjs.imp fun _ _ h => h.written)
  have hlines : ∀ j ∈ js, j.print.length < lineLimit := by
    intro j hj
    obtain ⟨v, hv, hwrites⟩ := exists_mem_of_forall₂ hjs.flip hj
    exact hshort v hv j hwrites.written
  obtain ⟨bound, hbound⟩ := (denotes_source hformat config hw' hjs hopen hlines).collected
  refine ⟨w', hwritten, bound, fun limit hlimit => ?_⟩
  obtain ⟨w'', -, hrun⟩ := hbound limit hlimit w' ⟨rfl, hw'⟩
  constructor
  · intro hshallow
    have hall : items.all (·.depth ≤ maxDepth) = true := by simpa using hshallow
    have htake : items.takeWhile (·.depth ≤ maxDepth) = items :=
      List.takeWhile_eq_self_iff.mpr (by simpa using hshallow)
    rw [hall, htake] at hrun
    exact ⟨w'', hrun⟩
  · intro hdeep
    have hall : items.all (·.depth ≤ maxDepth) = false := by simpa using hdeep
    rw [hall] at hrun
    exact ⟨w'', _, hrun⟩

/-- Null, the empty text, a text over two lines with blanks around it, and lists and rows in one another. -/
def motley : List Value :=
  [.null, .text "", .text " é\n< ", .list [.null, .list [], .row [("\n", .bool true)]], .row []]

theorem isData_motley : ∀ v ∈ motley, v.IsData := by
  have hrow : (Value.row [("\n", .bool true)]).IsData :=
    .row (pairwise_singleton _ _) (by decide) (forall_mem_singleton.mpr (.bool true))
  have hlist : (Value.list [.null, .list [], .row [("\n", .bool true)]]).IsData :=
    .list (by simpa using ⟨.null, Value.isData_list_nil, hrow⟩)
  simp only [motley, forall_mem_cons, not_mem_nil, false_imp_iff, implies_true, and_true]
  exact ⟨.null, .text (by decide), .text (by decide), hlist, Value.isData_row_nil⟩

theorem lines_roundTrip_motley : (∀ v ∈ motley, v.IsData) ∧
    ∃ w', (write (Location.parse "out/items.jsonl") motley).run.run { files := .ofList [("out/a", "")] } =
        (.ok 5, w') ∧
      ∃ bound, ∀ limit, bound ≤ limit → ∃ w'',
        ((source "out/items.jsonl" []).collected limit).run.run w' = (.ok (motley, none), w'') := by
  refine ⟨isData_motley, ?_⟩
  have hshort : ∀ v ∈ motley, ∀ j, v.toJson? = some j → j.print.length < lineLimit := by
    have hall : (motley.all fun v => v.toJson?.all fun j => j.print.length < lineLimit) = true := by cbv
    intro v hv j hj
    have hv := List.all_eq_true.mp hall v hv
    rw [hj] at hv
    exact of_decide_eq_true hv
  have hshallow : ∀ v ∈ motley, v.depth ≤ maxDepth := by decide
  obtain ⟨w', hwritten, bound, hbound⟩ := lines_roundTrip "out/items.jsonl" (by cbv) []
    (w := { files := .ofList [("out/a", "")] }) rfl (by cbv) isData_motley hshort
  exact ⟨w', hwritten, bound, fun limit hlimit => (hbound limit hlimit).1 hshallow⟩

end Connector

end Dataflow
