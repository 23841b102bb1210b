import Dataflow.Proofs.Graph.Steps
import Dataflow.Proofs.Script.Clause

/-!
# Scripts are well scoped

A listing is in scope (`Listing.Good`) if no two statements have one owner, every statement reads
variables that earlier statements define, and the result is defined.  Merging keeps listings in scope as
long as an owner has the same statement in all of them (`good_merge`); a node adds one statement for
itself and some for the nodes of its branches, whose identifiers are under its own (`Grounded.adds`).
-/

namespace Dataflow

open List Outcome Text

variable {l r x y : Listing} {ss ts : List (Text × Clause)} {inputs : List Listing} {n : Node}

/-- Some run of the effect gives the value. -/
def Effect.Yields {α : Type} (e : Effect α) (a : α) : Prop := ∃ w w', e.run.run w = (.ok a, w')

namespace Effect

variable {α β : Type} {a : α} {b : β}

theorem Yields.of_bind {x : Effect α} {f : α → Effect β} (h : (x >>= f).Yields b) :
    ∃ a, x.Yields a ∧ (f a).Yields b := by
  obtain ⟨w, w', h⟩ := h
  rcases hx : x.run.run w with ⟨s | a, w₁⟩
  · rw [run_bind_error hx] at h
    cases h
  · rw [run_bind_ok hx] at h
    exact ⟨a, ⟨w, w₁, hx⟩, w₁, w', h⟩

theorem Yields.of_ofOutcome {o : Outcome α} (h : (ofOutcome o).Yields a) : o = .ok a := by
  obtain ⟨w, w', h⟩ := h
  cases o with
  | ok a => cases h; rfl
  | error s => cases h

theorem not_yields_throw (s : Stop) : ¬ (throw s : Effect α).Yields a := by
  rintro ⟨w, w', h⟩
  cases h

end Effect

theorem eq_ok_of_mapFailure {α : Type} {o : Outcome α} {f : Failure → Failure} {a : α}
    (h : o.mapFailure f = .ok a) : o = .ok a := by
  rcases o with (g | _) | b
  · cases h
  · cases h
  · exact h

namespace Script

/-! ### Variables -/

def defined (ss : List (Text × Clause)) : List Text :=
  (ss.filter (·.2.defines)).map fun s => variableAt s.1

theorem mem_defined {v : Text} : v ∈ defined ss ↔ ∃ s ∈ ss, s.2.defines ∧ variableAt s.1 = v := by
  simp [defined, and_assoc]

theorem defined_mono (h : ∀ s ∈ ss, s ∈ ts) {v : Text} (hv : v ∈ defined ss) : v ∈ defined ts := by
  obtain ⟨s, hs, hdefines, rfl⟩ := mem_defined.mp hv
  exact mem_defined.mpr ⟨s, h s hs, hdefines, rfl⟩

theorem variableAt_injective : Function.Injective variableAt := fun _ _ h =>
  ident_injective (append_cancel h)

theorem nodup_defined (h : (ss.map Prod.fst).Nodup) : (defined ss).Nodup := by
  have hsub : ((ss.filter (·.2.defines)).map Prod.fst).Nodup := h.sublist (filter_sublist.map _)
  have hmap : defined ss = ((ss.filter (·.2.defines)).map Prod.fst).map variableAt := by
    rw [map_map]
    rfl
  rw [hmap]
  exact hsub.map variableAt_injective

/-- Every statement reads variables that statements before it define. -/
def Scoped (ss : List (Text × Clause)) : Prop :=
  ∀ before s after, ss = before ++ s :: after → ∀ v ∈ s.2.reads, v ∈ defined before

theorem scoped_nil : Scoped [] := by
  intro before s after h
  simp at h

theorem scoped_concat {t : Text × Clause} :
    Scoped (ss ++ [t]) ↔ Scoped ss ∧ ∀ v ∈ t.2.reads, v ∈ defined ss := by
  constructor
  · intro h
    refine ⟨fun before s after heq => h before s (after ++ [t]) (by simp [heq]), ?_⟩
    exact h ss t [] rfl
  · rintro ⟨hss, ht⟩ before s after heq
    rcases eq_nil_or_concat after with rfl | ⟨after, u, rfl⟩
    · obtain ⟨rfl, hst⟩ := append_inj' heq rfl
      cases hst
      exact ht
    · have hsplit : ss ++ [t] = (before ++ s :: after) ++ [u] := by simpa using heq
      obtain ⟨hsplit, -⟩ := append_inj' hsplit rfl
      exact hss before s after hsplit

/-! ### Merging -/

/-- An owner has one statement. -/
def Agreeing (S : Text × Clause → Prop) : Prop := ∀ s t, S s → S t → s.1 = t.1 → s = t

theorem Agreeing.or {S T : Text × Clause → Prop} (hS : Agreeing S) (hT : Agreeing T)
    (hcross : ∀ s t, S s → T t → s.1 = t.1 → s = t) : Agreeing fun s => S s ∨ T s := by
  rintro s t (hs | hs) (ht | ht) heq
  · exact hS s t hs ht heq
  · exact hcross s t hs ht heq
  · exact (hcross t s ht hs heq.symm).symm
  · exact hT s t hs ht heq

theorem agreeing_mem (h : (ss.map Prod.fst).Nodup) : Agreeing (· ∈ ss) :=
  fun _ _ hs ht heq => inj_on_of_nodup_map h hs ht heq

namespace Listing

variable {s t : Text × Clause} {S : Text × Clause → Prop}

theorem mem_adjoin_right (hS : Agreeing S) (hss : ∀ s ∈ ss, S s) (hts : ∀ t ∈ ts, S t) (ht : t ∈ ts) :
    t ∈ ts.foldl (insertNew Prod.fst) ss :=
  mem_foldl_insertNew_right (fun s hs => hS s t (hs.elim (hss s) (hts s)) (hts t ht)) ht

theorem scoped_adjoin (hS : Agreeing S) (hss : ∀ s ∈ ss, S s) (hts : ∀ t ∈ ts, S t) (h : Scoped ss)
    (h' : Scoped ts) : Scoped (ts.foldl (insertNew Prod.fst) ss) := by
  induction ts using reverseRecOn with
  | nil => exact h
  | append_singleton ts t ih =>
    rw [forall_mem_append] at hts
    obtain ⟨h', hreads⟩ := scoped_concat.mp h'
    rw [foldl_append, foldl_cons, foldl_nil, insertNew]
    split
    · exact ih hts.1 h'
    · refine scoped_concat.mpr ⟨ih hts.1 h', fun v hv => ?_⟩
      exact defined_mono (fun u hu => mem_adjoin_right hS hss hts.1 hu) (hreads v hv)

structure Good (l : Listing) : Prop where
  owners : (l.statements.map Prod.fst).Nodup
  reads : Scoped l.statements
  result : l.result ∈ defined l.statements

/-- What merging listings in scope gives. -/
structure Merged (ls : List Listing) (m : Listing) : Prop where
  owners : (m.statements.map Prod.fst).Nodup
  reads : Scoped m.statements
  all : ∀ l ∈ ls, ∀ s ∈ l.statements, s ∈ m.statements
  only : ∀ s ∈ m.statements, ∃ l ∈ ls, s ∈ l.statements
  last : ∀ l, ls.getLast? = some l → m.result = l.result

theorem merged_merge {ls : List Listing} (hS : Agreeing S) (hls : ∀ l ∈ ls, ∀ s ∈ l.statements, S s)
    (h : ∀ l ∈ ls, l.Good) : Merged ls (merge ls) := by
  induction ls using reverseRecOn with
  | nil =>
    have hnone : ∀ s ∈ (merge []).statements, ∃ l ∈ ([] : List Listing), s ∈ l.statements := fun s hs =>
      absurd hs not_mem_nil
    exact ⟨nodup_nil, scoped_nil, by simp, hnone, by simp⟩
  | append_singleton ls l ih =>
    rw [forall_mem_append, forall_mem_singleton] at hls h
    obtain ⟨howners, hscoped, hall, honly, -⟩ := ih hls.1 h.1
    have hmerge : merge (ls ++ [l]) = ⟨l.statements.foldl (insertNew Prod.fst) (merge ls).statements, l.result⟩ := by
      rw [merge, foldl_append, ← foldl_any_eq]
      rfl
    have hmem : ∀ s ∈ (merge ls).statements, S s := by
      intro s hs
      obtain ⟨m, hm, hs⟩ := honly s hs
      exact hls.1 m hm s hs
    rw [hmerge]
    refine ⟨?_, scoped_adjoin hS hmem hls.2 hscoped h.2.reads, ?_, fun s hs => ?_, by simp⟩
    · rw [map_foldl_insertNew]
      exact nodup_foldl_insertLast howners
    · rw [forall_mem_append, forall_mem_singleton]
      exact ⟨fun m hm s hs => mem_foldl_insertNew_left (hall m hm s hs),
        fun s hs => mem_adjoin_right hS hmem hls.2 hs⟩
    · rcases mem_or_of_mem_foldl_insertNew hs with hs | hs
      · obtain ⟨m, hm, hs⟩ := honly s hs
        exact ⟨m, mem_append_left _ hm, hs⟩
      · exact ⟨l, by simp, hs⟩

/-- Merging listings in scope, of which there are some, gives one in scope. -/
theorem good_merge {ls : List Listing} (hne : ls ≠ []) (hS : Agreeing S)
    (hls : ∀ l ∈ ls, ∀ s ∈ l.statements, S s) (h : ∀ l ∈ ls, l.Good) : (merge ls).Good := by
  have hmerged := merged_merge hS hls h
  have hlast := getLast_mem hne
  refine ⟨hmerged.owners, hmerged.reads, ?_⟩
  rw [hmerged.last _ (List.getLast?_eq_some_getLast hne)]
  exact defined_mono (hmerged.all _ hlast) (h _ hlast).result

/-! ### The clause of a node -/

theorem Good.result_ne_empty (h : l.Good) : l.result.isEmpty = false := by
  obtain ⟨s, -, -, hresult⟩ := mem_defined.mp h.result
  rw [← hresult, variableAt, isEmpty_append, isEmpty_ofString (by decide)]
  rfl

theorem exists_input (h : ∀ l ∈ inputs, l.Good) {i : Nat} (hi : i < inputs.length) :
    ∃ l ∈ inputs, input inputs i = l.result := by
  refine ⟨inputs[i], getElem_mem hi, ?_⟩
  rw [input, List.getElem?_eq_getElem hi]
  simp [(h _ (getElem_mem hi)).result_ne_empty]

/-- How many inputs the statement of a node takes at least. -/
def arity : Op → Nat
  | .source | .union | .merge => 0
  | .join | .choice | .ensemble => 2
  | _ => 1

theorem arity_le_two (op : Op) : arity op ≤ 2 := by
  cases op <;> simp [arity]

/-- The clause of a node that has the inputs it takes reads results of inputs, and defines the variable
of the node or leaves it the result of an input. -/
theorem exists_result {c : Clause} (h : ∀ l ∈ inputs, l.Good)
    (harity : arity n.op ≤ inputs.length) (hc : clauseOf n inputs = .ok c) :
    (∀ v ∈ c.reads, ∃ l ∈ inputs, v = l.result) ∧
      (c.defines = false → ∃ l ∈ inputs, input inputs 0 = l.result) := by
  have hfirst (hi : 1 ≤ inputs.length) := exists_input h hi
  have hone (hi : 1 ≤ inputs.length) : ∀ v ∈ [input inputs 0], ∃ l ∈ inputs, v = l.result :=
    forall_mem_singleton.mpr (hfirst hi)
  have htwo (hi : 2 ≤ inputs.length) :
      ∀ v ∈ [input inputs 0, input inputs 1], ∃ l ∈ inputs, v = l.result :=
    forall_mem_cons.mpr ⟨hfirst (by omega), forall_mem_singleton.mpr (exists_input h hi)⟩
  have hnone : ∀ v ∈ ([] : List Text), ∃ l ∈ inputs, v = l.result := by simp
  have hall : ∀ v ∈ inputs.map result, ∃ l ∈ inputs, v = l.result := by simp [eq_comm]
  obtain ⟨id, op, config, parents⟩ := n
  unfold clauseOf at hc
  cases op with
  | source =>
    obtain ⟨uri, -, hc⟩ := bind_eq_ok hc
    cases hc
    exact ⟨hnone, fun hdefines => by cases hdefines⟩
  | filter =>
    obtain ⟨e, -, hc⟩ := bind_eq_ok hc
    obtain ⟨e, rfl⟩ : ∃ e, c = .filter (input inputs 0) e := by
      simp only at hc
      split at hc
      · obtain ⟨e, -, hc⟩ := bind_eq_ok hc
        cases hc
        exact ⟨e, rfl⟩
      · cases hc
        exact ⟨e, rfl⟩
    exact ⟨hone harity, fun _ => hfirst harity⟩
  | map =>
    obtain ⟨e, -, hc⟩ := bind_eq_ok hc
    obtain ⟨f, -, hc⟩ := bind_eq_ok hc
    cases hc
    exact ⟨hone harity, fun _ => hfirst harity⟩
  | reduce =>
    obtain ⟨e, -, hc⟩ := bind_eq_ok hc
    cases hc
    split
    · exact ⟨hnone, fun _ => hfirst harity⟩
    · exact ⟨hone harity, fun _ => hfirst harity⟩
  | join =>
    obtain ⟨on, -, hc⟩ := bind_eq_ok hc
    cases hc
    exact ⟨htwo harity, fun hdefines => by cases hdefines⟩
  | union | merge =>
    cases hc
    exact ⟨hall, fun hdefines => by cases hdefines⟩
  | choice | ensemble =>
    cases hc
    exact ⟨htwo harity, fun hdefines => by cases hdefines⟩
  | custom =>
    obtain ⟨kind | ⟨k, params⟩, -, hc⟩ := bind_eq_ok hc
    · cases hc
      exact ⟨hnone, fun _ => hfirst harity⟩
    · cases hc
      exact ⟨hone harity, fun _ => hfirst harity⟩
  | sink =>
    obtain ⟨uri, -, hc⟩ := bind_eq_ok hc
    cases hc
    exact ⟨hone harity, fun _ => hfirst harity⟩
  | window | other name =>
    cases hc
    exact ⟨hnone, fun _ => hfirst harity⟩

/-! ### The listing of a node -/

/-- A listing in scope that has statements of the inputs, and of identifiers under the root. -/
structure Adds (inputs : List Listing) (root : Text) (l : Listing) : Prop where
  good : l.Good
  only : ∀ s ∈ l.statements, (∃ x ∈ inputs, s ∈ x.statements) ∨ root.Under s.1

theorem append_of_new {owner : Text} (h : ∀ s ∈ l.statements, s.1 ≠ owner) (c : Clause)
    (result : Text) : l.append owner c result = ⟨l.statements ++ [(owner, c)], result⟩ := by
  have hnone : l.statements.findIdx? (·.1 = owner) = none := by
    rw [List.findIdx?_eq_none_iff]
    exact fun s hs => decide_eq_false (h s hs)
  rw [append, hnone]

theorem adds_ofNode (hS : Agreeing S)
    (hinputs : ∀ x ∈ inputs, ∀ s ∈ x.statements, S s) (h : ∀ x ∈ inputs, x.Good)
    (hnew : ∀ x ∈ inputs, ∀ s ∈ x.statements, s.1 ≠ n.id) (harity : arity n.op ≤ inputs.length)
    (hl : ofNode n inputs = .ok l) : Adds inputs n.id l := by
  have hmerged := merged_merge hS hinputs h
  have hresult : ∀ x ∈ inputs, x.result ∈ defined (merge inputs).statements := fun x hx =>
    defined_mono (hmerged.all x hx) (h x hx).result
  have hnew : ∀ s ∈ (merge inputs).statements, s.1 ≠ n.id := by
    intro s hs
    obtain ⟨x, hx, hs⟩ := hmerged.only s hs
    exact hnew x hx s hs
  obtain ⟨c, hc, hl⟩ := bind_eq_ok hl
  cases hl
  obtain ⟨hreads, hpasses⟩ := exists_result h harity hc
  rw [append_of_new hnew]
  refine ⟨⟨?_, scoped_concat.mpr ⟨hmerged.reads, fun v hv => ?_⟩, ?_⟩, fun s hs => ?_⟩
  · rw [map_append, map_singleton, ← concat_eq_append]
    exact hmerged.owners.concat fun hid => (mem_map.mp hid).elim fun s hs => hnew s hs.1 hs.2
  · obtain ⟨x, hx, rfl⟩ := hreads v hv
    exact hresult x hx
  · cases hdefines : c.defines with
    | true => exact mem_defined.mpr ⟨(n.id, c), by simp, hdefines, rfl⟩
    | false =>
      obtain ⟨x, hx, heq⟩ := hpasses hdefines
      exact defined_mono (fun s hs => mem_append_left _ hs) (heq ▸ hresult x hx)
  · rcases mem_append.mp hs with hs | hs
    · exact .inl (hmerged.only s hs)
    · exact .inr (mem_singleton.mp hs ▸ under_refl _)

/-! ### Branches -/

/-- The node reads as many nodes as its statement takes, and so do the nodes of its branches. -/
inductive Grounded : Node → Prop
  | plain {n : Node} (h : n.isOperatorComposite = false) (harity : arity n.op ≤ n.parents.length) :
      Grounded n
  | composite {n : Node} (h : n.isOperatorComposite)
      (hb : ∀ left right, n.branches = .ok (left, right) → ∀ m, m ∈ left ∨ m ∈ right → Grounded m) :
      Grounded n

/-- No statement of the listings belongs to an identifier under the root. -/
def Clear (root : Text) (ls : List Listing) : Prop :=
  ∀ l ∈ ls, ∀ s ∈ l.statements, ¬ root.Under s.1

/-- Lowering the node on top of a listing in scope adds statements of its own. -/
def Extends (d : Dialect) (n : Node) : Prop :=
  ∀ x y, x.Good → Clear n.id [x] → ((backend d).lower n [x]).Yields y → Adds [x] n.id y

theorem Adds.mem_or {root : Text} (h : Adds [x] root y) {s : Text × Clause}
    (hs : s ∈ y.statements) : s ∈ x.statements ∨ root.Under s.1 := by
  rcases h.only s hs with ⟨z, hz, hs⟩ | hunder
  · exact .inl (mem_singleton.mp hz ▸ hs)
  · exact .inr hunder

/-- One node after another: what each adds is apart from what the others add. -/
theorem adds_foldlM {d : Dialect} {ms : List Node} {root : Text} (hx : x.Good)
    (hclear : Clear root [x]) (hgrouped : Grouped root ms) (hms : ∀ m ∈ ms, Extends d m)
    (hy : (ms.foldlM (fun x m => (backend d).lower m [x]) x).Yields y) : Adds [x] root y := by
  replace hclear : ∀ m ∈ ms, Clear m.id [x] := fun m hm l hl s hs hunder =>
    hclear l hl s hs ((hgrouped.under m hm).trans hunder)
  obtain ⟨hapart, hunder, -⟩ := hgrouped
  induction ms generalizing x with
  | nil =>
    obtain ⟨w, w', hy⟩ := hy
    cases hy
    exact ⟨hx, fun s hs => .inl ⟨y, mem_singleton.mpr rfl, hs⟩⟩
  | cons m ms ih =>
    rw [forall_mem_cons] at hclear hunder hms
    rw [pairwise_cons] at hapart
    rw [foldlM_cons] at hy
    obtain ⟨z, hz, hy⟩ := hy.of_bind
    have hadds := hms.1 x z hx hclear.1 hz
    have hclear' : ∀ m' ∈ ms, Clear m'.id [z] := by
      intro m' hm' l hl s hs hunder'
      obtain rfl := mem_singleton.mp hl
      rcases hadds.mem_or hs with hs | hm
      · exact hclear.2 m' hm' x (mem_singleton.mpr rfl) s hs hunder'
      · exact hapart.1 m' hm' s.1 hm hunder'
    have hrest := ih hadds.good hms.2 hy hclear' hapart.2 hunder.2
    refine ⟨hrest.good, fun s hs => ?_⟩
    rcases hrest.mem_or hs with hs | hroot
    · exact (hadds.only s hs).imp id hunder.1.trans
    · exact .inr hroot

/-- The statements that two branches add to a listing agree. -/
theorem agreeing_sides {id : Text} (hx : x.Good) (hclear : Clear id [x])
    (hl : Adds [x] (id ++ ":left") l) (hr : Adds [x] (id ++ ":right") r) :
    Agreeing fun s => s ∈ l.statements ∨ s ∈ r.statements := by
  have hfree : ∀ s ∈ x.statements, ¬ id.Under s.1 := hclear x (mem_singleton.mpr rfl)
  have hunder : ∀ {side t : Text}, (id ++ ":" ++ side).Under t → id.Under t := fun h =>
    (under_part _ _).trans h
  refine (agreeing_mem hl.good.owners).or (agreeing_mem hr.good.owners) fun s t hs ht heq => ?_
  rcases hl.mem_or hs with hs | hs <;> rcases hr.mem_or ht with ht | ht
  · exact agreeing_mem hx.owners s t hs ht heq
  · rw [← heq, append_right] at ht
    exact absurd (hunder ht) (hfree s hs)
  · rw [heq, append_left] at hs
    exact absurd (hunder hs) (hfree t ht)
  · exact absurd (heq ▸ ht) (apart_sides id s.1 hs)

/-- Joining two branches adds the statement of the composite node. -/
theorem adds_joint (hx : x.Good) (hclear : Clear n.id [x])
    (hl : Adds [x] (n.id ++ ":left") l) (hr : Adds [x] (n.id ++ ":right") r)
    (hy : ofNode (Backend.joint n) [l, r] = .ok y) : Adds [x] n.id y := by
  have hfree : ∀ s ∈ x.statements, s.1 ≠ n.id := fun s hs heq =>
    hclear x (mem_singleton.mpr rfl) s hs (heq ▸ under_refl _)
  have hleft := hl
  have hright := hr
  rw [append_left] at hleft
  rw [append_right] at hright
  have hadds : Adds [l, r] n.id y := by
    refine adds_ofNode (n := Backend.joint n) (agreeing_sides hx hclear hl hr) ?_ ?_ ?_ (arity_le_two n.op) hy
    · simp +contextual
    · exact forall_mem_cons.mpr ⟨hl.good, forall_mem_singleton.mpr hr.good⟩
    · refine forall_mem_cons.mpr ⟨fun s hs => ?_, forall_mem_singleton.mpr fun s hs => ?_⟩
      · exact (hleft.mem_or hs).elim (hfree s) ne_of_under_part
      · exact (hright.mem_or hs).elim (hfree s) ne_of_under_part
  refine ⟨hadds.good, fun s hs => ?_⟩
  rcases hadds.only s hs with ⟨z, hz, hs⟩ | hunder
  · rcases mem_pair.mp hz with rfl | rfl
    · exact (hleft.only s hs).imp id (under_part _ _).trans
    · exact (hright.only s hs).imp id (under_part _ _).trans
  · exact .inr hunder

/-- A node with the inputs it takes adds statements for itself and the nodes of its branches. -/
theorem Grounded.adds {d : Dialect} (hn : Grounded n)
    (hS : Agreeing S) (hinputs : ∀ x ∈ inputs, ∀ s ∈ x.statements, S s) (h : ∀ x ∈ inputs, x.Good)
    (hclear : Clear n.id inputs) (hlength : inputs.length = n.parents.length)
    (hy : ((backend d).lower n inputs).Yields y) : Adds inputs n.id y := by
  induction hn generalizing S inputs y with
  | @plain n hplain harity =>
    unfold backend at hy
    rw [Backend.lower_branching_plain hplain] at hy
    refine adds_ofNode hS hinputs h (fun x hx s hs heq => ?_) (hlength ▸ harity)
      (eq_ok_of_mapFailure hy.of_ofOutcome)
    exact hclear x hx s hs (heq ▸ under_refl _)
  | @composite n hcomposite _ ih =>
    have hone : n.parents.length = 1 := by
      simp only [Node.isOperatorComposite, Bool.and_eq_true, decide_eq_true_eq] at hcomposite
      exact hcomposite.2
    obtain ⟨x, rfl⟩ := length_eq_one_iff.mp (hlength.trans hone)
    have hx : x.Good := h x (mem_singleton.mpr rfl)
    cases hb : n.branches with
    | error s =>
      unfold backend at hy
      rw [Backend.lower_branching_broken hcomposite hb] at hy
      exact absurd hy (Effect.not_yields_throw _)
    | ok sides =>
      obtain ⟨left, right⟩ := sides
      unfold backend at hy
      rw [Backend.lower_branching_composite hcomposite hb] at hy
      obtain ⟨l, hl, hy⟩ := hy.of_bind
      obtain ⟨r, hr, hy⟩ := hy.of_bind
      obtain ⟨hleft, hright⟩ := Node.grouped_branches hb
      have hside {side : Text} : Clear (n.id ++ ":" ++ side) [x] := fun l hl s hs hunder =>
        hclear l hl s hs ((under_part _ _).trans hunder)
      have hextends : ∀ m, m ∈ left ∨ m ∈ right → m.parents.length = 1 → Extends d m := by
        intro m hm hone x y hx hclear hy
        exact ih left right hb m hm (agreeing_mem hx.owners) (forall_mem_singleton.mpr fun s hs => hs)
          (forall_mem_singleton.mpr hx) hclear hone.symm hy
      have haddsl := adds_foldlM hx (append_left n.id ▸ hside) hleft
        (fun m hm => hextends m (.inl hm) (hleft.parents m hm)) hl
      have haddsr := adds_foldlM hx (append_right n.id ▸ hside) hright
        (fun m hm => hextends m (.inr hm) (hright.parents m hm)) hr
      exact adds_joint hx hclear haddsl haddsr (eq_ok_of_mapFailure hy.of_ofOutcome)

end Listing

end Script

end Dataflow
