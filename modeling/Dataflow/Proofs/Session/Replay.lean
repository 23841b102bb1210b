import Dataflow.Proofs.Graph.Portable
import Dataflow.Proofs.Session.Order

/-!
# Programs compiled again from their documents

A graph that streams have built is written, read back and compiled again to texts.  The outcome is the
same (`Session.compile_replayed`) where the texts among the settings are UTF-8 and the numbers exact, and no
operator in a branch has a setting `steps` that is written as a list.
-/

namespace Dataflow

open List

variable {o : Operator}

theorem Text.Hexadecimal.ascii {t : Text} (h : t.Hexadecimal) : t.Ascii := by
  intro b hb
  have hdigit := h b hb
  have hle {c d : Char} (hd : (byte d).toNat < 128) (hc : (decide (byte c ≤ b) && decide (b ≤ byte d)) = true) :
      b.toNat < 128 := by
    rw [Bool.and_eq_true, decide_eq_true_eq, decide_eq_true_eq] at hc
    exact Nat.lt_of_le_of_lt (UInt8.le_iff_toNat_le.mp hc.2) hd
  unfold Byte.hexValue? at hdigit
  split at hdigit
  · next hb => exact hle (by decide) hb
  · split at hdigit
    · next hb => exact hle (by decide) hb
    · split at hdigit
      · next hb => exact hle (by decide) hb
      · cases hdigit

namespace Operator

/-- A portable operator that can stand in a branch: it has no setting `steps` that is written as a list. -/
structure Branchable (o : Operator) : Prop where
  portable : o.Portable
  unlisted : ∀ v, Fields.get? o.config "steps" = some v → ¬ v.Listed

theorem Portable.leaves_eq (h : o.Portable) : o.leaves = [o] := by
  cases h <;> rfl

theorem Formed.enduring (h : Formed Branchable o) : ∀ l ∈ o.leaves, l.Enduring := by
  refine h.forall_leaves (fun o ho => ?_) fun op a b hop _ _ ha hb => ?_
  · rw [ho.portable.leaves_eq]
    exact forall_mem_singleton.mpr (ho.portable.enduring ho.unlisted)
  · have hdistinct : Row.Distinct (branchConfig a b) := show List.Nodup [("left" : Text), "right"] by decide
    refine ⟨?_, ⟨hdistinct, nofun⟩, lasting_composite hop ha hb⟩
    rcases hop with rfl | rfl <;> rfl

end Operator

namespace Session

open Operator (Branchable Nested)

/-- The operation starts from a valid location, or binds operators that survive being written. -/
def Action.Portable : Action → Prop
  | .fromUri uri => uri.Valid
  | .bind o _ => o.Nested Operator.Portable Branchable
  | _ => True

/-- What is read back of the node is one with the same tag that resembles it. -/
structure Survives (n : Node) : Prop where
  declared : n.op.isDeclared
  lasting : n.Lasting

theorem survives_portable (h : o.Portable) (id : Text) (parents : List Text) :
    Survives { id, op := o.op, config := o.config, parents } :=
  ⟨by cases h <;> rfl, h.lasting id parents⟩

/-- A node whose only text is under `uri`, with anything else beside. -/
theorem survives_source {config : Row} (hdistinct : config.Distinct)
    (huri : ∀ v, Fields.get? config "uri" = some v → v.Legible) (id : Text) :
    Survives { id, op := .source, config } := by
  have hportable : Node.Portable { id, op := .source, config } :=
    .of_texts hdistinct (forall_mem_singleton.mpr huri) (.inl rfl)
  exact ⟨rfl, Node.lasting_of_agrees ⟨nofun, nofun⟩ fun n' hn' => hportable.agrees hn'⟩

/-- A node without settings comes back as it is. -/
theorem lasting_bare (id : Text) (op : Op) (parents : List Text) :
    Node.Lasting { id, op, config := [], parents } := by
  rintro ⟨id', op', config', parents'⟩ ⟨hid, hparents, hop, fs, hfs, hconfig⟩
  obtain rfl : id = id' := hid
  obtain rfl : parents = parents' := hparents
  obtain rfl : op = op' := hop
  obtain rfl := forall₂_nil_left_iff.mp hfs
  obtain rfl : config' = [] := hconfig
  have hagrees : Node.Agrees ⟨id, op, [], parents⟩ ⟨id, op, [], parents⟩ :=
    ⟨rfl, rfl, rfl, fun _ _ => rfl, fun _ => rfl, fun _ _ => rfl, fun _ _ => rfl⟩
  have hplain : Node.isOperatorComposite ⟨id, op, [], parents⟩ = false := by
    simp [Node.isOperatorComposite, Fields.has]
  refine ⟨hagrees, ?_⟩
  rw [Node.step_single hplain]
  exact .single hagrees

theorem keepsNodes_leaf (h : o.Portable) (ref : Nat) :
    KeepsNodes Survives (Session.bind o ref) := by
  have hnode := survives_portable h
  cases h with
  | join | union => exact keepsNodes_combine (fun id p ps _ => hnode id (p :: ps)) ref
  | _ => exact keepsNodes_extend (fun id p => hnode id [p]) ref

theorem keepsNodes_portable {a : Action} (h : a.Portable) : KeepsNodes Survives (perform a) := by
  cases a with
  | fromUri uri =>
    refine keepsNodes_source (survives_source (show List.Nodup [("uri" : Text)] by decide) fun v hv => ?_)
    exact Option.some.inj hv ▸ .text h
  | fromPayload v =>
    refine keepsNodes_source
      (survives_source (show List.Nodup [("payload" : Text), "uri"] by decide) fun v hv => ?_)
    exact Option.some.inj hv ▸ .text (Text.valid_of_ascii (by decide))
  | fromItems vs =>
    refine keepsNodes_source
      (survives_source (show List.Nodup [("data" : Text), "uri"] by decide) fun v hv => ?_)
    exact Option.some.inj hv ▸ .text (Text.valid_of_ascii (by decide))
  | bind o ref =>
    refine keepsNodes_nested h (fun o ho => keepsNodes_leaf ho) (fun op a b hop ha hb id p => ⟨?_, ?_⟩) ref
    · rcases hop with rfl | rfl <;> rfl
    · exact Operator.lasting_composite hop ha.enduring hb.enduring id p
  | combineWith op a b =>
    refine keepsNodes_combineWith (fun hop id p q => ?_) a b
    refine ⟨?_, lasting_bare id op [p, q]⟩
    rcases hop with rfl | rfl | rfl <;> rfl

/-- What is drawn from a supply of valid texts makes valid identifiers. -/
theorem valid_ids {supply : Nat → List Text} (hfresh : Function.Injective fun k => Text.concat (supply k))
    (hvalid : ∀ k, (Text.concat (supply k)).Valid) (actions : List Action) (k : Nat) :
    ∀ n ∈ ((run { supply } actions).graphAt k).nodes, n.id.Valid ∧ ∀ p ∈ n.parents, p.Valid := by
  have hs := sound_run hfresh actions
  have hid : ∀ id ∈ ((run { supply } actions).graphAt k).ids, id.Valid := by
    intro id hid
    obtain ⟨n, hn, rfl⟩ := Graph.exists_node_of_mem_ids hid
    obtain ⟨i, heq⟩ := exists_id_eq hfresh hn
    exact heq ▸ hvalid i
  intro n hn
  refine ⟨hid _ (Graph.mem_ids_of_mem hn), fun p hp => hid p ?_⟩
  exact (hs.ordered k).mem_of_reads (Graph.mem_ids_of_mem hn) ((Graph.reads_iff hn).mpr hp)

theorem valid_identifier (k : Nat) : (Text.concat (identifier k)).Valid :=
  Text.valid_of_ascii (hexadecimal_identifier k).ascii

/-- **Graphs compile alike before and after.**  Take any graph that streams have built, with UTF-8 identifiers,
from operators with valid texts and exact numbers, none in a branch with a setting `steps` that is written as
a list.  If the graph has a document, one within the depth of readers and with numbers in range, a graph is
read back from its text, and it compiles to every kind of text with the same outcome. -/
theorem compile_replayed (supply : Nat → List Text)
    (hfresh : Function.Injective fun k => Text.concat (supply k))
    (hvalid : ∀ k, (Text.concat (supply k)).Valid) (actions : List Action)
    (hactions : ∀ a ∈ actions, a.Portable) (g : Graph) (hg : g ∈ (run { supply } actions).graphs) (j : Json)
    (hj : g.toJson? = .ok (some j)) (hdepth : j.depth ≤ Json.maxDepth)
    (hrange : ∀ t ∈ j.numerals, ∃ x, readFloat t = .ok x) :
    ∃ g', Graph.ofText j.print = .ok g' ∧ ∀ lib, ∀ t ∈ Target.textual, ∀ w,
      (t.compile lib g w).outcome = (t.compile lib g' w).outcome := by
  have hs := sound_run hfresh actions
  obtain ⟨k, rfl⟩ := exists_graphAt hg
  have hord := hs.ordered k
  have hall : (run { supply } actions).AllNodes Survives :=
    AllNodes.run (s := { supply }) (by intro g hg; cases hg) fun a ha => keepsNodes_portable (hactions a ha)
  obtain ⟨g', hg', -, halong⟩ :=
    Graph.exists_ofText hj (fun n hn => (hall.graphAt k n hn).declared)
      (valid_ids hfresh hvalid actions k) hdepth (Json.inRange_displayed j hrange)
  have hresembles : ((run { supply } actions).graphAt k).Alongside Node.Resembles g' :=
    ((forall₂_and_left _ _).mpr ⟨hall.graphAt k, halong⟩).imp fun n n' hn =>
      ⟨hn.2.id, hn.2.parents, hn.1.lasting n' hn.2⟩
  exact ⟨g', hg', fun lib t ht w => hresembles.textual_outcome_eq hord lib ht w⟩

/-! ### Two programs -/

/-- What a graph is written as, by depth and numbers. -/
theorem exists_document {g : Graph} {depth : Nat} {numerals : List Text}
    (h : (match g.toJson? with | .ok (some j) => some (j.depth, j.numerals) | _ => none) =
      some (depth, numerals)) :
    ∃ j, g.toJson? = .ok (some j) ∧ j.depth = depth ∧ j.numerals = numerals := by
  split at h
  · next j hj =>
    cases h
    exact ⟨j, hj, rfl, rfl⟩
  · cases h

/-- What holds of the graph that is read back, by evaluation. -/
theorem eq_of_document {α : Type} {g g' : Graph} {j : Json} (hj : g.toJson? = .ok (some j))
    (hg' : Graph.ofDocument j.displayed = .ok g') {f : Graph → α} {a : α} (h : (match g.toJson? with
      | .ok (some j) => (Graph.ofDocument j.displayed).toOption.map f
      | _ => none) = some a) : f g' = a := by
  rw [hj] at h
  replace h : (Graph.ofDocument j.displayed).toOption.map f = some a := h
  rw [hg'] at h
  exact Option.some.inj h

/-- A choice between an indicator and a chain, joined with its own input. -/
def revisited : List Action :=
  [.fromUri "a",
   .bind (.choice (.custom "SMA" [("field", .text "close"), ("window", .int 3)])
    (.chain (.window 2) [.map ⟨"f", "x + 1", none⟩])) 0,
   .bind (.join (some 0) "k") 1, .bind (.sink "out") 2]

theorem compile_replayed_revisited :
    (∀ a ∈ revisited, a.Portable) ∧
      ∃ j g', ((run {} revisited).graphAt 0).toJson? = .ok (some j) ∧ j.depth = 9 ∧
        j.numerals = [("3" : Text), "2"] ∧ Graph.ofText j.print = .ok g' ∧ ∀ lib, ∀ t ∈ Target.textual, ∀ w,
          (t.compile lib ((run {} revisited).graphAt 0) w).outcome = (t.compile lib g' w).outcome := by
  have hparams : Row.Portable [("field", .text "close"), ("window", .int 3)] := by
    refine ⟨Fields.ascending_iff.mpr (show List.Pairwise _ [("field" : Text), "window"] by decide), ?_, ?_⟩
    · rw [forall_mem_cons, forall_mem_singleton]
      exact ⟨fun _ => .text (Text.valid_of_ascii (by decide)), fun h => absurd h (by decide)⟩
    · rw [forall_mem_cons, forall_mem_singleton]
      exact ⟨fun h => absurd h (by decide), fun _ => .int (by decide)⟩
  have hactions : ∀ a ∈ revisited, a.Portable := by
    have hvalid {t : Text} (h : t.Ascii) : t.Valid := Text.valid_of_ascii h
    simp only [revisited, forall_mem_cons, Action.Portable, not_mem_nil, false_imp_iff, implies_true,
      and_true]
    refine ⟨hvalid (by decide), .choice (.leaf ⟨.custom (hvalid (by decide)) hparams, nofun⟩) ?_,
      .leaf (.join _ (hvalid (by decide))), .leaf (.sink (hvalid (by decide)))⟩
    refine .chain (.leaf ⟨.window (by decide), nofun⟩) (forall_mem_singleton.mpr (.leaf ⟨?_, nofun⟩))
    exact .map (hvalid (by decide)) (hvalid (by decide))
  obtain ⟨j, hj, hdepth, hnumerals⟩ : ∃ j, ((run {} revisited).graphAt 0).toJson? = .ok (some j) ∧
      j.depth = 9 ∧ j.numerals = [("3" : Text), "2"] := exists_document (by cbv)
  have hrange : ∀ t ∈ j.numerals, ∃ x, readFloat t = .ok x := by
    rw [hnumerals, forall_mem_cons, forall_mem_singleton]
    exact ⟨⟨_, readFloat_ofInt (i := 3) (by decide)⟩, ⟨_, readFloat_ofInt (i := 2) (by decide)⟩⟩
  obtain ⟨g', hg', houtcome⟩ := compile_replayed identifier identifier_injective valid_identifier
    revisited hactions _ (mem_graphs_of_length (by cbv)) j hj (by rw [hdepth]; decide) hrange
  exact ⟨hactions, j, g', hj, hdepth, hnumerals, hg', houtcome⟩

/-- A choice with a custom operator that has an empty sequence of rows under `steps`. -/
def mistaken : List Action :=
  [.fromUri "a", .bind (.choice (.custom "k" [("steps", .rows [])]) (.sink "b")) 0]

/-- The backend that writes scripts, with steps to a depth. -/
abbrev scripts (k : Nat) : Backend Program :=
  Backend.along (Node.stepTo k) (Script.backendName .sql) (fun n inputs => Effect.ofOutcome
    ((Script.ofNode .sql n inputs).mapFailure fun f => f.atNode (Script.backendName .sql) n.id))
    (Script.explain .sql)

/-- The empty list that is read back is taken for a chain of no operators, so that one statement is gone. -/
theorem mistaken_loses_statement :
    ∃ j g', ((run {} mistaken).graphAt 0).toJson? = .ok (some j) ∧ Graph.ofText j.print = .ok g' ∧
      ((Script.backend .sql).compile ((run {} mistaken).graphAt 0) {}).1.toOption.map
        (List.map fun e => e.2.statements.length) = some [4] ∧
      ((Script.backend .sql).compile g' {}).1.toOption.map
        (List.map fun e => e.2.statements.length) = some [3] := by
  have hord := (sound_run identifier_injective mistaken).ordered 0
  have hops : ((run {} mistaken).graphAt 0).nodes.all (·.op.isDeclared) := by cbv
  obtain ⟨j, hj, hdepth, hnumerals⟩ : ∃ j, ((run {} mistaken).graphAt 0).toJson? = .ok (some j) ∧
      j.depth = 7 ∧ j.numerals = [] := exists_document (by cbv)
  have hdepth : j.depth ≤ Json.maxDepth := by rw [hdepth]; decide
  obtain ⟨g', hg', -, halong⟩ := Graph.exists_ofText hj (all_eq_true.mp hops)
    (valid_ids identifier_injective valid_identifier mistaken 0) hdepth
    (Json.inRange_displayed j (hnumerals ▸ forall_mem_nil _))
  have hread := eq_of_document hj ((Graph.ofText_print hj hdepth).symm.trans hg')
    (f := fun g => (g.nodes.all (Node.shallow 1), ((scripts 1).compile g {}).1.toOption.map
      (map fun e => e.2.statements.length))) (a := (true, some [3]))
    (by set_option maxRecDepth 20000 in cbv)
  obtain ⟨hshallow, hstatements⟩ := Prod.ext_iff.mp hread
  refine ⟨j, g', hj, hg', ?_, ?_⟩
  · rw [show ((Script.backend .sql).compile ((run {} mistaken).graphAt 0) {}).1 = _ from
      Backend.compile_along (fun _ _ => Effect.settled_ofOutcome _) hord (k := 1)
        (by set_option maxRecDepth 20000 in cbv) {}]
    set_option maxRecDepth 20000 in cbv
  · rw [show ((Script.backend .sql).compile g' {}).1 = _ from
      Backend.compile_along (fun _ _ => Effect.settled_ofOutcome _) (halong.ordered hord) hshallow {}]
    exact hstatements

end Session

end Dataflow
