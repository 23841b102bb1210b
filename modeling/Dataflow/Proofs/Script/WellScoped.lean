import Dataflow.Proofs.Compile.Alike
import Dataflow.Proofs.Compile.Targets
import Dataflow.Proofs.Script.Scope
import Dataflow.Proofs.Session.Composition
import Dataflow.Proofs.Session.Order

/-!
# Scripts of whole graphs

Compiling a graph to listings keeps all listings of the memo in scope together (`Healthy`): an owner has
one statement, wherever it stands, since the identifiers of nodes have no colon and those of branch nodes
come from them by a colon.

Main statement (`compile_wellScoped`): the script of every target of a graph that streams have built, and
the script that merges them all, is well scoped.
-/

namespace Dataflow

open List

variable {ls : List (Text × Listing)} {o : Operator}

namespace Text

variable {t : Text}

theorem Hexadecimal.colonless (h : t.Hexadecimal) : t.Colonless := fun hmem =>
  absurd (h _ hmem) (by decide)

theorem Hexadecimal.ne_none (h : t.Hexadecimal) : t ≠ "none" := by
  rintro rfl
  exact absurd h (by decide)

end Text

namespace Script

namespace Listing

/-- The rules of a script: no two statements have one owner or define one variable, every statement reads
variables that earlier statements define, no input is missing, and the result is defined. -/
structure WellScoped (l : Listing) : Prop where
  owners : (l.statements.map Prod.fst).Nodup
  definitions : (defined l.statements).Nodup
  reads : Scoped l.statements
  supplied : ∀ s ∈ l.statements, ∀ v ∈ s.2.reads, v ≠ "t_none"
  result : l.result ∈ defined l.statements

theorem Good.wellScoped {l : Listing} (h : l.Good) (hnone : ∀ s ∈ l.statements, s.1 ≠ "none") :
    l.WellScoped where
  owners := h.owners
  definitions := nodup_defined h.owners
  reads := h.reads
  result := h.result
  supplied := by
    rintro s hs v hv rfl
    obtain ⟨before, after, hsplit⟩ := append_of_mem hs
    obtain ⟨t, ht, -, heq⟩ := mem_defined.mp (h.reads before s after hsplit _ hv)
    have hplaceholder : variableAt "none" = "t_none" := by decide
    exact hnone t (by simp [hsplit, ht]) (variableAt_injective (heq.trans hplaceholder.symm))

/-! ### The memo of a walk -/

/-- All listings of a memo are in scope, and an owner has one statement in all of them. -/
structure Healthy (memo : List (Text × Listing)) : Prop where
  good : ∀ e ∈ memo, e.2.Good
  owned : ∀ e ∈ memo, ∀ s ∈ e.2.statements, ∃ id ∈ memo.map Prod.fst, id.Under s.1
  agree : Agreeing fun s => ∃ e ∈ memo, s ∈ e.2.statements

variable {d : Dialect} {g : Graph} {memo : List (Text × Listing)}

theorem Healthy.concat (h : Healthy memo) {id : Text} {inputs : List Listing} {y : Listing}
    (hinputs : ∀ x ∈ inputs, ∃ p, (p, x) ∈ memo)
    (hfree : ∀ e ∈ memo, ∀ s ∈ e.2.statements, ¬ id.Under s.1) (hy : Adds inputs id y) :
    Healthy (memo ++ [(id, y)]) := by
  -- a statement of the new listing is an old one or belongs to the new node
  have hold : ∀ s ∈ y.statements, (∃ e ∈ memo, s ∈ e.2.statements) ∨ id.Under s.1 := by
    intro s hs
    rcases hy.only s hs with ⟨x, hx, hs⟩ | hunder
    · obtain ⟨p, hp⟩ := hinputs x hx
      exact .inl ⟨(p, x), hp, hs⟩
    · exact .inr hunder
  refine ⟨?_, ?_, ?_⟩
  · rw [forall_mem_append, forall_mem_singleton]
    exact ⟨h.good, hy.good⟩
  · have hmono : ∀ e ∈ memo, ∀ s ∈ e.2.statements,
        ∃ i ∈ (memo ++ [(id, y)]).map Prod.fst, i.Under s.1 := by
      intro e he s hs
      obtain ⟨i, hi, hunder⟩ := h.owned e he s hs
      exact ⟨i, by simp_all, hunder⟩
    rw [forall_mem_append, forall_mem_singleton]
    refine ⟨hmono, fun s hs => ?_⟩
    rcases hold s hs with ⟨e, he, hs⟩ | hunder
    · exact hmono e he s hs
    · exact ⟨id, by simp, hunder⟩
  · simp only [mem_append, mem_singleton, or_and_right, exists_or, exists_eq_left]
    refine h.agree.or (agreeing_mem hy.good.owners) fun s t hs ht heq => ?_
    rcases hold t ht with ht | hunder
    · exact h.agree s t hs ht heq
    · obtain ⟨e, he, hs⟩ := hs
      exact absurd (heq ▸ hunder) (hfree e he s hs)

section

variable (hg : ∀ n ∈ g.nodes, Grounded n ∧ n.id.Hexadecimal) (h : (backend d).Lowered g memo)

include hg h

theorem hexadecimal_of_mem {id : Text} (hid : id ∈ memo.map Prod.fst) : id.Hexadecimal := by
  obtain ⟨n, hn, rfl⟩ := Graph.exists_node_of_mem_ids (h.schedule.subset_ids hid)
  exact (hg n hn).2

/-- Whatever is lowered keeps the memo in scope. -/
theorem healthy_of_lowered : Healthy memo := by
  induction h with
  | nil => exact ⟨by simp, by simp, by simp [Agreeing]⟩
  | @concat memo n inputs y w w' h hn _ hnew hinputs hy ih =>
    obtain ⟨hgrounded, hhex⟩ := hg n hn
    have hmem : ∀ x ∈ inputs, ∃ p, (p, x) ∈ memo := fun x hx => by
      obtain ⟨p, -, hp⟩ := exists_mem_of_forall₂ hinputs.flip hx
      exact ⟨p, hp⟩
    have hfree : ∀ e ∈ memo, ∀ s ∈ e.2.statements, ¬ n.id.Under s.1 := by
      intro e he s hs hunder
      obtain ⟨id, hid, hunder'⟩ := ih.owned e he s hs
      have hcolonless := (hexadecimal_of_mem hg h hid).colonless
      exact hnew (Text.eq_of_under hhex.colonless hcolonless hunder hunder' ▸ hid)
    refine ih.concat hmem hfree (hgrounded.adds ih.agree ?_ ?_ ?_ hinputs.length_eq.symm ⟨w, w', hy⟩)
    · intro x hx s hs
      obtain ⟨p, hp⟩ := hmem x hx
      exact ⟨(p, x), hp, hs⟩
    · intro x hx
      obtain ⟨p, hp⟩ := hmem x hx
      exact ih.good _ hp
    · intro x hx s hs
      obtain ⟨p, hp⟩ := hmem x hx
      exact hfree _ hp s hs

/-- No owner in a memo is called as the placeholder of a missing input. -/
theorem owner_ne_none
    {e : Text × Listing} (he : e ∈ memo) {s : Text × Clause} (hs : s ∈ e.2.statements) : s.1 ≠ "none" := by
  intro hnone
  obtain ⟨id, hid, hunder⟩ := (healthy_of_lowered hg h).owned e he s hs
  have hhex := hexadecimal_of_mem hg h hid
  exact hhex.ne_none (Text.eq_of_under hhex.colonless (by decide) hunder (hnone ▸ Text.under_refl _))

end

/-- An ordered graph that compiles has a target. -/
theorem targets_ne_nil {b : Backend Listing} (hord : g.Ordered) {w : Workspace}
    (h : (b.compile g w).1 = .ok ls) : g.targets ≠ [] := by
  intro htargets
  have hne : g.nodes ≠ [] := by
    intro hempty
    rw [Backend.compile_fst, Backend.artifacts, if_pos (by simpa using hempty)] at h
    cases h
  obtain ⟨id, hid, hcycle⟩ := Graph.exists_cycle hne fun n hn => by
    by_contra hunread
    exact Graph.targets_eq_nil_iff.mp htargets ⟨n, hn, .inr fun m hm hp => hunread ⟨m, hm, hp⟩⟩
  exact hord.not_cyclic hid hcycle

/-- The listings of all targets, and the one that merges them, are well scoped. -/
theorem wellScoped_compile (hord : g.Ordered) (hg : ∀ n ∈ g.nodes, Grounded n ∧ n.id.Hexadecimal)
    {w : Workspace} (h : ((backend d).compile g w).1 = .ok ls) :
    (∀ e ∈ ls, e.2.WellScoped) ∧ (merge (ls.map Prod.snd)).WellScoped := by
  have htargets := targets_ne_nil hord h
  obtain ⟨hids, memo, hlowered, hmem⟩ := Backend.exists_lowered_of_compile h
  have hhealthy := healthy_of_lowered hg hlowered
  have hS : ∀ l ∈ ls.map Prod.snd, ∀ s ∈ l.statements, ∃ e ∈ memo, s ∈ e.2.statements :=
    forall_mem_map.mpr fun e he s hs => ⟨e, hmem e he, hs⟩
  have hgood : ∀ l ∈ ls.map Prod.snd, l.Good := forall_mem_map.mpr fun e he => hhealthy.good e (hmem e he)
  refine ⟨fun e he => ?_, ?_⟩
  · exact (hhealthy.good e (hmem e he)).wellScoped fun s hs => owner_ne_none hg hlowered (hmem e he) hs
  · have hne : ls.map Prod.snd ≠ [] := by
      intro hnil
      obtain rfl := map_eq_nil_iff.mp hnil
      exact htargets (map_eq_nil_iff.mp hids.symm)
    refine (good_merge hne hhealthy.agree hS hgood).wellScoped fun s hs => ?_
    obtain ⟨l, hl, hs⟩ := (merged_merge hhealthy.agree hS hgood).only s hs
    obtain ⟨e, he, rfl⟩ := mem_map.mp hl
    exact owner_ne_none hg hlowered (hmem e he) hs

end Listing

end Script

/-! ### The nodes of a program -/

namespace Operator

/-- A stage or a sink. -/
inductive Unary : Operator → Prop
  | stage {o : Operator} (h : Stage o) : Unary o
  | sink (uri : Text) : Unary (sink uri)

/-- An operator of the algebra without joins and unions inside choices and ensembles. -/
abbrev Scriptable (o : Operator) : Prop := Nested Basic Unary o

open Script.Listing (Grounded)

/-- The operator can stand in a branch: it is rebuilt from its description as a node that has the inputs
it takes. -/
structure Rooted (o : Operator) : Prop where
  declared : o.op.isDeclared
  plain : stepsOf? o.config = none
  grounded : ∀ id p, Grounded { id, op := o.op, config := o.config, parents := [p] }

theorem Stage.rooted (h : Stage o) : o.Rooted := by
  cases h with
  | map f | filter f | reduce f init =>
    exact ⟨rfl, stepsOf?_withExpr _ _, fun id p => .plain rfl (Nat.le_refl 1)⟩
  | window size => exact ⟨rfl, rfl, fun id p => .plain rfl (Nat.le_refl 1)⟩
  | custom kind h => exact ⟨rfl, stepsOf?_custom h, fun id p => .plain rfl (Nat.le_refl 1)⟩

/-- The branches of a choice or an ensemble of rooted operators are rebuilt, so that it is grounded. -/
theorem grounded_composite {op : Op} (hop : op = .choice ∨ op = .ensemble) {a b : Operator}
    (ha : ∀ l ∈ a.leaves, l.Rooted) (hb : ∀ l ∈ b.leaves, l.Rooted) (id p : Text) :
    Grounded (composite op a b id p) := by
  obtain ⟨left, right, hbranches, hrec⟩ := recovers_of_stepless (fun l hl => (ha l hl).declared)
    (fun l hl => (hb l hl).declared) (fun l hl => (ha l hl).plain) (fun l hl => (hb l hl).plain) op id p
  refine .composite (isComposite hop a b id p) fun left' right' hbranches' m hm => ?_
  rw [hbranches] at hbranches'
  cases hbranches'
  rcases hm with hm | hm
  · obtain ⟨l, hl, q, heq⟩ := hrec.first.exists_leaf hm
    exact heq ▸ (ha l hl).grounded m.id q
  · obtain ⟨l, hl, q, heq⟩ := hrec.second.exists_leaf hm
    exact heq ▸ (hb l hl).grounded m.id q

theorem Formed.rooted (h : Formed Unary o) : ∀ l ∈ o.leaves, l.Rooted := by
  refine h.forall_leaves (fun o ho => ?_) fun op a b hop _ _ ha hb => ?_
  · cases ho with
    | stage h =>
      rw [h.leaves_eq]
      exact forall_mem_singleton.mpr h.rooted
    | sink uri =>
      exact forall_mem_singleton.mpr ⟨rfl, rfl, fun id p => .plain rfl (Nat.le_refl 1)⟩
  · refine ⟨?_, rfl, grounded_composite hop ha hb⟩
    rcases hop with rfl | rfl <;> rfl

end Operator

namespace Session

open Operator (Scriptable)
open Script.Listing (Grounded)

theorem keepsNodes_basic (h : o.Basic) (ref : Nat) :
    KeepsNodes Grounded (Session.bind o ref) := by
  cases h with
  | join other on =>
    exact keepsNodes_combine (fun id p ps hps => .plain rfl (congrArg Nat.succ hps).ge) ref
  | union others => exact keepsNodes_combine (fun id p ps hps => .plain rfl (Nat.zero_le _)) ref
  | _ => exact keepsNodes_extend (fun id p => .plain rfl (Nat.le_refl 1)) ref

theorem keepsNodes_scriptable {a : Action} (h : a.Binds Scriptable) : KeepsNodes Grounded (perform a) := by
  cases a with
  | fromUri uri | fromPayload v | fromItems vs =>
    exact keepsNodes_source fun id => .plain rfl (Nat.zero_le _)
  | bind o ref =>
    exact keepsNodes_nested h (fun o ho => keepsNodes_basic ho)
      (fun op a b hop ha hb => Operator.grounded_composite hop ha.rooted hb.rooted) ref
  | combineWith op a b =>
    refine keepsNodes_combineWith (fun hop id p q => ?_) a b
    rcases hop with rfl | rfl | rfl
    · exact .plain rfl (Nat.le_refl 2)
    · exact .plain rfl (Nat.le_refl 2)
    · exact .plain rfl (Nat.zero_le 2)

end Session

namespace Script

open Session (run)

/-- **Scripts are well scoped.**  Take any graph that streams have built, with hexadecimal identifiers, and
with no join, no union and no custom operator with a list under `steps` inside a choice or an ensemble.
Where it compiles to scripts, in either dialect, the script of each target is a listing of clauses as
written in the dialect, and so is what merges them; and these listings are well scoped. -/
theorem compile_wellScoped (supply : Nat → List Text)
    (hfresh : Function.Injective fun k => Text.concat (supply k))
    (hhex : ∀ k, (Text.concat (supply k)).Hexadecimal) (actions : List Session.Action)
    (hactions : ∀ a ∈ actions, a.Binds Operator.Scriptable) (g : Graph)
    (hg : g ∈ (run { supply } actions).graphs) (d : Dialect) (w : Workspace) (ps : List (Text × Program))
    (h : ((backend d).compile g w).1 = .ok ps) :
    ∃ ls : List (Text × Listing), ((Listing.backend d).compile g w).1 = .ok ls ∧
      ps = ls.map (Prod.map id (Listing.program d)) ∧ (∀ e ∈ ls, e.2.WellScoped) ∧
      Program.merge (ps.map Prod.snd) = (Listing.merge (ls.map Prod.snd)).program d ∧
      (Listing.merge (ls.map Prod.snd)).WellScoped := by
  have hs := Session.sound_run hfresh actions
  obtain ⟨k, rfl⟩ := Session.exists_graphAt hg
  have hnodes : ∀ n ∈ ((run { supply } actions).graphAt k).nodes, Listing.Grounded n ∧ n.id.Hexadecimal := by
    intro n hn
    refine ⟨?_, ?_⟩
    · have hall : (run { supply } actions).AllNodes Listing.Grounded :=
        Session.AllNodes.run (s := { supply }) (by intro g hg; cases hg)
          fun a ha => Session.keepsNodes_scriptable (hactions a ha)
      exact hall.graphAt k n hn
    · obtain ⟨j, hid⟩ := Session.exists_id_eq hfresh hn
      exact hid ▸ hhex j
  rw [(Listing.corresponds_backend d).compile_eq] at h
  cases hls : ((Listing.backend d).compile ((run { supply } actions).graphAt k) w).1 with
  | error s =>
    rw [hls] at h
    cases h
  | ok ls =>
    rw [hls] at h
    cases h
    obtain ⟨htargets, hmerge⟩ := Listing.wellScoped_compile (hs.ordered k) hnodes hls
    refine ⟨ls, rfl, rfl, htargets, ?_, hmerge⟩
    rw [Listing.program_merge, List.map_map, List.map_map]
    rfl

/-! ### Two programs -/

/-- Compiling to listings with steps to a depth that the graph keeps. -/
theorem Listing.compile_along (d : Dialect) {g : Graph} (hord : g.Ordered) (k : Nat)
    (hg : g.nodes.all (Node.shallow k)) (w : Workspace) : ((Listing.backend d).compile g w).1 =
      ((Backend.along (Node.stepTo k) (backendName d) (fun n inputs => Effect.ofOutcome
        ((ofNode n inputs).mapFailure fun f => f.atNode (backendName d) n.id)) (explain d)).compile g w).1 :=
  Backend.compile_along (fun _ _ => Effect.settled_ofOutcome _) hord hg w

theorem exists_of_map_toOption {α β : Type} {x : Outcome α} {f : α → β} {b : β}
    (h : x.toOption.map f = some b) : ∃ a, x = .ok a ∧ f a = b := by
  cases x with
  | error s => cases h
  | ok a => exact ⟨a, rfl, Option.some.inj h⟩

/-- A choice of two operators, joined with its own input, and two sinks. -/
def tangled : List Session.Action :=
  [.fromUri "a",
   .bind (.choice (.chain (.window 2) [.sink "x"]) (.reduce ⟨"f", "sum(x)", none⟩ .null)) 0,
   .bind (.join (some 0) "k") 1, .bind (.sink "out") 2, .bind (.chain (.union [some 1]) [.sink "rest"]) 0]

theorem compile_wellScoped_tangled :
    (∀ k, (Text.concat (identifier k)).Hexadecimal) ∧
      (∀ a ∈ tangled, a.Binds Operator.Scriptable) ∧
      ∃ ps ls, ((backend .sql).compile ((run {} tangled).graphAt 0) {}).1 = .ok ps ∧
        ((Listing.backend .sql).compile ((run {} tangled).graphAt 0) {}).1 = .ok ls ∧
        ls.map (fun e => e.2.statements.length) = [7, 7] ∧
        ps = ls.map (Prod.map id (Listing.program .sql)) ∧ (∀ e ∈ ls, e.2.WellScoped) ∧
        Program.merge (ps.map Prod.snd) = (Listing.merge (ls.map Prod.snd)).program .sql ∧
        (Listing.merge (ls.map Prod.snd)).WellScoped := by
  have hbinds : ∀ a ∈ tangled, a.Binds Operator.Scriptable := by
    simp only [tangled, List.forall_mem_cons, Session.Action.Binds, true_and, List.not_mem_nil, false_imp_iff,
      implies_true, and_true]
    refine ⟨.choice ?_ (.leaf (.stage (.reduce _ _))), .leaf (.join _ _), .leaf (.sink _),
      .chain (.leaf (.union _)) (List.forall_mem_singleton.mpr (.leaf (.sink _)))⟩
    exact .chain (.leaf (.stage (.window 2))) (List.forall_mem_singleton.mpr (.leaf (.sink _)))
  have hord := (Session.sound_run identifier_injective tangled).ordered 0
  have hsizes : ((Listing.backend .sql).compile ((run {} tangled).graphAt 0) {}).1.toOption.map
      (List.map fun e => e.2.statements.length) = some [7, 7] := by
    rw [Listing.compile_along .sql hord 1 (by with_unfolding_all rfl)]
    decide +kernel
  obtain ⟨ls, hls, hlengths⟩ := exists_of_map_toOption hsizes
  have hps : ((backend .sql).compile ((run {} tangled).graphAt 0) {}).1 =
      .ok (ls.map (Prod.map id (Listing.program .sql))) := by
    rw [(Listing.corresponds_backend .sql).compile_eq, hls]
    rfl
  have hmem : (run {} tangled).graphAt 0 ∈ (run {} tangled).graphs := Session.mem_graphs_of_length rfl
  obtain ⟨ls', hls', hscoped⟩ := compile_wellScoped identifier identifier_injective hexadecimal_identifier
    tangled hbinds _ hmem .sql {} _ hps
  obtain rfl : ls = ls' := Except.ok.inj (hls.symm.trans hls')
  exact ⟨hexadecimal_identifier, hbinds, _, ls, hps, hls, hlengths, hscoped⟩

/-- A choice with a custom operator that has a list under `steps`. -/
def gapped : List Session.Action :=
  [.fromUri "a",
   .bind (.choice (.custom "k"
    [("steps", .list [.row [("config", .row [("on", .text "k")]), ("type", .text "Join")]])]) (.window 2)) 0]

/-- The list is taken for a chain with a join, which reads the placeholder of a missing input. -/
theorem gapped_reads_placeholder :
    ∃ ls : List (Text × Listing),
      ((backend .sql).compile ((run {} gapped).graphAt 0) {}).1 =
        .ok (ls.map (Prod.map id (Listing.program .sql))) ∧
      ((Listing.backend .sql).compile ((run {} gapped).graphAt 0) {}).1 = .ok ls ∧
      ∃ e ∈ ls, ∃ s ∈ e.2.statements, s.2.reads.any (· = "t_none") := by
  have hord := (Session.sound_run identifier_injective gapped).ordered 0
  have hreads : ((Listing.backend .sql).compile ((run {} gapped).graphAt 0) {}).1.toOption.map
      (List.any · fun e => e.2.statements.any fun s => s.2.reads.any (· = "t_none")) = some true := by
    rw [Listing.compile_along .sql hord 1 (by with_unfolding_all rfl)]
    with_unfolding_all rfl
  obtain ⟨ls, hls, hany⟩ := exists_of_map_toOption hreads
  refine ⟨ls, ?_, hls, ?_⟩
  · rw [(Listing.corresponds_backend .sql).compile_eq, hls]
    rfl
  · obtain ⟨e, he, hs⟩ := List.any_eq_true.mp hany
    obtain ⟨s, hs, hreads⟩ := List.any_eq_true.mp hs
    exact ⟨e, he, s, hs, hreads⟩

end Script

end Dataflow
