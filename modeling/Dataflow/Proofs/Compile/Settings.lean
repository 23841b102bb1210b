import Dataflow.Proofs.Compile.Alike
import Dataflow.Proofs.Outline
import Dataflow.Target

/-!
# What backends read of a node

The backends that write texts read few settings of a node, some as text, some as numbers, and the symbolic
form of its function.  Nodes that `Agree` in these are lowered alike by all of them, and so are nodes whose
steps agree node by node (`Node.Resembles`).  Hence graphs of such nodes compile alike
(`Graph.Alongside.compile_eq`).
-/

namespace Dataflow

open Drawing

/-- The settings that are read as they are, by tag. -/
def Op.settings : Op → List Text
  | .source | .sink => ["uri"]
  | .map | .filter | .reduce => ["fn_name", "predicate_sql"]
  | .join => ["on"]
  | .custom => ["kind"]
  | _ => []

/-- The nodes have the same place, and backends that write texts read the same of them. -/
structure Node.Agrees (n n' : Node) : Prop where
  id : n.id = n'.id
  op : n.op = n'.op
  parents : n.parents = n'.parents
  value : ∀ key ∈ n.op.settings, n.value? key = n'.value? key
  expr : n.op = .map ∨ n.op = .filter ∨ n.op = .reduce → n.expr = n'.expr
  size : n.op = .window → ∀ default, n.int "size" default = n'.int "size" default
  params : n.op = .custom → ∀ k : Indicator, k.params n.config = k.params n'.config

theorem Node.text_congr {n n' : Node} {key : Text} (h : n.value? key = n'.value? key) (default : Text) :
    n.text key default = n'.text key default := by
  rw [Node.text, Node.text, Node.setting?, Node.setting?, h]

namespace Node.Agrees

variable {n n' : Node} (h : n.Agrees n')

include h

theorem text {op : Op} (hop : n.op = op) (key : Text) (hkey : key ∈ op.settings) (default : Text) :
    n.text key default = n'.text key default := text_congr (h.value key (hop ▸ hkey)) default

theorem kind (hop : n.op = .custom) : n.kind = n'.kind := by
  rw [Node.kind, Node.kind, ← h.op, if_pos hop, if_pos hop, h.text hop "kind" (by decide)]

theorem outline (inputs : List Text) : Outline.ofNode n inputs = Outline.ofNode n' inputs := by
  unfold Outline.ofNode
  rw [← h.op]
  cases hop : n.op with
  | source | sink => simp only [h.text hop "uri" (by decide)]
  | map | filter | reduce => simp only [h.text hop "fn_name" (by decide)]
  | window => simp only [h.size hop]
  | join => simp only [h.text hop "on" (by decide)]
  | custom => simp only [h.text hop "kind" (by decide)]
  | _ => rfl

theorem drawing (inputs : List Drawing) : ofNode n inputs = ofNode n' inputs := by
  have hdetail : detail n = detail n' := by
    unfold detail
    rw [← h.op]
    cases hop : n.op with
    | source | sink => simp only [h.text hop "uri" (by decide)]
    | map | filter | reduce => simp only [h.text hop "fn_name" (by decide)]
    | window => simp only [h.size hop]
    | join => simp only [h.text hop "on" (by decide)]
    | custom => simp only [h.kind hop]
    | _ => rfl
  have hstatement : statement n = statement n' := by
    rw [statement, statement, label, label, hdetail, h.id, h.op]
  rw [ofNode, ofNode, hstatement, h.id, h.parents]

theorem variableOf : Script.variableOf n = Script.variableOf n' := by
  rw [Script.variableOf, Script.variableOf, Node.ident, Node.ident, h.id]

theorem kernel (d : KernelDialect) (inputs : List Program) :
    Kernel.ofNode d n inputs = Kernel.ofNode d n' inputs := by
  unfold Kernel.ofNode
  rw [← h.op, ← h.id]
  cases hop : n.op with
  | source => simp only [h.text hop "uri" (by decide), h.variableOf]
  | map => simp only [h.text hop "fn_name" (by decide), h.expr (.inl hop)]
  | sink => simp only [h.text hop "uri" (by decide)]
  | _ => rfl

theorem script (d : Dialect) (inputs : List Program) :
    Script.ofNode d n inputs = Script.ofNode d n' inputs := by
  unfold Script.ofNode
  rw [← h.op, ← h.id, h.variableOf]
  cases hop : n.op with
  | source | sink => simp only [h.text hop "uri" (by decide)]
  | map => simp only [h.text hop "fn_name" (by decide), h.expr (.inl hop)]
  | filter => simp only [h.text hop "predicate_sql" (by decide), h.expr (.inr (.inl hop))]
  | reduce => simp only [h.expr (.inr (.inr hop))]
  | join => simp only [h.text hop "on" (by decide)]
  | custom => simp only [Script.indicatorOf, h.kind hop, h.params hop]
  | _ => rfl

end Node.Agrees

/-- The same identifier and tag. -/
def Node.Named (n n' : Node) : Prop := n.id = n'.id ∧ n.op = n'.op

/-- The nodes agree, and so do the nodes of their branches. -/
structure Node.Resembles (n n' : Node) : Prop where
  agrees : n.Agrees n'
  step : Step.Rel Node.Agrees Node.Named n.step n'.step

/-- Lowers nodes that resemble each other alike. -/
def Backend.Insensitive {α : Type} (b : Backend α) : Prop :=
  ∀ n n', n.Resembles n' → ∀ xs, b.lower n xs = b.lower n' xs

theorem Outline.insensitive_backend : Outline.backend.Insensitive := fun _ _ h xs =>
  lower_rel (fun _ _ h => h.outline) (fun _ _ h => h.2) h.step xs

theorem Drawing.insensitive_backend : backend.Insensitive := fun _ _ h xs =>
  congrArg Effect.ofOutcome (h.agrees.drawing xs)

theorem Kernel.insensitive_backend (d : KernelDialect) : (Kernel.backend d).Insensitive := fun _ _ h xs =>
  congrArg Effect.ofOutcome (h.agrees.kernel d xs)

theorem Backend.joint_congr {n n' : Node} (h : n.Named n') : joint n = joint n' := by
  rw [joint, joint, h.1, h.2]

/-- A backend with branches lowers alike the nodes whose plain ones it lowers alike. -/
theorem Backend.insensitive_branching {α : Type} {name : Text} {lower : Node → List α → Effect α}
    {explain : Node → Stop → Stop} (hlower : ∀ n n', n.Agrees n' → ∀ xs, lower n xs = lower n' xs)
    (hexplain : ∀ n n' s, n.Named n' → explain n s = explain n' s) :
    (branching name lower explain).Insensitive := by
  have hcongruent : Congruent Node.Agrees Node.Named Eq Eq lower lower explain :=
    { pure := fun h => by rw [h]
      throw := fun s h => by rw [hexplain _ _ s h]
      bind := by
        rintro x _ f g rfl hfg
        exact bind_congr fun a => hfg a a rfl
      plain := by
        intro n n' xs ys h hxy
        rw [List.forall₂_eq_eq_eq] at hxy
        rw [hlower n n' h, hxy]
      joint := by
        intro n n' h
        rw [joint_congr h]
        exact ⟨rfl, rfl, rfl, fun _ _ => rfl, fun _ => rfl, fun _ _ => rfl, fun _ _ => rfl⟩ }
  intro n n' h xs
  exact hcongruent.along h.agrees h.step (List.forall₂_same.mpr fun _ _ => rfl)

theorem Script.insensitive_backend (d : Dialect) : (Script.backend d).Insensitive := by
  refine Backend.insensitive_branching (fun n n' h xs => ?_) fun n n' s h => ?_
  · rw [h.script d xs, h.id]
  · cases s with
    | failure f => rw [explain, explain, h.1]
    | crash => rfl

/-! ### Compiling -/

/-- Graphs of nodes that resemble each other compile alike. -/
theorem Graph.Alongside.compile_eq {α : Type} {b : Backend α} {g g' : Graph}
    (h : g.Alongside Node.Resembles g') (hb : b.Settled) (hi : b.Insensitive) (hord : g.Ordered)
    (w : Workspace) : (b.compile g w).1 = (b.compile g' w).1 := by
  have hmatches : Matches Eq (Targetwise Eq) (b.compile g w).1 (b.compile g' w).1 := by
    refine h.matches_compile (fun _ => rfl) hb hb hord (fun n n' hn => by rw [hn.agrees.op]) w ?_
    intro n n' hn xs ys hxy
    obtain rfl : xs = ys := List.forall₂_eq_eq_eq ▸ hxy
    have hreported : b.reported w.cancelled n xs = b.reported w.cancelled n' xs := by
      rw [Backend.reported, Backend.reported, hi n n' hn xs, hn.agrees.id]
    rw [hreported]
    exact .refl (fun _ => rfl) _
  exact (hmatches.mono fun ts ts' => Targetwise.eq).eq

def Target.textual : List Target :=
  [.outline, .drawing, .script .sql, .script .dolphindb, .kernel .triton, .kernel .cuda]

theorem Graph.Alongside.textual_outcome_eq {g g' : Graph} (h : g.Alongside Node.Resembles g')
    (hord : g.Ordered) (lib : Library) {t : Target} (ht : t ∈ Target.textual) (w : Workspace) :
    (t.compile lib g w).outcome = (t.compile lib g' w).outcome := by
  have hcompiled {α : Type} {b : Backend α} (hb : b.Settled) (hi : b.Insensitive) (wrap : α → Artifact) :
      (b.compiled wrap g w).outcome = (b.compiled wrap g' w).outcome := by
    show (b.compile g w).1.map _ = (b.compile g' w).1.map _
    rw [h.compile_eq hb hi hord w]
  have hscript (d : Dialect) : ((Target.script d).compile lib g w).outcome =
      ((Target.script d).compile lib g' w).outcome :=
    hcompiled (Backend.settled_along (fun _ _ => Effect.settled_ofOutcome _) Node.step)
      (Script.insensitive_backend d) .program
  have hkernel (d : KernelDialect) : ((Target.kernel d).compile lib g w).outcome =
      ((Target.kernel d).compile lib g' w).outcome :=
    hcompiled (fun _ _ => Effect.settled_ofOutcome _) (Kernel.insensitive_backend d) .program
  simp only [Target.textual, List.mem_cons, List.not_mem_nil, or_false] at ht
  rcases ht with rfl | rfl | rfl | rfl | rfl | rfl
  · exact hcompiled Outline.composing_backend.settled Outline.insensitive_backend .text
  · exact hcompiled (fun _ _ => Effect.settled_ofOutcome _) insensitive_backend .drawing
  · exact hscript .sql
  · exact hscript .dolphindb
  · exact hkernel .triton
  · exact hkernel .cuda

end Dataflow
