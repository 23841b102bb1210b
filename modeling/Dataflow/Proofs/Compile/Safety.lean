import Dataflow.Proofs.Graph.RoundTrip
import Dataflow.Proofs.Outline
import Dataflow.Target

/-!
# Compiling without a crash

The values that have no text are the references to nothing of types that write their values, and a backend
crashes when it asks one for its text; it also crashes when it calls on a reference to no function.
`Target.reads` lists the settings that a target reads, by tag, and what for (`Use`).  A node is clear of such
references (`Target.Clear`) if none stands under these settings and, where the target takes descriptions of
branches apart, none within the descriptions.

Clear nodes are lowered without a crash, whatever else their settings hold and whatever they read, and so a
graph of clear nodes is compiled to a result or a failure (`Target.safe_compile`).
-/

namespace Dataflow

open List Effect Target Value

variable {v : Value} {fs : Row} {key : Text} {g : Graph}

/-! ### Computations that do not crash -/

/-- A result that satisfies `Q`, or a failure. -/
def Outcome.Ends {α : Type} (Q : α → Prop) : Outcome α → Prop
  | .ok a => Q a
  | .error s => s ≠ .crash

/-- A result or a failure. -/
abbrev Outcome.Safe {α : Type} (x : Outcome α) : Prop := x.Ends fun _ => True

/-- The effect does not crash in any workspace. -/
def Effect.Safe {α : Type} (x : Effect α) : Prop := ∀ w, Runs x w (fun _ _ => True) fun s _ => s ≠ .crash

section Rules

variable {α β : Type}

namespace Outcome

variable {x : Outcome α} {f : α → Outcome β}

theorem Ends.bind {Q : α → Prop} {R : β → Prop} (hx : x.Ends Q)
    (hf : ∀ a, Q a → (f a).Ends R) : (x >>= f).Ends R := by
  cases x with
  | ok a => exact hf a hx
  | error s => exact hx

theorem Safe.bind (hx : x.Safe) (hf : ∀ a, (f a).Safe) : (x >>= f).Safe :=
  Ends.bind hx fun a _ => hf a

theorem safe_ofExcept (x : Except Failure α) : (ofExcept x).Safe := by
  cases x with
  | ok a => exact trivial
  | error f => exact nofun

theorem safe_ofOption {x : Option α} (h : x.isSome) : (ofOption x).Safe := by
  cases x with
  | none => cases h
  | some a => exact trivial

theorem Safe.mapFailure (h : x.Safe) (g : Failure → Failure) : (x.mapFailure g).Safe := by
  rcases x with (f | _) | a
  · exact nofun
  · exact h
  · exact trivial

theorem Safe.cases (h : x.Safe) : (∃ a, x = .ok a) ∨ ∃ f, x = .error (.failure f) := by
  rcases x with (f | _) | a
  · exact .inr ⟨f, rfl⟩
  · exact absurd rfl h
  · exact .inl ⟨a, rfl⟩

end Outcome

namespace Effect

theorem safe_pure (a : α) : Safe (pure a) := fun _ => trivial

theorem safe_fail (f : Failure) : Safe (fail f : Effect α) := fun _ => nofun

theorem safe_throw {s : Stop} (h : s ≠ .crash) : Safe (throw s : Effect α) := fun _ => h

theorem safe_log (e : LogEntry) : Safe (log e) := fun _ => trivial

theorem safe_ofOutcome {x : Outcome α} (h : x.Safe) : Safe (ofOutcome x) := by
  intro w
  cases x with
  | ok a => exact trivial
  | error s => exact h

theorem Safe.bind {x : Effect α} {f : α → Effect β} (hx : x.Safe) (hf : ∀ a, (f a).Safe) : (x >>= f).Safe :=
  fun w => runs_bind ((hx w).mono (fun a w' _ => hf a w') fun _ _ hs => hs)

theorem Safe.foldlM {f : β → α → Effect β} {as : List α} (h : ∀ a ∈ as, ∀ b, (f b a).Safe) (b : β) :
    (as.foldlM f b).Safe := by
  induction as generalizing b with
  | nil => exact safe_pure b
  | cons a as ih =>
    rw [foldlM_cons]
    exact (h a mem_cons_self b).bind fun c => ih (fun a' ha' => h a' (mem_cons_of_mem a ha')) c

end Effect

end Rules

/-! ### References to nothing -/

/-- What a setting is read for. -/
inductive Use where
  | text
  | function
deriving DecidableEq

namespace Value

/-- Not a reference to nothing that cannot be read so. -/
def serves : Use → Value → Bool
  | .text, noReference _ (some .text) => false
  | .function, noReference type _ => type ≠ funcType
  | _, _ => true

mutual

/-- Can be read for all uses, and so can what is in lists and rows. -/
def whole : Value → Bool
  | list xs => wholeAll xs
  | row fs => wholeFields fs
  | v => v.serves .text && v.serves .function

def wholeAll : List Value → Bool
  | [] => true
  | v :: vs => whole v && wholeAll vs

def wholeFields : Row → Bool
  | [] => true
  | (_, v) :: fs => whole v && wholeFields fs

end

theorem isSome_toText? (h : v.serves .text) : v.toText?.isSome := by
  unfold toText?
  split
  · rfl
  · cases h
  · rfl

/-- The values that cannot be read for a use. -/
theorem serves_eq_false {use : Use} (h : v.serves use = false) :
    (use = .text ∧ ∃ type, v = noReference type (some .text)) ∨
      (use = .function ∧ ∃ writing, v = noReference funcType writing) := by
  unfold serves at h
  split at h
  · exact .inl ⟨rfl, _, rfl⟩
  · exact .inr ⟨rfl, _, by rw [not_not.mp (of_decide_eq_false h)]⟩
  · cases h

theorem serves_of_whole (h : v.whole) (use : Use) : v.serves use := by
  unfold whole at h
  split at h
  · cases use <;> rfl
  · cases use <;> rfl
  · rw [Bool.and_eq_true] at h
    cases use with
    | text => exact h.1
    | function => exact h.2

theorem wholeAll_iff {vs : List Value} : wholeAll vs ↔ ∀ v ∈ vs, v.whole := by
  induction vs with
  | nil => simp [wholeAll]
  | cons v vs ih => simp [wholeAll, ih]

theorem wholeFields_iff : wholeFields fs ↔ ∀ e ∈ fs, e.2.whole := by
  induction fs with
  | nil => simp [wholeFields]
  | cons e fs ih => simp [wholeFields, ih]

theorem whole_of_get? (h : wholeFields fs) (hv : Fields.get? fs key = some v) : v.whole :=
  wholeFields_iff.mp h _ (Fields.mem_of_get? hv)

theorem wholeFields_asRow? (h : v.whole) (hrow : v.asRow? = some fs) : wholeFields fs := by
  unfold asRow? at hrow
  split at hrow
  · cases hrow
    exact h
  · cases hrow
    rfl
  · cases hrow

theorem IsData.whole (h : v.IsData) : v.whole := by
  induction h with
  | null | bool | text | float => rfl
  | list _ ih => exact wholeAll_iff.mpr ih
  | row _ _ _ ih => exact wholeFields_iff.mpr ih

end Value

/-! ### Descriptions of branches -/

theorem wholeFields_subRow (h : wholeFields fs) (key : Text) :
    wholeFields (subRow fs key) := by
  unfold subRow
  cases hv : Fields.get? fs key with
  | none => rfl
  | some v =>
    cases hrow : v.asRow? with
    | none => simp only [Option.bind_some, hrow]; rfl
    | some r =>
      simp only [Option.bind_some, hrow, Option.getD_some]
      exact wholeFields_asRow? (whole_of_get? h hv) hrow

theorem whole_of_stepsOf? (h : wholeFields fs) {steps : List Value}
    (hsteps : stepsOf? fs = some steps) : wholeAll steps := by
  unfold stepsOf? at hsteps
  split at hsteps
  · next xs hxs =>
    cases hsteps
    exact whole_of_get? h hxs
  · cases hsteps
    rfl
  · cases hsteps

mutual

/-- A whole description stands for nodes with whole settings, or is refused. -/
theorem expand_ends (id : Text) (desc : Value) (parent : Text) (h : desc.whole) :
    (expand id desc parent).Ends fun ns => ∀ n ∈ ns, wholeFields n.config := by
  rw [expand]
  split
  · exact nofun
  · next d hrow =>
    have hd := wholeFields_asRow? h hrow
    have htype : ((Fields.get? d "type").getD .null).serves .text := by
      cases htype : Fields.get? d "type" with
      | none => rfl
      | some v => exact serves_of_whole (whole_of_get? hd htype) .text
    refine .bind (Outcome.safe_ofOption (isSome_toText? htype)) fun name _ => ?_
    refine .bind (Outcome.safe_ofExcept (Op.parse name)) fun op _ => ?_
    have hconfig := wholeFields_subRow hd "config"
    split
    · intro n hn
      cases mem_singleton.mp hn
      exact hconfig
    · next steps hsteps => exact expandAll_ends id 0 steps parent (whole_of_stepsOf? hconfig hsteps)
termination_by sizeOf desc
decreasing_by exact sizeOf_lt_of_stepsOf?_subRow (by assumption) (by assumption)

theorem expandAll_ends (id : Text) (k : Nat) (steps : List Value) (parent : Text) (h : wholeAll steps) :
    (expandAll id k steps parent).Ends fun ns => ∀ n ∈ ns, wholeFields n.config := by
  cases steps with
  | nil =>
    rw [expandAll]
    exact nofun
  | cons step steps =>
    have hwhole := wholeAll_iff.mp h
    rw [expandAll]
    refine (expand_ends _ step parent (hwhole step mem_cons_self)).bind fun sub hsub => ?_
    refine (expandAll_ends id (k + 1) steps _
      (wholeAll_iff.mpr fun v hv => hwhole v (mem_cons_of_mem step hv))).bind fun more hmore => ?_
    intro n hn
    rcases mem_append.mp hn with hn | hn
    · exact hsub n hn
    · exact hmore n hn
termination_by sizeOf steps

end

namespace Node

/-- The descriptions of the branches are whole. -/
def WholeBranches (n : Node) : Prop :=
  ∀ key ∈ (["left", "right"] : List Text), ∀ v ∈ n.value? key, v.whole

instance (n : Node) : Decidable n.WholeBranches :=
  inferInstanceAs (Decidable (∀ key ∈ (["left", "right"] : List Text), ∀ v ∈ n.value? key, v.whole))

/-- The branches of a node are nodes with whole settings, or cannot be had. -/
theorem WholeBranches.ends {n : Node} (h : n.WholeBranches) : n.branches.Ends fun lr =>
    (∀ m ∈ lr.1, wholeFields m.config) ∧ ∀ m ∈ lr.2, wholeFields m.config := by
  unfold branches
  split
  · next parent l r _ hl hr =>
    refine (expand_ends _ l parent (h "left" (by simp) l hl)).bind fun left hleft => ?_
    exact (expand_ends _ r parent (h "right" (by simp) r hr)).bind fun right hright => ⟨hleft, hright⟩
  · exact ⟨nofun, nofun⟩

end Node

/-! ### Reading settings -/

namespace Node

/-- What stands under the keys can be read. -/
def Refers (n : Node) (keys : List (Text × Use)) : Prop := ∀ k ∈ keys, ∀ v ∈ n.value? k.1, v.serves k.2

instance (n : Node) (keys : List (Text × Use)) : Decidable (n.Refers keys) :=
  inferInstanceAs (Decidable (∀ k ∈ keys, ∀ v ∈ n.value? k.1, v.serves k.2))

theorem mem_of_setting? {n : Node} (h : n.setting? key = some v) : v ∈ n.value? key := by
  unfold setting? at h
  split at h
  · cases h
  · cases h
  · next w _ hw =>
    cases h
    exact hw

/-- The settings that the symbolic form of a function is looked for in. -/
def symbolic : List (Text × Use) :=
  [("expr", .text), ("fn", .function), ("fn_name", .text), ("predicate", .function)]

namespace Refers

variable {n : Node} {keys : List (Text × Use)} (h : n.Refers keys)

include h

theorem text (key : Text) (hkey : (key, Use.text) ∈ keys) (default : Text) : (n.text key default).Safe := by
  unfold Node.text
  split
  · exact trivial
  · next v hv =>
    have hserves := h _ hkey v (mem_of_setting? hv)
    exact (Outcome.safe_ofOption (isSome_toText? hserves)).bind fun t => trivial

variable (hname : (("fn_name" : Text), Use.text) ∈ keys)

include hname

theorem func? (key : Text) (hkey : (key, Use.function) ∈ keys) : (n.func? key).Safe := by
  unfold Node.func?
  split
  · exact trivial
  · next v hv =>
    have hserves := h _ hkey v (mem_of_setting? hv)
    refine (h.text _ hname "").bind fun name => ?_
    split
    · exact trivial
    · exact trivial
    · rw [if_neg (of_decide_eq_true hserves)]
      exact trivial
    · exact trivial
    · exact trivial

theorem fold? (key : Text) : (n.fold? key).Safe := by
  unfold Node.fold?
  split
  · exact trivial
  · exact (h.text _ hname "").bind fun name => trivial
  · exact trivial

/-- The last part of `Node.expr`, which looks for a function that folds. -/
theorem foldExpr : (do
    match ← n.fold? "fn" with
    | some f => return f.expr
    | none => return "" : Outcome Text).Safe :=
  (h.fold? hname "fn").bind fun f => by cases f <;> exact trivial

/-- The part of `Node.expr` after that for the setting `fn`. -/
theorem predicateExpr (hpredicate : (("predicate" : Text), Use.function) ∈ keys) : (do
    match ← n.func? "predicate" with
    | some f => if !f.expr.isEmpty then return f.expr
    | none => pure ()
    match ← n.fold? "fn" with
    | some f => return f.expr
    | none => return "" : Outcome Text).Safe := by
  refine (h.func? hname "predicate" hpredicate).bind fun f => ?_
  split
  · split
    · exact trivial
    · exact h.foldExpr hname
  · exact h.foldExpr hname

omit hname in
theorem expr (hkeys : ∀ k ∈ symbolic, k ∈ keys) : n.expr.Safe := by
  have hname := hkeys ("fn_name", .text) (by simp [symbolic])
  have hpredicate := h.predicateExpr hname (hkeys _ (by simp [symbolic]))
  unfold Node.expr
  refine (h.text _ (hkeys ("expr", .text) (by simp [symbolic])) "").bind fun e => ?_
  split
  · exact trivial
  refine (h.func? hname "fn" (hkeys _ (by simp [symbolic]))).bind fun f => ?_
  split
  · split
    · exact trivial
    · exact hpredicate
  · exact hpredicate

omit hname in
theorem kind (hkey : (("kind" : Text), Use.text) ∈ keys) : n.kind.Safe := by
  unfold Node.kind
  split
  · exact h.text _ hkey ""
  · exact trivial

end Refers

end Node

namespace Indicator

theorem safe_params {n : Node} {keys : List (Text × Use)} (h : n.Refers keys)
    (hkeys : ∀ key ∈ texts, (key, Use.text) ∈ keys) (k : Indicator) : (k.params n.config).Safe := by
  have htext : ∀ key ∈ texts, ∀ default, (textSetting n.config key default).Safe := by
    intro key hkey default
    have hserves : ((Fields.get? n.config key).getD .null).serves .text := by
      cases hv : Fields.get? n.config key with
      | none => rfl
      | some v => exact h _ (hkeys key hkey) v hv
    exact (Outcome.safe_ofOption (isSome_toText? hserves)).bind fun t => trivial
  unfold params
  refine (htext "field" (by simp [texts]) _).bind fun field => ?_
  refine (htext "high" (by simp [texts]) _).bind fun high => ?_
  refine (htext "low" (by simp [texts]) _).bind fun low => ?_
  refine (htext "close" (by simp [texts]) _).bind fun close => ?_
  refine (htext "vol" (by simp [texts]) _).bind fun vol => ?_
  refine (htext "price" (by simp [texts]) _).bind fun price => ?_
  exact (Outcome.safe_ofExcept _).bind fun _ => trivial

end Indicator

/-! ### What targets read -/

namespace Target

/-- The settings of an indicator. -/
def measured : List (Text × Use) := ("kind", .text) :: Indicator.texts.map (·, .text)

/-- The settings that a target reads, by tag. -/
def reads : Target → Op → List (Text × Use)
  | outline | drawing => fun
    | .source | .sink => [("uri", .text)]
    | .map | .filter | .reduce => [("fn_name", .text)]
    | .join => [("on", .text)]
    | .custom => [("kind", .text)]
    | _ => []
  | script _ => fun
    | .source | .sink => [("uri", .text)]
    | .map | .reduce => Node.symbolic
    | .filter => ("predicate_sql", .text) :: Node.symbolic
    | .join => [("on", .text)]
    | .custom => measured
    | _ => []
  | kernel _ => fun
    | .source | .sink => [("uri", .text)]
    | .map => Node.symbolic
    | _ => []
  | streaming _ | columnar _ => fun
    | .source | .sink => [("uri", .text)]
    | .map => [("fn", .function), ("fn_name", .text)]
    | .filter => [("predicate", .function), ("fn_name", .text)]
    | .reduce => [("fn_name", .text)]
    | .join => [("on", .text)]
    | .custom => measured
    | _ => []

theorem mem_measured {key : Text} (h : key ∈ Indicator.texts) : (key, Use.text) ∈ measured :=
  mem_cons_of_mem _ (mem_map_of_mem h)

/-- Whether the target takes the descriptions of branches apart. -/
def branches : Target → Bool
  | kernel _ | drawing => false
  | _ => true

/-- The node has no reference to nothing where the target would look for what it refers to. -/
structure Clear (t : Target) (n : Node) : Prop where
  reads : n.Refers (t.reads n.op)
  branches : t.branches → n.isOperatorComposite → n.WholeBranches

instance (t : Target) (n : Node) : Decidable (t.Clear n) :=
  decidable_of_iff (n.Refers (t.reads n.op) ∧ (t.branches → n.isOperatorComposite → n.WholeBranches))
    ⟨fun h => ⟨h.1, h.2⟩, fun h => ⟨h.1, h.2⟩⟩

theorem clear_of_whole (t : Target) {n : Node} (h : wholeFields n.config) : t.Clear n where
  reads := fun k _ _ hv => serves_of_whole (whole_of_get? h hv) k.2
  branches := fun _ _ _ _ _ hv => whole_of_get? h hv

end Target

section Lowering

variable {n : Node}

theorem Outline.safe_ofNode (h : n.Refers (outline.reads n.op)) (inputs : List Text) :
    (ofNode n inputs).Safe := by
  obtain ⟨id, op, config, parents⟩ := n
  cases op with
  | source | sink | map | filter | reduce | join | custom => exact (h.text _ mem_cons_self _).bind fun _ => trivial
  | _ => exact trivial

theorem Drawing.safe_ofNode (h : n.Refers (drawing.reads n.op)) (inputs : List Drawing) :
    (ofNode n inputs).Safe := by
  have hdetail : (detail n).Safe := by
    obtain ⟨id, op, config, parents⟩ := n
    cases op with
    | source | sink => exact h.text "uri" mem_cons_self _
    | map | filter | reduce => exact h.text "fn_name" mem_cons_self _
    | join => exact (h.text "on" mem_cons_self _).bind fun _ => trivial
    | custom => exact h.kind mem_cons_self
    | _ => exact trivial
  have hlabel : (label n).Safe := hdetail.bind fun _ => trivial
  exact (hlabel.bind fun _ => trivial : (statement n).Safe).bind fun _ => trivial

theorem Kernel.safe_ofNode (d : KernelDialect) (h : n.Refers ((kernel d).reads n.op))
    (inputs : List Program) : (ofNode d n inputs).Safe := by
  obtain ⟨id, op, config, parents⟩ := n
  cases op with
  | source | sink => exact (h.text "uri" mem_cons_self _).bind fun _ => trivial
  | map =>
    refine (h.text "fn_name" (by simp [reads, Node.symbolic]) _).bind fun name => ?_
    exact (h.expr fun key hkey => hkey).bind fun e => trivial
  | _ => exact trivial

theorem Script.safe_ofNode (d : Dialect) (h : n.Refers ((script d).reads n.op))
    (inputs : List Program) : (ofNode d n inputs).Safe := by
  obtain ⟨id, op, config, parents⟩ := n
  cases op with
  | source | sink => exact (h.text "uri" mem_cons_self _).bind fun _ => trivial
  | filter =>
    refine (h.expr fun key hkey => mem_cons_of_mem _ hkey).bind fun e => ?_
    split
    · exact (h.text "predicate_sql" mem_cons_self _).bind fun _ => trivial
    · exact trivial
  | map =>
    refine (h.expr fun key hkey => hkey).bind fun e => ?_
    exact (h.text "fn_name" (by simp [reads, Node.symbolic]) _).bind fun _ => trivial
  | reduce => exact (h.expr fun key hkey => hkey).bind fun e => trivial
  | join => exact (h.text "on" mem_cons_self _).bind fun _ => trivial
  | custom =>
    have hindicator : (indicatorOf { id, op := .custom, config, parents }).Safe := by
      refine (h.kind mem_cons_self).bind fun kind => ?_
      split
      · exact trivial
      · next k _ =>
        exact (Indicator.safe_params h (fun key hkey => mem_measured hkey) k).bind fun _ => trivial
    refine hindicator.bind fun r => ?_
    split <;> exact trivial
  | _ => exact trivial

/-- A custom node warns of its kind, or reads the settings of an indicator. -/
theorem Node.safe_custom {α : Type} (h : n.Refers measured) (name : Text) (input : α)
    (compute : Indicator → Indicator.Params Float → α) : Effect.Safe (do
      let kind ← ofOutcome n.kind
      match Indicator.lookup? kind with
      | none => do
        n.warnUnknown name kind
        return input
      | some k => do
        let params ← ofOutcome (k.params n.config)
        return compute k params) := by
  refine (safe_ofOutcome (h.kind mem_cons_self)).bind fun kind => ?_
  split
  · exact (safe_log _).bind fun _ => safe_pure _
  · exact (safe_ofOutcome (Indicator.safe_params h (fun _ => mem_measured) _)).bind fun _ => safe_pure _

theorem safe_of_input {α : Type} {f : List α → Effect α} {failure : Failure} (hnil : f [] = Effect.fail failure)
    (hcons : ∀ x xs, (f (x :: xs)).Safe) (xs : List α) : (f xs).Safe := by
  cases xs with
  | nil => exact hnil ▸ safe_fail _
  | cons x xs => exact hcons x xs

/-- The two backends that evaluate read the same settings of a node. -/
theorem safe_lower (lib : Library) (o : Streaming.Options) (chunk : Int)
    (h : n.Refers ((streaming o).reads n.op)) :
    (∀ xs, (Streaming.lower lib o n xs).Safe) ∧ ∀ xs, (Columnar.lower lib chunk n xs).Safe := by
  have htext := fun key (hkey : (key, Use.text) ∈ _) default => safe_ofOutcome (h.text key hkey default)
  obtain ⟨id, op, config, parents⟩ := n
  cases op with
  | source => constructor <;> exact fun _ => (htext "uri" mem_cons_self _).bind fun _ => safe_pure _
  | window =>
    refine ⟨safe_of_input rfl fun x xs => ?_, fun _ _ => nofun⟩
    let size := Node.int { id, op := .window, config, parents } "size" 1
    show Effect.Safe (if size < 1 then Effect.fail _ else pure _)
    split
    · exact safe_fail _
    · exact safe_pure _
  | map | filter =>
    have hfunc := safe_ofOutcome (h.func? (by simp [reads]) _ mem_cons_self)
    constructor <;> refine safe_of_input rfl fun x xs => hfunc.bind fun f => ?_ <;> cases f <;> exact safe_pure _
  | reduce =>
    have hfold := safe_ofOutcome (h.fold? mem_cons_self "fn")
    constructor <;> refine safe_of_input rfl fun x xs => hfold.bind fun f => ?_ <;> split <;> exact safe_pure _
  | join =>
    have hon := htext "on" mem_cons_self ""
    constructor <;> refine safe_of_input rfl fun x xs => ?_ <;> cases xs with
      | nil => exact safe_fail _
      | cons => exact hon.bind fun _ => safe_pure _
  | choice | ensemble =>
    constructor <;> refine safe_of_input rfl fun x xs => ?_ <;> cases xs <;> exact safe_pure _
  | custom =>
    constructor <;> exact safe_of_input rfl fun x _ =>
      Node.safe_custom h _ x _
  | sink =>
    have huri := htext "uri" mem_cons_self ""
    constructor <;> exact safe_of_input rfl fun _ _ => huri.bind fun _ => safe_pure _
  | union | merge | other => constructor <;> exact safe_of_input rfl fun _ _ => safe_pure _

end Lowering

/-! ### Compiling -/

namespace Backend

variable {α : Type} {b : Backend α} {P : Node → Prop}

/-- Lowers nodes that satisfy `P`, on top of as many inputs as they have parents, without a crash. -/
def Safe (b : Backend α) (P : Node → Prop) : Prop :=
  ∀ n, P n → ∀ xs : List α, xs.length = n.parents.length → (b.lower n xs).Safe

/-- A crash of a compilation is that of lowering a node which a target leads to. -/
theorem Safe.compile (h : b.Safe P) (hg : ∀ n ∈ g.nodes, g.Needed n.id → P n) (w : Workspace) :
    (b.compile g w).1.Safe := by
  rcases compile_ends (b := b) (g := g) (w := w) keeps_true trivial with ⟨ts, c, hts, -⟩ |
    ⟨s, hs, (⟨-, rfl⟩ | ⟨t, -, ⟨f, rfl, -⟩, -⟩) | ⟨c, n, inputs, d, hready, -, hlower⟩⟩
  · rw [hts]
    exact trivial
  · rw [hs]
    exact nofun
  · rw [hs]
    exact nofun
  rw [hs]
  rcases lowerAt_error hlower with ⟨-, rfl⟩ | ⟨s', v, hs', rfl⟩
  · exact nofun
  have hsafe := h n (hg n hready.mem hready.needed) inputs hready.inputs.length_eq.symm d.workspace
  have hs' : s' ≠ .crash := hsafe.error hs'
  cases s' with
  | failure f => exact nofun
  | crash => exact absurd rfl hs'

/-- A backend that unfolds composite nodes is safe for clear nodes, if it is for plain ones and for those whose
descriptions it has to refuse. -/
theorem safe_of_unfolds {t : Target} (ht : t.branches) (hunfolds : b.Unfolds)
    (hplain : ∀ n, n.isOperatorComposite = false → n.Refers (t.reads n.op) → ∀ xs, (b.lower n xs).Safe)
    (hbroken : ∀ n s, n.isOperatorComposite → n.branches = .error s → s ≠ .crash → ∀ x, (b.lower n [x]).Safe) :
    b.Safe t.Clear := by
  have hone : ∀ n, t.Clear n → ∀ x, (b.lower n [x]).Safe := by
    intro n hn x
    induction hk : sizeOf n.config using Nat.strongRecOn generalizing n x with
    | ind k ih =>
      cases hcomposite : n.isOperatorComposite with
      | false => exact hplain n hcomposite hn.reads [x]
      | true =>
        have hends := (hn.branches ht hcomposite).ends
        rcases hbranches : n.branches with s | ⟨left, right⟩
        · rw [hbranches] at hends
          exact hbroken n s hcomposite hbranches hends x
        · rw [hbranches] at hends
          -- the nodes of the branches are whole, and their settings are smaller
          have hbranch : ∀ m, m ∈ left ∨ m ∈ right → ∀ y, (b.lower m [y]).Safe := by
            intro m hm y
            have hwhole : wholeFields m.config := hm.elim (hends.1 m) (hends.2 m)
            exact ih _ (hk ▸ Node.sizeOf_config_lt_of_branches hbranches hm) m (t.clear_of_whole hwhole) y rfl
          rw [hunfolds hcomposite hbranches]
          refine (Effect.Safe.foldlM (fun m hm y => hbranch m (.inl hm) y) x).bind fun l => ?_
          refine (Effect.Safe.foldlM (fun m hm y => hbranch m (.inr hm) y) x).bind fun r => ?_
          exact hplain _ (isOperatorComposite_joint n) (t.clear_of_whole rfl).reads [l, r]
  intro n hn xs hlength
  cases hcomposite : n.isOperatorComposite with
  | false => exact hplain n hcomposite hn.reads xs
  | true =>
    have hparents : n.parents.length = 1 := by
      simp only [Node.isOperatorComposite, Bool.and_eq_true, decide_eq_true_eq] at hcomposite
      exact hcomposite.2
    obtain ⟨x, rfl⟩ := length_eq_one_iff.mp (hlength.trans hparents)
    exact hone n hn x

theorem safe_branching {t : Target} (ht : t.branches) {name : Text} {lower : Node → List α → Effect α}
    {explain : Node → Stop → Stop} (hlower : ∀ n, n.Refers (t.reads n.op) → ∀ xs, (lower n xs).Safe)
    (hexplain : ∀ n s, s ≠ .crash → explain n s ≠ .crash) : (branching name lower explain).Safe t.Clear := by
  refine safe_of_unfolds ht unfolds_branching (fun n hplain hn xs => ?_) fun n s hcomposite hbranches hs x => ?_
  · rw [lower_branching_plain hplain]
    exact hlower n hn xs
  · rw [lower_branching_broken hcomposite hbranches]
    exact safe_throw (hexplain n s hs)

end Backend

theorem Outline.safe_backend : Outline.backend.Safe outline.Clear := by
  refine Backend.safe_of_unfolds rfl composing_backend.unfolds (fun n hplain hn xs => ?_)
    fun n s hcomposite hbranches hs x => ?_
  · rw [lower_backend, Node.step_single hplain]
    exact safe_ofOutcome (safe_ofNode hn xs)
  · rw [lower_one, Node.step_broken hcomposite hbranches]
    cases s with
    | failure f => exact safe_ofOutcome trivial
    | crash => exact absurd rfl hs

theorem Script.safe_backend (d : Dialect) : (Script.backend d).Safe (script d).Clear := by
  refine Backend.safe_branching rfl (fun n hn xs => ?_) fun n s hs => ?_
  · exact safe_ofOutcome ((safe_ofNode d hn xs).mapFailure _)
  · cases s with
    | failure f => exact nofun
    | crash => exact absurd rfl hs

theorem Streaming.safe_backend (lib : Library) (o : Options) :
    (Streaming.backend lib o).Safe (streaming o).Clear :=
  Backend.safe_branching rfl (fun _ hn => (safe_lower lib o 0 hn).1) fun _ _ hs => hs

theorem Columnar.safe_backend (lib : Library) (chunk : Int) :
    (Columnar.backend lib chunk).Safe (columnar chunk).Clear :=
  Backend.safe_branching rfl (fun _ hn => (safe_lower lib { } chunk hn).2) fun _ _ hs => hs

theorem Kernel.safe_backend (d : KernelDialect) : (Kernel.backend d).Safe (kernel d).Clear :=
  fun _ hn xs _ => safe_ofOutcome (safe_ofNode d hn.reads xs)

theorem Drawing.safe_backend : Drawing.backend.Safe drawing.Clear :=
  fun _ hn xs _ => safe_ofOutcome (safe_ofNode hn.reads xs)

theorem Backend.Safe.compiled {α : Type} {b : Backend α} {P : Node → Prop} (h : b.Safe P)
    (hg : ∀ n ∈ g.nodes, g.Needed n.id → P n) (wrap : α → Artifact) (w : Workspace) :
    (b.compiled wrap g w).outcome.Safe := by
  have hcompile := h.compile hg w
  show Outcome.Safe ((b.compile g w).1.map _)
  cases hr : (b.compile g w).1 with
  | ok ts => exact trivial
  | error s =>
    rw [hr] at hcompile
    exact hcompile

theorem Target.safe_compile (lib : Library) (t : Target)
    (hg : ∀ n ∈ g.nodes, g.Needed n.id → t.Clear n) (w : Workspace) : (t.compile lib g w).outcome.Safe := by
  cases t with
  | outline => exact Outline.safe_backend.compiled hg _ w
  | streaming o => exact (Streaming.safe_backend lib o).compiled hg _ w
  | columnar chunk => exact (Columnar.safe_backend lib chunk).compiled hg _ w
  | script d => exact (Script.safe_backend d).compiled hg _ w
  | kernel d => exact (Kernel.safe_backend d).compiled hg _ w
  | drawing => exact Drawing.safe_backend.compiled hg _ w

end Dataflow
