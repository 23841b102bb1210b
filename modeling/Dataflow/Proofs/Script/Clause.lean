import Dataflow.Proofs.Compile.Correspondence
import Dataflow.Proofs.Session.Identifier

/-!
# Scripts before they are written

A `Clause` is a statement before it is written: what it does, and the variables it was made with.  A
`Listing` is a program of clauses.  The backend that makes listings corresponds to the one that makes
scripts, in both dialects: writing each clause of a listing gives the program (`corresponds_backend`), so
that what is said of the clauses of a listing is said of the statements of a program.
-/

namespace Dataflow.Script

open List

/-- The variable that a statement of an owner defines, if it defines one. -/
def variableAt (owner : Text) : Text := "t_" ++ owner.ident

/-! ### Clauses -/

/-- What a statement does, with the variables that it was made with. -/
inductive Clause where
  | source (l : Location)
  | filter (input expr : Text)
  | map (input expr function : Text)
  | reduce (input expr : Text)
  | join (a b on : Text)
  | concat (inputs : List Text)
  | choice (a b : Text)
  | ensemble (a b : Text)
  | indicator (input : Text) (k : Indicator) (params : Indicator.Params Float)
  | sink (input : Text) (l : Location)
  | unsupported (what : Text)

namespace Clause

def reads : Clause → List Text
  | source _ | unsupported _ => []
  | filter x _ | map x _ _ | reduce x _ | indicator x _ _ | sink x _ => [x]
  | join a b _ | choice a b | ensemble a b => [a, b]
  | concat xs => xs

def defines : Clause → Bool
  | sink _ _ | unsupported _ => false
  | _ => true

/-- The statement in a dialect; `v` is the variable of its owner. -/
def text (d : Dialect) (v : Text) : Clause → Text
  | source l => d.source v l
  | filter x e => d.filter v x e
  | map x e f => d.map v x e f
  | reduce x e => d.reduce v x e
  | join a b on => d.join v a b on
  | concat xs => d.concat v xs
  | choice a b => d.choice v a b
  | ensemble a b => d.ensemble v a b
  | indicator x k p => d.indicator v x k p
  | sink x l => d.sink x l
  | unsupported what => d.comment ("unsupported " ++ what)

end Clause

/-- Clauses by owner, in order, and the result variable. -/
structure Listing where
  statements : List (Text × Clause) := []
  result : Text := ""

namespace Listing

/-- Adds the statements whose owners have none yet. -/
def adjoin (ss ts : List (Text × Clause)) : List (Text × Clause) :=
  ts.foldl (fun ss s => if ss.any (·.1 = s.1) then ss else ss ++ [s]) ss

def absorb (l m : Listing) : Listing := ⟨adjoin l.statements m.statements, m.result⟩

def merge (ls : List Listing) : Listing := ls.foldl absorb {}

/-- Adds a statement, or puts it in the place of its owner's. -/
def append (l : Listing) (owner : Text) (c : Clause) (result : Text) : Listing :=
  { statements := match l.statements.findIdx? (·.1 = owner) with
      | some i => l.statements.set i (owner, c)
      | none => l.statements ++ [(owner, c)]
    result }

def written (d : Dialect) (s : Text × Clause) : Text × Text := (s.1, s.2.text d (variableAt s.1))

def program (d : Dialect) (l : Listing) : Program := ⟨l.statements.map (written d), l.result⟩

/-- The result of an input, or a name for a missing one. -/
def input (inputs : List Listing) (i : Nat) : Text :=
  match inputs[i]? with
  | some l => if l.result.isEmpty then "t_none" else l.result
  | none => "t_none"

def clauseOf (n : Node) (inputs : List Listing) : Outcome Clause := do
  let first := input inputs 0
  let second := input inputs 1
  match n.op with
  | .source => return .source (.parse (← n.text "uri" ""))
  | .filter =>
    let e ← n.expr
    let e ← if e.isEmpty then n.text "predicate_sql" "" else pure e
    return .filter first e
  | .map =>
    let e ← n.expr
    return .map first e (← n.text "fn_name" "fn")
  | .reduce =>
    let e ← n.expr
    return if e.isEmpty then .unsupported "reduce without expression" else .reduce first e
  | .join => return .join first second (← n.text "on" "")
  | .union | .merge => return .concat (inputs.map Listing.result)
  | .choice => return .choice first second
  | .ensemble => return .ensemble first second
  | .custom =>
    match ← indicatorOf n with
    | .error kind => return .unsupported ("custom op " ++ kind)
    | .ok (k, params) => return .indicator first k params
  | .sink => return .sink first (.parse (← n.text "uri" "stdout"))
  | .window | .other _ => return .unsupported ("op " ++ n.op.name)

/-- The listing of one node over those of its inputs.  A node that defines nothing passes its input on. -/
def ofNode (n : Node) (inputs : List Listing) : Outcome Listing := do
  let c ← clauseOf n inputs
  return (merge inputs).append n.id c (if c.defines then variableAt n.id else input inputs 0)

/-- The backend that makes listings; a dialect only lends it its name. -/
def backend (d : Dialect) : Backend Listing :=
  Backend.branching (backendName d)
    (fun n inputs => Effect.ofOutcome
      ((ofNode n inputs).mapFailure fun f => f.atNode (backendName d) n.id))
    (explain d)

/-! ### Writing -/

theorem isEmpty_append (a b : Text) : (a ++ b).isEmpty = (a.isEmpty && b.isEmpty) := by
  obtain ⟨_ | ⟨x, xs⟩⟩ := a <;> rfl

theorem isEmpty_ofString {s : String} (h : s ≠ "") : (Text.ofString s).isEmpty = false := by
  by_contra hempty
  have hbytes : (Text.ofString s).bytes = [] := by simpa [Text.isEmpty] using hempty
  exact h (Text.ofString_injective (Text.ext hbytes))

section

variable (d : Dialect)

/-- No statement is empty: each holds a word of its dialect. -/
theorem text_ne_empty (v : Text) (c : Clause) : (c.text d v).isEmpty = false := by
  cases d <;> cases c <;>
    simp only [Clause.text, Dialect.source, Dialect.filter, Dialect.map, Dialect.reduce, Dialect.join,
      Dialect.concat, Dialect.choice, Dialect.ensemble, Dialect.indicator, Dialect.sink, Dialect.comment,
      Dialect.view, Dialect.call] <;>
    (try split) <;> simp [isEmpty_append, isEmpty_ofString]

theorem map_written_adjoin (ss ts : List (Text × Clause)) :
    (adjoin ss ts).map (written d) = (ts.map (written d)).foldl (insertNew Prod.fst) (ss.map (written d)) := by
  rw [adjoin, foldl_any_eq, foldl_map]
  refine (foldl_hom (map (written d)) fun ss s => ?_).symm
  rw [insertNew, insertNew, apply_ite (map (written d)), map_append, map_map]
  rfl

theorem program_absorb (l m : Listing) :
    (l.absorb m).program d = (l.program d).absorb (m.program d) :=
  congrArg (Program.mk · m.result) ((map_written_adjoin d l.statements m.statements).trans (foldl_any_eq _ _).symm)

theorem program_merge (ls : List Listing) :
    (merge ls).program d = Program.merge (ls.map (program d)) := by
  have hfold : ∀ l : Listing, (ls.foldl absorb l).program d =
      (ls.map (program d)).foldl Program.absorb (l.program d) := by
    induction ls with
    | nil => exact fun l => rfl
    | cons m ls ih =>
      intro l
      rw [foldl_cons, map_cons, foldl_cons, ih, program_absorb]
  exact hfold {}

theorem program_append (l : Listing) (owner : Text) (c : Clause) (result : Text) :
    (l.append owner c result).program d =
      (l.program d).append owner (c.text d (variableAt owner)) result := by
  have hindex : (l.statements.map (written d)).findIdx? (·.1 = owner) =
      l.statements.findIdx? (·.1 = owner) := by
    rw [List.findIdx?_map]
    rfl
  unfold append Program.append program
  rw [if_neg (by simp [text_ne_empty]), hindex]
  cases l.statements.findIdx? (·.1 = owner) with
  | none => simp [written]
  | some i => simp [written, map_set]

theorem input_program (inputs : List Listing) (i : Nat) :
    Script.input (inputs.map (program d)) i = input inputs i := by
  unfold Script.input input
  rw [List.getElem?_map]
  cases inputs[i]? <;> rfl

theorem result_program (inputs : List Listing) :
    (inputs.map (program d)).map Program.result = inputs.map Listing.result := by
  rw [map_map]
  rfl

theorem ofNode_program (n : Node) (inputs : List Listing) :
    Script.ofNode d n (inputs.map (program d)) = (ofNode n inputs).map (program d) := by
  have happend : ∀ c : Clause, (Except.ok (((merge inputs).program d).append n.id
      (c.text d (variableAt n.id)) (if c.defines then variableAt n.id else input inputs 0)) : Outcome Program) =
      .ok (((merge inputs).append n.id c (if c.defines then variableAt n.id else input inputs 0)).program d) :=
    fun c => congrArg Except.ok (program_append ..).symm
  unfold Script.ofNode ofNode clauseOf
  rw [input_program, input_program, result_program, ← program_merge]
  obtain ⟨id, op, config, parents⟩ := n
  cases op with
  | source =>
    rcases Node.text ⟨id, .source, config, parents⟩ "uri" "" with s | uri
    · rfl
    · exact happend (.source _)
  | filter =>
    rcases Node.expr ⟨id, .filter, config, parents⟩ with s | e
    · rfl
    · simp only [bind, Except.bind]
      split
      · rcases Node.text ⟨id, .filter, config, parents⟩ "predicate_sql" "" with s | e
        · rfl
        · exact happend (.filter _ _)
      · exact happend (.filter _ _)
  | map =>
    rcases Node.expr ⟨id, .map, config, parents⟩ with s | e
    · rfl
    · rcases Node.text ⟨id, .map, config, parents⟩ "fn_name" "fn" with s | f
      · rfl
      · exact happend (.map _ _ _)
  | reduce =>
    rcases Node.expr ⟨id, .reduce, config, parents⟩ with s | e
    · rfl
    · simp only [bind, Except.bind]
      split
      · exact happend (.unsupported _)
      · exact happend (.reduce _ _)
  | join =>
    rcases Node.text ⟨id, .join, config, parents⟩ "on" "" with s | on
    · rfl
    · exact happend (.join _ _ _)
  | union | merge => exact happend (.concat _)
  | choice => exact happend (.choice _ _)
  | ensemble => exact happend (.ensemble _ _)
  | custom =>
    rcases indicatorOf ⟨id, .custom, config, parents⟩ with s | kind | ⟨k, params⟩
    · rfl
    · exact happend (.unsupported _)
    · exact happend (.indicator _ _ _)
  | sink =>
    rcases Node.text ⟨id, .sink, config, parents⟩ "uri" "stdout" with s | uri
    · rfl
    · exact happend (.sink _ _)
  | window | other name => exact happend (.unsupported _)

theorem corresponds_backend :
    Backend.Corresponds (program d) (backend d) (Script.backend d) := by
  refine Backend.corresponds_branching _ _ fun n xs => ?_
  rw [ofNode_program]
  rcases ofNode n xs with (f | _) | l <;> rfl

end

end Listing

end Dataflow.Script
