import Dataflow.Proofs.Frame.Columns
import Dataflow.Proofs.Graph.Schedule
import Dataflow.Script.Lower

/-!
# Programs as lists of owned statements

A program is read in two ways: as the sequence of its owners, and as a table that gives the statement of an
owner.  A `Ledger` keeps the two apart and updates each by itself.  `Program.Built p l` says that a program and
a ledger are made from the empty ones by appending the same statements and by the same merging.

Main statement (`Program.merge_laws`): the ledger is then the one of the program, the owners in it are
different, and are the ones that the table knows; and merging is associative and idempotent, keeps the first
program in front, and adds what the second one has of other owners, in its order.
-/

namespace Dataflow

open List

/-- A program with the order of its owners apart from the table of their statements. -/
structure Ledger where
  ids : List Text := []
  table : Text → Option Text := fun _ => none
  result : Text := ""

namespace Ledger

/-- Sets the statement of an owner, who comes last if the table does not know them. -/
def put (l : Ledger) (id statement : Text) : Ledger :=
  { l with
    ids := if (l.table id).isSome then l.ids else l.ids ++ [id]
    table := fun key => if id = key then some statement else l.table key }

/-- Takes over the statement of an owner whom the table does not know. -/
def adopt (m l : Ledger) (id : Text) : Ledger :=
  if (l.table id).isSome then l else l.put id ((m.table id).getD "")

def absorb (l m : Ledger) : Ledger := { m.ids.foldl m.adopt l with result := m.result }

def merge (ls : List Ledger) : Ledger := ls.foldl absorb {}

def append (l : Ledger) (id statement result : Text) : Ledger :=
  if statement.isEmpty then { l with result } else { l.put id statement with result }

end Ledger

namespace Program

variable {p a b c : Program} {l la lb lc : Ledger}

def owners (p : Program) : List Text := p.statements.map Prod.fst

/-- The statement of an owner, if it has one. -/
def statement? (p : Program) (owner : Text) : Option Text := Fields.get? p.statements owner

def ledger (p : Program) : Ledger := ⟨p.owners, p.statement?, p.result⟩

/-- The program and the ledger are made by the same appending and merging. -/
inductive Built : Program → Ledger → Prop
  | empty : Built {} {}
  | append {p : Program} {l : Ledger} (h : Built p l) (owner statement result : Text) :
      Built (p.append owner statement result) (l.append owner statement result)
  | merge {ps : List (Program × Ledger)} (h : ∀ p ∈ ps, Built p.1 p.2) :
      Built (merge (ps.map Prod.fst)) (.merge (ps.map Prod.snd))

theorem owners_absorb (a b : Program) : (a.absorb b).owners = b.owners.foldl insertLast a.owners := by
  rw [owners, absorb, foldl_any_eq, map_foldl_insertNew]
  rfl

theorem nodup_owners_absorb (h : a.owners.Nodup) (b : Program) : (a.absorb b).owners.Nodup :=
  owners_absorb a b ▸ nodup_foldl_insertLast h

theorem absorb_eq (a : Program) (h : b.owners.Nodup) :
    a.absorb b = ⟨a.statements ++ b.statements.filter (·.1 ∉ a.owners), b.result⟩ := by
  rw [absorb, foldl_any_eq, foldl_insertNew_eq h]
  rfl

theorem merge_pair (ha : a.owners.Nodup) (b : Program) : merge [a, b] = a.absorb b := by
  have hfirst : absorb {} a = a := by
    rw [absorb_eq {} ha]
    simp [owners]
  rw [merge, foldl_cons, hfirst]
  rfl

theorem absorb_assoc (a : Program) (hb : b.owners.Nodup) (hc : c.owners.Nodup) :
    (a.absorb b).absorb c = a.absorb (b.absorb c) := by
  have hfilter : c.statements.filter (·.1 ∉ (a.absorb b).owners) =
      (c.statements.filter (·.1 ∉ b.owners)).filter (·.1 ∉ a.owners) := by
    rw [filter_filter]
    refine filter_congr fun s _ => ?_
    simp [owners_absorb, mem_foldl_insertLast]
  rw [absorb_eq _ hc, hfilter, absorb_eq a (nodup_owners_absorb hb c), absorb_eq a hb, absorb_eq b hc,
    filter_append, append_assoc]

theorem absorb_self (h : a.owners.Nodup) : a.absorb a = a := by
  have hnone : a.statements.filter (·.1 ∉ a.owners) = [] :=
    filter_eq_nil_iff.mpr fun s hs hnew => of_decide_eq_true hnew (mem_map_of_mem hs)
  rw [absorb_eq a h, hnone, append_nil]

/-- The table gives the statements in the order of their owners. -/
theorem map_statement? (h : p.owners.Nodup) : p.owners.map p.statement? = p.lines.map some := by
  rw [owners, lines, map_map, map_map]
  exact map_congr_left fun s hs => Fields.get?_of_mem h hs

/-! ### Ledgers -/

variable {ss : List (Text × Text)}

theorem ledger_adjust (ss : List (Text × Text)) (owner statement result : Text) :
    ledger ⟨Fields.adjust owner (fun _ => statement) ss, result⟩ =
      (ledger ⟨ss, result⟩).put owner statement := by
  have hids := (Fields.keys_adjust owner (fun _ => statement) ss).trans
    (if_congr Fields.isSome_get?_iff.symm rfl rfl)
  exact congrArg₂ (Ledger.mk · · result) hids (funext (Fields.get?_adjust owner _ ss))

theorem ledger_insertNew (m : Ledger) (result : Text) {s : Text × Text} (hs : m.table s.1 = some s.2) :
    ledger ⟨insertNew Prod.fst ss s, result⟩ = m.adopt (ledger ⟨ss, result⟩) s.1 := by
  by_cases hmem : s.1 ∈ ss.map Prod.fst
  · rw [insertNew, if_pos hmem]
    exact (if_pos (Fields.isSome_get?_iff.mpr hmem)).symm
  · have hlast : Fields.adjust s.1 (fun _ => s.2) ss = ss ++ [s] := by
      have hnone : ss.findIdx? (·.1 = s.1) = none :=
        findIdx?_eq_none_iff.mpr fun t ht => decide_eq_false fun heq => hmem (heq ▸ mem_map_of_mem ht)
      rw [Fields.adjust_eq, hnone]
      rfl
    rw [insertNew, if_neg hmem, ← hlast, ledger_adjust, Ledger.adopt, hs]
    exact (if_neg fun h => hmem (Fields.isSome_get?_iff.mp h)).symm

theorem ledger_absorb (a : Program) (h : b.owners.Nodup) :
    (a.absorb b).ledger = a.ledger.absorb b.ledger := by
  have hfold (ts : List (Text × Text)) (hts : ∀ t ∈ ts, b.statement? t.1 = some t.2) (ss : List (Text × Text)) :
      ledger ⟨ts.foldl (insertNew Prod.fst) ss, a.result⟩ =
        (ts.map Prod.fst).foldl b.ledger.adopt (ledger ⟨ss, a.result⟩) := by
    induction ts generalizing ss with
    | nil => rfl
    | cons t ts ih =>
      rw [foldl_cons, map_cons, foldl_cons, ih (fun t ht => hts t (mem_cons_of_mem _ ht)),
        ledger_insertNew b.ledger a.result (hts t mem_cons_self)]
  have hstatements := hfold b.statements (fun t ht => Fields.get?_of_mem h ht) a.statements
  rw [absorb, foldl_any_eq]
  exact congrArg (fun l : Ledger => { l with result := b.result }) hstatements

theorem ledger_merge {ps : List Program} (h : ∀ p ∈ ps, p.owners.Nodup) :
    (merge ps).ledger = .merge (ps.map ledger) := by
  have hfold (a : Program) : (ps.foldl absorb a).ledger = (ps.map ledger).foldl Ledger.absorb a.ledger := by
    induction ps generalizing a with
    | nil => rfl
    | cons p ps ih =>
      rw [foldl_cons, map_cons, foldl_cons, ih fun q hq => h q (mem_cons_of_mem _ hq),
        ledger_absorb a (h p mem_cons_self)]
  exact hfold {}

theorem statements_append (p : Program) {statement : Text} (h : ¬ statement.isEmpty = true) (owner result : Text) :
    p.append owner statement result = ⟨Fields.adjust owner (fun _ => statement) p.statements, result⟩ := by
  rw [append, if_neg h, Fields.adjust_eq]
  cases p.statements.findIdx? (·.1 = owner) <;> rfl

theorem ledger_append (p : Program) (owner statement result : Text) :
    (p.append owner statement result).ledger = p.ledger.append owner statement result := by
  unfold Ledger.append
  split
  · next hempty =>
    rw [append, if_pos hempty]
    rfl
  · next hempty =>
    rw [statements_append p hempty, ledger_adjust]
    rfl

theorem Built.ledger (h : Built p l) : p.owners.Nodup ∧ l = p.ledger := by
  induction h with
  | empty => exact ⟨nodup_nil, rfl⟩
  | append _ owner statement result ih =>
    obtain ⟨hnodup, rfl⟩ := ih
    refine ⟨?_, (ledger_append _ owner statement result).symm⟩
    by_cases hempty : statement.isEmpty = true
    · rwa [Program.append, if_pos hempty]
    · rw [statements_append _ hempty]
      exact Fields.nodup_adjust hnodup owner _
  | @merge ps _ ih =>
    have hnodup : ∀ p ∈ ps.map Prod.fst, p.owners.Nodup := forall_mem_map.mpr fun p hp => (ih p hp).1
    refine ⟨?_, ?_⟩
    · exact foldlRecOn (motive := fun p : Program => p.owners.Nodup) _ _ nodup_nil fun p hp q _ =>
        nodup_owners_absorb hp q
    · rw [ledger_merge hnodup, map_map]
      exact congrArg _ (map_congr_left fun p hp => (ih p hp).2)

/-- **Programs are merged owner by owner.** -/
theorem merge_laws (ha : Built a la) (hb : Built b lb) (hc : Built c lc) :
    la = a.ledger ∧ la.ids.Nodup ∧ (∀ owner, owner ∈ la.ids ↔ (la.table owner).isSome = true) ∧
      la.ids.map la.table = a.lines.map some ∧
      merge [merge [a, b], c] = merge [a, merge [b, c]] ∧ merge [a, a] = a ∧
      a.lines <+: (merge [a, b]).lines ∧
      (merge [a, b]).statements = a.statements ++ b.statements.filter (·.1 ∉ a.owners) := by
  obtain ⟨hnodup, rfl⟩ := ha.ledger
  have hb := hb.ledger.1
  have hc := hc.ledger.1
  have hmerge : (merge [a, b]).statements = a.statements ++ b.statements.filter (·.1 ∉ a.owners) := by
    rw [merge_pair hnodup, absorb_eq a hb]
  refine ⟨rfl, hnodup, fun _ => Fields.isSome_get?_iff.symm, map_statement? hnodup, ?_, ?_, ?_, hmerge⟩
  · rw [merge_pair hnodup, merge_pair hb, merge_pair (nodup_owners_absorb hnodup b), merge_pair hnodup,
      absorb_assoc a hb hc]
  · rw [merge_pair hnodup, absorb_self hnodup]
  · rw [lines, lines, hmerge, map_append]
    exact prefix_append _ _

theorem merge_laws_overlapping :
    let a := append {} "n1" "x = 1" "x"
    let b := (append {} "n1" "x = 2" "x").append "n2" "y = x" "y"
    merge [merge [a, b], b] = merge [a, merge [b, b]] ∧ (merge [a, b]).lines = ["x = 1", "y = x"] := by
  intro a b
  have ha : Built a _ := .append .empty ..
  have hb : Built b _ := .append (.append .empty ..) ..
  obtain ⟨-, -, -, -, hassoc, -, -, hmerge⟩ := merge_laws ha hb hb
  refine ⟨hassoc, ?_⟩
  rw [lines, hmerge]
  decide

end Program

end Dataflow
