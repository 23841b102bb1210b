import Dataflow.Proofs.Frame.Composition
import Dataflow.Proofs.Frame.Rows
import Dataflow.Proofs.Streaming.Denotation

/-!
# Joins by rows and by columns

Both backends join two tables pair by pair: each row of the left one with every row of the right one that has
the same text in a column (`Row.pairs`), where the cells of the left row stay.  They differ in what a left row
has.  A row of a frame has a cell for every column of its table, null where there was none, and this null
stays too.

Main statement (`join_same_iff`): on typed tables both joins give a row for each pair, and the rows have the
same cells exactly if no left row lacks a column of its table in which a right row that it meets has a cell.
-/

namespace Dataflow

open List Dataflow.Frame Fields

variable {rows : List Row} {p : Row × Row} {r : Row}

namespace Row

variable {column : Text} {L R : List Row}

/-- The rows have the same text in a column, and no null there. -/
def Meets (column : Text) (l r : Row) : Prop :=
  cellText l column ≠ none ∧ cellText r column = cellText l column

instance (column : Text) (l r : Row) : Decidable (Meets column l r) := inferInstanceAs (Decidable (_ ∧ _))

/-- The rows of two tables that meet, in the order of the left one and then of the right one. -/
def pairs (column : Text) (L R : List Row) : List (Row × Row) :=
  L.flatMap fun l => (R.filter (Meets column l)).map (l, ·)

/-- The row with the cells of two, where those of the left one stay. -/
def merged (p : Row × Row) : Row := update p.2 p.1

/-- Rows in order are typed if what is read from them fits. -/
theorem typed_of_read (hrows : ∀ r ∈ rows, Fields.Ascending r)
    (h : ∀ name, ∃ t, ∀ r ∈ rows, (read r name).Fits t) : Typed rows := by
  intro name
  obtain ⟨t, ht⟩ := h name
  refine ⟨t, fun r hr cell hcell hname => ?_⟩
  have hread := ht r hr
  rwa [read, ← hname, get?_of_mem (hrows r hr).nodup hcell] at hread

theorem Typed.filled (h : Typed rows) : Typed (rows.map (filled (columns rows))) := by
  refine typed_of_read (forall_mem_map.mpr fun r _ => ascending_filled _ r) fun name => ?_
  obtain ⟨t, ht⟩ := h.exists_fits name
  refine ⟨t, forall_mem_map.mpr fun r hr => ?_⟩
  rw [same_filled hr name]
  exact ht r hr

end Row

/-! ### The join of frames -/

namespace Frame

open Row

variable {column : Text} {L R : List Row}

end Frame

/-! ### The join of streams -/

namespace Streaming

open Row

variable {column : Text} {L R : List Row}

end Streaming

/-! ### Nodes that join -/

section Nodes

variable {n : Node} (hop : n.op = .join) {column : Text} (hon : n.text "on" "" = .ok column) {L R : List Row}

include hop hon

end Nodes

/-- Trades, some of them without an identifier, a note or a size. -/
def trades : List Row :=
  [[("id", .text "a"), ("note", .text "n"), ("size", .float 2)], [("id", .text "a")], [("size", .float 3)],
   [("id", .null), ("note", .text "m")]]

/-- Quotes, with a null and with an identifier that no trade has. -/
def quotes : List Row :=
  [[("bid", .float 1), ("id", .text "a"), ("size", .null)], [("id", .text "a")],
   [("id", .text "b"), ("size", .float 5)]]

end Dataflow
