import Dataflow.Proofs.Compile.Walk
import Dataflow.Proofs.Connector

/-!
# The effects of flows

All effects of a flow that the streaming backend makes see nothing of the workspace but its files, and
all but the deliveries of sinks leave them alone (`seesFiles_of_compile`).  So passes of a flow give the
same each time, unless a sink inside the flow changes a file (`SeesFiles.repeatable`).
-/

namespace Dataflow

open List

variable {w : Workspace} {x : Flow}

namespace Pipe

/-- A stage that starts afresh, reads nothing but files, and at most delivers. -/
def SeesFilesAt : Pipe → Prop
  | feed load => ReadOnly load
  | deferred load => ReadOnly load
  | gather _ f => ∀ vs, Alike (f vs)
  | buffer _ size => size ≤ maxBuffer
  | shared _ => False
  | _ => True

def SeesFiles (p : Pipe) : Prop := p.Every SeesFilesAt

/-- A delivery that leaves the files alone and does not call the run off. -/
def QuietAt (w : Workspace) : Pipe → Prop
  | gather _ f => ∀ vs, SameFiles ((f vs).run.run w).2 w
  | _ => True

/-- No delivery inside the pipeline changes the files. -/
def Quiet (w : Workspace) (p : Pipe) : Prop := p.Every (QuietAt w)

theorem SeesFiles.repeatable {p : Pipe} (h : p.SeesFiles) (hquiet : p.Quiet w)
    (hw : w.cancelled = false) : p.Repeatable (.files w) w := by
  refine Every.imp₂ (fun q hsees hquiet => ?_) h hquiet
  cases q with
  | feed load | deferred load => exact hsees.steady hw
  | gather p f =>
    intro vs v hv
    obtain ⟨hresult, hsame⟩ := hsees vs v w ⟨hv.1, hv.2.trans hw.symm⟩
    refine ⟨hresult, hsame.files.trans (hquiet vs).files, ?_⟩
    rw [hsame.cancelled, (hquiet vs).cancelled, hw]
  | shared n => exact hsees.elim
  | observed name p | tap p f => exact fun v n hv => hv
  | buffer p size => exact hsees
  | _ => trivial

end Pipe

namespace Flow

/-- Every run gives the same, whatever the surroundings: the pass does, and so does the delivery at its
end. -/
def Repeatable (I : Surroundings) (w : Workspace) : Flow → Prop
  | pipe p => p.Repeatable I w
  | sink p deliver => p.Repeatable I w ∧
    ∀ vs v, I.Holds v → ((deliver vs).run.run v).1 = ((deliver vs).run.run w).1

def SeesFiles : Flow → Prop
  | pipe p => p.SeesFiles
  | sink p deliver => p.SeesFiles ∧ ∀ vs, Alike (deliver vs)

/-- No sink inside the flow changes the files. -/
def Quiet (w : Workspace) : Flow → Prop
  | pipe p | sink p _ => p.Quiet w

theorem SeesFiles.input (h : x.SeesFiles) : x.input.SeesFiles := by
  cases x with
  | pipe p => exact h
  | sink p deliver => exact ⟨fun vs => (h.2 vs).bind fun _ => alike_pure vs, h.1⟩

theorem SeesFiles.repeatable (h : x.SeesFiles) (hquiet : x.Quiet w)
    (hw : w.cancelled = false) : x.Repeatable (.files w) w := by
  cases x with
  | pipe p => exact Pipe.SeesFiles.repeatable h hquiet hw
  | sink p deliver =>
    refine ⟨Pipe.SeesFiles.repeatable h.1 hquiet hw, fun vs v hv => ?_⟩
    exact (h.2 vs v w ⟨hv.1, hv.2.trans hw.symm⟩).1

end Flow

namespace Streaming

open Backend

theorem seesFiles_source (uri : Text) (config : Row) : (Connector.source uri config).SeesFiles := by
  unfold Connector.source
  simp only
  split
  · exact Connector.readOnly_csvRows _
  · exact Connector.readOnly_jsonlValues _
  · have hrows : ReadOnly (Connector.readRows (Location.parse uri)) :=
      (Connector.readOnly_readTable _ 0).bind fun f => readOnly_pure _
    exact hrows.bind fun rs => readOnly_pure _
  · split
    · exact trivial
    · split
      · exact trivial
      · exact readOnly_pure _

theorem seesFiles_concat {ps : List Pipe} (h : ∀ p ∈ ps, p.SeesFiles) : (Pipe.concat ps).SeesFiles := by
  induction ps with
  | nil => trivial
  | cons p ps ih =>
    exact ⟨trivial, h p mem_cons_self, ih fun q hq => h q (mem_cons_of_mem p hq)⟩

theorem seesFiles_parallel {p : Pipe} (h : p.SeesFiles) (workers : Int) (f : Value → Outcome Value) :
    (p.parallel workers f).SeesFiles := by
  unfold Pipe.parallel
  split <;> exact ⟨trivial, h⟩

theorem runs_ofOutcome_bind {α β : Type} {o : Outcome α} {f : α → Effect β}
    {Q : β → Workspace → Prop} (h : ∀ a, Runs (f a) w Q fun _ _ => True) :
    Runs (Effect.ofOutcome o >>= f) w Q fun _ _ => True := by
  cases o with
  | ok a => exact h a
  | error s => exact runs_throw trivial

theorem seesFiles_custom (n : Node) (hx : x.SeesFiles) (w : Workspace) :
    Runs (custom n x) w (fun y _ => y.SeesFiles) fun _ _ => True := by
  unfold custom
  refine runs_ofOutcome_bind fun kind => ?_
  split
  · exact hx
  · refine runs_ofOutcome_bind fun params => ?_
    exact ⟨fun vs => (Effect.readOnly_ofOutcome _).alike, hx.input⟩

theorem passes_seesFiles (lib : Library) (o : Options) : Passes Flow.SeesFiles (lower lib o) := by
  intro n xs w hxs
  unfold lower
  by_cases hsource : n.op = .source
  · simp only [hsource, if_true]
    exact runs_ofOutcome_bind fun uri => seesFiles_source uri n.config
  simp only [hsource, if_false]
  cases xs with
  | nil => trivial
  | cons x xs =>
    have hx : x.input.SeesFiles := (hxs x mem_cons_self).input
    have hrest : ∀ y ∈ xs, y.input.SeesFiles := fun y hy => (hxs y (mem_cons_of_mem x hy)).input
    cases hop : n.op with
    | source => exact absurd hop hsource
    | map =>
      refine runs_ofOutcome_bind fun f => ?_
      cases f with
      | none => exact hx
      | some f => exact seesFiles_parallel hx o.workers _
    | filter =>
      refine runs_ofOutcome_bind fun f => ?_
      cases f with
      | none => exact hx
      | some f => exact ⟨trivial, hx⟩
    | window =>
      simp only
      split
      · trivial
      · exact ⟨trivial, hx⟩
    | reduce =>
      refine runs_ofOutcome_bind fun f => ?_
      split
      · exact hx
      · exact ⟨trivial, hx⟩
    | join =>
      cases xs with
      | nil => trivial
      | cons y ys =>
        exact runs_ofOutcome_bind fun on => ⟨trivial, hx, hrest y mem_cons_self⟩
    | union | merge =>
      refine seesFiles_concat fun p hp => ?_
      rcases mem_cons.mp hp with rfl | hp
      · exact hx
      · obtain ⟨y, hy, rfl⟩ := mem_map.mp hp
        exact hrest y hy
    | choice | ensemble =>
      cases xs with
      | nil => exact hx
      | cons y ys => exact ⟨trivial, hx, hrest y mem_cons_self⟩
    | custom => exact seesFiles_custom n (hxs x mem_cons_self) w
    | sink => exact runs_ofOutcome_bind fun uri => ⟨hx, alike_deliver o n uri⟩
    | other => exact hx

/-- **Every flow of the streaming backend sees nothing of the workspace but files.** -/
theorem seesFiles_of_compile {lib : Library} {o : Options} {g : Graph}
    {ts : List (Text × Flow)} (h : ((backend lib o).compile g w).1 = .ok ts) :
    ∀ t ∈ ts, t.2.SeesFiles :=
  ((passes_seesFiles lib o).branching name fun _ s => s).compile h

end Streaming

end Dataflow
