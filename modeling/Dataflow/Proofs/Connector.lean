import Dataflow.Pipe.Lower
import Dataflow.Proofs.Pipe.Meaning
import Dataflow.Proofs.Run

/-!
# What connectors see of the workspace

Sources and sinks see the files of a workspace, and whether the run has been called off.  `Alike` says
of an effect that nothing else counts for what it gives and for the files it leaves; `ReadOnly` says
in addition that it leaves the workspace as it is, and so does what a connector reads.  What a sink
delivers is alike (`alike_deliver`).
-/

namespace Dataflow

open Effect

variable {α β : Type}

/-- The same files, and both called off or neither. -/
structure SameFiles (v v' : Workspace) : Prop where
  files : v.files = v'.files
  cancelled : v.cancelled = v'.cancelled

/-- The effect sees files alone: it gives the same where they are the same, and leaves them the same. -/
def Alike (e : Effect α) : Prop := ∀ v v', SameFiles v v' →
  (e.run.run v).1 = (e.run.run v').1 ∧ SameFiles (e.run.run v).2 (e.run.run v').2

/-- The effect sees files alone and changes nothing. -/
structure ReadOnly (e : Effect α) : Prop where
  alike : Alike e
  leaves : ∀ v, (e.run.run v).2 = v

section Rules

variable {x : Effect α} {f : α → Effect β} {g : Stop → Effect α}

theorem alike_pure (a : α) : Alike (pure a : Effect α) := fun _ _ h => ⟨rfl, h⟩

theorem alike_throw (s : Stop) : Alike (throw s : Effect α) := fun _ _ h => ⟨rfl, h⟩

theorem Alike.exists_run (hx : Alike x) {v v' : Workspace} (h : SameFiles v v') :
    ∃ r u u', x.run.run v = (r, u) ∧ x.run.run v' = (r, u') ∧ SameFiles u u' :=
  ⟨_, _, (x.run.run v').2, rfl, Prod.ext (hx v v' h).1.symm rfl, (hx v v' h).2⟩

theorem Alike.bind (hx : Alike x) (hf : ∀ a, Alike (f a)) : Alike (x >>= f) := by
  intro v v' h
  obtain ⟨s | a, u, u', hv, hv', hsame⟩ := hx.exists_run h
  · rw [run_bind_error hv, run_bind_error hv']
    exact ⟨rfl, hsame⟩
  · rw [run_bind_ok hv, run_bind_ok hv']
    exact hf a u u' hsame

theorem Alike.tryCatch (hx : Alike x) (hg : ∀ s, Alike (g s)) :
    Alike (tryCatch x g) := by
  intro v v' h
  obtain ⟨s | a, u, u', hv, hv', hsame⟩ := hx.exists_run h
  · rw [run_tryCatch_error hv, run_tryCatch_error hv']
    exact hg s u u' hsame
  · rw [run_tryCatch_ok hv, run_tryCatch_ok hv']
    exact ⟨rfl, hsame⟩

theorem readOnly_pure (a : α) : ReadOnly (pure a : Effect α) := ⟨alike_pure a, fun _ => rfl⟩

theorem readOnly_throw (s : Stop) : ReadOnly (throw s : Effect α) := ⟨alike_throw s, fun _ => rfl⟩

theorem ReadOnly.exists_run (hx : ReadOnly x) (v : Workspace) : ∃ r, x.run.run v = (r, v) :=
  ⟨_, Prod.ext rfl (hx.leaves v)⟩

theorem ReadOnly.bind (hx : ReadOnly x) (hf : ∀ a, ReadOnly (f a)) : ReadOnly (x >>= f) := by
  refine ⟨hx.alike.bind fun a => (hf a).alike, fun v => ?_⟩
  obtain ⟨s | a, hv⟩ := hx.exists_run v
  · rw [run_bind_error hv]
  · rw [run_bind_ok hv]
    exact (hf a).leaves v

theorem ReadOnly.tryCatch (hx : ReadOnly x) (hg : ∀ s, ReadOnly (g s)) :
    ReadOnly (tryCatch x g) := by
  refine ⟨hx.alike.tryCatch fun s => (hg s).alike, fun v => ?_⟩
  obtain ⟨s | a, hv⟩ := hx.exists_run v
  · rw [run_tryCatch_error hv]
    exact (hg s).leaves v
  · rw [run_tryCatch_ok hv]

end Rules

namespace Effect

theorem readOnly_ofOutcome (o : Outcome α) : ReadOnly (ofOutcome o) := by
  cases o with
  | ok a => exact readOnly_pure a
  | error s => exact readOnly_throw s

theorem readOnly_ofExcept (e : Except Failure α) : ReadOnly (ofExcept e) := readOnly_ofOutcome _

theorem readOnly_checkpoint : ReadOnly checkpoint := by
  unfold checkpoint
  refine ⟨fun v v' h => ?_, fun v => ?_⟩
  · rw [run_get_bind, run_get_bind, h.cancelled]
    cases v'.cancelled <;> exact ⟨rfl, h⟩
  · rw [run_get_bind]
    cases v.cancelled <;> rfl

theorem alike_print (t : Text) : Alike (print t) := fun _ _ h => ⟨rfl, h.files, h.cancelled⟩

theorem alike_log (e : LogEntry) : Alike (log e) := fun _ _ h => ⟨rfl, h.files, h.cancelled⟩

theorem readOnly_mapFailure {e : Effect α} (h : ReadOnly e) (g : Failure → Failure) : ReadOnly (mapFailure g e) := by
  refine h.tryCatch fun s => ?_
  cases s with
  | failure f | crash => exact readOnly_throw _

end Effect

namespace Connector

/-! ### Reading -/

section

variable (l : Location)

theorem readOnly_openFile : ReadOnly (openFile l) := by
  unfold openFile
  refine readOnly_checkpoint.bind fun _ => ⟨fun v v' h => ?_, fun v => ?_⟩
  · rw [run_get_bind, run_get_bind, h.files]
    exact (readOnly_ofExcept _).alike v v' h
  · rw [run_get_bind]
    exact (readOnly_ofExcept _).leaves v

theorem readOnly_csvRows : ReadOnly (csvRows l) := by
  unfold csvRows
  refine (readOnly_openFile l).bind fun entry => (readOnly_ofExcept _).bind fun t => ?_
  split
  · exact readOnly_pure _
  · exact readOnly_throw _
  · exact readOnly_pure _

theorem readOnly_jsonlValues : ReadOnly (jsonlValues l) := by
  unfold jsonlValues
  refine (readOnly_openFile l).bind fun entry => ?_
  split
  · exact readOnly_pure _
  · exact readOnly_pure _

theorem readOnly_readTable (chunk : Int) : ReadOnly (readTable l chunk) := by
  unfold readTable
  refine (readOnly_openFile l).bind fun entry => ?_
  split
  · split
    · exact readOnly_pure _
    · exact readOnly_throw _
  · split
    · exact readOnly_mapFailure (readOnly_ofOutcome _) _
    · exact readOnly_throw _
  · exact readOnly_throw _

/-! ### Writing -/

theorem alike_createFile (s : Stored) : Alike (createFile l s) := by
  intro v v' h
  unfold createFile
  rw [run_get_bind, run_get_bind, h.files]
  cases v'.files.write l.path s with
  | ok files => exact ⟨rfl, rfl, h.cancelled⟩
  | error f => exact ⟨rfl, h⟩

theorem alike_writeLines (passed held : Text) (vs : List Value) :
    Alike (writeLines l passed held vs) := by
  induction vs generalizing passed held with
  | nil => exact alike_createFile l _
  | cons v vs ih =>
    unfold writeLines
    refine readOnly_checkpoint.alike.bind fun _ => ?_
    split
    · exact alike_throw _
    · exact (alike_createFile l _).bind fun _ => ih _ _

theorem alike_writeFrame (f : Frame) : Alike (writeFrame l f) := by
  unfold writeFrame
  refine readOnly_checkpoint.alike.bind fun _ => ?_
  split
  · exact alike_createFile l _
  · exact alike_createFile l _
  · exact (alike_createFile l _).bind fun _ => alike_throw _

theorem alike_write (vs : List Value) : Alike (write l vs) := by
  unfold write
  split
  · exact alike_throw _
  · exact (alike_createFile l _).bind fun _ => (alike_writeLines l _ _ vs).bind fun _ => alike_pure _
  · exact (readOnly_ofOutcome _).alike.bind fun f => (alike_writeFrame l f).bind fun _ => alike_pure _

end

end Connector

/-- The workspaces with the same files, in a run that has not been called off. -/
def Surroundings.files (w : Workspace) : Surroundings where
  Holds v := v.files = w.files ∧ v.cancelled = false
  live _ h := h.2

theorem ReadOnly.steady {e : Effect α} (h : ReadOnly e) {w : Workspace} (hw : w.cancelled = false) :
    Steady (.files w) w e := by
  intro v hv
  refine ⟨(h.alike v w ⟨hv.1, hv.2.trans hw.symm⟩).1, ?_⟩
  rw [h.leaves v]
  exact hv

namespace Streaming

theorem alike_store (n : Node) (uri : Text) (vs : List Value) : Alike (store n uri vs) := by
  unfold store
  refine Alike.tryCatch ((Connector.alike_write _ vs).bind fun _ => alike_pure _) fun s => ?_
  cases s with
  | failure f =>
    simp only
    split
    · exact alike_throw _
    · exact alike_log _
  | crash => exact alike_throw _

/-- A delivery sees nothing of the workspace but files. -/
theorem alike_deliver (o : Options) (n : Node) (uri : Text) (vs : List Value) :
    Alike (deliver o n uri vs) := by
  have hecho : Alike (if o.echo then printAll vs else pure () : Effect Unit) := by
    split
    · exact alike_print _
    · exact alike_pure _
  unfold deliver
  split
  · exact alike_print _
  · dsimp only
    split
    · exact hecho
    · exact (alike_store n uri vs).bind fun _ => hecho

end Streaming

end Dataflow
