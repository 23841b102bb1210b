import Dataflow.Proofs.Compile.Correspondence
import Dataflow.Proofs.Pipe.Batches
import Dataflow.Proofs.Pipe.Stages
import Dataflow.Proofs.Session.Operation
import Dataflow.Proofs.Streaming.Effects

/-!
# Workers

With several workers the maps of the streaming backend work in batches, and all else is compiled
alike: the compilations with one worker and with many correspond, with `Flow.batching` between their
flows (`corresponds_batching`).  So what is known of batches in pipelines carries over to the runs of a
compiled graph.

Main statement (`run_workers`): the number of workers is not seen in a run, unless a choice or an
ensemble after a map sees how far the map got before a failure.  The functions of a library are pure;
effects are only those of connectors, which leave the files as they are unless a sink writes them.
-/

namespace Dataflow

open Pipe

variable {I : Surroundings} {workers : Int}

namespace Flow

def batching (size : Nat) : Flow → Flow
  | pipe p => pipe (p.batching size)
  | sink p deliver => sink (p.batching size) deliver

theorem input_batching (size : Nat) (x : Flow) : (x.batching size).input = x.input.batching size := by
  cases x <;> rfl

def Orderly (w : Workspace) : Flow → Prop
  | pipe p | sink p _ => p.Orderly w

/-- Both runs succeed with the same values, or both fail. -/
def Agree (r r' : Outcome (List Value × Option Failure)) : Prop :=
  r = r' ∨ ∃ vs f vs' f', r = .ok (vs, some f) ∧ r' = .ok (vs', some f')

/-- What becomes of the values of a sink when they are delivered. -/
def delivered (vs : List Value) : Outcome Unit → Outcome (List Value × Option Failure)
  | .ok () => .ok (vs, none)
  | .error (.failure f) => .ok ([], some f)
  | .error .crash => .error .crash

section Run

variable {p : Pipe} {deliver : List Value → Effect Unit} {limit : Nat} {w w' : Workspace}
  {vs : List Value}

theorem run_sink (h : (p.collected limit).run.run w = (.ok (vs, none), w')) :
    (((sink p deliver).run limit).run.run w).1 = delivered vs ((deliver vs).run.run w').1 := by
  rw [run, run_bind_ok h]
  rcases hd : (deliver vs).run.run w' with ⟨s | _, w''⟩
  · have hbind : (do deliver vs; return (vs, none) : Effect (List Value × Option Failure)).run.run w' =
        (.error s, w'') := run_bind_error hd
    simp only [run_tryCatch_error hbind]
    cases s <;> rfl
  · have hbind : (do deliver vs; return (vs, none) : Effect (List Value × Option Failure)).run.run w' =
        (.ok (vs, none), w'') := by
      rw [run_bind_ok hd]
      rfl
    simp only [run_tryCatch_ok hbind]
    rfl

theorem run_sink_failed {f : Failure} (h : (p.collected limit).run.run w = (.ok (vs, some f), w')) :
    (((sink p deliver).run limit).run.run w).1 = .ok ([], some f) := by
  rw [run, run_bind_ok h]
  rfl

end Run

/-- The passes of an orderly pipeline with and without batches: they give the same values and no
failure, or both come to a failure. -/
theorem exists_collected_batching {w : Workspace} {p : Pipe} {size : Nat}
    (hw : I.Holds w) (hrepeats : p.Repeatable I w) (horderly : p.Orderly w) (hsize : size ≠ 0)
    (hmax : size ≤ maxBatch) :
    ∃ bound, ∀ limit, bound ≤ limit → ∃ v v', I.Holds v ∧ I.Holds v' ∧
      ((∃ vs, (p.collected limit).run.run w = (.ok (vs, none), v) ∧
          ((p.batching size).collected limit).run.run w = (.ok (vs, none), v')) ∨
        ∃ vs f vs' f', (p.collected limit).run.run w = (.ok (vs, some f), v) ∧
          ((p.batching size).collected limit).run.run w = (.ok (vs', some f'), v')) := by
  have hcurtails := horderly.curtails hsize hmax
  have hcrash := horderly.here.1
  obtain ⟨b, hb⟩ := hrepeats.denotes.collected
  obtain ⟨b', hb'⟩ := (hrepeats.batching size).denotes.collected
  refine ⟨max b b', fun limit hlimit => ?_⟩
  obtain ⟨v, hv, hrun⟩ := hb limit (by omega) w hw
  obtain ⟨v', hv', hrun'⟩ := hb' limit (by omega) w hw
  refine ⟨v, v', hv, hv', ?_⟩
  by_cases hstop : (p.meaning w).stop = none
  · rw [hcurtails.eq_of_stop hstop] at hrun'
    simp only [Meaning.outcome, Meaning.ending, hstop] at hrun hrun'
    exact .inl ⟨_, hrun, hrun'⟩
  · obtain ⟨f, hf⟩ : (p.meaning w).Fails := Meaning.fails_iff.mpr ⟨hstop, hcrash⟩
    obtain ⟨f', hf'⟩ := hcurtails.fails ⟨f, hf⟩
    simp only [Meaning.outcome, Meaning.ending, hf, hf'] at hrun hrun'
    exact .inr ⟨_, f, _, f', hrun, hrun'⟩

/-- **Batches do not change the outcome** of a flow that is repeatable and orderly. -/
theorem run_batching {w : Workspace} {x : Flow} {size : Nat} (hw : I.Holds w)
    (hrepeats : x.Repeatable I w) (horderly : x.Orderly w) (hsize : size ≠ 0)
    (hmax : size ≤ maxBatch) : ∃ bound, ∀ limit, bound ≤ limit →
      Agree ((x.run limit).run.run w).1 (((x.batching size).run limit).run.run w).1 := by
  cases x with
  | pipe p =>
    obtain ⟨b, hb⟩ := exists_collected_batching hw hrepeats horderly hsize hmax
    refine ⟨b, fun limit hlimit => ?_⟩
    obtain ⟨v, v', -, -, ⟨vs, hrun, hrun'⟩ | ⟨vs, f, vs', f', hrun, hrun'⟩⟩ := hb limit hlimit
    · exact .inl (by simp only [run, batching, hrun, hrun'])
    · exact .inr ⟨vs, f, vs', f', congrArg Prod.fst hrun, congrArg Prod.fst hrun'⟩
  | sink p deliver =>
    obtain ⟨b, hb⟩ := exists_collected_batching hw hrepeats.1 horderly hsize hmax
    refine ⟨b, fun limit hlimit => ?_⟩
    obtain ⟨v, v', hv, hv', ⟨vs, hrun, hrun'⟩ | ⟨vs, f, vs', f', hrun, hrun'⟩⟩ := hb limit hlimit
    · refine .inl ?_
      rw [batching, run_sink hrun, run_sink hrun', hrepeats.2 vs v hv, hrepeats.2 vs v' hv']
    · exact .inr ⟨[], f, [], f', run_sink_failed hrun, run_sink_failed hrun'⟩

end Flow

namespace Streaming

theorem concat_batching (size : Nat) (ps : List Pipe) :
    (concat ps).batching size = concat (ps.map (batching size)) := by
  induction ps with
  | nil => rfl
  | cons p ps ih => simp only [concat, batching, ih, List.map_cons]

/-- A map for many workers is a map for one in batches. -/
theorem parallel_batching (hworkers : 1 < workers) (p : Pipe) (f : Value → Outcome Value) :
    (p.batching workers.toNat).parallel workers f = (p.parallel 1 f).batching workers.toNat := by
  unfold parallel
  rw [if_neg (by omega), if_pos (by omega)]
  rfl

theorem source_batching (size : Nat) (uri : Text) (config : Row) :
    (Connector.source uri config).batching size = Connector.source uri config := by
  unfold Connector.source
  simp only
  split
  · rfl
  · rfl
  · rfl
  · split
    · rfl
    · split <;> rfl

theorem custom_batching (size : Nat) (n : Node) (x : Flow) :
    custom n (x.batching size) = Flow.batching size <$> custom n x := by
  unfold custom
  rw [map_bind]
  refine bind_congr fun kind => ?_
  cases Indicator.lookup? kind with
  | none => rw [map_bind]; rfl
  | some k =>
    rw [map_bind]
    refine bind_congr fun params => ?_
    simp only [Flow.input_batching]
    rfl

theorem lower_batching (lib : Library) (o : Options) (hworkers : 1 < workers) (n : Node)
    (xs : List Flow) :
    lower lib { o with workers := workers } n (xs.map (Flow.batching workers.toNat)) =
      Flow.batching workers.toNat <$> lower lib { o with workers := 1 } n xs := by
  unfold lower
  by_cases hsource : n.op = .source
  · simp only [hsource, if_true, map_bind]
    refine bind_congr fun uri => ?_
    simp only [map_pure, Flow.batching, source_batching]
  simp only [hsource, if_false]
  cases xs with
  | nil => rfl
  | cons x xs =>
    simp only [List.map_cons, Flow.input_batching]
    have hinputs : (xs.map (Flow.batching workers.toNat)).map Flow.input =
        (xs.map Flow.input).map (batching workers.toNat) := by
      simp [Function.comp_def, Flow.input_batching]
    cases hop : n.op with
    | source => exact absurd hop hsource
    | map =>
      simp only [map_bind]
      refine bind_congr fun f => ?_
      cases f with
      | none => rfl
      | some f =>
        simp only [map_pure, Flow.batching, parallel_batching hworkers]
    | filter =>
      simp only [map_bind]
      refine bind_congr fun f => ?_
      cases f <;> rfl
    | window =>
      simp only
      split <;> rfl
    | reduce =>
      simp only [map_bind]
      refine bind_congr fun f => ?_
      cases f.bind FoldFunc.code <;> rfl
    | join =>
      cases xs with
      | nil => rfl
      | cons y ys =>
        simp only [List.map_cons, map_bind, Flow.input_batching]
        rfl
    | union | merge => simp only [map_pure, Flow.batching, concat_batching, List.map_cons, hinputs]
    | choice | ensemble =>
      cases xs with
      | nil => rfl
      | cons y ys =>
        simp only [List.map_cons, Flow.input_batching]
        rfl
    | custom => exact custom_batching _ n x
    | sink =>
      simp only [map_bind]
      rfl
    | other => rfl

theorem corresponds_batching (lib : Library) (o : Options) (hworkers : 1 < workers) :
    Backend.Corresponds (Flow.batching workers.toNat) (backend lib { o with workers := 1 })
      (backend lib { o with workers := workers }) :=
  Backend.corresponds_branching name _ (lower_batching lib o hworkers)

/-- **The number of workers is not seen**, with the exceptions that `Orderly` names.  Compiling a graph
fails alike, or gives flows for the same targets.  Runs of two such flows agree if the flow is repeatable
and orderly; and it is repeatable if no sink inside it changes the files. -/
theorem run_workers (lib : Library) (o : Options) (workers : Int) (hworkers : 1 ≤ workers)
    (hmax : workers ≤ Pipe.maxBatch) (g : Graph) (w : Workspace) :
    (∃ s, ((backend lib { o with workers := 1 }).compile g w).1 = .error s ∧
      ((backend lib { o with workers := workers }).compile g w).1 = .error s) ∨
    ∃ ts ts', ((backend lib { o with workers := 1 }).compile g w).1 = .ok ts ∧
      ((backend lib { o with workers := workers }).compile g w).1 = .ok ts' ∧
      List.Forall₂ (fun t t' => t.1 = t'.1 ∧
        (∀ v : Workspace, v.cancelled = false → t.2.Quiet v → t.2.Repeatable (.files v) v) ∧
        ∀ (I : Surroundings) v, I.Holds v → t.2.Repeatable I v → t.2.Orderly v →
          ∃ bound, ∀ limit, bound ≤ limit →
            Flow.Agree ((t.2.run limit).run.run v).1 ((t'.2.run limit).run.run v).1) ts ts' := by
  have hcases : workers = 1 ∨ 1 < workers := by omega
  cases hcompile : ((backend lib { o with workers := 1 }).compile g w).1 with
  | error s =>
    refine .inl ⟨s, rfl, ?_⟩
    rcases hcases with rfl | hmany
    · exact hcompile
    · rw [(corresponds_batching lib o hmany).compile_eq g w, hcompile]
      rfl
  | ok ts =>
    have hrepeats : ∀ t ∈ ts, ∀ v : Workspace, v.cancelled = false → t.2.Quiet v →
        t.2.Repeatable (.files v) v :=
      fun t ht v hv hquiet => (seesFiles_of_compile hcompile t ht).repeatable hquiet hv
    rcases hcases with rfl | hmany
    · refine .inr ⟨ts, ts, rfl, hcompile, List.forall₂_same.mpr fun t ht => ⟨rfl, hrepeats t ht, ?_⟩⟩
      exact fun _ _ _ _ _ => ⟨0, fun _ _ => .inl rfl⟩
    · refine .inr ⟨ts, ts.map (Prod.map id (Flow.batching workers.toNat)), rfl, ?_, ?_⟩
      · rw [(corresponds_batching lib o hmany).compile_eq g w, hcompile]
        rfl
      · rw [List.forall₂_map_right_iff]
        refine List.forall₂_same.mpr fun t ht => ⟨rfl, hrepeats t ht, ?_⟩
        exact fun I v hv hrepeats horderly =>
          Flow.run_batching hv hrepeats horderly (by omega) (by omega)

/-- A library whose function refuses one value. -/
def picky : Library where
  apply _ v := match v with
    | .bool false => .error (.plain "refused")
    | v => .ok v
  fold _ _ v := .ok v

def checked : Func := ⟨"checked", "", some (.supplied 0)⟩

/-- Mapped lines of a file, with a choice and an ensemble on the way to another file. -/
def relay : Graph := .ofNodes "g"
  [{ id := "a", op := .source, config := [("uri", .text "in.jsonl")] },
   { id := "b", op := .map, parents := ["a"], config := [("fn", .func checked)] },
   { id := "c", op := .source, config := [("data", .list [.null]), ("uri", .text "memory://")] },
   { id := "d", op := .choice, parents := ["b", "c"] },
   { id := "e", op := .ensemble, parents := ["d", "b"] },
   { id := "f", op := .sink, parents := ["e"], config := [("uri", .text "out.jsonl")] }]

/-- The lines and the map of the relay, with one worker. -/
def relayMap : Pipe :=
  .map (.feed (Connector.jsonlValues (Location.parse "in.jsonl"))) fun v =>
    atNode { id := "b", op := .map, parents := ["a"], config := [("fn", .func checked)] }
      (checked.call picky v)

def relayFlow : Flow :=
  .sink (.zip (.fallback relayMap (.items [.null])) relayMap fun l r => .list [l, r])
    (deliver {} { id := "f", op := .sink, parents := ["e"], config := [("uri", .text "out.jsonl")] }
      "out.jsonl")

def lines : Workspace := { files := .ofList [("in.jsonl", "true\nnull\n")] }

theorem orderly_relayFlow : relayFlow.Orderly lines := by
  have hlines : (feed (Connector.jsonlValues (Location.parse "in.jsonl"))).meaning lines =
      ⟨[.bool true, .null], none⟩ := rfl
  have hmap : relayMap.meaning lines = ⟨[.bool true, .null], none⟩ := by
    rw [relayMap, meaning, hlines]
    rfl
  have hchoice : (fallback relayMap (.items [.null])).meaning lines =
      ⟨[.bool true, .null], none⟩ := by
    rw [meaning, hmap]
    rfl
  have hzip : ((zip (.fallback relayMap (.items [.null])) relayMap
      fun l r => .list [l, r]).meaning lines).stop = none := by
    rw [meaning, hchoice, hmap]
    rfl
  have horderly : relayMap.Orderly lines := by
    refine ⟨⟨?_, trivial⟩, ?_, trivial⟩
    · rw [← relayMap, hmap]
      simp
    · simp [hlines]
  refine ⟨⟨?_, fun _ => ⟨.inr ?_, .inr ?_⟩⟩, ⟨⟨?_, .inr (.inr ?_)⟩, horderly, ?_, trivial⟩, horderly⟩
  · simp [hzip]
  · rw [hchoice]
  · rw [hmap]
  · simp [hchoice]
  · rw [hmap]
  · simp [meaning, Meaning.ofList]

theorem run_workers_relay :
    ((backend picky {}).compile relay {}).1 = .ok [("f", relayFlow)] ∧ relayFlow.Quiet lines ∧
      relayFlow.Orderly lines ∧
      ∃ x, ((backend picky { workers := 4 }).compile relay {}).1 = .ok [("f", x)] ∧
        ∃ bound, ∀ limit, bound ≤ limit →
          Flow.Agree ((relayFlow.run limit).run.run lines).1 ((x.run limit).run.run lines).1 := by
  have hcompile : ((backend picky {}).compile relay {}).1 = .ok [("f", relayFlow)] := by with_unfolding_all rfl
  have hquiet : relayFlow.Quiet lines := by
    simp [relayFlow, relayMap, Flow.Quiet, Pipe.Quiet, Pipe.Every, Pipe.QuietAt]
  refine ⟨hcompile, hquiet, orderly_relayFlow, ?_⟩
  rcases run_workers picky {} 4 (by decide) (by decide) relay {} with
    ⟨s, hfail, -⟩ | ⟨ts, ts', hts, hts', hall⟩
  · rw [hcompile] at hfail
    cases hfail
  · rw [hcompile] at hts
    cases hts
    cases hall with
    | @cons _ t' _ _ ht hrest =>
      cases hrest
      obtain ⟨hid, hrepeats, hagree⟩ := ht
      have hid : t'.1 = "f" := hid.symm
      refine ⟨t'.2, ?_, hagree (.files lines) lines ⟨rfl, rfl⟩ (hrepeats lines rfl hquiet) orderly_relayFlow⟩
      rw [hts', ← hid]

/-- Mapped values meet others, by an operator, on the way to a sink. -/
def meeting (op : Op) (vs : List Value) : Graph :=
  (Session.run {} [.fromItems [.bool true, .bool false], .bind (.map checked) 0, .fromItems vs,
    .combineWith op 1 2, .bind (.sink "memory") 3]).view 4

/-- What the runs of all flows of a graph give. -/
def outcomes (g : Graph) (workers : Int) : List (Outcome (List Value × Option Failure)) :=
  match ((backend picky { workers }).compile g {}).1 with
  | .ok ts => ts.map fun t => ((t.2.run 20).run.run {}).1
  | .error _ => []

def refused : Failure := (Failure.plain "refused").atNode name "00000003000040008000000000000000"

/-- Two workers are seen: a choice makes good a failure that it could not with one, since the value
before it is not given; and an ensemble comes to a failure that it did not with one. -/
theorem workers_seen :
    outcomes (meeting .choice [.null]) 1 = [.ok ([], some refused)] ∧
      outcomes (meeting .choice [.null]) 2 = [.ok ([.null], none)] ∧
      outcomes (meeting .ensemble []) 1 = [.ok ([], none)] ∧
      outcomes (meeting .ensemble []) 2 = [.ok ([], some refused)] := by
  refine ⟨?_, ?_, ?_, ?_⟩ <;> with_unfolding_all rfl

end Streaming

end Dataflow
