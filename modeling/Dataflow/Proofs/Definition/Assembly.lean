import Dataflow.Proofs.Definition.Parts
import Dataflow.Proofs.Session.Records

/-!
# Building definitions

`Holds` is what holds while definitions are built: the graphs have the nodes of the parts that are finished
and those of the definitions under way, and under the name of a finished definition its stream is kept.
`runs_assemble`: building a definition leaves a part of it, and of all it includes; it fails only where the
includes return to a definition under way, or where a definition is at fault itself (`Fault`).  This takes
that definitions with the same name are the same.
-/

namespace Dataflow.Definition

open List

open Relation (TransGen)
open Session (Records Adds)

variable {acc : Option Nat} {merges : List Node} {E : Stop → Session → Prop}
  {steps : List (DefinitionStep × Nat)}

def stepFailure (i : Nat) (f : Failure) : Failure :=
  match f.report? with
  | some r => r.withDetail "step" (.text (stepField i "op"))
  | none => f

/-- The failure where includes return to a definition; the names of those passed, and its own. -/
def circular (path : List Definition) (d : Definition) : Failure :=
  Failure.malformedGraph ("circular include: " ++ Text.join " -> " (path.map name ++ [d.name]))

/-- What can be wrong with a definition itself. -/
inductive Fault (fs : Functions) (l : Loader) (d : Definition) : Stop → Prop
  | missing {name : Text} {f : Failure} (hname : name ∈ d.includes) (h : l.load name = .error f) :
      Fault fs l d (.failure f)
  | unfed (horigin : d.origin? = none) (h : d.includes = []) :
      Fault fs l d (.failure (Failure.invalidInput "source" ("definition " ++ d.name ++ " has no source")))
  | step {s : DefinitionStep} {i : Nat} {f : Failure} (hs : (s, i) ∈ d.steps.zipIdx)
      (h : s.operator fs = .error f) : Fault fs l d (.failure (stepFailure i f))

/-- Includes return to a definition that they came through, or lead to one that is at fault. -/
def Fails (fs : Functions) (l : Loader) (root : Definition) (e : Stop) : Prop :=
  (∃ path d, Trail l root path d ∧ d ∈ path ∧ e = .failure (circular path d)) ∨
    ∃ d, Leads l root d ∧ Fault fs l d e

/-- The graphs have the nodes of the parts and those that are pending, and the streams of the parts are
kept by name. -/
structure Holds (fs : Functions) (l : Loader) (root : Definition) (parts : List Part) (pending : List Node)
    (built : List (Text × Nat)) (s : Session) : Prop where
  records : Records s (parts.flatMap Part.nodes ++ pending)
  assembled : Assembled fs l parts
  leads : ∀ p ∈ parts, Leads l root p.definition
  memo : ∀ name r, Fields.get? built name = some r →
    ∃ p ∈ parts, p.definition.name = name ∧ ∃ n, s.tip? r = some n ∧ n.id = p.tip
  kept : ∀ p ∈ parts, ∃ r, Fields.get? built p.definition.name = some r

/-- The stream `r` is that of a part of the definition; the parts that were added are of definitions that
includes lead to. -/
def Yields (fs : Functions) (l : Loader) (root : Definition) (parts : List Part) (pending : List Node)
    (s : Session) (d : Definition) (result : Nat × List (Text × Nat)) (t : Session) : Prop :=
  ∃ parts', parts ⊆ parts' ∧ Holds fs l root parts' pending result.2 t ∧ Session.Reaches s t ∧
    (∀ p ∈ parts', p ∈ parts ∨ Leads l d p.definition) ∧
    ∃ p ∈ parts', p.definition = d ∧ ∃ n, t.tip? result.1 = some n ∧ n.id = p.tip

/-- The stream of the inputs so far, if there are any. -/
inductive Joins (s : Session) : Option Nat → List Text → List Node → Prop
  | none : Joins s none [] []
  | some {r : Nat} {n : Node} {ids : List Text} {merges : List Node} (hn : s.tip? r = some n)
      (h : Merged ids merges n.id) : Joins s (some r) ids merges

variable {fs : Functions} {l : Loader} {root d : Definition} {parts parts' : List Part} {p : Part}
  {pending ns : List Node} {built : List (Text × Nat)} {s t : Session} {r ref : Nat} {n : Node}

theorem Holds.reaches (h : Holds fs l root parts pending built s) (hreaches : Session.Reaches s t)
    (hrecords : Records t (parts.flatMap Part.nodes ++ ns)) : Holds fs l root parts ns built t where
  records := hrecords
  assembled := h.assembled
  leads := h.leads
  memo := by
    intro name r hr
    obtain ⟨p, hp, hname, n, hn, htip⟩ := h.memo name r hr
    exact ⟨p, hp, hname, n, hreaches.tip?_eq hn, htip⟩
  kept := h.kept

theorem Holds.adds (h : Holds fs l root parts pending built s)
    (hadds : Adds s (parts.flatMap Part.nodes ++ pending) n r t) :
    Holds fs l root parts (pending ++ [n]) built t :=
  h.reaches hadds.reaches (by simpa using hadds.records)

/-- A part is finished when its nodes are there; its stream is kept then. -/
theorem Holds.concat (h : Holds fs l root parts (pending ++ p.nodes) built s) (hfits : Fits fs l parts p)
    (hnew : ∀ q ∈ parts, q.definition ≠ p.definition) (hlead : Leads l root p.definition)
    (hn : s.tip? r = some n) (htip : n.id = p.tip) :
    Holds fs l root (parts ++ [p]) pending (Fields.set p.definition.name r built) s where
  records := by
    refine h.records.perm ?_
    rw [flatMap_append, flatMap_singleton, append_assoc]
    exact perm_append_comm.append_left _
  assembled := h.assembled.concat hfits hnew
  leads := by
    rw [forall_mem_append, forall_mem_singleton]
    exact ⟨h.leads, hlead⟩
  memo := by
    intro name r' hr'
    rw [Fields.get?_set] at hr'
    split at hr'
    · next heq =>
      cases hr'
      exact ⟨p, by simp, heq, n, hn, htip⟩
    · obtain ⟨q, hq, hname, m, hm, htip⟩ := h.memo name r' hr'
      exact ⟨q, mem_append_left _ hq, hname, m, hm, htip⟩
  kept := by
    intro q hq
    rw [Fields.get?_set]
    split
    · exact ⟨r, rfl⟩
    · next hne =>
      rcases mem_append.mp hq with hq | hq
      · exact h.kept q hq
      · exact absurd (by rw [mem_singleton.mp hq]) hne

/-! ### Sources, merges and steps -/

theorem ownStream_eq : d.ownStream = match d.origin? with
    | none => return none
    | some o => do return some (← (Session.source o.config : Building Nat)) := by
  unfold ownStream origin?
  split_ifs <;> rfl

theorem runs_ownStream (h : Holds fs l root parts pending built s) :
    Runs (d.ownStream.run built) s (fun result t => result.2 = built ∧ ∃ sources,
      sources.map (fun n => (n.part, n.parents)) =
        d.origin?.toList.map (fun o => ((.source, o.config), [])) ∧
      Holds fs l root parts (pending ++ sources) built t ∧ Session.Reaches s t ∧
      Joins t result.1 (sources.map Node.id) []) E := by
  rw [ownStream_eq]
  cases d.origin? with
  | none => exact ⟨rfl, [], rfl, by simpa using h, .refl, .none⟩
  | some o =>
    obtain ⟨n, r, t, hrun, hpart, hparents, hadds⟩ := h.records.source o.config
    refine runs_stateT_bind (runs_stateT_lift ?_)
    unfold Runs
    rw [hrun]
    exact ⟨rfl, [n], by simp [hpart, hparents], h.adds hadds, hadds.reaches, .some hadds.tip .one⟩

def merged (acc : Option Nat) (inc : Nat) : Assembly (Option Nat) :=
  match acc with
  | none => return some inc
  | some s => do return some (← (Session.combineWith .merge s inc : Building Nat))

theorem runs_merged {inc : Nat} {ids : List Text} (h : Holds fs l root parts (pending ++ merges) built s)
    (hjoins : Joins s acc ids merges) (hn : s.tip? inc = some n) :
    Runs ((merged acc inc).run built) s (fun result t => result.2 = built ∧ ∃ merges',
      Holds fs l root parts (pending ++ merges') built t ∧ Session.Reaches s t ∧
      Joins t result.1 (ids ++ [n.id]) merges') E := by
  cases hjoins with
  | none => exact ⟨rfl, [], h, .refl, .some hn .one⟩
  | @some r m ids merges hm hmerged =>
    obtain ⟨c, r', t, hrun, hpart, hparents, hadds⟩ := h.records.merge hm hn
    refine runs_stateT_bind (runs_stateT_lift ?_)
    unfold Runs
    rw [hrun]
    have hholds := h.adds hadds
    rw [append_assoc] at hholds
    exact ⟨rfl, merges ++ [c], hholds, hadds.reaches, .some hadds.tip (hmerged.more hpart hparents)⟩

theorem bindSteps_error {st : DefinitionStep} {i : Nat} {f : Failure}
    (h : st.operator fs = .error f) : bindSteps fs ref ((st, i) :: steps) = stop (stepFailure i f) := by
  cases hreport : f.report? <;> simp [bindSteps, stepFailure, h, hreport]

theorem runs_bindSteps (h : Records s ns) (hn : s.tip? ref = some n) :
    Runs ((bindSteps fs ref steps).run built) s
      (fun result t => result.2 = built ∧ ∃ ms, Records t (ns ++ ms) ∧ Session.Reaches s t ∧
        Forall₂ (Binds fs) (steps.map Prod.fst) ms ∧ Chained n.id ms ∧
        ∃ m, t.tip? result.1 = some m ∧ m.id = (ms.getLast?.map Node.id).getD n.id)
      (fun e _ => ∃ st i f, (st, i) ∈ steps ∧ st.operator fs = .error f ∧ e = .failure (stepFailure i f)) := by
  induction steps generalizing s ref n ns with
  | nil => exact ⟨rfl, [], by simpa using h, .refl, .nil, .nil, n, hn, rfl⟩
  | cons step steps ih =>
    obtain ⟨st, i⟩ := step
    cases ho : st.operator fs with
    | error f =>
      rw [bindSteps_error ho]
      exact ⟨st, i, f, mem_cons_self, ho, rfl⟩
    | ok o =>
      obtain ⟨op, config, rfl, -⟩ := exists_single ho
      obtain ⟨m, r, t, hrun, hpart, hparents, hadds⟩ := h.extend hn op config
      rw [bindSteps, ho]
      refine runs_stateT_bind (runs_stateT_lift ?_)
      unfold Runs
      rw [Session.bind, hrun]
      refine (ih hadds.records hadds.tip).mono ?_ ?_
      · rintro ⟨r', built'⟩ u ⟨rfl, ms, hrecords, hreaches, hbinds, hchained, m', hm', hlast⟩
        refine ⟨rfl, m :: ms, by simpa using hrecords, hadds.reaches.trans hreaches, .cons ⟨_, ho, hpart⟩ hbinds,
          .cons hparents hchained, m', hm', ?_⟩
        rw [hlast, List.getLast?_cons]
        cases ms.getLast? <;> rfl
      · rintro e u ⟨st', i', f, hmem, hf, he⟩
        exact ⟨st', i', f, mem_cons_of_mem _ hmem, hf, he⟩

/-! ### Includes -/

def including (fs : Functions) (l : Loader) (depth : Nat) (through : List Text) (acc : Option Nat)
    (name : Text) : Assembly (Option Nat) :=
  match l.load name with
  | .error f => stop f
  | .ok e => do
    let inc ← assemble fs (some l) depth through e
    merged acc inc

def finish (fs : Functions) (d : Definition) : Option Nat → Assembly Nat
  | none => stop (Failure.invalidInput "source" ("definition " ++ d.name ++ " has no source"))
  | some s => do
    let ref ← bindSteps fs s d.steps.zipIdx
    modify fun built => Fields.set d.name ref built
    return ref

theorem assemble_succ (depth : Nat) (through : List Text) :
    assemble fs (some l) (depth + 1) through d = (do
      match Fields.get? (← get) d.name with
      | some ref => return ref
      | none =>
        if through.contains d.name then
          stop (Failure.malformedGraph ("circular include: " ++ Text.join " -> " (through ++ [d.name])))
        else
          let own ← d.ownStream
          let all ← d.includes.foldlM (including fs l depth (through ++ [d.name])) own
          finish fs d all) := by
  rw [assemble]
  rfl

/-- Names tell the definitions apart that includes lead to. -/
def Named (l : Loader) (root : Definition) : Prop :=
  ∀ d e, Leads l root d → Leads l root e → d.name = e.name → d = e

/-- Some includes of the definition have been built and merged with its own source. -/
structure Gathers (fs : Functions) (l : Loader) (root : Definition) (parts : List Part) (pending : List Node)
    (s : Session) (d : Definition) (sources : List Node) (done : List Text)
    (result : Option Nat × List (Text × Nat)) (t : Session) (parts' : List Part) (tips : List Text)
    (merges : List Node) : Prop where
  subset : parts ⊆ parts'
  holds : Holds fs l root parts' (pending ++ sources ++ merges) result.2 t
  reaches : Session.Reaches s t
  added : ∀ p ∈ parts', p ∈ parts ∨ TransGen (Includes l) d p.definition
  supplied : Forall₂ (Supplies l parts') done tips
  joins : Joins t result.1 (sources.map Node.id ++ tips) merges

theorem Joins.reaches {ids : List Text} (h : Joins s acc ids merges)
    (hreaches : Session.Reaches s t) : Joins t acc ids merges := by
  cases h with
  | none => exact .none
  | some hn h => exact .some (hreaches.tip?_eq hn) h

variable {sources : List Node} {done : List Text}

theorem runs_including {depth : Nat} {through : List Text} {name : Text}
    (hname : name ∈ d.includes) (hd : Leads l root d)
    (hbuild : ∀ e parts pending built s, Includes l d e → Holds fs l root parts pending built s →
      Runs ((assemble fs (some l) depth through e).run built) s (Yields fs l root parts pending s e)
        fun f _ => Fails fs l root f)
    (h : ∃ parts' tips merges,
      Gathers fs l root parts pending s d sources done (acc, built) t parts' tips merges) :
    Runs ((including fs l depth through acc name).run built) t
      (fun result u => ∃ parts' tips merges,
        Gathers fs l root parts pending s d sources (done ++ [name]) result u parts' tips merges)
      fun f _ => Fails fs l root f := by
  obtain ⟨parts', tips, merges, h⟩ := h
  unfold including
  cases hload : l.load name with
  | error f => exact .inr ⟨d, hd, .missing hname hload⟩
  | ok e =>
    have hinc : Includes l d e := ⟨name, hname, hload⟩
    refine runs_stateT_bind ((hbuild e _ _ _ _ hinc h.holds).mono ?_ fun _ _ hf => hf)
    rintro ⟨inc, built'⟩ u ⟨parts'', hsub, hholds, hreaches, hadded, p, hp, rfl, n, hn, htip⟩
    refine (runs_merged hholds (h.joins.reaches hreaches) hn).mono ?_ fun _ _ hf => hf
    rintro ⟨acc', built''⟩ v ⟨rfl, merges', hholds', hreaches', hjoins⟩
    refine ⟨parts'', tips ++ [n.id], merges', ?_⟩
    constructor
    case subset => exact List.Subset.trans h.subset hsub
    case holds => exact hholds'
    case reaches => exact (h.reaches.trans hreaches).trans hreaches'
    case added =>
      intro q hq
      rcases hadded q hq with hq | hlead
      · exact h.added q hq
      · exact .inr (.head' hinc hlead)
    case supplied =>
      refine rel_append (h.supplied.imp fun _ _ hq => hq.mono hsub) (.cons ?_ .nil)
      exact ⟨p, hp, hload, htip.symm⟩
    case joins => simpa using hjoins

/-- When all includes have been gathered, the steps are bound and the part is finished. -/
theorem runs_finish {tips : List Text} (hd : Leads l root d) (hnew : ∀ p ∈ parts, p.definition ≠ d)
    (hsources : sources.map (fun n => (n.part, n.parents)) =
      d.origin?.toList.map fun o => ((.source, o.config), []))
    (h : Gathers fs l root parts pending s d sources d.includes (acc, built) t parts' tips merges) :
    Runs ((finish fs d acc).run built) t (Yields fs l root parts pending s d)
      fun f _ => Fails fs l root f := by
  have hjoins := h.joins
  generalize hids : sources.map Node.id ++ tips = ids at hjoins
  cases hjoins with
  | none =>
    obtain ⟨hnil, rfl⟩ := append_eq_nil_iff.mp hids
    obtain rfl := map_eq_nil_iff.mp hnil
    refine .inr ⟨d, hd, .unfed ?_ (forall₂_nil_right_iff.mp h.supplied)⟩
    cases horigin : d.origin? with
    | none => rfl
    | some o => simp [horigin] at hsources
  | @some r n _ _ hn hmerged =>
    refine runs_stateT_bind ((runs_bindSteps h.holds.records hn).mono ?_ ?_)
    · rintro ⟨ref, built'⟩ u ⟨rfl, steps, hrecords, hreaches, hbinds, hchained, m, hm, htip⟩
      let p : Part := { definition := d, sources, included := tips, merges, joined := n.id, steps }
      have hfits : Fits fs l parts' p :=
        { sources := hsources
          included := h.supplied
          merges := (congrArg (Merged · merges n.id) hids).mpr hmerged
          chained := hchained
          steps := by simpa using hbinds }
      have hfresh : ∀ q ∈ parts', q.definition ≠ d := by
        intro q hq heq
        rcases h.added q hq with hold | hcycle
        · exact hnew q hold heq
        · exact h.holds.assembled.not_transGen hq (heq ▸ hcycle)
      have hholds : Holds fs l root parts' (pending ++ p.nodes) built' u :=
        h.holds.reaches hreaches (by simpa [Part.nodes, p] using hrecords)
      refine ⟨parts' ++ [p], fun q hq => mem_append_left _ (h.subset hq),
        hholds.concat hfits hfresh hd hm htip, h.reaches.trans hreaches, ?_, p, by simp, rfl, m, hm, htip⟩
      rw [forall_mem_append, forall_mem_singleton]
      exact ⟨fun q hq => (h.added q hq).imp_right fun hlead => hlead.to_reflTransGen, .inr .refl⟩
    · rintro e u ⟨st, i, f, hmem, hf, rfl⟩
      exact .inr ⟨d, hd, .step hmem hf⟩

/-! ### Definitions -/

/-- Building a definition under way from the root leaves its part and those of all it includes. -/
theorem runs_assemble (hcounted : l.Counted) (hnamed : Named l root) (depth : Nat) {path : List Definition}
    (htrail : Trail l root path d) (hpath : path.Nodup) (hdepth : depth + path.length = l.count + 2)
    (h : Holds fs l root parts pending built s) :
    Runs ((assemble fs (some l) depth (path.map name) d).run built) s (Yields fs l root parts pending s d)
      fun f _ => Fails fs l root f := by
  induction depth generalizing path d parts pending built s with
  | zero =>
    -- a trail without repetition is not longer than this
    have hle := htrail.length_le hcounted hpath
    omega
  | succ depth ih =>
    have hd := htrail.leads
    rw [assemble_succ]
    refine runs_stateT_bind (runs_stateT_get ?_)
    show Runs (StateT.run (match Fields.get? built d.name with | some ref => _ | none => _) built) s _ _
    cases hget : Fields.get? built d.name with
    | some r =>
      obtain ⟨p, hp, hname, n, hn, htip⟩ := h.memo d.name r hget
      obtain rfl := hnamed _ _ (h.leads p hp) hd hname
      exact ⟨parts, fun _ hq => hq, h, .refl, fun q hq => .inl hq, p, hp, rfl, n, hn, htip⟩
    | none =>
      have hnew : ∀ p ∈ parts, p.definition ≠ d := by
        rintro p hp rfl
        obtain ⟨r, hr⟩ := h.kept p hp
        exact absurd (hget.symm.trans hr) nofun
      by_cases hmem : (path.map name).contains d.name
      · obtain ⟨e, he, hname⟩ := mem_map.mp (contains_iff_mem.mp hmem)
        obtain rfl := hnamed _ _ (htrail.of_mem he).1 hd hname
        simp only [hmem, if_true]
        exact .inl ⟨path, e, htrail, he, rfl⟩
      · have hout : d ∉ path := fun hd => hmem (contains_iff_mem.mpr (mem_map_of_mem hd))
        have hbuild : ∀ e parts pending built s, Includes l d e → Holds fs l root parts pending built s →
            Runs ((assemble fs (some l) depth (path.map name ++ [d.name]) e).run built) s
              (Yields fs l root parts pending s e) fun f _ => Fails fs l root f := by
          intro e parts pending built s hinc h
          have hnodup : (path ++ [d]).Nodup := nodup_append_comm.mpr (nodup_cons.mpr ⟨hout, hpath⟩)
          have hruns := ih (htrail.step hinc) hnodup (by simp; omega) h
          rwa [map_append, map_singleton] at hruns
        simp only [hmem]
        refine runs_stateT_bind ((runs_ownStream h).mono ?_ fun _ _ hf => hf)
        rintro ⟨own, built'⟩ t ⟨rfl, sources, hsources, hholds, hreaches, hjoins⟩
        refine runs_stateT_bind ((runs_stateT_foldlM (fun done result u => ∃ parts' tips merges,
          Gathers fs l root parts pending s d sources done result u parts' tips merges) d.includes ?_ ?_).mono
            ?_ fun _ _ hf => hf)
        · exact fun name hname done acc built u hu => runs_including hname hd hbuild hu
        · exact ⟨parts, [], [], fun _ hq => hq, by simpa using hholds, hreaches, fun _ hq => .inl hq, .nil,
            by simpa using hjoins⟩
        · rintro ⟨acc, built''⟩ u ⟨parts', tips, merges, hgathers⟩
          exact runs_finish hd hnew hsources hgathers

end Dataflow.Definition
