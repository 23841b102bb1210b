import Dataflow.Definition.Build
import Dataflow.Proofs.Compile.Walk
import Dataflow.Proofs.Definition.Includes
import Dataflow.Proofs.Session.Composition

/-!
# Parts of a graph

What a definition adds to a graph is a `Part`: its own source if it has one, the nodes that merge its
inputs, and those of its steps.  `Fits` says what they are, given the parts of what the definition
includes, and `Assembled` that each part fits the ones before it and that no definition has two.  Then no
definition with a part includes itself (`Assembled.not_transGen`), and whatever has the tip of a part, and
with a node its parents, has all nodes of the parts that includes lead to (`Assembled.covers`).
-/

namespace Dataflow.Definition

open List

open Relation (TransGen)

variable {ids : List Text} {ns : List Node} {joined : Text}

/-- Where a definition's own elements come from: its rows, which take precedence, or its source. -/
def origin? (d : Definition) : Option Session.Origin :=
  if !d.data.isEmpty then some (.items d.data)
  else if !d.source.isEmpty then some (.uri d.source)
  else none

/-- What a definition adds to a graph. -/
structure Part where
  definition : Definition
  /-- Its own source, if it has one. -/
  sources : List Node
  /-- The tips of the definitions that it includes. -/
  included : List Text
  merges : List Node
  /-- The node that all inputs are merged into. -/
  joined : Text
  steps : List Node

namespace Part

def nodes (p : Part) : List Node := p.sources ++ p.merges ++ p.steps

def inputs (p : Part) : List Text := p.sources.map Node.id ++ p.included

/-- The node that the part ends with; with no nodes of its own, that of its only input. -/
def tip (p : Part) : Text := (p.steps.getLast?.map Node.id).getD p.joined

end Part

/-- Each node merges one more input with those before it. -/
inductive Merged : List Text → List Node → Text → Prop
  | one {id : Text} : Merged [id] [] id
  | more {ids : List Text} {ns : List Node} {joined id : Text} {n : Node} (h : Merged ids ns joined)
      (hpart : n.part = (.merge, [])) (hparents : n.parents = [joined, id]) :
      Merged (ids ++ [id]) (ns ++ [n]) n.id

/-- The node is the one that the step binds. -/
def Binds (fs : Functions) (s : DefinitionStep) (n : Node) : Prop :=
  ∃ o, s.operator fs = .ok o ∧ n.part = o.part

/-- The loader has the definition of a part under the name, and the part ends with the given tip. -/
def Supplies (l : Loader) (parts : List Part) (name tip : Text) : Prop :=
  ∃ q ∈ parts, l.load name = .ok q.definition ∧ q.tip = tip

/-- The part is what its definition adds on top of the given parts. -/
structure Fits (fs : Functions) (l : Loader) (parts : List Part) (p : Part) : Prop where
  sources : p.sources.map (fun n => (n.part, n.parents)) =
    p.definition.origin?.toList.map fun o => ((.source, o.config), [])
  included : Forall₂ (Supplies l parts) p.definition.includes p.included
  merges : Merged p.inputs p.merges p.joined
  chained : Chained p.joined p.steps
  steps : Forall₂ (Binds fs) p.definition.steps p.steps

/-- Each part fits the ones before it, and is the only one of its definition. -/
inductive Assembled (fs : Functions) (l : Loader) : List Part → Prop
  | nil : Assembled fs l []
  | concat {parts : List Part} {p : Part} (h : Assembled fs l parts) (hfits : Fits fs l parts p)
      (hnew : ∀ q ∈ parts, q.definition ≠ p.definition) : Assembled fs l (parts ++ [p])

variable {fs : Functions} {l : Loader} {parts parts' : List Part} {p q : Part} {d e : Definition}
  {S : Text → Prop}

/-! ### Order -/

theorem Supplies.mono {name tip : Text} (h : Supplies l parts name tip) (hsub : parts ⊆ parts') :
    Supplies l parts' name tip := by
  obtain ⟨q, hq, hload⟩ := h
  exact ⟨q, hsub hq, hload⟩

theorem Fits.mono (h : Fits fs l parts p) (hsub : parts ⊆ parts') : Fits fs l parts' p where
  sources := h.sources
  included := h.included.imp fun _ _ hq => hq.mono hsub
  merges := h.merges
  chained := h.chained
  steps := h.steps

/-- What a definition includes has a part, whose tip is an input. -/
theorem Fits.exists_part (h : Fits fs l parts p) (hinc : Includes l p.definition e) :
    ∃ q ∈ parts, q.definition = e ∧ q.tip ∈ p.included := by
  obtain ⟨name, hname, hload⟩ := hinc
  obtain ⟨tip, htip, q, hq, hload', rfl⟩ := exists_mem_of_forall₂ h.included hname
  exact ⟨q, hq, Except.ok.inj (hload'.symm.trans hload), htip⟩

section

variable (h : Assembled fs l parts) (hp : p ∈ parts)

include h hp

theorem Assembled.fits : Fits fs l parts p := by
  induction h with
  | nil => cases hp
  | concat h hfits hnew ih =>
    rcases mem_append.mp hp with hp | hp
    · exact (ih hp).mono (subset_append_left _ _)
    · rw [mem_singleton.mp hp]
      exact hfits.mono (subset_append_left _ _)

theorem Assembled.eq_of_definition (hq : q ∈ parts)
    (heq : p.definition = q.definition) : p = q := by
  induction h with
  | nil => cases hp
  | concat h hfits hnew ih =>
    rcases mem_append.mp hp with hp | hp <;> rcases mem_append.mp hq with hq | hq
    · exact ih hp hq
    · rw [mem_singleton.mp hq] at heq
      exact absurd heq (hnew p hp)
    · rw [mem_singleton.mp hp] at heq
      exact absurd heq.symm (hnew q hq)
    · rw [mem_singleton.mp hp, mem_singleton.mp hq]

/-- With a definition all that includes lead to has a part. -/
theorem Assembled.exists_part (hlead : Leads l p.definition e) :
    ∃ q ∈ parts, q.definition = e := by
  induction hlead with
  | refl => exact ⟨p, hp, rfl⟩
  | tail _ hinc ih =>
    obtain ⟨q, hq, rfl⟩ := ih
    obtain ⟨r, hr, hdef, -⟩ := (h.fits hq).exists_part hinc
    exact ⟨r, hr, hdef⟩

theorem Assembled.not_transGen :
    ¬ TransGen (Includes l) p.definition p.definition := by
  induction h with
  | nil => cases hp
  | @concat parts r h hfits hnew ih =>
    rcases mem_append.mp hp with hp | hp
    · exact ih hp
    · -- what the last part's definition includes is before it, and so is all that this leads to
      obtain rfl := mem_singleton.mp hp
      intro hcycle
      obtain ⟨e, hinc, hlead⟩ := Relation.TransGen.head'_iff.mp hcycle
      obtain ⟨q, hq, rfl, -⟩ := hfits.exists_part hinc
      obtain ⟨r, hr, hdef⟩ := h.exists_part hq hlead
      exact hnew r hr hdef

end

/-! ### Parents -/

theorem Merged.covers (h : Merged ids ns joined)
    (hclosed : ∀ n ∈ ns, S n.id → ∀ q ∈ n.parents, S q) (hjoined : S joined) :
    (∀ n ∈ ns, S n.id) ∧ ∀ id ∈ ids, S id := by
  induction h with
  | one => simpa using hjoined
  | @more ids ns joined id n h hpart hparents ih =>
    have hparents : ∀ q ∈ [joined, id], S q := hparents ▸ hclosed n (by simp) hjoined
    obtain ⟨hns, hids⟩ := ih (fun m hm => hclosed m (mem_append_left _ hm)) (hparents joined (by simp))
    rw [forall_mem_append, forall_mem_append, forall_mem_singleton, forall_mem_singleton]
    exact ⟨⟨hns, hjoined⟩, hids, hparents id (by simp)⟩

theorem chained_covers {id : Text} (h : Chained id ns)
    (hclosed : ∀ n ∈ ns, S n.id → ∀ q ∈ n.parents, S q)
    (hlast : S ((ns.getLast?.map Node.id).getD id)) : (∀ n ∈ ns, S n.id) ∧ S id := by
  induction h with
  | nil => exact ⟨forall_mem_nil _, hlast⟩
  | @cons id n ns hp h ih =>
    have hlast : S ((ns.getLast?.map Node.id).getD n.id) := by
      rw [List.getLast?_cons] at hlast
      cases hlast' : ns.getLast? with
      | none | some m => simpa [hlast'] using hlast
    obtain ⟨hns, hn⟩ := ih (fun m hm => hclosed m (mem_cons_of_mem _ hm)) hlast
    refine ⟨forall_mem_cons.mpr ⟨hn, hns⟩, ?_⟩
    exact hclosed n mem_cons_self hn id (by simp [hp])

theorem Fits.covers (h : Fits fs l parts p) (hclosed : ∀ n ∈ p.nodes, S n.id → ∀ q ∈ n.parents, S q)
    (htip : S p.tip) : (∀ n ∈ p.nodes, S n.id) ∧ ∀ id ∈ p.included, S id := by
  obtain ⟨hsteps, hjoined⟩ := chained_covers h.chained (fun n hn => hclosed n (by simp [Part.nodes, hn])) htip
  obtain ⟨hmerges, hinputs⟩ := h.merges.covers (fun n hn => hclosed n (by simp [Part.nodes, hn])) hjoined
  rw [Part.inputs, forall_mem_append, forall_mem_map] at hinputs
  rw [Part.nodes, forall_mem_append, forall_mem_append]
  exact ⟨⟨⟨hinputs.1, hmerges⟩, hsteps⟩, hinputs.2⟩

/-- Whatever has the tip of a part, and with each node its parents, has all nodes of the parts that
includes lead to. -/
theorem Assembled.covers (h : Assembled fs l parts)
    (hclosed : ∀ p ∈ parts, ∀ n ∈ p.nodes, S n.id → ∀ q ∈ n.parents, S q) (hp : p ∈ parts) (htip : S p.tip)
    (hq : q ∈ parts) (hlead : Leads l p.definition q.definition) : ∀ n ∈ q.nodes, S n.id := by
  have htips : ∀ e, Leads l p.definition e → ∃ r ∈ parts, r.definition = e ∧ S r.tip := by
    intro e hlead
    induction hlead with
    | refl => exact ⟨p, hp, rfl, htip⟩
    | tail _ hinc ih =>
      obtain ⟨r, hr, rfl, hS⟩ := ih
      obtain ⟨t, ht, hdef, hmem⟩ := (h.fits hr).exists_part hinc
      exact ⟨t, ht, hdef, ((h.fits hr).covers (hclosed r hr) hS).2 _ hmem⟩
  obtain ⟨r, hr, hdef, hS⟩ := htips q.definition hlead
  obtain rfl := h.eq_of_definition hr hq hdef
  exact ((h.fits hr).covers (hclosed r hr) hS).1

/-! ### Tags -/

theorem Merged.length_eq (h : Merged ids ns joined) : ns.length + 1 = ids.length := by
  induction h with
  | one => rfl
  | more _ _ _ ih => simp [← ih]

theorem Merged.op_eq (h : Merged ids ns joined) : ∀ n ∈ ns, n.op = .merge := by
  induction h with
  | one => exact forall_mem_nil _
  | more _ hpart _ ih =>
    rw [forall_mem_append, forall_mem_singleton]
    exact ⟨ih, congrArg Prod.fst hpart⟩

/-- A step is one node, and neither a source nor a merge. -/
theorem exists_single {s : DefinitionStep} {o : Operator} (h : s.operator fs = .ok o) :
    ∃ op config, o = .single op config ∧ op ≠ .source ∧ op ≠ .merge := by
  unfold DefinitionStep.operator at h
  split at h
  · cases hfunc : fs.func s.fn with
    | error f =>
      rw [hfunc] at h
      cases h
    | ok f =>
      rw [hfunc] at h
      cases h
      split <;> exact ⟨_, _, rfl, nofun, nofun⟩
  split at h
  · cases h
    exact ⟨_, _, rfl, nofun, nofun⟩
  split at h
  · cases hfold : fs.fold s.fn with
    | error f =>
      rw [hfold] at h
      cases h
    | ok f =>
      rw [hfold] at h
      cases h
      exact ⟨_, _, rfl, nofun, nofun⟩
  split at h
  · cases h
    exact ⟨_, _, rfl, nofun, nofun⟩
  split at h
  · cases h
    exact ⟨_, _, rfl, nofun, nofun⟩
  · cases h

/-- The nodes with a tag among nodes that have one tag. -/
theorem filter_op {op op' : Op} (h : ∀ n ∈ ns, n.op = op) :
    ns.filter (·.op = op') = if op = op' then ns else [] := by
  split
  · next heq => exact filter_eq_self.mpr fun n hn => by simp [h n hn, heq]
  · next hne => exact filter_eq_nil_iff.mpr fun n hn => by simp [h n hn, hne]

section

variable (h : Fits fs l parts p)

include h

theorem Fits.op_sources : ∀ n ∈ p.sources, n.op = .source := by
  intro n hn
  have hmem : (n.part, n.parents) ∈ p.sources.map fun n => (n.part, n.parents) := mem_map_of_mem hn
  rw [h.sources] at hmem
  obtain ⟨o, -, heq⟩ := mem_map.mp hmem
  exact (congrArg (·.1.1) heq).symm

theorem Fits.op_steps : ∀ n ∈ p.steps, n.op ≠ .source ∧ n.op ≠ .merge := by
  intro n hn
  obtain ⟨s, -, o, ho, hpart⟩ := exists_mem_of_forall₂ h.steps.flip hn
  obtain ⟨op, config, rfl, hop⟩ := exists_single ho
  obtain rfl : n.op = op := congrArg Prod.fst hpart
  exact hop

theorem Fits.filter_nodes : p.nodes.filter (·.op = .source) = p.sources ∧
    p.nodes.filter (·.op = .merge) = p.merges := by
  simp only [Part.nodes, filter_append, filter_op h.op_sources, filter_op h.merges.op_eq]
  constructor
  · simpa using fun n hn => (h.op_steps n hn).1
  · simpa using fun n hn => (h.op_steps n hn).2

end

end Dataflow.Definition
