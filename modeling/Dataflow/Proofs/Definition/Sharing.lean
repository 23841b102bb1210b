import Dataflow.Proofs.Definition.Assembly

/-!
# Graphs of definitions

A definition that is built gives a graph that is `MadeOf` parts, one for each definition that includes lead
to, however many ways there are (`graph_cases`).  With definitions that have nothing wrong themselves
building fails exactly if the includes are cyclic (`graph_includes`).  Definitions are told apart by the names
that they bear and not by those that they are included under, so this needs different definitions to bear
different names (`graph_named`, `graph_namesakes`).
-/

namespace Dataflow

open List Loader

variable {ds : List (Text × Definition)}

/-- The step names an operator, and a function there is if it needs one. -/
structure DefinitionStep.Valid (fs : Functions) (s : DefinitionStep) : Prop where
  op : s.op ∈ Definition.operators
  func : s.op = "map" ∨ s.op = "filter" → (Fields.get? fs.funcs s.fn).isSome
  fold : s.op = "reduce" → (Fields.get? fs.folds s.fn).isSome

instance (fs : Functions) (s : DefinitionStep) : Decidable (s.Valid fs) :=
  decidable_of_iff (s.op ∈ Definition.operators ∧
    (s.op = "map" ∨ s.op = "filter" → (Fields.get? fs.funcs s.fn).isSome) ∧
    (s.op = "reduce" → (Fields.get? fs.folds s.fn).isSome))
    ⟨fun ⟨hop, hfunc, hfold⟩ => ⟨hop, hfunc, hfold⟩, fun h => ⟨h.op, h.func, h.fold⟩⟩

theorem DefinitionStep.Valid.exists_operator {fs : Functions} {s : DefinitionStep} (h : s.Valid fs) :
    ∃ o, s.operator fs = .ok o := by
  have hop := h.op
  have hfunc (hmap : s.op = "map" ∨ s.op = "filter") : ∃ f, fs.func s.fn = .ok f := by
    obtain ⟨f, hf⟩ := Option.isSome_iff_exists.mp (h.func hmap)
    exact ⟨f, by rw [Functions.func, hf]⟩
  have hfold (hreduce : s.op = "reduce") : ∃ f, fs.fold s.fn = .ok f := by
    obtain ⟨f, hf⟩ := Option.isSome_iff_exists.mp (h.fold hreduce)
    exact ⟨f, by rw [Functions.fold, hf]⟩
  unfold DefinitionStep.operator
  split
  · next hmap =>
    obtain ⟨f, hf⟩ := hfunc (by simpa using hmap)
    exact ⟨_, by rw [hf]; rfl⟩
  split
  · exact ⟨_, rfl⟩
  split
  · next hreduce =>
    obtain ⟨f, hf⟩ := hfold hreduce
    exact ⟨_, by rw [hf]; rfl⟩
  split
  · exact ⟨_, rfl⟩
  split
  · exact ⟨_, rfl⟩
  · simp_all [Definition.operators]

namespace Definition

open Relation (TransGen)

/-- The definition has something to start from, its steps are valid, and what it includes is there. -/
structure Complete (fs : Functions) (l : Loader) (d : Definition) : Prop where
  fed : d.data ≠ [] ∨ d.source ≠ "" ∨ d.includes ≠ []
  steps : ∀ s ∈ d.steps, s.Valid fs
  held : ∀ name ∈ d.includes, (l.load name).isOk

instance (fs : Functions) (l : Loader) (d : Definition) : Decidable (d.Complete fs l) :=
  decidable_of_iff ((d.data ≠ [] ∨ d.source ≠ "" ∨ d.includes ≠ []) ∧ (∀ s ∈ d.steps, s.Valid fs) ∧
    ∀ name ∈ d.includes, (l.load name).isOk)
    ⟨fun ⟨hfed, hsteps, hheld⟩ => ⟨hfed, hsteps, hheld⟩, fun h => ⟨h.fed, h.steps, h.held⟩⟩

/-- The graph has the nodes of the parts and no others; the definitions that includes lead to have one part
each, and the tip is that of the root's part. -/
structure MadeOf (fs : Functions) (l : Loader) (root : Definition) (tip : Node) (g : Graph)
    (parts : List Part) : Prop where
  assembled : Assembled fs l parts
  leads_iff : ∀ d, Leads l root d ↔ ∃ p ∈ parts, p.definition = d
  nodes : g.nodes.Perm (parts.flatMap Part.nodes)
  tip_mem : tip ∈ g.nodes
  tip_eq : ∃ p ∈ parts, p.definition = root ∧ tip.id = p.tip

variable {fs : Functions} {l : Loader} {root d : Definition} {parts : List Part} {tip : Node} {g : Graph}

theorem origin?_eq_none_iff : d.origin? = none ↔ d.data = [] ∧ d.source = "" := by
  have hempty : d.source.isEmpty = true ↔ d.source = "" :=
    ⟨fun h => Text.ext (List.isEmpty_iff.mp h), fun h => by rw [h]; rfl⟩
  rw [← hempty, ← List.isEmpty_iff, origin?]
  cases d.data.isEmpty <;> cases d.source.isEmpty <;> simp

theorem Complete.not_fault {e : Stop} (h : d.Complete fs l) : ¬ Fault fs l d e := by
  intro hfault
  cases hfault with
  | missing hname hload =>
    have hok := h.held _ hname
    rw [hload] at hok
    cases hok
  | unfed horigin hincludes =>
    obtain ⟨hdata, hsource⟩ := origin?_eq_none_iff.mp horigin
    rcases h.fed with hfed | hfed | hfed
    · exact hfed hdata
    · exact hfed hsource
    · exact hfed hincludes
  | step hs hf =>
    obtain ⟨o, ho⟩ := (h.steps _ (fst_mem_of_mem_zipIdx hs)).exists_operator
    exact absurd (hf.symm.trans ho) nofun

/-! ### The graph -/

/-- The graph of the tip has all nodes: it has with each node its parents, and all parts are below the tip. -/
theorem madeOf_of_holds {built : List (Text × Nat)} {s : Session} {r k : Nat} {n : Node} {p : Part}
    (h : Holds fs l root parts [] built s) (hp : p ∈ parts) (hroot : p.definition = root)
    (hr : s.streams[r]? = some ⟨n, k⟩) (htip : n.id = p.tip) : MadeOf fs l root n (s.graphAt k) parts := by
  have hsound := h.records.sound
  have hrecords : ∀ m, m ∈ parts.flatMap Part.nodes ↔ ∃ j, m ∈ (s.graphAt j).nodes := by
    simpa using h.records.mem_iff
  have htip_mem : n ∈ (s.graphAt k).nodes := hsound.tip_mem_graph hr
  -- an identifier means the same node in all graphs
  have hmem_of_id : ∀ m ∈ parts.flatMap Part.nodes, m.id ∈ (s.graphAt k).ids → m ∈ (s.graphAt k).nodes := by
    intro m hm hid
    obtain ⟨m', hm', heq⟩ := Graph.exists_node_of_mem_ids hid
    obtain ⟨j, hj⟩ := (hrecords m).mp hm
    rwa [hsound.agree j k m hj m' hm' heq.symm]
  have hclosed : ∀ q ∈ parts, ∀ m ∈ q.nodes, m.id ∈ (s.graphAt k).ids →
      ∀ id ∈ m.parents, id ∈ (s.graphAt k).ids := by
    intro q hq m hm hid id hparent
    have hmem := hmem_of_id m (mem_flatMap.mpr ⟨q, hq, hm⟩) hid
    exact (hsound.ordered k).mem_of_reads hid ⟨m, hmem, rfl, hparent⟩
  have hall : ∀ m, m ∈ parts.flatMap Part.nodes → m ∈ (s.graphAt k).nodes := by
    intro m hm
    obtain ⟨q, hq, hmq⟩ := mem_flatMap.mp hm
    refine hmem_of_id m hm (h.assembled.covers hclosed hp ?_ hq ?_ m hmq)
    · exact htip ▸ Graph.mem_ids_of_mem htip_mem
    · exact hroot ▸ h.leads q hq
  refine ⟨h.assembled, fun d => ⟨fun hlead => ?_, ?_⟩, ?_, htip_mem, p, hp, hroot, htip⟩
  · exact h.assembled.exists_part hp (hroot ▸ hlead)
  · rintro ⟨q, hq, rfl⟩
    exact h.leads q hq
  · have hnodup : (parts.flatMap Part.nodes).Nodup := List.Nodup.of_map Node.id (by simpa using h.records.nodup)
    have hnodup' : (s.graphAt k).nodes.Nodup := List.Nodup.of_map Node.id (s.graphAt k).nodup_ids
    exact (perm_ext_iff_of_nodup hnodup' hnodup).mpr fun m => ⟨fun hm => (hrecords m).mpr ⟨k, hm⟩, hall m⟩

theorem holds_empty (fs : Functions) : Holds fs l root [] [] [] {} where
  records := Session.records_empty
  assembled := .nil
  leads := nofun
  memo := nofun
  kept := nofun

/-- Building a definition gives a graph of parts, or fails for one of the reasons there are. -/
theorem graph_cases (hcounted : l.Counted) (hnamed : Named l root) (fs : Functions) :
    (∃ tip g parts, root.graph fs (some l) = .ok (tip, g) ∧ MadeOf fs l root tip g parts) ∨
      ∃ e, root.graph fs (some l) = .error e ∧ Fails fs l root e := by
  have hruns := runs_assemble hcounted hnamed (l.count + 2) .root .nil rfl (holds_empty fs)
  rcases hrun : ((assemble fs (some l) (l.count + 2) [] root).run []).run.run {} with ⟨e | ⟨r, built⟩, s⟩
  · refine .inr ⟨e, ?_, hruns.error hrun⟩
    have hbuild : (root.build fs (some l)).run.run {} = (.error e, s) := run_bind_error hrun
    rw [graph, hbuild]
    rfl
  · obtain ⟨parts, -, hholds, -, -, p, hp, hroot, n, hn, htip⟩ := hruns.ok hrun
    obtain ⟨k, hr⟩ := Session.exists_getElem? hn
    refine .inl ⟨n, s.graphAt k, parts, ?_, madeOf_of_holds hholds hp hroot hr htip⟩
    have hbuild : (root.build fs (some l)).run.run {} = (.ok r, s) := run_bind_ok hrun
    rw [graph, hbuild]
    show Except.ok ((s.streams.getD r default).tip, s.graphAt (s.streams.getD r default).graph) = _
    rw [getD_eq_getElem?_getD, hr]
    rfl

theorem MadeOf.not_cyclic (h : MadeOf fs l root tip g parts) : ¬ Cyclic l root := by
  rintro ⟨d, hlead, hcycle⟩
  obtain ⟨p, hp, rfl⟩ := (h.leads_iff d).mp hlead
  exact h.assembled.not_transGen hp hcycle

theorem MadeOf.filter_perm (h : MadeOf fs l root tip g parts) {q : Node → Bool} {f : Part → List Node}
    (hf : ∀ p ∈ parts, p.nodes.filter q = f p) : (g.nodes.filter q).Perm (parts.flatMap f) := by
  rw [← flatMap_congr hf, ← filter_flatMap]
  exact h.nodes.filter q

structure Part.Sized (p : Part) : Prop where
  sources : p.sources.length = if p.definition.data = [] ∧ p.definition.source = "" then 0 else 1
  merges : p.merges.length + 1 = p.sources.length + p.definition.includes.length
  steps : p.steps.length = p.definition.steps.length

theorem Fits.sized {p : Part} (h : Fits fs l parts p) : p.Sized where
  sources := by
    have hlength := congrArg List.length h.sources
    rw [length_map, length_map] at hlength
    rw [hlength]
    cases horigin : p.definition.origin? with
    | none => rw [if_pos (origin?_eq_none_iff.mp horigin)]; rfl
    | some o =>
      have hne : p.definition.origin? ≠ none := by rw [horigin]; nofun
      rw [if_neg (mt origin?_eq_none_iff.mpr hne)]
      rfl
  merges := by
    have hlength := h.merges.length_eq
    rw [hlength, Part.inputs, length_append, length_map, h.included.length_eq]
  steps := h.steps.length_eq.symm

/-- Parts of different definitions have no node in common. -/
theorem MadeOf.disjoint (h : MadeOf fs l root tip g parts) {p q : Part} (hp : p ∈ parts) (hq : q ∈ parts)
    (hne : p.definition ≠ q.definition) : p.nodes.Disjoint q.nodes := by
  have hnodup : (parts.flatMap Part.nodes).Nodup := h.nodes.nodup_iff.mp (List.Nodup.of_map Node.id g.nodup_ids)
  have hpairwise := (nodup_flatMap.mp hnodup).2
  have hsymm : Std.Symm (Function.onFun List.Disjoint Part.nodes) := ⟨fun _ _ h _ hb ha => h ha hb⟩
  exact hpairwise.forall hp hq fun heq => hne (congrArg Part.definition heq)

/-! ### Includes by the names of definitions -/

theorem named_of_keys (hkeys : ∀ e ∈ ds, e.2.name = e.1)
    (hroot : (ofList ds).load root.name = .ok root) : Named (ofList ds) root := by
  have hload : ∀ d, Leads (ofList ds) root d → (ofList ds).load d.name = .ok d := by
    intro d hlead
    cases hlead with
    | refl => exact hroot
    | tail _ hinc =>
      obtain ⟨name, -, hload⟩ := hinc
      have hmem := Fields.mem_of_get? (load_ofList_eq_ok.mp hload)
      rwa [hkeys _ hmem]
  intro d e hd he hname
  have heq := hload d hd
  rw [hname, hload e he] at heq
  exact (Except.ok.inj heq).symm

/-- **Building with includes.**  Let each definition of a list be under its own name, and let the root be one
of them.  If all that includes lead to is complete, building fails exactly if includes are cyclic, and
names a cycle.  Otherwise the graph is made of one part for each definition that includes lead to: a source
if it has rows or a source, a merge less than it has inputs, and a node for each step. -/
theorem graph_includes (fs : Functions) (ds : List (Text × Definition)) (hkeys : ∀ e ∈ ds, e.2.name = e.1)
    (root : Definition) (hroot : (Loader.ofList ds).load root.name = .ok root)
    (hcomplete : ∀ d, Leads (.ofList ds) root d → d.Complete fs (.ofList ds)) :
    (Cyclic (.ofList ds) root → ∃ path d, Trail (.ofList ds) root path d ∧ d ∈ path ∧
      root.graph fs (some (.ofList ds)) = .error (.failure (circular path d)) ∧
      (circular path d).code? = some .malformedGraph) ∧
    (¬ Cyclic (.ofList ds) root → ∃ tip g parts, root.graph fs (some (.ofList ds)) = .ok (tip, g) ∧
      MadeOf fs (.ofList ds) root tip g parts ∧
      (g.nodes.filter (·.op = .source)).Perm (parts.flatMap Part.sources) ∧
      (g.nodes.filter (·.op = .merge)).Perm (parts.flatMap Part.merges) ∧ ∀ p ∈ parts, p.Sized) := by
  have hcases := graph_cases (counted_ofList ds) (named_of_keys hkeys hroot) fs
  constructor
  · intro hcyclic
    rcases hcases with ⟨tip, g, parts, -, hmade⟩ | ⟨e, he, ⟨path, d, htrail, hmem, rfl⟩ | ⟨d, hlead, hfault⟩⟩
    · exact absurd hcyclic hmade.not_cyclic
    · exact ⟨path, d, htrail, hmem, he, rfl⟩
    · exact absurd hfault (hcomplete d hlead).not_fault
  · intro hacyclic
    rcases hcases with ⟨tip, g, parts, hgraph, hmade⟩ | ⟨e, -, ⟨path, d, htrail, hmem, -⟩ | ⟨d, hlead, hfault⟩⟩
    · have hfits := fun p (hp : p ∈ parts) => hmade.assembled.fits hp
      exact ⟨tip, g, parts, hgraph, hmade, hmade.filter_perm fun p hp => (hfits p hp).filter_nodes.1,
        hmade.filter_perm fun p hp => (hfits p hp).filter_nodes.2, fun p hp => (hfits p hp).sized⟩
    · exact absurd (htrail.cyclic hmem) hacyclic
    · exact absurd hfault (hcomplete d hlead).not_fault

/-- Includes from a list lead from the root into the list. -/
theorem eq_or_mem_of_leads (h : Leads (.ofList ds) root d) : d ∈ root :: ds.map Prod.snd := by
  cases h with
  | refl => exact mem_cons_self
  | tail _ hinc =>
    obtain ⟨name, -, hload⟩ := hinc
    have hmem := Fields.mem_of_get? (load_ofList_eq_ok.mp hload)
    exact mem_cons_of_mem _ (mem_map_of_mem (f := Prod.snd) hmem)

theorem not_cyclic_ofList (f : Definition → Nat)
    (h : ∀ d ∈ root :: ds.map Prod.snd, ∀ name ∈ d.includes, ∀ e ∈ Fields.get? ds name, f e < f d) :
    ¬ Cyclic (.ofList ds) root := by
  refine not_cyclic_of_descends f fun d e hlead hinc => ?_
  obtain ⟨name, hname, hload⟩ := hinc
  exact h d (eq_or_mem_of_leads hlead) name hname e (load_ofList_eq_ok.mp hload)

/-- Includes a definition twice, and at once what this includes. -/
def weave : Definition :=
  { name := "c", includes := ["b", "a", "b"], steps := [{ op := "window", size := 2 }] }

def woven : List (Text × Definition) :=
  [("a", { name := "a", source := "s", steps := [{ op := "map", fn := "identity" }, { op := "sink" }] }),
   ("b", { name := "b", data := [.null], source := "t", includes := ["a"] }), ("c", weave)]

/-- One of two definitions that include each other. -/
def link : Definition := { name := "a", source := "s", includes := ["b"] }

def ring : List (Text × Definition) := [("a", link), ("b", { name := "b", includes := ["a"] })]

theorem graph_includes_woven :
    (¬ Cyclic (.ofList woven) weave ∧ ∃ tip g parts,
      weave.graph .standard (some (.ofList woven)) = .ok (tip, g) ∧
      MadeOf .standard (.ofList woven) weave tip g parts ∧ ∀ p ∈ parts, p.Sized) ∧
    Cyclic (.ofList ring) link ∧ ∃ path d, d ∈ path ∧
      link.graph .standard (some (.ofList ring)) = .error (.failure (circular path d)) := by
  have hwoven : ∀ d ∈ weave :: woven.map Prod.snd, d.Complete .standard (.ofList woven) := by decide
  have hring : ∀ d ∈ link :: ring.map Prod.snd, d.Complete .standard (.ofList ring) := by decide
  have hacyclic : ¬ Cyclic (.ofList woven) weave :=
    not_cyclic_ofList (fun d => d.includes.length) (by decide)
  have hcyclic : Cyclic (.ofList ring) link :=
    ⟨link, .refl, .head ⟨"b", by decide, rfl⟩ (.single ⟨"a", by decide, rfl⟩)⟩
  obtain ⟨tip, g, parts, hgraph, hmade, -, -, hsized⟩ := (graph_includes .standard woven (by decide) weave rfl
    fun d hd => hwoven d (eq_or_mem_of_leads hd)).2 hacyclic
  obtain ⟨path, d, -, hmem, herror, -⟩ := (graph_includes .standard ring (by decide) link rfl
    fun d hd => hring d (eq_or_mem_of_leads hd)).1 hcyclic
  exact ⟨⟨hacyclic, tip, g, parts, hgraph, hmade, hsized⟩, hcyclic, path, d, hmem, herror⟩

/-! ### Includes by any names -/

/-- **Includes by name.**  Let different definitions bear different names, whatever names they are included
under.  If no included name comes twice on any way from the root, building fails only where a definition is
at fault, and gives a graph if none is; and two definitions that are included have each a part of its own. -/
theorem graph_named (fs : Functions) (l : Loader)
    (hl : (∃ ds, l = .ofList ds) ∨ ∃ files dirs, l = .ofFiles files dirs) (root : Definition)
    (hnamed : Named l root) (hnames : ∀ names d, Follows l root names d → names.Nodup) :
    (∀ e, root.graph fs (some l) = .error e → ∃ d, Leads l root d ∧ Fault fs l d e) ∧
    ((∀ d, Leads l root d → d.Complete fs l) → ∃ tip g, root.graph fs (some l) = .ok (tip, g)) ∧
    ∀ tip g, root.graph fs (some l) = .ok (tip, g) → ∃ parts, MadeOf fs l root tip g parts ∧
      ∀ as a bs b d e, Follows l root (as ++ [a]) d → Follows l root (bs ++ [b]) e → d ≠ e →
        ∃ p ∈ parts, ∃ q ∈ parts, p.definition = d ∧ q.definition = e ∧ p.Sized ∧ q.Sized ∧
          p.nodes.Disjoint q.nodes := by
  have hcounted : l.Counted := by
    rcases hl with ⟨ds, rfl⟩ | ⟨files, dirs, rfl⟩
    · exact counted_ofList ds
    · exact counted_ofFiles files dirs
  have hacyclic := follows_nodup_iff.mp hnames
  rcases graph_cases hcounted hnamed fs with
    ⟨tip, g, parts, hgraph, hmade⟩ | ⟨e, he, ⟨path, d, htrail, hmem, -⟩ | ⟨d, hlead, hfault⟩⟩
  · refine ⟨fun e he => ?_, fun _ => ⟨tip, g, hgraph⟩, fun tip' g' hgraph' => ?_⟩
    · exact absurd (hgraph.symm.trans he) nofun
    · cases hgraph.symm.trans hgraph'
      refine ⟨parts, hmade, fun as a bs b d e hd he hne => ?_⟩
      obtain ⟨p, hp, rfl⟩ := (hmade.leads_iff d).mp hd.leads
      obtain ⟨q, hq, rfl⟩ := (hmade.leads_iff e).mp he.leads
      exact ⟨p, hp, q, hq, rfl, rfl, (hmade.assembled.fits hp).sized, (hmade.assembled.fits hq).sized,
        hmade.disjoint hp hq hne⟩
  · exact absurd (htrail.cyclic hmem) hacyclic
  · refine ⟨fun e' he' => ?_, fun hcomplete => ?_, fun tip g hgraph => ?_⟩
    · cases he.symm.trans he'
      exact ⟨d, hlead, hfault⟩
    · exact absurd hfault (hcomplete d hlead).not_fault
    · exact absurd (hgraph.symm.trans he) nofun

/-- Includes under other names than the definitions bear. -/
def collected : Definition := { name := "top", includes := ["v2", "v1"] }

def versions : List (Text × Definition) :=
  [("v1", { name := "base", source := "s" }), ("v2", { name := "next", source := "t", includes := ["v1"] })]

theorem graph_named_versions :
    Named (.ofList versions) collected ∧
    (∀ names d, Follows (.ofList versions) collected names d → names.Nodup) ∧
    ∃ tip g, collected.graph .standard (some (.ofList versions)) = .ok (tip, g) := by
  have hnamed : Named (.ofList versions) collected := by
    intro d e hd he hname
    have hd := eq_or_mem_of_leads hd
    have he := eq_or_mem_of_leads he
    simp only [versions, List.map_cons, List.map_nil, List.mem_cons, List.not_mem_nil, or_false] at hd he
    rcases hd with rfl | rfl | rfl <;> rcases he with rfl | rfl | rfl <;> first | rfl | cases hname
  have hacyclic : ¬ Cyclic (.ofList versions) collected :=
    not_cyclic_ofList (fun d => d.includes.length) (by decide)
  have hnames := follows_nodup_iff.mpr hacyclic
  have hcomplete : ∀ d ∈ collected :: versions.map Prod.snd, d.Complete .standard (.ofList versions) := by decide
  exact ⟨hnamed, hnames, (graph_named .standard _ (.inl ⟨versions, rfl⟩) collected hnamed hnames).2.1
    fun d hd => hcomplete d (eq_or_mem_of_leads hd)⟩

/-- Includes a definition that bears its own name. -/
def wrapper : Definition := { name := "a", includes := ["b"] }

def wrapped : List (Text × Definition) := [("b", { name := "a", source := "x" })]

/-- Includes two definitions of one name. -/
def both : Definition := { name := "p", includes := ["b", "c"] }

def namesakes : List (Text × Definition) :=
  [("b", { name := "x", source := "1" }), ("c", { name := "x", source := "2" })]

/-- A definition that includes one of its own name is refused, though no name comes twice; and of two
definitions of one name that are included, the first is used for both. -/
theorem graph_namesakes :
    (∀ names d, Follows (.ofList wrapped) wrapper names d → names.Nodup) ∧
    wrapper.graph .standard (some (.ofList wrapped)) =
      .error (.failure (Failure.malformedGraph "circular include: a -> a")) ∧
    (∀ names d, Follows (.ofList namesakes) both names d → names.Nodup) ∧
    (both.graph .standard (some (.ofList namesakes))).toOption.map
      (fun result => (result.2.nodes.filter (·.op = .source)).map Node.config) =
      some [([("uri", .text "1")] : Row)] := by
  refine ⟨?_, rfl, ?_, rfl⟩
  · exact follows_nodup_iff.mpr (not_cyclic_ofList (fun d => d.includes.length) (by decide))
  · exact follows_nodup_iff.mpr (not_cyclic_ofList (fun d => d.includes.length) (by decide))

end Definition

end Dataflow
