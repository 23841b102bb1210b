import Dataflow.Proofs.Graph.Document
import Dataflow.Proofs.Value.Data

/-!
# Graphs and their documents

A graph of data, with declared tags and UTF-8 texts, has a document and is read back from it as it is.
Conversely, a graph that is read from some text is a graph of data, with the first node of each identifier
that the document has (`Graph.FirstOf`), and it depends on nothing but the members `id` and `nodes` of the
document.  Main statement: `Graph.document_roundTrip`.
-/

namespace Dataflow

open List Json
open Value (depthFields isData_row_nil row list)

variable {n : Node} {k : Nat} {j : Json} {t : Text} {m : Text × Json} {o : Outline}

/-! ### Settings of data -/

theorem Value.replay?_made {v : Value} (h : v.made.IsData) : v.replay? = some v.made := by
  obtain ⟨j, hj⟩ := IsData.exists_writes _ h
  rw [replay?, written?, displayable?_eq v h]
  show (v.made.toJson?.bind fun j => j.displayed.toValue?) = _
  rw [hj.written, Option.bind_some, hj.displayed, hj.read]

abbrev Row.IsData (r : Row) : Prop := (row r).IsData

theorem Row.isData_iff {r : Row} :
    r.IsData ↔ Fields.Ascending r ∧ ∀ e ∈ r, e.1.Valid ∧ e.2.IsData := by
  constructor
  · intro h
    cases h with
    | row hr hkeys h => exact ⟨hr, fun e he => ⟨hkeys e he, h e he⟩⟩
  · exact fun h => .row h.1 (fun e he => (h.2 e he).1) fun e he => (h.2 e he).2

theorem Row.Replays.eq_made {r r' : Row} (h : r.Replays r') (hr : Row.IsData (Value.madeFields r)) :
    r' = Value.madeFields r := by
  obtain ⟨fs, hfs, rfl⟩ := h
  obtain ⟨hascending, hdata⟩ := Row.isData_iff.mp hr
  have heq : fs = Value.madeFields r := by
    clear hr hascending
    induction hfs with
    | nil => rfl
    | @cons e e' r fs he _ ih =>
      obtain ⟨k, v⟩ := e
      obtain ⟨k', v'⟩ := e'
      rw [Value.madeFields, forall_mem_cons] at hdata
      obtain ⟨⟨hkey, hvalue⟩, hdata⟩ := hdata
      have hk : k' = k := he.1.trans hkey
      have hv : v' = v.made := Option.some.inj (he.2.symm.trans (Value.replay?_made hvalue))
      rw [Value.madeFields, ih hdata, hk, hv]
  rw [heq, hascending.ofList_eq]

/-! ### Graphs of data -/

/-- The node with empty lists and rows for those that were never made. -/
def Node.made (n : Node) : Node := { n with config := Value.madeFields n.config }

/-- A node with a declared tag, UTF-8 identifiers and settings of data. -/
structure Node.IsData (n : Node) : Prop where
  declared : n.op.isDeclared
  id : n.id.Valid
  parents : ∀ p ∈ n.parents, p.Valid
  config : Row.IsData n.config

theorem Node.IsData.made_eq (h : n.IsData) : n.made = n := by
  have hconfig := Value.madeFields_eq n.config fun e he => ((Row.isData_iff.mp h.config).2 e he).2
  rw [Node.made, hconfig]

namespace Graph

variable {g : Graph} {ms : List (Text × Json)} {d : Draft} {o' : Outline}

structure IsData (g : Graph) : Prop where
  id : g.id.Valid
  node : ∀ n ∈ g.nodes, n.IsData

/-- The graph with empty lists and rows for those that were never made. -/
def made (g : Graph) : Graph where
  id := g.id
  nodes := g.nodes.map Node.made
  edges := g.edges
  nodup_ids := by
    rw [map_map]
    exact g.nodup_ids
  edges_eq := by
    rw [g.edges_eq, flatMap_map]
    rfl

theorem eq_of_nodes_eq {g' : Graph} (hid : g.id = g'.id) (hnodes : g.nodes = g'.nodes) : g = g' := by
  have hedges : g.edges = g'.edges := by rw [g.edges_eq, g'.edges_eq, hnodes]
  cases g
  cases g'
  cases hid
  cases hnodes
  cases hedges
  rfl

theorem IsData.made_eq (h : g.IsData) : g.made = g := by
  refine eq_of_nodes_eq rfl ((map_congr_left fun n hn => ?_).trans (map_id _))
  exact (h.node n hn).made_eq

/-! ### Writing -/

theorem depthAll_le_iff {xs : List Json} : depthAll xs ≤ k ↔ ∀ x ∈ xs, x.depth ≤ k := by
  induction xs with
  | nil => simp [depthAll]
  | cons x xs ih => rw [depthAll, Nat.max_le, ih, forall_mem_cons]

theorem depthMembers_le_iff : depthMembers ms ≤ k ↔ ∀ e ∈ ms, e.2.depth ≤ k := by
  induction ms with
  | nil => simp [depthMembers]
  | cons e ms ih => rw [depthMembers, Nat.max_le, ih, forall_mem_cons]

theorem depth_ofTexts (ts : List Text) : (ofTexts ts).depth = 1 := by
  have hzero : depthAll (ts.map text) ≤ 0 :=
    depthAll_le_iff.mpr (forall_mem_map.mpr fun _ _ => Nat.le_refl 0)
  rw [ofTexts, depth, Nat.le_zero.mp hzero]

theorem inRange_ofTexts (ts : List Text) : (ofTexts ts).InRange :=
  inRange_array.mpr (forall_mem_map.mpr fun _ _ => rfl)

theorem inRange_displayed_ofTexts (ts : List Text) : (ofTexts ts).displayed.InRange := by
  have hdisplayed : (ofTexts ts).displayed = .ofTexts (ts.map Text.shown) := by
    rw [ofTexts, displayed, displayedAll_eq_map, map_map, ofTexts, map_map]
    rfl
  rw [hdisplayed]
  exact inRange_ofTexts _

theorem exists_nodeJson? (h : n.made.IsData) :
    ∃ x, nodeJson? n = .ok (some x) ∧ x.displayed.InRange ∧ x.depth = depthFields n.made.config + 2 := by
  obtain ⟨hdeclared, hid, hparents, hconfig⟩ := h
  obtain ⟨-, hdata⟩ := Row.isData_iff.mp hconfig
  obtain ⟨ms, hwritten, hdisplayed, hread, hdepth⟩ := Value.IsData.exists_writesFields (Value.madeFields n.config)
    (fun e he => (hdata e he).1) fun e he => (hdata e he).2
  refine ⟨described n ms, ?_, ?_, ?_⟩
  · rw [nodeJson?, Node.settings?, Value.displayableFields?_eq n.config fun e he => (hdata e he).2]
    show Except.ok (Option.map _ (Value.toJson? (.row (Value.madeFields n.config)))) = _
    rw [Value.toJson?, hwritten]
    rfl
  · have hsettings : (object ms).InRange :=
      inRange_object.mpr (isSome_toFields?.mp (Option.isSome_iff_exists.mpr ⟨_, hread⟩))
    rw [displayed_described (n := n) hdeclared hid hparents, hdisplayed]
    refine inRange_object.mpr ?_
    simp only [forall_mem_cons, not_mem_nil, false_imp_iff, implies_true, and_true]
    exact ⟨rfl, rfl, hsettings, inRange_ofTexts _⟩
  · rw [described, depth]
    simp only [depthMembers, depth, depth_ofTexts, hdepth]
    show max 0 (max 0 (max (depthFields (Value.madeFields n.config) + 1) (max 1 0))) + 1 = _
    show _ = depthFields (Value.madeFields n.config) + 2
    omega

/-- A graph of data has a document, not much deeper than the settings of its nodes. -/
theorem exists_toJson? (h : g.made.IsData)
    (hk : ∀ n ∈ g.nodes, depthFields n.made.config ≤ k) :
    ∃ j, g.toJson? = .ok (some j) ∧ j.displayed.InRange ∧ j.depth ≤ k + 4 := by
  obtain ⟨js, hjs⟩ := exists_forall₂ fun (n : Node) (hn : n ∈ g.nodes) =>
    exists_nodeJson? (h.node n.made (mem_map_of_mem hn))
  have hmapM : g.nodes.mapM nodeJson? = .ok (js.map some) :=
    mapM_eq_pure (forall₂_map_right_iff.mpr (hjs.imp fun n x hx => hx.1))
  have hnodes : ∀ x ∈ js, x.displayed.InRange ∧ x.depth ≤ k + 2 := by
    intro x hx
    obtain ⟨n, hn, -, hrange, hdepth⟩ := exists_mem_of_forall₂ hjs.flip hx
    exact ⟨hrange, hdepth ▸ Nat.add_le_add_right (hk n hn) 2⟩
  have hfilter : (js.map some).filterMap (fun x => x) = js := by simp [filterMap_map]
  have hwritten : g.toJson? = .ok (some (.object [("id", .text g.id), ("nodes", .array js),
      ("edges", .array (g.edges.map fun e => ofTexts [e.parent, e.child]))])) := by
    rw [toJson?, hmapM]
    show Except.ok (if (js.map some).all Option.isSome = true then some (object [_, ("nodes", .array _), _])
      else none) = _
    rw [if_pos (by simp), hfilter]
  refine ⟨_, hwritten, ?_, ?_⟩
  · rw [displayed_document, inRange_object]
    simp only [forall_mem_cons, not_mem_nil, false_imp_iff, implies_true, and_true, inRange_array,
      forall_mem_map]
    exact ⟨rfl, fun x hx => (hnodes x hx).1, fun e _ => inRange_displayed_ofTexts _⟩
  · have hjs := depthAll_le_iff.mpr fun x hx => (hnodes x hx).2
    have hes : depthAll (g.edges.map fun e => ofTexts [e.parent, e.child]) ≤ 1 :=
      depthAll_le_iff.mpr (forall_mem_map.mpr fun _ _ => (depth_ofTexts _).le)
    simp only [depth, depthMembers]
    omega

theorem ofText_of_isData (h : g.made.IsData) (hj : g.toJson? = .ok (some j))
    (hrange : j.displayed.InRange) (hdepth : j.depth ≤ maxDepth) : ofText j.print = .ok g.made := by
  have hdata : ∀ n ∈ g.nodes, n.made.IsData := fun n hn => h.node n.made (mem_map_of_mem hn)
  obtain ⟨g', hg', hid, halong⟩ := exists_ofText hj (fun n hn => (hdata n hn).declared)
    (fun n hn => ⟨(hdata n hn).id, (hdata n hn).parents⟩) hdepth hrange
  rw [hg']
  refine congrArg Except.ok (eq_of_nodes_eq (hid.trans h.id) ?_)
  have hmade : Forall₂ Eq (g.nodes.map Node.made) g'.nodes := by
    refine forall₂_map_left_iff.mpr (((forall₂_and_left _ _).mpr ⟨hdata, halong⟩).imp ?_)
    rintro n ⟨id', op', config', parents'⟩ ⟨hn, hid, hparents, hop, hconfig⟩
    obtain rfl : n.id = id' := hid
    obtain rfl : n.parents = parents' := hparents
    obtain rfl : n.op = op' := hop
    obtain rfl : config' = Value.madeFields n.config := hconfig.eq_made hn.config
    rfl
  exact (forall₂_eq_eq_eq ▸ hmade : g.nodes.map Node.made = g'.nodes).symm

/-! ### Reading -/

theorem depth_of_mem_array {xs : List Json} {x : Json} (h : x ∈ xs) : x.depth < (array xs).depth :=
  Nat.lt_succ_iff.mpr (depthAll_le_iff.mp le_rfl x h)

theorem depth_of_mem_object {e : Text × Json} (h : e ∈ ms) : e.2.depth < (object ms).depth :=
  Nat.lt_succ_iff.mpr (depthMembers_le_iff.mp le_rfl e h)

/-- What every step of a fold keeps holds at its end. -/
theorem foldlM_induction {α β : Type} {f : α → β → Option α} {P : α → Prop} {xs : List β}
    (h : ∀ a x a', x ∈ xs → P a → f a x = some a' → P a') {a a' : α} (ha : P a)
    (hf : xs.foldlM f a = some a') : P a' := by
  induction xs generalizing a with
  | nil =>
    cases hf
    exact ha
  | cons x xs ih =>
    rw [foldlM_cons] at hf
    obtain ⟨b, hb, hf⟩ := Option.bind_eq_some_iff.mp hf
    exact ih (fun a y a' hy => h a y a' (mem_cons_of_mem x hy)) (h a x b mem_cons_self ha hb) hf

namespace Draft

theorem valid_of_readText? {old : Text} (hold : old.Valid) (hj : j.Accepted)
    (h : readText? old j = some t) : t.Valid := by
  cases j with
  | text u =>
    cases h
    exact hj.legible
  | null =>
    cases h
    exact hold
  | _ => cases h

/-- Elements of a list member are updates of old or fresh ones. -/
theorem forall_of_readList? {α : Type} {P : α → Prop} {fresh : α} {update : α → Json → Option α}
    {old ys : List α} (hj : j.Accepted) (hfresh : P fresh) (hold : ∀ a ∈ old, P a)
    (hupdate : ∀ a x a', P a → x.Accepted → x.depth < j.depth → update a x = some a' → P a')
    (h : readList? fresh update old j = some ys) : ∀ y ∈ ys, P y := by
  cases j with
  | null =>
    cases h
    exact nofun
  | array xs =>
    intro y hy
    obtain ⟨⟨x, i⟩, hx, hupdated⟩ := exists_mem_of_forall₂ (mapM_eq_some_iff.mp h).flip hy
    have hmem : x ∈ xs := fst_mem_of_mem_zipIdx hx
    refine hupdate _ x y ?_ (accepted_array.mp hj x hmem) (depth_of_mem_array hmem) hupdated
    by_cases hi : i < old.length
    · rw [getD_eq_getElem _ _ hi]
      exact hold _ (getElem_mem hi)
    · rw [getD_eq_default _ _ (Nat.le_of_not_lt hi)]
      exact hfresh
  | _ => cases h

theorem isData_of_readConfig? {old r : Row} (hj : j.Accepted) (hdepth : j.depth ≤ k + 1)
    (hold : Row.IsData old ∧ depthFields old ≤ k) (h : readConfig? old j = some r) :
    Row.IsData r ∧ depthFields r ≤ k := by
  cases j with
  | null =>
    cases h
    exact ⟨isData_row_nil, Nat.zero_le k⟩
  | object ms =>
    obtain ⟨fs, hfs, rfl⟩ := Option.map_eq_some_iff.mp h
    obtain ⟨hdata, hfields⟩ := Value.isData_of_toFields? ms (accepted_object.mp hj) hfs
    obtain ⟨hascending, hvalues⟩ := Row.isData_iff.mp hold.1
    have hms : depthMembers ms ≤ k := Nat.le_of_succ_le_succ hdepth
    constructor
    · refine Row.isData_iff.mpr ⟨hascending.update fs, fun e he => ?_⟩
      exact (Fields.mem_update he).elim (hvalues e) (hdata e)
    · refine Value.depthFields_le_iff.mpr fun e he => ?_
      rcases Fields.mem_update he with he | he
      · exact Value.depthFields_le_iff.mp hold.2 e he
      · exact (Value.depthFields_le_iff.mp hfields e he).trans hms
  | _ => cases h

/-- The draft has UTF-8 identifiers, and settings of data of some depth. -/
structure Sound (k : Nat) (d : Draft) : Prop where
  id : d.id.Valid
  parents : ∀ p ∈ d.parents, p.Valid
  config : Row.IsData d.config ∧ depthFields d.config ≤ k

theorem sound_fresh (k : Nat) : Sound k {} :=
  ⟨by decide, forall_mem_nil _, isData_row_nil, Nat.zero_le k⟩

theorem Sound.member? {d' : Draft} (hd : d.Sound k) (hm : m.2.Accepted)
    (hdepth : m.2.depth ≤ k + 1) (h : Draft.member? d m = some d') : d'.Sound k := by
  obtain ⟨key, j⟩ := m
  unfold Draft.member? at h
  dsimp only at h
  split at h
  · obtain ⟨t, ht, rfl⟩ := Option.map_eq_some_iff.mp h
    exact ⟨valid_of_readText? hd.id hm ht, hd.parents, hd.config⟩
  split at h
  · obtain ⟨t, ht, rfl⟩ := Option.map_eq_some_iff.mp h
    exact ⟨hd.id, hd.parents, hd.config⟩
  split at h
  · obtain ⟨r, hr, rfl⟩ := Option.map_eq_some_iff.mp h
    exact ⟨hd.id, hd.parents, isData_of_readConfig? hm hdepth hd.config hr⟩
  split at h
  · obtain ⟨ps, hps, rfl⟩ := Option.map_eq_some_iff.mp h
    refine ⟨hd.id, ?_, hd.config⟩
    exact forall_of_readList? hm (by decide) hd.parents
      (fun _ _ _ hold hx _ hread => valid_of_readText? hold hx hread) hps
  · cases h
    exact hd

theorem Sound.update? {d' : Draft} (hd : d.Sound k) (hj : j.Accepted)
    (hdepth : j.depth ≤ k + 2) (h : Draft.update? d j = some d') : d'.Sound k := by
  cases j with
  | null =>
    cases h
    exact hd
  | object ms =>
    refine foldlM_induction (fun a m a' hm ha => ha.member? (accepted_object.mp hj m hm).2 ?_) hd h
    have := depth_of_mem_object hm
    omega
  | _ => cases h

end Draft

/-- The drafts of the outline are sound. -/
structure Outline.Sound (k : Nat) (o : Outline) : Prop where
  id : o.id.Valid
  nodes : ∀ d ∈ o.nodes, d.Sound k

theorem Outline.Sound.member? (ho : o.Sound k)
    (hm : m.2.Accepted) (hdepth : m.2.depth ≤ k + 3) (h : Outline.member? o m = some o') : o'.Sound k := by
  obtain ⟨key, j⟩ := m
  unfold Outline.member? at h
  dsimp only at h
  split at h
  · obtain ⟨t, ht, rfl⟩ := Option.map_eq_some_iff.mp h
    exact ⟨Draft.valid_of_readText? ho.id hm ht, ho.nodes⟩
  split at h
  · obtain ⟨ds, hds, rfl⟩ := Option.map_eq_some_iff.mp h
    refine ⟨ho.id, Draft.forall_of_readList? hm (Draft.sound_fresh k) ho.nodes ?_ hds⟩
    intro d x d' hd hx hlt hupdate
    exact hd.update? hx (Nat.lt_succ_iff.mp (hlt.trans_le hdepth)) hupdate
  split at h
  · split at h
    · cases h
      exact ho
    · split at h
      · cases h
        exact ho
      · cases h
    · cases h
  · cases h
    exact ho

theorem sound_outline? (hj : j.Accepted) (hdepth : j.depth ≤ k + 4)
    (h : outline? j = some o) : o.Sound k := by
  have hfresh : Outline.Sound k {} := ⟨by decide, nofun⟩
  cases j with
  | null =>
    cases h
    exact hfresh
  | object ms =>
    refine foldlM_induction (fun a m a' hm ha => ha.member? (accepted_object.mp hj m hm).2 ?_) hfresh h
    have := depth_of_mem_object hm
    omega
  | _ => cases h

/-- A graph that is read has the nodes of the drafts in a document. -/
theorem exists_of_ofText (h : ofText t = .ok g) :
    ∃ j o ns, read? t = some j ∧ outline? j = some o ∧ o.nodes.mapM Draft.node = .ok ns ∧
      g = ofNodes o.id ns := by
  unfold ofText at h
  split at h
  · cases h
  · next o ho =>
    obtain ⟨j, hj, ho⟩ := Option.bind_eq_some_iff.mp ho
    cases hns : o.nodes.mapM Draft.node with
    | error f =>
      rw [hns] at h
      cases h
    | ok ns =>
      rw [hns] at h
      cases h
      exact ⟨j, o, ns, hj, ho, hns, rfl⟩

theorem isDeclared_of_ofName? {name : Text} {op : Op} (h : Op.ofName? name = some op) : op.isDeclared := by
  have hdeclared : ∀ op ∈ Op.declared, op.isDeclared := by decide
  exact hdeclared op (mem_of_find?_eq_some h)

theorem Draft.Sound.isData (hd : d.Sound k) (h : d.node = .ok n) :
    n.IsData ∧ depthFields n.config ≤ k := by
  unfold Draft.node at h
  split at h
  · next op hop =>
    cases h
    exact ⟨⟨isDeclared_of_ofName? hop, hd.id, hd.parents, hd.config.1⟩, hd.config.2⟩
  · cases h

/-- A graph that is read is one of data, and not too deep to be read again. -/
theorem isData_of_ofText (h : ofText t = .ok g) :
    g.IsData ∧ ∀ n ∈ g.nodes, depthFields n.config ≤ maxDepth - 4 := by
  obtain ⟨j, o, ns, hj, ho, hns, rfl⟩ := exists_of_ofText h
  obtain ⟨haccepted, hdepth⟩ := accepted_read? hj
  have hsound : o.Sound (maxDepth - 4) :=
    sound_outline? haccepted (hdepth.trans (Nat.le_of_eq (by decide))) ho
  have hnodes : ∀ n ∈ ns, n.IsData ∧ depthFields n.config ≤ maxDepth - 4 := by
    intro n hn
    obtain ⟨d, hd, hnode⟩ := exists_mem_of_forall₂ (forall₂_of_mapM hns).flip hn
    exact (hsound.nodes d hd).isData hnode
  have hmem : ∀ n ∈ (ofNodes o.id ns).nodes, n ∈ ns := fun n hn => (mem_foldl_add hn).resolve_left nofun
  refine ⟨⟨?_, fun n hn => (hnodes n (hmem n hn)).1⟩, fun n hn => (hnodes n (hmem n hn)).2⟩
  rw [ofNodes, id_foldl_add]
  exact hsound.id

/-! ### Nodes that are given twice -/

/-- The nodes of the graph are the first ones of their identifiers, in order. -/
structure FirstOf (ns : List Node) (g : Graph) : Prop where
  nodup : g.ids.Nodup
  sublist : g.nodes.Sublist ns
  first : ∀ id, g.node? id = ns.find? (·.id = id)

theorem sublist_foldl_add (ns : List Node) (g : Graph) : (ns.foldl add g).nodes.Sublist (g.nodes ++ ns) := by
  induction ns generalizing g with
  | nil => exact (append_nil g.nodes).symm ▸ List.Sublist.refl _
  | cons n ns ih =>
    rw [foldl_cons]
    refine (ih (g.add n)).trans ?_
    by_cases h : g.has n.id
    · rw [add_of_has h]
      exact (sublist_cons_self n ns).append_left g.nodes
    · rw [nodes_add h, List.append_assoc]
      exact List.Sublist.refl _

theorem node?_foldl_add (ns : List Node) (g : Graph) (id : Text) :
    (ns.foldl add g).node? id = (g.nodes ++ ns).find? (·.id = id) := by
  induction ns generalizing g with
  | nil => rw [append_nil]; rfl
  | cons n ns ih =>
    rw [foldl_cons, ih]
    by_cases h : g.has n.id
    · -- a node with the identifier is there before
      rw [add_of_has h, List.find?_append, List.find?_append, List.find?_cons]
      by_cases hid : n.id = id
      · obtain ⟨m, hm, hmid⟩ := exists_node_of_mem_ids (has_iff.mp h)
        have hfound : g.nodes.find? (·.id = id) = some m := node?_eq_some_iff.mpr ⟨hm, hmid.trans hid⟩
        rw [hfound]
        rfl
      · rw [decide_eq_false hid]
    · rw [nodes_add h, List.append_assoc]
      rfl

theorem firstOf_ofNodes (id : Text) (ns : List Node) : FirstOf ns (ofNodes id ns) where
  nodup := (ofNodes id ns).nodup_ids
  sublist := sublist_foldl_add ns (empty id)
  first := node?_foldl_add ns (empty id)

/-! ### Members that count -/

/-- The member has to do with the graph that is read. -/
def Outline.counts (m : Text × Json) : Bool := Text.sameFold m.1 "id" || Text.sameFold m.1 "nodes"

theorem Outline.member?_eq (hm : counts m = false)
    (h : Outline.member? o m = some o') : o' = o := by
  obtain ⟨key, j⟩ := m
  obtain ⟨hid, hnodes⟩ := Bool.or_eq_false_iff.mp hm
  have hid : Text.sameFold key "id" = false := hid
  have hnodes : Text.sameFold key "nodes" = false := hnodes
  unfold Outline.member? at h
  simp only [hid, hnodes, Bool.false_eq_true, if_false] at h
  split at h
  · split at h
    · exact (Option.some.inj h).symm
    · split at h
      · exact (Option.some.inj h).symm
      · cases h
    · cases h
  · exact (Option.some.inj h).symm

/-- Edges and unknown members can be left out. -/
theorem foldlM_filter_counts
    (h : ms.foldlM Outline.member? o = some o') :
    (ms.filter Outline.counts).foldlM Outline.member? o = some o' := by
  induction ms generalizing o with
  | nil => exact h
  | cons m ms ih =>
    rw [foldlM_cons] at h
    obtain ⟨o₁, ho₁, h⟩ := Option.bind_eq_some_iff.mp h
    cases hm : Outline.counts m with
    | false =>
      rw [filter_cons_of_neg (by rw [hm]; decide)]
      exact ih (Outline.member?_eq hm ho₁ ▸ h)
    | true =>
      rw [filter_cons_of_pos hm, foldlM_cons, ho₁]
      exact ih h

/-- The two texts are documents with the same members `id` and `nodes`, in order. -/
def SameNodes (t t' : Text) : Prop :=
  ∃ ms ms', read? t = some (.object ms) ∧ read? t' = some (.object ms') ∧
    ms.filter Outline.counts = ms'.filter Outline.counts

theorem eq_of_sameNodes {t' : Text} {g' : Graph} (h : ofText t = .ok g) (h' : ofText t' = .ok g')
    (hsame : SameNodes t t') : g' = g := by
  obtain ⟨ms, ms', hms, hms', hfilter⟩ := hsame
  obtain ⟨j, o, ns, hj, ho, hns, rfl⟩ := exists_of_ofText h
  obtain ⟨j', o', ns', hj', ho', hns', rfl⟩ := exists_of_ofText h'
  cases hms.symm.trans hj
  cases hms'.symm.trans hj'
  have heq := foldlM_filter_counts ho'
  rw [← hfilter, foldlM_filter_counts ho] at heq
  cases heq
  cases hns.symm.trans hns'
  rfl

/-! ### Round trips -/

/-- **Graphs and their documents.**  A graph of data has a document, and unless that is too deep it is read
back from its text; lists and rows that were never made come back as empty ones.  Conversely, take any graph
that is read from a text.  Its nodes are the first ones of their identifiers among those the document has,
its edges are the ones that its nodes name, other members of the document than `id` and `nodes` change
nothing, and the graph is read again from its own document. -/
theorem document_roundTrip :
    (∀ g : Graph, g.IsData → ∃ j, g.toJson? = .ok (some j) ∧
      (j.depth ≤ Json.maxDepth → ofText j.print = .ok g)) ∧
    (∀ g : Graph, g.made.IsData → ∃ j, g.toJson? = .ok (some j) ∧
      (j.depth ≤ Json.maxDepth → ofText j.print = .ok g.made)) ∧
    ∀ t g, ofText t = .ok g →
      (∃ o ns, (Json.read? t).bind outline? = some o ∧ o.nodes.mapM Draft.node = .ok ns ∧ g.id = o.id ∧
        FirstOf ns g) ∧
      g.edges = g.nodes.flatMap Node.edges ∧
      (∀ t' g', ofText t' = .ok g' → SameNodes t t' → g' = g) ∧
      ∃ j, g.toJson? = .ok (some j) ∧ ofText j.print = .ok g := by
  have hmade : ∀ g : Graph, g.made.IsData → ∃ j, g.toJson? = .ok (some j) ∧
      (j.depth ≤ maxDepth → ofText j.print = .ok g.made) := by
    intro g hg
    obtain ⟨k, hk⟩ : ∃ k, ∀ n ∈ g.nodes, depthFields n.made.config ≤ k :=
      ⟨(g.nodes.map fun n => depthFields n.made.config).sum, fun n hn =>
        List.single_le_sum (by simp) _ (List.mem_map_of_mem hn)⟩
    obtain ⟨j, hj, hrange, -⟩ := exists_toJson? hg hk
    exact ⟨j, hj, ofText_of_isData hg hj hrange⟩
  refine ⟨fun g hg => ?_, hmade, fun t g hg => ⟨?_, g.edges_eq, fun t' g' hg' => eq_of_sameNodes hg hg', ?_⟩⟩
  · have heq := hg.made_eq
    obtain ⟨j, hj, hread⟩ := hmade g (heq.symm ▸ hg)
    exact ⟨j, hj, fun hdepth => (hread hdepth).trans (by rw [heq])⟩
  · obtain ⟨j, o, ns, hj, ho, hns, rfl⟩ := exists_of_ofText hg
    exact ⟨o, ns, by rw [hj]; exact ho, hns, id_foldl_add ns _, firstOf_ofNodes o.id ns⟩
  · obtain ⟨hdata, hdepth⟩ := isData_of_ofText hg
    have heq := hdata.made_eq
    have hmade : g.made.IsData := heq.symm ▸ hdata
    have hk : ∀ n ∈ g.nodes, depthFields n.made.config ≤ maxDepth - 4 := by
      intro n hn
      rw [(hdata.node n hn).made_eq]
      exact hdepth n hn
    obtain ⟨j, hj, hrange, hle⟩ := exists_toJson? hmade hk
    refine ⟨j, hj, ?_⟩
    rw [ofText_of_isData hmade hj hrange (hle.trans (by decide)), heq]

/-- A source whose settings stand in one another, with a list that was never made, and a node that reads it. -/
def nested : Graph := ofNodes "g"
  [{ id := "a", op := .source,
     config := [("rows", .list [.null, .row [("x", .bool true)], .noList]), ("uri", .text "é")] },
   { id := "b", op := .map, parents := ["a"] }]

/-- Two nodes of one identifier, and an edge that no node names. -/
def repeated : Text :=
  "\x7b\"nodes\":[\x7b\"id\":\"a\",\"type\":\"Source\"\x7d,\x7b\"id\":\"a\",\"type\":\"Map\"\x7d]," ++
    "\"edges\":[[\"x\",\"y\"]]\x7d"

theorem nodes_nested : nested.made.nodes =
    [{ id := "a", op := .source,
       config := [("rows", .list [.null, .row [("x", .bool true)], .list []]), ("uri", .text "é")] },
     { id := "b", op := .map, parents := ["a"] }] := by
  show nested.nodes.map Node.made = _
  rw [nested, nodes_ofNodes "g" (by decide)]
  rfl

theorem isData_nested : nested.made.IsData := by
  refine ⟨show Text.Valid "g" by decide, ?_⟩
  rw [nodes_nested]
  have hrow : (row [("x", .bool true)]).IsData :=
    .row (pairwise_singleton _ _) (by decide) (forall_mem_singleton.mpr (.bool true))
  have hrows : (list [.null, .row [("x", .bool true)], .list []]).IsData :=
    .list (by simpa using ⟨.null, hrow, Value.isData_list_nil⟩)
  have hconfig : Row.IsData
      [("rows", .list [.null, .row [("x", .bool true)], .list []]), ("uri", .text "é")] :=
    .row (pairwise_pair.mpr (by decide)) (by decide) (by simpa using ⟨hrows, .text (by decide)⟩)
  simp only [forall_mem_cons, not_mem_nil, false_imp_iff, implies_true, and_true]
  exact ⟨⟨rfl, by decide, forall_mem_nil _, hconfig⟩, ⟨rfl, by decide, by decide, isData_row_nil⟩⟩

theorem document_roundTrip_nested :
    (nested.made.IsData ∧ ∃ j, nested.toJson? = .ok (some j) ∧ ofText j.print = .ok nested.made) ∧
    ∃ g, ofText repeated = .ok g ∧ g.nodes.map Node.op = [.source] ∧ g.edges = [] ∧
      ∃ j, g.toJson? = .ok (some j) ∧ ofText j.print = .ok g := by
  refine ⟨⟨isData_nested, ?_⟩, ?_⟩
  · obtain ⟨j, hj, hread⟩ := document_roundTrip.2.1 nested isData_nested
    have hshallow : nested.toJson?.toOption.join.all (·.depth ≤ maxDepth) := by cbv
    rw [hj] at hshallow
    exact ⟨j, hj, hread (of_decide_eq_true hshallow)⟩
  · have hread : (ofText repeated).toOption.map (fun g => (g.nodes.map Node.op, g.edges)) =
        some ([.source], []) := by cbv
    cases hg : ofText repeated with
    | error f =>
      rw [hg] at hread
      cases hread
    | ok g =>
      rw [hg] at hread
      obtain ⟨hop, hedges⟩ := Prod.mk.inj (Option.some.inj hread)
      exact ⟨g, rfl, hop, hedges, (document_roundTrip.2.2 repeated g hg).2.2.2⟩

end Graph

end Dataflow
