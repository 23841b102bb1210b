import Dataflow.Graph.Document
import Dataflow.Proofs.Compile.Alike
import Dataflow.Proofs.Json.Values
import Dataflow.Proofs.Value.Replay

/-!
# Graphs read back from their documents

A graph is written node by node.  If the identifiers of its nodes are UTF-8 and its tags declared, the graph
that is read back has nodes in the same places with the same identifiers, tags and parents, and with what
comes back of their settings (`Graph.exists_ofText`).
-/

namespace Dataflow

open List Json
open Text (sameFold shown)

variable {ms : List (Text × Json)} {ns : List Node} {g : Graph} {n : Node} {x j : Json}

/-! ### Lists of results -/

theorem mapM_eq_pure {m : Type → Type} [Monad m] [LawfulMonad m] {α β : Type} {f : α → m β} {xs : List α}
    {ys : List β} (h : Forall₂ (fun x y => f x = pure y) xs ys) : xs.mapM f = pure ys := by
  induction h with
  | nil => rw [mapM_nil]
  | cons hxy _ ih => rw [mapM_cons, hxy, pure_bind, ih, pure_bind]

/-! ### Parts of documents with values -/

namespace Json

/-- All numbers of the document are in range, so that it has a value. -/
def InRange (j : Json) : Prop := j.toValue?.isSome

theorem isSome_toFields? : (toFields? ms).isSome ↔ ∀ e ∈ ms, e.2.InRange := by
  induction ms with
  | nil => simp [toFields?]
  | cons m ms ih =>
    obtain ⟨k, x⟩ := m
    rw [forall_mem_cons, ← ih, toFields?, InRange]
    cases toValue? x <;> cases toFields? ms <;> simp

theorem isSome_toValues? {xs : List Json} : (toValues? xs).isSome ↔ ∀ x ∈ xs, x.InRange := by
  induction xs with
  | nil => simp [toValues?]
  | cons x xs ih =>
    rw [forall_mem_cons, ← ih, toValues?, InRange]
    cases toValue? x <;> cases toValues? xs <;> simp

theorem inRange_object : (object ms).InRange ↔ ∀ e ∈ ms, e.2.InRange := by
  rw [← isSome_toFields?, InRange, toValue?, Option.isSome_map]

theorem inRange_array {xs : List Json} : (array xs).InRange ↔ ∀ x ∈ xs, x.InRange := by
  rw [← isSome_toValues?, InRange, toValue?, Option.isSome_map]

theorem InRange.fields (h : (object ms).InRange) : ∃ fs, toFields? ms = some fs :=
  Option.isSome_iff_exists.mp (isSome_toFields?.mpr (inRange_object.mp h))

mutual

/-- The texts of all numbers in the document. -/
def numerals : Json → List Text
  | number t => [t]
  | array xs => numeralsAll xs
  | object ms => numeralsMembers ms
  | _ => []

def numeralsAll : List Json → List Text
  | [] => []
  | x :: xs => numerals x ++ numeralsAll xs

def numeralsMembers : List (Text × Json) → List Text
  | [] => []
  | (_, x) :: ms => numerals x ++ numeralsMembers ms

end

mutual

/-- A document whose numbers are doubles has a value, as it is shown. -/
theorem inRange_displayed (j : Json) (h : ∀ t ∈ j.numerals, ∃ x, readFloat t = .ok x) : j.displayed.InRange := by
  cases j with
  | null | bool | text => exact rfl
  | number t =>
    obtain ⟨x, hx⟩ := h t (mem_singleton.mpr rfl)
    show ((match readFloat t with | .ok x => some (Value.float x) | .error _ => none)).isSome = true
    rw [hx]
    rfl
  | array xs =>
    rw [displayed, inRange_array]
    exact inRange_displayedAll xs h
  | object ms =>
    rw [displayed, inRange_object]
    exact inRange_displayedMembers ms h

theorem inRange_displayedAll (xs : List Json) (h : ∀ t ∈ numeralsAll xs, ∃ x, readFloat t = .ok x) :
    ∀ x ∈ displayedAll xs, x.InRange := by
  cases xs with
  | nil => exact nofun
  | cons x xs =>
    rw [numeralsAll, forall_mem_append] at h
    rw [displayedAll, forall_mem_cons]
    exact ⟨inRange_displayed x h.1, inRange_displayedAll xs h.2⟩

theorem inRange_displayedMembers (ms : List (Text × Json))
    (h : ∀ t ∈ numeralsMembers ms, ∃ x, readFloat t = .ok x) : ∀ e ∈ displayedMembers ms, e.2.InRange := by
  cases ms with
  | nil => exact nofun
  | cons m ms =>
    obtain ⟨k, x⟩ := m
    rw [numeralsMembers, forall_mem_append] at h
    rw [displayedMembers, forall_mem_cons]
    exact ⟨inRange_displayed x h.1, inRange_displayedMembers ms h.2⟩

end

theorem displayedAll_eq_map (xs : List Json) : displayedAll xs = xs.map displayed := by
  induction xs with
  | nil => rfl
  | cons x xs ih => rw [displayedAll, ih, List.map_cons]

end Json

theorem Op.shown_name (op : Op) (h : op.isDeclared) : op.name.shown = op.name := by
  cases op with
  | other => cases h
  | _ => decide

/-- The second node has the tag of the first and what comes back of its settings. -/
structure Node.Follows (n n' : Node) : Prop where
  op : n.op = n'.op
  config : n.config.Replays n'.config

theorem map_id_of_alongside {P : Node → Node → Prop} {ns ns' : List Node}
    (h : Forall₂ (Node.Alongside P) ns ns') : ns.map Node.id = ns'.map Node.id := by
  induction h with
  | nil => rfl
  | cons hn _ ih => rw [List.map_cons, List.map_cons, hn.id, ih]

namespace Graph

theorem nodes_foldl_add (h : ((g.nodes ++ ns).map Node.id).Nodup) :
    (ns.foldl add g).nodes = g.nodes ++ ns := by
  induction ns generalizing g with
  | nil => rw [foldl_nil, append_nil]
  | cons n ns ih =>
    have hnew : ¬ g.has n.id := by
      rw [has_iff, ids]
      intro hmem
      rw [map_append, nodup_append] at h
      exact h.2.2 _ hmem _ (by simp) rfl
    have hnodes := nodes_add hnew
    rw [foldl_cons, ih (by rwa [hnodes, List.append_assoc]), hnodes, List.append_assoc]
    rfl

theorem id_add (g : Graph) (n : Node) : (g.add n).id = g.id := by
  unfold add
  split <;> rfl

theorem id_foldl_add (ns : List Node) (g : Graph) : (ns.foldl add g).id = g.id := by
  induction ns generalizing g with
  | nil => rfl
  | cons n ns ih => rw [foldl_cons, ih, id_add]

theorem nodes_ofNodes (id : Text) (h : (ns.map Node.id).Nodup) : (ofNodes id ns).nodes = ns := by
  rw [ofNodes, nodes_foldl_add (by simpa using h)]
  rfl

/-! ### What is written -/

def described (n : Node) (ms : List (Text × Json)) : Json := .object
  [("id", .text n.id), ("type", .text n.op.name), ("config", .object ms), ("parents", .ofTexts n.parents)]

theorem exists_of_nodeJson? (h : nodeJson? n = .ok (some x)) :
    ∃ d ms, Value.displayableFields? n.config = some d ∧ Value.toJsonFields? d = some ms ∧
      x = described n ms := by
  unfold nodeJson? at h
  obtain ⟨c, hc, h⟩ := Outcome.bind_eq_ok h
  unfold Node.settings? at hc
  obtain ⟨d, hd, hc⟩ := Outcome.bind_eq_ok hc
  cases hc
  obtain ⟨c, hc, rfl⟩ := Option.map_eq_some_iff.mp (Except.ok.inj h)
  rw [Value.toJson?] at hc
  obtain ⟨ms, hms, rfl⟩ := Option.map_eq_some_iff.mp hc
  refine ⟨d, ms, ?_, hms, rfl⟩
  cases hfields : Value.displayableFields? n.config with
  | none =>
    rw [hfields] at hd
    cases hd
  | some d' =>
    rw [hfields] at hd
    cases hd
    rfl

theorem exists_of_toJson? (h : g.toJson? = .ok (some j)) :
    ∃ js, Forall₂ (fun n x => nodeJson? n = .ok (some x)) g.nodes js ∧
      j = .object [("id", .text g.id), ("nodes", .array js),
        ("edges", .array (g.edges.map fun e => ofTexts [e.parent, e.child]))] := by
  unfold toJson? at h
  obtain ⟨nodes, hnodes, h⟩ := Outcome.bind_eq_ok h
  have hforall := forall₂_of_mapM hnodes
  replace h := Except.ok.inj h
  split at h
  · next hall =>
    refine ⟨nodes.filterMap fun x => x, ?_, (Option.some.inj h).symm⟩
    clear h hnodes
    generalize g.nodes = ns at hforall
    induction hforall with
    | nil => exact .nil
    | @cons n x ns nodes hn _ ih =>
      rw [all_cons, Bool.and_eq_true] at hall
      obtain ⟨y, rfl⟩ := Option.isSome_iff_exists.mp hall.1
      exact .cons hn (ih hall.2)
  · cases h

theorem numeric_ofTexts (ts : List Text) : (ofTexts ts).Numeric :=
  numericAll_iff.mpr (forall_mem_map.mpr fun _ _ => trivial)

theorem numeric_nodeJson? (h : nodeJson? n = .ok (some x)) : x.Numeric := by
  obtain ⟨d, ms, -, hms, rfl⟩ := exists_of_nodeJson? h
  have hconfig : (object ms).Numeric :=
    Value.numeric_toJson? (.row d) (by rw [Value.toJson?, hms, Option.map_some])
  exact ⟨trivial, trivial, hconfig, numeric_ofTexts _, trivial⟩

def ofDocument (j : Json) : Except Failure Graph :=
  match outline? j with
  | none => .error (Failure.invalidInput "graph" "not a graph document")
  | some o => do
    let nodes ← o.nodes.mapM Draft.node
    return ofNodes o.id nodes

theorem ofText_of_read? {t : Text} (h : read? t = some j) : ofText t = ofDocument j := by
  rw [ofText, h]
  rfl

theorem ofText_print (h : g.toJson? = .ok (some j)) (hdepth : j.depth ≤ maxDepth) :
    ofText j.print = ofDocument j.displayed := by
  refine ofText_of_read? (read?_write true ?_ hdepth)
  obtain ⟨js, hjs, rfl⟩ := exists_of_toJson? h
  have hnodes : (array js).Numeric := numericAll_iff.mpr fun x hx => by
    obtain ⟨n, -, hn⟩ := exists_mem_of_forall₂ hjs.flip hx
    exact numeric_nodeJson? hn
  have hedges : (array (g.edges.map fun e => ofTexts [e.parent, e.child])).Numeric :=
    numericAll_iff.mpr (forall_mem_map.mpr fun _ _ => numeric_ofTexts _)
  exact ⟨trivial, hnodes, hedges, trivial⟩

/-! ### What is read -/

theorem displayed_ofTexts {ts : List Text} (h : ∀ t ∈ ts, t.Valid) :
    (ofTexts ts).displayed = .ofTexts ts := by
  rw [ofTexts, displayed, displayedAll_eq_map, map_map]
  refine congrArg array (map_congr_left fun t ht => ?_)
  exact congrArg text (h t ht)

theorem readList?_fresh {α : Type} (fresh : α) (update : α → Json → Option α) (xs : List Json) :
    Draft.readList? fresh update [] (.array xs) = xs.mapM (update fresh) := by
  have hzip : ∀ k, (xs.zipIdx k).mapM (fun e => update (([] : List α).getD e.2 fresh) e.1) =
      xs.mapM (update fresh) := by
    induction xs with
    | nil => exact fun k => rfl
    | cons x xs ih => exact fun k => by rw [zipIdx_cons, mapM_cons, mapM_cons, ih]; rfl
  exact hzip 0

theorem readTexts (ts : List Text) :
    Draft.readList? Text.empty Draft.readText? [] (.ofTexts ts) = some ts := by
  rw [ofTexts, readList?_fresh]
  refine mapM_eq_pure ?_
  rw [forall₂_map_left_iff]
  exact forall₂_same.mpr fun t _ => rfl

theorem displayed_described (hop : n.op.isDeclared) (hid : n.id.Valid)
    (hparents : ∀ p ∈ n.parents, p.Valid) (ms : List (Text × Json)) :
    (described n ms).displayed = described n (displayedMembers ms) := by
  have hname := n.op.shown_name hop
  have hkeys : ("id" : Text).shown = "id" ∧ ("type" : Text).shown = "type" ∧
      ("config" : Text).shown = "config" ∧ ("parents" : Text).shown = "parents" := by decide
  obtain ⟨hkid, hktype, hkconfig, hkparents⟩ := hkeys
  unfold described
  simp only [displayed, displayedMembers, displayed_ofTexts hparents]
  show object [(shown "id", .text n.id.shown), (shown "type", .text n.op.name.shown),
    (shown "config", _), (shown "parents", _)] = _
  rw [hkid, hktype, hkconfig, hkparents, hname, hid]

theorem update?_described (n : Node) {fs : Row}
    (h : toFields? ms = some fs) : Draft.update? {} (described n ms) =
      some { id := n.id, type := n.op.name, config := Fields.ofList fs, parents := n.parents } := by
  have hparents := readTexts n.parents
  have hfold : (sameFold "id" "id" ∧ sameFold "type" "type" ∧ sameFold "config" "config" ∧
      sameFold "parents" "parents") ∧ ¬ sameFold "type" "id" ∧ ¬ sameFold "config" "id" ∧
      ¬ sameFold "config" "type" ∧ ¬ sameFold "parents" "id" ∧
      ¬ sameFold "parents" "type" ∧ ¬ sameFold "parents" "config" := by decide
  simp only [described, Draft.update?, foldlM_cons, foldlM_nil, Draft.member?, hfold, if_true,
    if_false, Draft.readText?, Draft.readConfig?, h, Option.map_some, Option.bind_eq_bind, Option.bind_some,
    Bool.false_eq_true]
  rw [hparents]
  rfl

/-- The draft has what comes back of the node. -/
structure Draft.Follows (n : Node) (d : Draft) : Prop where
  id : d.id = n.id
  type : d.type = n.op.name
  parents : d.parents = n.parents
  config : n.config.Replays d.config

theorem exists_draft (h : nodeJson? n = .ok (some x)) (hop : n.op.isDeclared)
    (hid : n.id.Valid) (hparents : ∀ p ∈ n.parents, p.Valid) (hx : x.displayed.InRange) :
    ∃ d, Draft.Follows n d ∧ Draft.update? {} x.displayed = some d := by
  obtain ⟨d, ms, hd, hms, rfl⟩ := exists_of_nodeJson? h
  rw [displayed_described hop hid hparents] at hx ⊢
  obtain ⟨fs, hfs⟩ := (inRange_object.mp hx ("config", .object (displayedMembers ms)) (by simp)).fields
  exact ⟨_, ⟨rfl, rfl, rfl, Row.replays_of_fields hd hms hfs⟩, update?_described n hfs⟩

theorem node_of_follows {d : Draft} (h : Draft.Follows n d) (hop : n.op.isDeclared) :
    ∃ n', Node.Alongside Node.Follows n n' ∧ d.node = .ok n' := by
  obtain ⟨id, type, config, parents⟩ := d
  obtain ⟨rfl, rfl, rfl, hconfig⟩ := h
  refine ⟨{ id := n.id, op := n.op, config, parents := n.parents }, ⟨rfl, rfl, rfl, hconfig⟩, ?_⟩
  have hname : Op.ofName? n.op.name = some n.op := by
    cases hop' : n.op with
    | other => rw [hop'] at hop; cases hop
    | _ => rfl
  rw [Draft.node, hname]

theorem outline?_document (id : Text) (js es : List Json) (hes : es.all isEdge) {ds : List Draft}
    (hds : js.mapM (Draft.update? {}) = some ds) :
    outline? (.object [("id", .text id), ("nodes", .array js), ("edges", .array es)]) =
      some { id, nodes := ds } := by
  have hfold : (sameFold "id" "id" ∧ sameFold "nodes" "nodes" ∧ sameFold "edges" "edges") ∧
      ¬ sameFold "nodes" "id" ∧ ¬ sameFold "edges" "id" ∧ ¬ sameFold "edges" "nodes" := by
    decide
  have hnodes : Draft.readList? {} Draft.update? [] (.array js) = some ds := (readList?_fresh _ _ js).trans hds
  simp only [outline?, foldlM_cons, foldlM_nil, Outline.member?, hfold, if_true, if_false,
    Draft.readText?, Option.map_some, Option.bind_eq_bind, Option.bind_some, Bool.false_eq_true, hnodes, hes]
  rfl

theorem displayed_document (id : Text) (js es : List Json) :
    (object [("id", .text id), ("nodes", .array js), ("edges", .array es)]).displayed =
      .object [("id", .text id.shown), ("nodes", .array (js.map displayed)),
        ("edges", .array (es.map displayed))] := by
  have hkeys : ("id" : Text).shown = "id" ∧ ("nodes" : Text).shown = "nodes" ∧
      ("edges" : Text).shown = "edges" := by decide
  obtain ⟨hid, hnodes, hedges⟩ := hkeys
  simp only [displayed, displayedMembers, displayedAll_eq_map]
  show object [(shown "id", .text id.shown), (shown "nodes", _), (shown "edges", _)] = _
  rw [hid, hnodes, hedges]

/-- **Graphs are read back from their documents.**  A graph with declared tags and UTF-8 identifiers that
has a document, one that readers go down to the bottom of and whose numbers are in range, is read back from
it node by node. -/
theorem exists_ofText (hj : g.toJson? = .ok (some j))
    (hops : ∀ n ∈ g.nodes, n.op.isDeclared) (hids : ∀ n ∈ g.nodes, n.id.Valid ∧ ∀ p ∈ n.parents, p.Valid)
    (hdepth : j.depth ≤ maxDepth) (hrange : j.displayed.InRange) :
    ∃ g', ofText j.print = .ok g' ∧ g'.id = g.id.shown ∧ g.Alongside Node.Follows g' := by
  rw [ofText_print hj hdepth]
  clear hdepth
  obtain ⟨js, hjs, rfl⟩ := exists_of_toJson? hj
  generalize hes : (g.edges.map fun e => ofTexts [e.parent, e.child]) = es at hrange ⊢
  have hedges : (es.map displayed).all isEdge := by
    rw [← hes, map_map, all_map, all_eq_true]
    intro e _
    rfl
  rw [displayed_document] at hrange ⊢
  have hjsrange : ∀ x ∈ js, x.displayed.InRange := by
    have hnodes := inRange_object.mp hrange ("nodes", .array (js.map displayed)) (by simp)
    exact fun x hx => inRange_array.mp hnodes _ (mem_map_of_mem hx)
  obtain ⟨ds, hfollows, hdrafts⟩ := exists_forall₂_along hjs fun n hn x hx hnode =>
    exists_draft hnode (hops n hn) (hids n hn).1 (hids n hn).2 (hjsrange x hx)
  have hds := mapM_eq_some_iff.mpr (forall₂_map_left_iff.mpr hdrafts)
  obtain ⟨ns', halong, hnodes⟩ := exists_forall₂_along hfollows fun n hn d _ hd => node_of_follows hd (hops n hn)
  have hns' : ds.mapM Draft.node = .ok ns' := mapM_eq_pure hnodes
  refine ⟨ofNodes g.id.shown ns', ?_, id_foldl_add ns' _, ?_⟩
  · rw [ofDocument, outline?_document _ _ _ hedges hds]
    show (ds.mapM Draft.node >>= _) = _
    rw [hns']
    rfl
  · have hnodup : (ns'.map Node.id).Nodup := map_id_of_alongside halong ▸ g.nodup_ids
    show Forall₂ _ _ _
    rwa [nodes_ofNodes _ hnodup]

end Graph

end Dataflow
