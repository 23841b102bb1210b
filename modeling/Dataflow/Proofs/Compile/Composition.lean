import Dataflow.Proofs.Compile.Plain
import Dataflow.Proofs.Compile.Targets
import Dataflow.Proofs.Graph.Steps
import Dataflow.Proofs.Session.Composition

/-!
# Operators composed and streams combined

A choice or an ensemble of two operators is one node, whose branches a backend lowers one after the other
and joins.  Binding the two operators to a stream apart and combining the two results gives a graph with
a node for each operator.  For a backend that does not look at identifiers (`Backend.Composing`) both
graphs compile to related artifacts, or both fail (`Composing.matches_compile`).
-/

namespace Dataflow

open List

variable {α β γ δ : Type} {R : α → β → Prop} {S : γ → δ → Prop}

/-! ### Effects that resemble each other -/

/-- Settled effects whose results match, up to what failures say. -/
structure Effect.Resembles (R : α → β → Prop) (e : Effect α) (e' : Effect β) : Prop where
  settled : e.Settled
  settled' : e'.Settled
  outcomes : Matches Stop.Kin R e.outcome e'.outcome

namespace Effect

theorem resembles_pure {a : α} {b : β} (h : R a b) : Resembles R (pure a) (pure b) :=
  ⟨settled_pure a, settled_pure b, .ok h⟩

theorem resembles_throw {s s' : Stop} (h : s.Kin s') :
    Resembles R (throw s : Effect α) (throw s' : Effect β) :=
  ⟨settled_throw s, settled_throw s', .error h⟩

theorem resembles_refl {e : Effect α} (h : e.Settled) : Resembles Eq e e :=
  ⟨h, h, .refl Stop.Kin.refl _⟩

theorem resembles_log (e e' : LogEntry) : Resembles Eq (log e) (log e') :=
  ⟨settled_log e, settled_log e', .ok rfl⟩

theorem Resembles.bind {x : Effect α} {y : Effect β} {f : α → Effect γ} {g : β → Effect δ}
    (h : Resembles R x y) (hfg : ∀ a b, R a b → Resembles S (f a) (g b)) :
    Resembles S (x >>= f) (y >>= g) := by
  have houtcomes := h.outcomes
  have hf : ∀ a, x.outcome = .ok a → (f a).Settled := by
    intro a ha
    rw [ha] at houtcomes
    rcases hb : y.outcome with s | b <;> rw [hb] at houtcomes <;> cases houtcomes
    exact (hfg a b ‹_›).settled
  have hg : ∀ b, y.outcome = .ok b → (g b).Settled := by
    intro b hb
    rw [hb] at houtcomes
    rcases ha : x.outcome with s | a <;> rw [ha] at houtcomes <;> cases houtcomes
    exact (hfg a b ‹_›).settled'
  refine ⟨h.settled.bind hf, h.settled'.bind hg, ?_⟩
  rw [h.settled.outcome_bind hf, h.settled'.outcome_bind hg]
  exact houtcomes.bind fun a b hab => (hfg a b hab).outcomes

/-- The same outcome before both. -/
theorem Resembles.after {x : Outcome γ} {f : γ → Effect α} {g : γ → Effect β}
    (hfg : ∀ c, Resembles R (f c) (g c)) : Resembles R (ofOutcome x >>= f) (ofOutcome x >>= g) :=
  (resembles_refl (settled_ofOutcome x)).bind fun c _ hc => hc ▸ hfg c

end Effect

/-! ### Backends -/

namespace Backend

variable {b : Backend α} {R : α → α → Prop}

/-- The backend lowers nodes that are alike to related artifacts, and a composite node as its branches
one after the other and a node that joins them. -/
structure Composing (b : Backend α) (R : α → α → Prop) : Prop where
  refl : ∀ a, R a a
  alike : ∀ {n n' xs ys}, n.Like n' → Forall₂ R xs ys →
    Effect.Resembles R (b.lower n xs) (b.lower n' ys)
  unfolds : ∀ {n left right}, n.isOperatorComposite → n.branches = .ok (left, right) → ∀ x,
    b.lower n [x] = (do
      let l ← left.foldlM (fun x m => b.lower m [x]) x
      let r ← right.foldlM (fun x m => b.lower m [x]) x
      b.lower (joint n) [l, r])

section Branching

variable {name : Text} {lower : Node → List α → Effect α} {explain : Node → Stop → Stop}

/-- A backend that lowers composite nodes by their branches composes. -/
theorem composing_branching (hrefl : ∀ a, R a a)
    (hexplain : ∀ n n' s, n.op = n'.op → explain n s = explain n' s)
    (hlower : ∀ {n n' xs ys}, n.Like n' → Forall₂ R xs ys →
      Effect.Resembles R (lower n xs) (lower n' ys)) :
    Composing (branching name lower explain) R where
  refl := hrefl
  alike := by
    intro n n' xs ys hlike hxy
    have hcongruent : Congruent Node.Like (fun n n' => n.op = n'.op) R (Effect.Resembles R) lower lower explain :=
      { pure := Effect.resembles_pure
        throw := by
          intro n n' s h
          rw [hexplain n n' s h]
          exact Effect.resembles_throw (.refl _)
        bind := Effect.Resembles.bind
        plain := hlower
        joint := fun h => ⟨h, rfl, rfl⟩ }
    exact hcongruent.along hlike hlike.step hxy
  unfolds := unfolds_branching

end Branching

/-! ### Branches and chains of nodes -/

theorem reported_false (b : Backend α) (n : Node) (xs : List α) :
    b.reported false n xs = (b.lower n xs).outcome.mapFailure fun f => f.atNode b.name n.id := rfl

end Backend

variable {x : Outcome α} {y : Outcome β}

theorem Matches.mapFailure (h : Matches Stop.Kin R x y)
    (f g : Failure → Failure) : Matches Stop.Kin R (x.mapFailure f) (y.mapFailure g) := by
  cases h with
  | ok h => exact .ok h
  | error h =>
    cases h with
    | failure => exact .error (.failure _ _)
    | crash => exact .error .crash

theorem matches_mapError (f g : Failure → Failure) (r : Except Failure α) :
    Matches Stop.Kin Eq (Outcome.ofExcept (r.mapError f)) (Outcome.ofExcept (r.mapError g)) := by
  cases r with
  | ok a => exact .ok rfl
  | error e => exact .error (.failure _ _)

theorem Outcome.mapFailure_id (x : Outcome α) : x.mapFailure id = x := by
  rcases x with (f | _) | a <;> rfl

theorem Matches.mapFailure_right (h : Matches Stop.Kin R x y)
    (g : Failure → Failure) : Matches Stop.Kin R x (y.mapFailure g) := by
  have hmatch := h.mapFailure id g
  rwa [Outcome.mapFailure_id] at hmatch

theorem Matches.mapFailure_left (h : Matches Stop.Kin R x y)
    (f : Failure → Failure) : Matches Stop.Kin R (x.mapFailure f) y := by
  have hmatch := h.mapFailure f id
  rwa [Outcome.mapFailure_id] at hmatch

namespace Backend.Composing

variable {b : Backend α} {R : α → α → Prop} (h : b.Composing R)

include h

theorem settled : b.Settled := fun n _ =>
  (h.alike (.refl n) (forall₂_same.mpr fun a _ => h.refl a)).settled

theorem matches_reported {n n' : Node} (hlike : n.Like n') {xs ys : List α} (hxy : Forall₂ R xs ys)
    (cancelled : Bool) :
    Matches Stop.Kin R (b.reported cancelled n xs) (b.reported cancelled n' ys) := by
  cases cancelled with
  | true => exact .error (.failure _ _)
  | false => exact (h.alike hlike hxy).outcomes.mapFailure _ _

theorem settled_foldlM (ms : List Node) (x : α) : (ms.foldlM (fun x m => b.lower m [x]) x).Settled ∧
      (ms.foldlM (fun x m => b.lower m [x]) x).outcome =
        ms.foldlM (fun x m => (b.lower m [x]).outcome) x := by
  induction ms generalizing x with
  | nil => exact ⟨Effect.settled_pure x, rfl⟩
  | cons m ms ih =>
    have hm := h.settled m [x]
    have hms := fun y (_ : (b.lower m [x]).outcome = .ok y) => (ih y).1
    rw [foldlM_cons, foldlM_cons]
    refine ⟨hm.bind hms, ?_⟩
    rw [hm.outcome_bind hms]
    exact bind_congr fun y => (ih y).2

/-- A composite node on top of an artifact goes along with the chains of nodes that are like its branches
and a node that joins their ends. -/
theorem matches_composite {n c : Node} {left right as bs : List Node} (hn : n.isOperatorComposite)
    (hbranches : n.branches = .ok (left, right)) (hleft : Forall₂ Node.Like left as)
    (hright : Forall₂ Node.Like right bs) (hc : (joint n).Like c) {x y : α} (hxy : R x y) :
    Matches Stop.Kin R (b.reported false n [x]) (do
      let l ← as.foldlM (fun x m => b.reported false m [x]) y
      let r ← bs.foldlM (fun x m => b.reported false m [x]) y
      b.reported false c [l, r]) := by
  have hside : ∀ {ms ns : List Node}, Forall₂ Node.Like ms ns →
      Matches Stop.Kin R (ms.foldlM (fun x m => (b.lower m [x]).outcome) x)
        (ns.foldlM (fun x m => b.reported false m [x]) y) := fun hms =>
    matches_foldlM hms (fun m m' hm a a' ha =>
      (h.alike hm (.cons ha .nil)).outcomes.mapFailure_right _) hxy
  have hjoin := fun l r => h.settled (joint n) [l, r]
  have houtcome : (b.lower n [x]).outcome = (do
      let l ← left.foldlM (fun x m => (b.lower m [x]).outcome) x
      let r ← right.foldlM (fun x m => (b.lower m [x]).outcome) x
      (b.lower (joint n) [l, r]).outcome) := by
    have hl := h.settled_foldlM left x
    have hr := h.settled_foldlM right x
    rw [h.unfolds hn hbranches,
      hl.1.outcome_bind fun l _ => hr.1.bind fun r _ => hjoin l r, hl.2]
    refine bind_congr fun l => ?_
    rw [hr.1.outcome_bind fun r _ => hjoin l r, hr.2]
  rw [reported_false, houtcome]
  refine Matches.mapFailure_left ?_ _
  refine (hside hleft).bind fun l l' hl => (hside hright).bind fun r r' hr => ?_
  exact (h.alike hc (.cons hl (.cons hr .nil))).outcomes.mapFailure_right _

end Backend.Composing

namespace Graph.Ordered

variable {g : Graph} {n p : Node} {f : Node → List α → Outcome α} (h : g.Ordered)

include h

theorem plain_source (hn : n ∈ g.nodes) (hp : n.parents = []) : g.plain f n.id = f n [] := by
  rw [h.plain_eq hn, hp]
  rfl

theorem plain_single {x : Text} (hn : n ∈ g.nodes) (hp : n.parents = [x]) :
    g.plain f n.id = (do let a ← g.plain f x; f n [a]) := by
  rw [h.plain_eq hn, hp]
  simp

theorem plain_pair {x y : Text} (hn : n ∈ g.nodes) (hp : n.parents = [x, y]) :
    g.plain f n.id = (do let a ← g.plain f x; let b ← g.plain f y; f n [a, b]) := by
  rw [h.plain_eq hn, hp]
  simp

theorem plain_chain {ns : List Node} (hchain : Chained p.id ns) (hns : ∀ n ∈ ns, n ∈ g.nodes) :
    g.plain f (Session.lastOf p ns).id =
      (do let a ← g.plain f p.id; ns.foldlM (fun a n => f n [a]) a) := by
  induction ns generalizing p with
  | nil => exact (bind_pure _).symm
  | cons n ns ih =>
    cases hchain with
    | cons hp hrest =>
      rw [Session.lastOf_cons, ih hrest fun m hm => hns m (mem_cons_of_mem n hm),
        h.plain_single (hns n mem_cons_self) hp, bind_assoc]
      exact bind_congr fun a => by rw [foldlM_cons]

end Graph.Ordered

/-! ### The graphs of the two programs -/

theorem Graph.targets_eq_sink {g : Graph} (ns : List Node) {k : Node} (h : g.nodes = ns ++ [k])
    (hk : k.op = .sink) (hns : ∀ n ∈ ns, n.op ≠ .sink) : g.targets = [k] := by
  have hsinks : g.sinks = [k] := by
    have hnone : ns.filter (·.op = .sink) = [] := by simpa [filter_eq_nil_iff] using hns
    rw [Graph.sinks, h, filter_append, hnone]
    simp [hk]
  rw [Graph.targets, hsinks]
  rfl

namespace Session

variable {origin : Origin} {op : Op} {x y : Operator} {uri : Text} {g : Graph} {src c k : Node}
  {as bs : List Node} {f : Node → List α → Outcome α}

section Composed

variable (h : Composed origin op x y uri g src c k)

include h

theorem Composed.op_eq : c.op = op := by
  rw [h.composite]
  rfl

theorem Composed.targets (hop : op ≠ .sink) : g.targets = [k] := by
  refine Graph.targets_eq_sink [src, c] h.nodes (congrArg Prod.fst h.sink) ?_
  have hsource : src.op = .source := congrArg Prod.fst h.source
  simp [hsource, h.op_eq, hop]

theorem Composed.plain : g.plain f k.id = (do let a ← f src []; let z ← f c [a]; f k [z]) := by
  have hparents : c.parents = [src.id] := by
    rw [h.composite]
    rfl
  rw [h.ordered.plain_single (by simp [h.nodes]) h.last,
    h.ordered.plain_single (by simp [h.nodes]) hparents,
    h.ordered.plain_source (by simp [h.nodes]) h.start, bind_assoc]

end Composed

section Combined

variable (h : Combined origin op x y uri g src c k as bs)

include h

theorem Combined.targets (hop : op ≠ .sink) (hx : x.Staged) (hy : y.Staged) : g.targets = [k] := by
  have hnodes : g.nodes = src :: (as ++ bs ++ [c]) ++ [k] := by simp [h.nodes]
  refine Graph.targets_eq_sink _ hnodes (congrArg Prod.fst h.sink) fun n hn => ?_
  have hsource : src.op = .source := congrArg Prod.fst h.source
  have hjoint : c.op = op := congrArg Prod.fst h.joint
  simp only [mem_cons, mem_append, not_mem_nil, or_false] at hn
  rcases hn with rfl | (hn | hn) | rfl
  · simp [hsource]
  · exact h.first.ne_sink hx.leaf_ne_sink n hn
  · exact h.second.ne_sink hy.leaf_ne_sink n hn
  · simp [hjoint, hop]

theorem Combined.plain : g.plain f k.id = (do
    let l ← (do let a ← f src []; as.foldlM (fun a n => f n [a]) a)
    let r ← (do let a ← f src []; bs.foldlM (fun a n => f n [a]) a) let z ← f c [l, r]
    f k [z]) := by
  have hsource : g.plain f src.id = f src [] := h.ordered.plain_source (by simp [h.nodes]) h.start
  rw [h.ordered.plain_single (by simp [h.nodes]) h.last,
    h.ordered.plain_pair (by simp [h.nodes]) h.ends,
    h.ordered.plain_chain h.first.chained (by simp +contextual [h.nodes]),
    h.ordered.plain_chain h.second.chained (by simp +contextual [h.nodes]), hsource]
  simp only [bind_assoc]

end Combined

end Session

theorem Operator.Rebuilds.like {p p' : Text} {o : Operator} {ns ns' : List Node} (h : Rebuilds p o ns)
    (h' : Rebuilds p' o ns') : Forall₂ Node.Like ns ns' := by
  have hparts : ns.map Node.part = ns'.map Node.part := h.parts.trans h'.parts.symm
  have hone : ∀ n ∈ ns, n.parents.length = 1 := fun n hn => h.chained.parents_length hn
  have hone' : ∀ n ∈ ns', n.parents.length = 1 := fun n hn => h'.chained.parents_length hn
  clear h h'
  induction ns generalizing ns' with
  | nil =>
    obtain rfl := map_eq_nil_iff.mp hparts.symm
    exact .nil
  | cons n ns ih =>
    cases ns' with
    | nil => cases hparts
    | cons n' ns' =>
      simp only [List.map_cons, List.cons.injEq] at hparts
      rw [forall_mem_cons] at hone hone'
      exact .cons (.of_part hparts.1 (hone.1.trans hone'.1.symm)) (ih hparts.2 hone.2 hone'.2)

namespace Backend

variable {b : Backend α} {R : α → α → Prop}

/-- One artifact each, and the two related. -/
def Each (R : α → α → Prop) (ts ts' : List (Text × α)) : Prop :=
  ∃ t t', ts = [t] ∧ ts' = [t'] ∧ R t.2 t'.2

theorem compile_target (hb : b.Settled) {g : Graph} (hord : g.Ordered) {k : Node} (hk : k ∈ g.nodes)
    (htargets : g.targets = [k]) (w : Workspace) :
    (compile b g w).1 = (do return [(k.id, ← g.plain (b.reported w.cancelled) k.id)]) := by
  rw [compile_eq_plain hb hord (ne_nil_of_mem hk) w, htargets]
  simp

/-- **Composed and combined.**  A choice or an ensemble of two operators compiles like the combination of
the streams that the two operators make. -/
theorem Composing.matches_compile (h : b.Composing R) {origin : Session.Origin} {op : Op}
    (hop : op = .choice ∨ op = .ensemble) {x y : Operator} (hx : x.Staged) (hy : y.Staged) {uri : Text}
    {g g' : Graph} {src c k src' c' k' : Node} {as bs : List Node}
    (hg : Session.Composed origin op x y uri g src c k)
    (hg' : Session.Combined origin op x y uri g' src' c' k' as bs) (w : Workspace) :
    Matches Stop.Kin (Each R) (compile b g w).1 (compile b g' w).1 := by
  obtain ⟨left, right, hbranches, hrec⟩ :=
    Operator.recovers_of_stepless hx.declared hy.declared hx.stepless hy.stepless op c.id src.id
  rw [← hg.composite] at hbranches
  have hc : c.isOperatorComposite := by
    rw [hg.composite]
    exact Operator.isComposite hop ..
  have hsink : op ≠ .sink := by rcases hop with rfl | rfl <;> simp
  have hsource : src.Like src' :=
    .of_part (hg.source.trans hg'.source.symm) (by rw [hg.start, hg'.start])
  have hlast : k.Like k' := .of_part (hg.sink.trans hg'.sink.symm) (by rw [hg.last, hg'.last]; rfl)
  have hjoint : (joint c).Like c' :=
    .of_part (by rw [hg'.joint, ← hg.op_eq]; rfl) (by rw [hg'.ends]; rfl)
  rw [compile_target h.settled hg.ordered (by simp [hg.nodes]) (hg.targets hsink), hg.plain,
    compile_target h.settled hg'.ordered (by simp [hg'.nodes]) (hg'.targets hsink hx hy), hg'.plain]
  cases hw : w.cancelled with
  | true => exact .error (.failure _ _)
  | false =>
    have hstart := h.matches_reported hsource .nil false
    generalize b.reported false src [] = start at hstart
    generalize b.reported false src' [] = start' at hstart
    -- both chains of the second graph start from the same artifact of the source
    cases hstart with
    | error hkin => exact .error hkin
    | ok hxy =>
      refine Matches.bind (R := R) ?_ fun a a' ha => .ok ⟨_, _, rfl, rfl, ha⟩
      have hboth := h.matches_composite hc hbranches (hrec.first.like hg'.first)
        (hrec.second.like hg'.second) hjoint hxy
      have hend := hboth.bind fun z z' hz => h.matches_reported hlast (.cons hz .nil) false
      simp only [bind_assoc] at hend
      exact hend

end Backend

end Dataflow
