import Dataflow.Proofs.Streaming.Denotation

/-!
# Private copies

`g'.Copies g orig`: the nodes of `g'` are copies of nodes of `g`, with the same operation and settings,
and they read copies of what the original reads.  A node of `g` that several nodes read may have a copy
for each of them in `g'`.

Main statement (`Graph.Copies.evaluate`): a copy denotes what the original denotes.  Only the failures of
functions tell them apart, by the node they are reported at (`Meaning.Agree`).
-/

namespace Dataflow

/-- The same, or the same failure of a function, reported at one node and at another. -/
def Stop.Agree (s s' : Stop) : Prop :=
  s = s' ∨ ∃ (f : Failure) (id id' : Text),
    s = .failure (f.atNode Streaming.name id) ∧ s' = .failure (f.atNode Streaming.name id')

theorem Stop.Agree.refl (s : Stop) : s.Agree s := .inl rfl

theorem Stop.Agree.eq_crash_iff {s s' : Stop} (h : s.Agree s') : s = .crash ↔ s' = .crash := by
  rcases h with rfl | ⟨f, id, id', rfl, rfl⟩
  · exact Iff.rfl
  · simp

/-- Related results, or reasons that agree why there is none. -/
def Outcome.Agree {α β : Type} (R : α → β → Prop) : Outcome α → Outcome β → Prop
  | .ok a, .ok b => R a b
  | .error s, .error s' => s.Agree s'
  | _, _ => False

namespace Outcome.Agree

variable {α β γ δ : Type} {R : α → β → Prop} {S : γ → δ → Prop} {o : Outcome α} {o' : Outcome β}

theorem refl (o : Outcome α) : o.Agree Eq o := by
  cases o with
  | ok a => exact rfl
  | error s => exact Stop.Agree.refl s

theorem bind {f : α → Outcome γ} {f' : β → Outcome δ} (h : o.Agree R o')
    (hf : ∀ a b, R a b → (f a).Agree S (f' b)) : (o >>= f).Agree S (o' >>= f') := by
  cases o <;> cases o' <;> try exact h.elim
  · exact h
  · exact hf _ _ h

theorem map {f : α → γ} {f' : β → δ} (h : o.Agree R o') (hf : ∀ a b, R a b → S (f a) (f' b)) :
    Outcome.Agree S (o.map f) (o'.map f') := by
  cases o <;> cases o' <;> try exact h.elim
  · exact h
  · exact hf _ _ h

theorem crash : Outcome.Agree R Outcome.crash Outcome.crash := Stop.Agree.refl _

theorem after (o : Outcome α) {f : α → Outcome γ} {f' : α → Outcome δ} (hf : ∀ a, (f a).Agree S (f' a)) :
    (o >>= f).Agree S (o >>= f') :=
  (refl o).bind fun a _ hab => hab ▸ hf a

theorem ok {a : α} (h : o.Agree R o') (ho : o = .ok a) : ∃ b, o' = .ok b ∧ R a b := by
  subst ho
  cases o' with
  | ok b => exact ⟨b, rfl, h⟩
  | error s => exact h.elim

end Outcome.Agree

namespace Meaning

/-- The same values, and ends that agree. -/
structure Agree (m m' : Meaning) : Prop where
  values : m.values = m'.values
  stop : Option.Rel Stop.Agree m.stop m'.stop

theorem agree_ofList (vs : List Value) : (ofList vs).Agree (ofList vs) := ⟨rfl, .none⟩

theorem agree_after {α : Type} {o o' : Outcome α} {next next' : α → Meaning} (h : o.Agree Eq o')
    (hnext : ∀ a, (next a).Agree (next' a)) : (after o next).Agree (after o' next') := by
  cases o <;> cases o' <;> try exact h.elim
  · exact ⟨rfl, .some h⟩
  · obtain rfl := h
    exact hnext _

namespace Agree

variable {m m' k k' : Meaning}

section

variable (h : m.Agree m')

include h

theorem prepend (vs : List Value) : (m.prepend vs).Agree (m'.prepend vs) :=
  ⟨congrArg (vs ++ ·) h.values, h.stop⟩

theorem whole {next next' : List Value → Meaning}
    (hnext : ∀ vs, (next vs).Agree (next' vs)) : (m.whole next).Agree (m'.whole next') := by
  obtain ⟨vs, stop⟩ := m
  obtain ⟨vs', stop'⟩ := m'
  obtain ⟨rfl, hstop⟩ := h
  cases hstop with
  | none => exact hnext _
  | some hs => exact ⟨rfl, .some hs⟩

theorem expand {f f' : Value → Outcome (List Value)} (hf : ∀ v, (f v).Agree Eq (f' v)) :
    (m.expand f).Agree (m'.expand f') := by
  obtain ⟨vs, stop⟩ := m
  obtain ⟨vs', stop'⟩ := m'
  obtain ⟨rfl, hstop⟩ := h
  simp only [Meaning.expand] at hstop ⊢
  induction vs with
  | nil => exact ⟨rfl, hstop⟩
  | cons v vs ih => exact agree_after (hf v) fun ws => ih.prepend ws

theorem map {f f' : Value → Outcome Value} (hf : ∀ v, (f v).Agree Eq (f' v)) :
    (m.map f).Agree (m'.map f') :=
  h.expand fun v => (hf v).map fun _ _ hab => hab ▸ rfl

theorem filter {f f' : Value → Outcome Bool} (hf : ∀ v, (f v).Agree Eq (f' v)) :
    (m.filter f).Agree (m'.filter f') :=
  h.expand fun v => (hf v).map fun _ _ hab => hab ▸ rfl

theorem reduce (init : Value) {f f' : Value → Value → Outcome Value}
    (hf : ∀ acc v, (f acc v).Agree Eq (f' acc v)) : (m.reduce init f).Agree (m'.reduce init f') := by
  have hfold (vs : List Value) (acc : Value) : (vs.foldlM f acc).Agree Eq (vs.foldlM f' acc) := by
    induction vs generalizing acc with
    | nil => exact .refl _
    | cons v vs ih => exact (hf acc v).bind fun a _ hab => hab ▸ ih a
  unfold Meaning.reduce
  rw [h.values]
  exact agree_after (hfold m'.values init) fun acc => h.whole fun _ => agree_ofList _

theorem append (hk : k.Agree k') : (m.append k).Agree (m'.append k') := by
  obtain ⟨vs, stop⟩ := m
  obtain ⟨vs', stop'⟩ := m'
  obtain ⟨rfl, hstop⟩ := h
  cases hstop with
  | none => exact hk.prepend vs
  | some hs => exact ⟨rfl, .some hs⟩

end

theorem concat {ms ms' : List Meaning} (h : List.Forall₂ Agree ms ms') :
    (Meaning.concat ms).Agree (Meaning.concat ms') := by
  induction h with
  | nil => exact agree_ofList []
  | cons hm _ ih => exact hm.append ih

/-- Both are empty or neither, and both for a crash or neither. -/
theorem fallback (h : m.Agree m') (hk : k.Agree k') : (m.fallback k).Agree (m'.fallback k') := by
  obtain ⟨vs, stop⟩ := m
  obtain ⟨vs', stop'⟩ := m'
  obtain ⟨rfl, hstop⟩ := h
  cases vs with
  | cons v vs => exact ⟨rfl, hstop⟩
  | nil =>
    cases hstop with
    | none => exact hk
    | @some s s' hs =>
      cases s with
      | crash =>
        obtain rfl := hs.eq_crash_iff.mp rfl
        exact ⟨rfl, .some (.refl _)⟩
      | failure f =>
        cases s' with
        | crash => cases hs.eq_crash_iff.mpr rfl
        | failure f' => exact hk

theorem zip (h : m.Agree m') (hk : k.Agree k') (f : Value → Value → Value) :
    (m.zip f k).Agree (m'.zip f k') := by
  refine ⟨by simp only [Meaning.zip, h.values, hk.values], ?_⟩
  simp only [Meaning.zip, h.values, hk.values]
  split
  · exact h.stop
  · exact hk.stop

theorem sliding (h : m.Agree m') (size : Int) : (m.sliding size).Agree (m'.sliding size) :=
  ⟨by simp only [Meaning.sliding, h.values], h.stop⟩

theorem join (h : m.Agree m') (hk : k.Agree k') (leftKey rightKey : Value → Outcome (Option Text))
    (f : Value → Value → Value) : (m.join leftKey rightKey f k).Agree (m'.join leftKey rightKey f k') :=
  hk.whole fun _ => agree_after (.refl _) fun _ => h.expand fun _ => .refl _

end Agree

end Meaning

namespace Streaming

theorem agree_atNode {α : Type} (n n' : Node) (r : Except Failure α) :
    (atNode n r).Agree Eq (atNode n' r) := by
  cases r with
  | ok a => exact .refl _
  | error f => exact .inr ⟨f, n.id, n'.id, rfl, rfl⟩

/-- A node and a copy of it make the same of inputs that agree. -/
theorem denote_copy (lib : Library) (n : Node) (id : Text) (parents : List Text) {ms ms' : List Meaning}
    (h : List.Forall₂ Meaning.Agree ms ms') :
    (denote lib n ms).Agree Meaning.Agree (denote lib { n with id, parents } ms') := by
  obtain ⟨_, op, config, _⟩ := n
  cases op with
  | source => exact .after _ fun uri => Meaning.agree_ofList _
  | union | merge => exact Meaning.Agree.concat h
  | map =>
    rcases h with _ | ⟨hm, _ | _⟩ <;> try exact .crash
    refine .after _ fun f => ?_
    cases f with
    | none => exact hm
    | some f => exact hm.map fun v => agree_atNode _ _ _
  | filter =>
    rcases h with _ | ⟨hm, _ | _⟩ <;> try exact .crash
    refine .after _ fun f => ?_
    cases f with
    | none => exact hm
    | some f => exact hm.filter fun v => agree_atNode _ _ _
  | reduce =>
    rcases h with _ | ⟨hm, _ | _⟩ <;> try exact .crash
    refine .after _ fun f => ?_
    rcases f with _ | ⟨_, _, _ | code⟩
    · exact hm
    · exact hm
    · exact hm.reduce _ fun acc v => agree_atNode _ _ _
  | window =>
    rcases h with _ | ⟨hm, _ | _⟩ <;> try exact .crash
    exact hm.sliding _
  | custom =>
    rcases h with _ | ⟨hm, _ | _⟩ <;> try exact .crash
    exact hm
  | sink =>
    rcases h with _ | ⟨hm, _ | _⟩ <;> try exact .crash
    exact hm.whole fun vs => Meaning.agree_ofList vs
  | join =>
    rcases h with _ | ⟨hm, _ | ⟨hk, _ | _⟩⟩ <;> try exact .crash
    exact .after _ fun on => hm.join hk _ _ _
  | choice =>
    rcases h with _ | ⟨hm, _ | ⟨hk, _ | _⟩⟩ <;> try exact .crash
    exact hm.fallback hk
  | ensemble =>
    rcases h with _ | ⟨hm, _ | ⟨hk, _ | _⟩⟩ <;> try exact .crash
    exact hm.zip hk _
  | other name => exact .crash

end Streaming

/-- The nodes are copies of the nodes of `g`: the original of a node is the same but for its identifier,
and reads the originals of what the copy reads. -/
def Graph.Copies (g' g : Graph) (orig : Text → Text) : Prop :=
  ∀ n ∈ g'.nodes, g.node? (orig n.id) =
    some { n with id := orig n.id, parents := n.parents.map orig }

/-- **Copies denote what their originals denote.** -/
theorem Graph.Copies.evaluate {g' g : Graph} {orig : Text → Text} (h : g'.Copies g orig) (lib : Library)
    {depth : Nat} {id : Text} {m' : Meaning}
    (hm : g'.evaluate (Streaming.denote lib) depth id = some m') :
    ∃ m, g.evaluate (Streaming.denote lib) depth (orig id) = some m ∧ m'.Agree m := by
  induction depth generalizing id m' with
  | zero => cases hm
  | succ depth ih =>
    obtain ⟨n, hn, ms', hms', hdenote⟩ := Graph.evaluate_succ_eq_some.mp hm
    obtain ⟨hmem, rfl⟩ := Graph.node?_eq_some_iff.mp hn
    obtain ⟨ms, hms, hagree⟩ := exists_forall₂_along (mapM_eq_some_iff.mp hms') fun _ _ _ _ => ih
    obtain ⟨m, hm, hmm⟩ := (Streaming.denote_copy lib n _ _ hagree).ok hdenote
    have hparents := mapM_eq_some_iff.mpr (List.forall₂_map_left_iff.mpr hms)
    exact ⟨m, Graph.evaluate_succ_eq_some.mpr ⟨_, h n hmem, ms, hparents, hm⟩, hmm⟩

end Dataflow
