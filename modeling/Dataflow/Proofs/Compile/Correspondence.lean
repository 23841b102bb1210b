import Dataflow.Proofs.Compile.Walk

/-!
# Backends that correspond

Two backends correspond along a function between their artifacts if they lower nodes to artifacts that
the function relates, with the same effects and failures.  Then they compile every graph alike: walks
take the same steps with artifacts that the function relates (`Follows`), by the recursion of the walk.
-/

namespace Dataflow

variable {α β γ δ γ' δ' : Type} {h : α → β} {k : γ → δ}

def Compilation.map (h : α → β) (c : Compilation α) : Compilation β :=
  { memo := c.memo.map (Prod.map id h), workspace := c.workspace }

theorem Compilation.artifact?_map (c : Compilation α) (id : Text) :
    (c.map h).artifact? id = (c.artifact? id).map h := by
  simp [artifact?, map, List.find?_map, Function.comp_def]

/-- The second walk does what the first one does, with other artifacts and results. -/
def Follows (h : α → β) (k : γ → δ) (x : Compiling α γ) (y : Compiling β δ) : Prop :=
  ∀ c, y.run.run (c.map h) = ((x.run.run c).1.map k, (x.run.run c).2.map h)

theorem follows_pure (a : γ) : Follows h k (pure a) (pure (k a)) := fun _ => rfl

theorem follows_throw (s : Stop) : Follows h k (throw s) (throw s) := fun _ => rfl

theorem Follows.bind {k' : γ' → δ'} {x : Compiling α γ} {y : Compiling β δ} {f : γ → Compiling α γ'}
    {g : δ → Compiling β δ'} (hxy : Follows h k x y) (hfg : ∀ a, Follows h k' (f a) (g (k a))) :
    Follows h k' (x >>= f) (y >>= g) := by
  intro c
  have hc := hxy c
  rcases hx : x.run.run c with ⟨s | a, c'⟩ <;> rw [hx] at hc
  · rw [run_bind_error hx, run_bind_error hc]
    rfl
  · rw [run_bind_ok hx, run_bind_ok hc]
    exact hfg a c'

theorem follows_mapM {ι : Type} {f : ι → Compiling α γ} {g : ι → Compiling β δ} (is : List ι)
    (hfg : ∀ i, Follows h k (f i) (g i)) : Follows h (List.map k) (is.mapM f) (is.mapM g) := by
  induction is with
  | nil => exact follows_pure []
  | cons i is ih =>
    rw [List.mapM_cons, List.mapM_cons]
    exact (hfg i).bind fun a => ih.bind fun as => follows_pure (a :: as)

namespace Backend

/-- The second backend lowers nodes to what the function makes of the artifacts of the first. -/
structure Corresponds (h : α → β) (b : Backend α) (b' : Backend β) : Prop where
  name : b'.name = b.name
  lower : ∀ n xs, b'.lower n (xs.map h) = h <$> b.lower n xs

namespace Corresponds

variable {b : Backend α} {b' : Backend β} (hb : Corresponds h b b')

include hb

theorem follows_lowerAt (n : Node) (xs : List α) :
    Follows h h (b.lowerAt n xs) (b'.lowerAt n (xs.map h)) := by
  intro c
  rw [run_lowerAt, run_lowerAt, run_checkpoint, run_checkpoint, hb.lower, hb.name, run_map]
  by_cases hcancelled : c.workspace.cancelled
  · simp only [Compilation.map, hcancelled, if_true]
    rfl
  · simp only [Compilation.map, hcancelled]
    rcases (b.lower n xs).run.run c.workspace with ⟨(f | _) | a, w⟩
    · rfl
    · rfl
    · simp [Except.map]

theorem follows_visit (g : Graph) (active : List Text) (id child : Text) :
    Follows h h (visit b g active id child) (visit b' g active id child) := by
  induction hk : (g.inactive active).length using Nat.strongRecOn generalizing active id child with
  | ind k ih =>
    intro c
    rw [run_visit, run_visit, Compilation.artifact?_map]
    cases c.artifact? id with
    | some a => rfl
    | none =>
      cases hnode : g.node? id with
      | none => rfl
      | some n =>
        by_cases hactive : id ∈ active
        · simp only [Option.map_none, if_pos hactive]
          rfl
        · simp only [Option.map_none, if_neg hactive]
          have hlt := g.length_inactive_lt hnode hactive
          exact Follows.bind (follows_mapM n.parents fun p => ih _ (hk ▸ hlt) _ p id rfl)
            (fun xs => hb.follows_lowerAt n xs) c

theorem follows_artifacts (g : Graph) :
    Follows h (List.map (Prod.map id h)) (artifacts b g) (artifacts b' g) := by
  unfold artifacts
  split
  · exact follows_throw _
  · exact follows_mapM g.targets fun n =>
      (hb.follows_visit g [] n.id "").bind fun a => follows_pure (n.id, a)

/-- **Backends that correspond compile alike**: they fail alike, or give artifacts that correspond for
the same targets. -/
theorem compile_eq (g : Graph) (w : Workspace) :
    (compile b' g w).1 = (compile b g w).1.map (List.map (Prod.map id h)) := by
  rw [compile_fst, compile_fst]
  exact congrArg Prod.fst (hb.follows_artifacts g { workspace := w })

end Corresponds

/-! ### Branches -/

section Branching

variable {lower : Node → List α → Effect α} {lower' : Node → List β → Effect β}

theorem corresponds_branching (name : Text) (explain : Node → Stop → Stop)
    (hlower : ∀ n xs, lower' n (xs.map h) = h <$> lower n xs) :
    Corresponds h (branching name lower explain) (branching name lower' explain) := by
  have hcongruent : Congruent Eq Eq (fun a b => h a = b) (fun x y => y = h <$> x) lower lower' explain :=
    { pure := by
        rintro a _ rfl
        rfl
      throw := by
        rintro n _ s rfl
        rfl
      bind := by
        rintro x _ f g rfl hfg
        rw [bind_map_left, map_bind]
        exact bind_congr fun a => hfg a _ rfl
      plain := by
        rintro n _ xs ys rfl hxy
        obtain rfl : xs.map h = ys := List.forall₂_eq_eq_eq ▸ List.forall₂_map_left_iff.mpr hxy
        exact hlower n xs
      joint := congrArg joint }
  refine ⟨rfl, fun n xs => hcongruent.along rfl (Step.rel_eq n.step) ?_⟩
  exact List.forall₂_map_right_iff.mpr (List.forall₂_same.mpr fun x _ => rfl)

end Branching

end Backend

end Dataflow
