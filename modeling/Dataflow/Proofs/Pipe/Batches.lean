import Dataflow.Graph.Branch
import Dataflow.Proofs.Pipe.Meaning
import Dataflow.Proofs.Run

/-!
# Working in batches

A map that works in batches reads ahead, and a failure in a batch takes the values before it away.  So
batches may cut a failing meaning shorter, and change no other (`curtails_batched`).  `Curtails` is
kept by the stages of pipelines, with two exceptions: a fallback takes the loss of all values for their
absence, and a zip may not come to the failure at all.

Main statement (`Orderly.curtails`): if these two stages see nothing of it, replacing all maps of a
pipeline by maps in batches cuts it shorter where it fails, and leaves it as it is where it does not.
-/

namespace Dataflow

open List

namespace Meaning

theorem prefix_windows {width : Nat} (hwidth : 0 < width) {xs ys : List Value} (h : xs <+: ys) :
    windows width xs <+: windows width ys := by
  obtain ⟨more, rfl⟩ := h
  refine prefix_iff_eq_take.mpr ?_
  unfold windows
  rw [← map_take, take_range, length_map, length_range, length_append,
    Nat.min_eq_left (by omega)]
  refine map_congr_left fun i hi => ?_
  have hi := mem_range.mp hi
  rw [drop_append_of_le_length (by omega),
    take_append_of_le_length (by rw [length_drop]; omega)]

theorem prefix_zipWith (f : Value → Value → Value) {xs xs' ys ys' : List Value} (hx : xs <+: xs')
    (hy : ys <+: ys') : List.zipWith f xs ys <+: List.zipWith f xs' ys' := by
  obtain ⟨more, rfl⟩ := hx
  obtain ⟨more', rfl⟩ := hy
  refine prefix_iff_eq_take.mpr ?_
  rw [length_zipWith, take_zipWith, take_append_of_le_length (Nat.min_le_left ..),
    take_append_of_le_length (Nat.min_le_right ..), ← zipWith_eq_zipWith_take_min]

/-- The pass comes to a failure. -/
def Fails (m : Meaning) : Prop := ∃ f, m.stop = some (.failure f)

theorem fails_iff {m : Meaning} : m.Fails ↔ m.stop ≠ none ∧ m.stop ≠ some .crash := by
  unfold Fails
  rcases m.stop with _ | (f | _) <;> simp

theorem fails_stopped (f : Failure) : (stopped (.failure f)).Fails := ⟨f, rfl⟩

theorem fallback_of_fails {m k : Meaning} (hvalues : m.values = []) (hm : m.Fails) :
    m.fallback k = k := by
  obtain ⟨f, hf⟩ := hm
  rcases m with ⟨vs, stop⟩
  simp only at hvalues hf
  subst hvalues hf
  rfl

theorem expandFrom_stop_ne_none (f : Value → Outcome (List Value)) (s : Stop) (vs : List Value) :
    (expandFrom f (some s) vs).stop ≠ none := by
  induction vs with
  | nil => simp [expandFrom]
  | cons v vs ih =>
    unfold expandFrom
    cases f v with
    | error s => simp [after, stopped]
    | ok ws => exact ih

theorem reduce_stop_ne_none (init : Value) (f : Value → Value → Outcome Value) {m : Meaning} (hm : m.Fails) :
    (m.reduce init f).stop ≠ none := by
  obtain ⟨e, he⟩ := hm
  unfold reduce after
  split
  · simp [whole, he, stopped]
  · simp [stopped]

/-- The same, or both fail and the first one gives no other values. -/
def Curtails (m m' : Meaning) : Prop := m = m' ∨ m.values <+: m'.values ∧ m.Fails ∧ m'.Fails

namespace Curtails

variable {m m' k k' : Meaning}

theorem refl (m : Meaning) : Curtails m m := .inl rfl

/-- A failure before all values is as short as can be. -/
theorem of_fails (e : Failure) (h : m'.Fails) : Curtails (stopped (.failure e)) m' := by
  refine .inr ⟨?_, fails_stopped e, h⟩
  exact nil_prefix

section

variable (h : Curtails m m')

include h

theorem trans {m'' : Meaning} (h' : Curtails m' m'') : Curtails m m'' := by
  rcases h with rfl | ⟨hvalues, hm, hm'⟩
  · exact h'
  · rcases h' with rfl | ⟨hvalues', -, hm''⟩
    · exact .inr ⟨hvalues, hm, hm'⟩
    · exact .inr ⟨hvalues.trans hvalues', hm, hm''⟩

theorem values : m.values <+: m'.values := by
  rcases h with rfl | ⟨hvalues, -, -⟩
  · exact prefix_refl _
  · exact hvalues

/-- Without a failure nothing is lost. -/
theorem eq_of_stop (hstop : m'.stop = none) : m = m' := by
  rcases h with rfl | ⟨-, -, f, hf⟩
  · rfl
  · rw [hstop] at hf
    cases hf

theorem fails (hm' : m'.Fails) : m.Fails := by
  rcases h with rfl | ⟨-, hm, -⟩
  · exact hm'
  · exact hm

theorem stop_ne_crash (hm' : m'.stop ≠ some .crash) : m.stop ≠ some .crash := by
  rcases h with rfl | ⟨-, hm, -⟩
  · exact hm'
  · exact (fails_iff.mp hm).2

theorem prepend (xs : List Value) : Curtails (m.prepend xs) (m'.prepend xs) := by
  rcases h with rfl | ⟨hvalues, hm, hm'⟩
  · exact .refl _
  · exact .inr ⟨(prefix_append_right_inj xs).mpr hvalues, hm, hm'⟩

theorem whole (next : List Value → Meaning) :
    Curtails (m.whole next) (m'.whole next) := by
  rcases h with rfl | ⟨-, ⟨f, hf⟩, f', hf'⟩
  · exact .refl _
  · simp only [Meaning.whole, hf, hf']
    exact of_fails f (fails_stopped f')

theorem append (hk : Curtails k k') : Curtails (m.append k) (m'.append k') := by
  rcases h with rfl | ⟨hvalues, ⟨f, hf⟩, f', hf'⟩
  · unfold Meaning.append
    split
    · exact hk.prepend _
    · exact .refl _
  · refine .inr ?_
    simp only [Meaning.append, hf, hf']
    exact ⟨hvalues, ⟨f, hf⟩, f', hf'⟩

theorem sliding (size : Int) : Curtails (m.sliding size) (m'.sliding size) := by
  rcases h with rfl | ⟨hvalues, hm, hm'⟩
  · exact .refl _
  · exact .inr ⟨(prefix_windows (width_pos size) hvalues).map _, hm, hm'⟩

/-- A fallback after a pass that gives nothing, or that has not been cut. -/
theorem fallback (hk : Curtails k k') (hfirst : m = m' ∨ m'.values = []) :
    Curtails (m.fallback k) (m'.fallback k') := by
  have hsame : ∀ n : Meaning, Curtails (n.fallback k) (n.fallback k') := by
    rintro ⟨_ | ⟨v, vs⟩, _ | (f | _)⟩
    · exact hk
    · exact hk
    all_goals exact .refl _
  rcases h with rfl | ⟨hvalues, hm, hm'⟩
  · exact hsame m
  rcases hfirst with rfl | hnil
  · exact hsame m
  · rw [hnil, prefix_nil] at hvalues
    rw [fallback_of_fails hvalues hm, fallback_of_fails hnil hm']
    exact hk

/-- A zip that comes to a failure, or of passes that have not been cut. -/
theorem zip (hk : Curtails k k') (f : Value → Value → Value)
    (hends : (m'.zip f k').stop = none → m = m' ∧ k = k') (hcrash : (m'.zip f k').stop ≠ some .crash) :
    Curtails (m.zip f k) (m'.zip f k') := by
  by_cases hstop : (m'.zip f k').stop = none
  · obtain ⟨rfl, rfl⟩ := hends hstop
    exact .refl _
  have hfails : (m'.zip f k').Fails := fails_iff.mpr ⟨hstop, hcrash⟩
  have hlength := h.values.length_le
  have hlength' := hk.values.length_le
  refine .inr ⟨prefix_zipWith f h.values hk.values, ?_, hfails⟩
  -- the zip stops with the shorter pass, which fails itself if it has been cut
  unfold Meaning.zip Fails at hfails ⊢
  simp only at hfails ⊢
  split
  · next hle =>
    rcases h with rfl | ⟨-, hm, -⟩
    · rwa [if_pos (by omega)] at hfails
    · exact hm
  · next hlt =>
    rcases hk with rfl | ⟨-, hk, -⟩
    · rwa [if_neg (by omega)] at hfails
    · exact hk

theorem expand (f : Value → Outcome (List Value))
    (hcrash : (m'.expand f).stop ≠ some .crash) : Curtails (m.expand f) (m'.expand f) := by
  rcases h with rfl | ⟨⟨rest, hrest⟩, ⟨e, he⟩, e', he'⟩
  · exact .refl _
  unfold Meaning.expand at hcrash ⊢
  rw [he', ← hrest] at hcrash
  rw [he, he', ← hrest]
  generalize m.values = vs at hcrash
  induction vs with
  | nil =>
    exact of_fails e (fails_iff.mpr ⟨expandFrom_stop_ne_none f _ rest, hcrash⟩)
  | cons v vs ih =>
    simp only [cons_append, expandFrom] at hcrash ⊢
    cases hv : f v with
    | error s => exact .refl _
    | ok ws =>
      rw [hv] at hcrash
      exact (ih hcrash).prepend ws

/-- A fold comes to the failure, if not to one before. -/
theorem reduce (init : Value) (f : Value → Value → Outcome Value)
    (hcrash : (m'.reduce init f).stop ≠ some .crash) : Curtails (m.reduce init f) (m'.reduce init f) := by
  rcases h with rfl | ⟨⟨rest, hrest⟩, ⟨e, he⟩, hm'⟩
  · exact .refl _
  cases hfold : m.values.foldlM f init with
  | error s =>
    have hsame : m'.reduce init f = stopped s := by
      rw [Meaning.reduce, ← hrest, foldlM_append, hfold]
      rfl
    rw [hsame, Meaning.reduce, hfold]
    exact .refl _
  | ok acc =>
    have hstopped : m.reduce init f = stopped (.failure e) := by
      simp only [Meaning.reduce, hfold, Meaning.after, Meaning.whole, he]
    rw [hstopped]
    exact of_fails e (fails_iff.mpr ⟨reduce_stop_ne_none init f hm', hcrash⟩)

theorem join (hk : Curtails k k') (leftKey rightKey : Value → Outcome (Option Text))
    (f : Value → Value → Value) (hcrash : (m'.join leftKey rightKey f k').stop ≠ some .crash) :
    Curtails (m.join leftKey rightKey f k) (m'.join leftKey rightKey f k') := by
  refine (hk.whole _).trans ?_
  unfold Meaning.join at hcrash ⊢
  cases hstop : k'.stop with
  | some s =>
    simp only [Meaning.whole, hstop]
    exact .refl _
  | none =>
    simp only [Meaning.whole, hstop] at hcrash ⊢
    cases htable : (k'.values.filterMapM fun r => return (← rightKey r).map (·, r) :
        Outcome (List (Text × Value))) with
    | error s => exact .refl _
    | ok table =>
      simp only [htable, Meaning.after] at hcrash ⊢
      exact h.expand _ hcrash

end

end Curtails

/-! ### Batches -/

section Batched

variable {f : Value → Outcome Value} {stop : Option Stop} {size : Nat} {m m' : Meaning}

theorem map_append_of_ok {vs ws : List Value} (h : vs.mapM f = .ok ws) (rest : List Value) :
    map f ⟨vs ++ rest, stop⟩ = (map f ⟨rest, stop⟩).prepend ws := by
  induction vs generalizing ws with
  | nil =>
    cases h
    rfl
  | cons v vs ih =>
    rw [mapM_cons] at h
    obtain ⟨w, hw, h⟩ := Outcome.bind_eq_ok h
    obtain ⟨ws, hws, h⟩ := Outcome.bind_eq_ok h
    cases h
    have hcons := map_cons f v ⟨vs ++ rest, stop⟩
    rw [hw, ih hws] at hcons
    exact hcons

theorem map_append_of_error {vs : List Value} {s : Stop} (stop : Option Stop)
    (h : vs.mapM f = .error s) (rest : List Value) :
    ∃ ws, ws.length < vs.length ∧ map f ⟨vs ++ rest, stop⟩ = ⟨ws, some s⟩ := by
  induction vs with
  | nil => cases h
  | cons v vs ih =>
    rw [mapM_cons] at h
    have hcons := map_cons f v ⟨vs ++ rest, stop⟩
    cases hv : f v with
    | error s' =>
      rw [hv] at h hcons
      cases h
      exact ⟨[], Nat.succ_pos _, hcons⟩
    | ok w =>
      cases hvs : vs.mapM f with
      | error s' =>
        rw [hv, hvs] at h
        cases h
        obtain ⟨ws, hlt, hmap⟩ := ih hvs
        rw [hv, hmap] at hcons
        exact ⟨w :: ws, Nat.succ_lt_succ hlt, hcons⟩
      | ok ws =>
        rw [hv, hvs] at h
        cases h

theorem length_map_le (f : Value → Outcome Value) (stop : Option Stop) (vs : List Value) :
    (map f ⟨vs, stop⟩).values.length ≤ vs.length := by
  induction vs with
  | nil => exact Nat.le_refl _
  | cons v vs ih =>
    have hcons := map_cons f v ⟨vs, stop⟩
    cases hv : f v with
    | error s =>
      rw [hv] at hcons
      exact hcons ▸ Nat.zero_le _
    | ok w =>
      rw [hv] at hcons
      exact hcons ▸ Nat.succ_le_succ ih

/-- What batches of so many values make of a meaning: nothing, if it does not fail; otherwise they
lose the values of the batch that failed. -/
structure Cut (size : Nat) (m m' : Meaning) : Prop where
  same : m'.stop = none → m = m'
  fails : m'.Fails → m.Fails ∧ m.values = m'.values.take (size * (m'.values.length / size))

theorem Cut.curtails (h : Cut size m m') (hcrash : m'.stop ≠ some .crash) :
    Curtails m m' := by
  by_cases hstop : m'.stop = none
  · exact .inl (h.same hstop)
  · have hm' := fails_iff.mpr ⟨hstop, hcrash⟩
    obtain ⟨hm, hvalues⟩ := h.fails hm'
    exact .inr ⟨hvalues ▸ take_prefix _ _, hm, hm'⟩

/-- A failure in the first batch loses all. -/
theorem cut_stopped (e : Failure) (hm' : m'.stop ≠ none)
    (hlength : m'.values.length < size) : Cut size (stopped (.failure e)) m' where
  same h := absurd h hm'
  fails _ := by
    rw [Nat.div_eq_of_lt hlength]
    exact ⟨fails_stopped e, rfl⟩

theorem Cut.prepend (h : Cut size m m') {ws : List Value} (hws : ws.length = size)
    (hsize : size ≠ 0) : Cut size (m.prepend ws) (m'.prepend ws) where
  same hstop := by rw [h.same hstop]
  fails hfails := by
    obtain ⟨hm, hvalues⟩ := h.fails hfails
    refine ⟨hm, ?_⟩
    have hcount : size * ((ws ++ m'.values).length / size) =
        ws.length + size * (m'.values.length / size) := by
      rw [length_append, hws, Nat.add_div_left _ (Nat.pos_of_ne_zero hsize), Nat.mul_succ,
        Nat.add_comm]
    change ws ++ m.values = (ws ++ m'.values).take (size * ((ws ++ m'.values).length / size))
    rw [hcount, take_length_add_append, hvalues]

/-- A way to map a batch as a whole.  Which failure it reports is open, but it does not crash for one. -/
structure Batchwise (f : Value → Outcome Value) (g : List Value → Outcome (List Value)) : Prop where
  ok : ∀ {vs ws}, vs.mapM f = .ok ws → g vs = .ok ws
  error : ∀ {vs s}, vs.mapM f = .error s → ∃ s', g vs = .error s' ∧ (s' = .crash → s = .crash)

section Batchwise

variable {g : List Value → Outcome (List Value)} {vs rest : List Value}

/-- A failure in a batch is one of the map, without the values before it in the batch. -/
theorem Batchwise.cut_after (hg : Batchwise f g) (hlength : vs.length ≤ size)
    (hcrash : (map f ⟨vs ++ rest, stop⟩).stop ≠ some .crash) {next : List Value → Meaning}
    (hnext : ∀ ws, vs.mapM f = .ok ws → Cut size (next ws) ((map f ⟨rest, stop⟩).prepend ws)) :
    Cut size (after (g vs) next) (map f ⟨vs ++ rest, stop⟩) := by
  cases hvs : vs.mapM f with
  | ok ws =>
    rw [hg.ok hvs, map_append_of_ok hvs]
    exact hnext ws hvs
  | error s =>
    obtain ⟨ws, hlt, hmap⟩ := map_append_of_error stop hvs rest
    obtain ⟨s', hs', hcrashes⟩ := hg.error hvs
    rw [hmap] at hcrash
    rw [hs', hmap]
    rcases s' with e | _
    · exact cut_stopped e (Option.some_ne_none s) (Nat.lt_of_lt_of_le hlt hlength)
    · exact absurd (congrArg some (hcrashes rfl)) hcrash

theorem Batchwise.cut_last (hg : Batchwise f g) (hshort : vs.length < size)
    (hstop : stop ≠ some .crash) (hcrash : (map f ⟨vs, stop⟩).stop ≠ some .crash) :
    Cut size ((⟨vs, stop⟩ : Meaning).whole fun vs => after (g vs) ofList) (map f ⟨vs, stop⟩) := by
  rcases stop with _ | (e | _)
  · have hnil : map f ⟨vs, none⟩ = map f ⟨vs ++ [], none⟩ := by
      rw [append_nil]
    rw [hnil] at hcrash ⊢
    refine hg.cut_after (Nat.le_of_lt hshort) hcrash fun ws _ => ⟨fun _ => (prepend_nil ws).symm, ?_⟩
    rintro ⟨_, h⟩
    cases h
  · have hlength := length_map_le f (some (.failure e)) vs
    exact cut_stopped e (expandFrom_stop_ne_none _ _ vs) (Nat.lt_of_le_of_lt hlength hshort)
  · exact absurd rfl hstop

theorem Batchwise.cut_full (hg : Batchwise f g) (hsize : size ≠ 0) (hfull : size ≤ vs.length)
    (hcrash : (map f ⟨vs, stop⟩).stop ≠ some .crash)
    (hm : (map f ⟨vs.drop size, stop⟩).stop ≠ some .crash → Cut size m (map f ⟨vs.drop size, stop⟩)) :
    Cut size (after (g (vs.take size)) m.prepend) (map f ⟨vs, stop⟩) := by
  have hsplit : map f ⟨vs, stop⟩ = map f ⟨vs.take size ++ vs.drop size, stop⟩ := by
    rw [take_append_drop]
  have htake : (vs.take size).length = size := length_take_of_le hfull
  rw [hsplit] at hcrash ⊢
  refine hg.cut_after (Nat.le_of_eq htake) hcrash fun ws hws => ?_
  rw [map_append_of_ok hws] at hcrash
  exact (hm hcrash).prepend ((forall₂_of_mapM hws).length_eq.symm.trans htake) hsize

end Batchwise

/-- **Batches curtail.**  A map in batches gives what the map gives, or fails as well, with fewer
values. -/
theorem curtails_batched (hsize : size ≠ 0) (hstop : m.stop ≠ some .crash)
    (hcrash : (m.map f).stop ≠ some .crash) :
    Curtails (batched size f m.stop m.values) (m.map f) := by
  rcases m with ⟨vs, stop⟩
  have hg : Batchwise f (List.mapM f) := ⟨id, fun h => ⟨_, h, id⟩⟩
  suffices Cut size (batched size f stop vs) (map f ⟨vs, stop⟩) from this.curtails hcrash
  fun_induction batched size f stop vs with
  | case1 => exact absurd ‹_› hsize
  | case2 vs _ hshort => exact hg.cut_last hshort hstop hcrash
  | case3 vs _ hfull ih => exact hg.cut_full hsize (Nat.le_of_not_lt hfull) hcrash (ih hstop)

end Batched

end Meaning

namespace Pipe

/-- The pipeline with all its maps in batches; what works in batches already is left alone. -/
def batching (size : Nat) : Pipe → Pipe
  | gather p f => gather (batching size p) f
  | observed name p => observed name (batching size p)
  | map p f => batched (batching size p) size f
  | filter p f => filter (batching size p) f
  | tap p f => tap (batching size p) f
  | reduce p init f => reduce (batching size p) init f
  | append p q => append (batching size p) (batching size q)
  | fallback p q => fallback (batching size p) (batching size q)
  | zip p q f => zip (batching size p) (batching size q) f
  | sliding p n => sliding (batching size p) n
  | hashJoin p q leftKey rightKey f =>
    hashJoin (batching size p) (batching size q) leftKey rightKey f
  | buffer p n => buffer (batching size p) n
  | p => p

def Mapless (p : Pipe) : Prop := p.Every fun q => ∀ r f, q ≠ map r f

theorem Mapless.batching_eq {p : Pipe} (h : p.Mapless) (size : Nat) : p.batching size = p := by
  induction p with
  | items | failing | feed | deferred | shared | nothing | batched => rfl
  | map p f => exact absurd rfl (h.1 p f)
  | gather p f ih | observed name p ih | filter p f ih | tap p f ih | reduce p init f ih
  | sliding p n ih | buffer p n ih => rw [batching, ih h.2]
  | append p q ihp ihq | fallback p q ihp ihq | zip p q f ihp ihq
  | hashJoin p q leftKey rightKey f ihp ihq => rw [batching, ihp h.2.1, ihq h.2.2]

theorem Repeatable.batching {I : Surroundings} {w : Workspace} {p : Pipe} (h : p.Repeatable I w)
    (size : Nat) : (p.batching size).Repeatable I w := by
  induction p with
  | items | failing | feed | deferred | shared | nothing | batched => exact h
  | gather p f ih | observed name p ih | map p f ih | filter p f ih | tap p f ih
  | reduce p init f ih | sliding p n ih | buffer p n ih => exact ⟨h.1, ih h.2⟩
  | append p q ihp ihq | fallback p q ihp ihq | zip p q f ihp ihq
  | hashJoin p q leftKey rightKey f ihp ihq => exact ⟨h.1, ihp h.2.1, ihq h.2.2⟩

/-- A stage that does not see how its inputs work: with a map before it, a fallback does not follow a
pass that fails after some values, and a zip does not end before a failure. -/
def OrderlyAt (w : Workspace) : Pipe → Prop
  | fallback p _ => p.Mapless ∨ (p.meaning w).values = [] ∨ (p.meaning w).stop = none
  | zip p q f => ((p.meaning w).zip f (q.meaning w)).stop = none →
    (p.Mapless ∨ (p.meaning w).stop = none) ∧ (q.Mapless ∨ (q.meaning w).stop = none)
  | _ => True

/-- No stage crashes or sees how its inputs work. -/
def Orderly (w : Workspace) (p : Pipe) : Prop :=
  p.Every fun q => (q.meaning w).stop ≠ some .crash ∧ q.OrderlyAt w

/-- **Batches are not seen in an orderly pipeline**, but for values that a failing pass gives before
the failure. -/
theorem Orderly.curtails {w : Workspace} {p : Pipe} {size : Nat} (h : p.Orderly w) (hsize : size ≠ 0)
    (hmax : size ≤ maxBatch) : ((p.batching size).meaning w).Curtails (p.meaning w) := by
  have hsame {p : Pipe} (hp : ((p.batching size).meaning w).Curtails (p.meaning w))
      (h : p.Mapless ∨ (p.meaning w).stop = none) : (p.batching size).meaning w = p.meaning w :=
    h.elim (fun hmapless => by rw [hmapless.batching_eq]) hp.eq_of_stop
  induction p with
  | items | failing | feed | deferred | shared | nothing | batched => exact .refl _
  | gather p f ih => exact (ih h.2).whole _
  | observed name p ih | buffer p n ih => exact ih h.2
  | map p f ih =>
    have hp := ih h.2
    have hmap := hp.expand _ h.1.1
    have hbatched := Meaning.curtails_batched hsize (hp.stop_ne_crash h.2.here.1)
      (hmap.stop_ne_crash h.1.1)
    have hroom : ((map p f).batching size).meaning w =
        .batched size f ((p.batching size).meaning w).stop ((p.batching size).meaning w).values :=
      if_neg (Nat.not_lt.mpr hmax)
    rw [hroom]
    exact hbatched.trans hmap
  | filter p f ih | tap p f ih => exact (ih h.2).expand _ h.1.1
  | reduce p init f ih => exact (ih h.2).reduce init f h.1.1
  | sliding p n ih => exact (ih h.2).sliding n
  | append p q ihp ihq => exact (ihp h.2.1).append (ihq h.2.2)
  | hashJoin p q leftKey rightKey f ihp ihq =>
    exact (ihp h.2.1).join (ihq h.2.2) leftKey rightKey f h.1.1
  | fallback p q ihp ihq =>
    have hp := ihp h.2.1
    refine hp.fallback (ihq h.2.2) ?_
    rcases h.1.2 with hmapless | hnil | hstop
    · exact .inl (hsame hp (.inl hmapless))
    · exact .inr hnil
    · exact .inl (hp.eq_of_stop hstop)
  | zip p q f ihp ihq =>
    have hp := ihp h.2.1
    have hq := ihq h.2.2
    refine hp.zip hq f (fun hends => ?_) h.1.1
    obtain ⟨hleft, hright⟩ := h.1.2 hends
    exact ⟨hsame hp hleft, hsame hq hright⟩

end Pipe

end Dataflow
