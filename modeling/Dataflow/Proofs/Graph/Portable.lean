import Dataflow.Proofs.Graph.Replay
import Dataflow.Proofs.Value.Ascending

/-!
# Settings that survive

Valid texts come back as they are, and numbers as doubles that stand for the same number (`Value.Exact`).
What the backends that write texts read of a node is of these two kinds, but for the function, which comes
back as a text; its symbolic form is kept beside it.  So the nodes of operators with valid texts and exact
numbers last (`Operator.Portable.lasting`).
-/

namespace Dataflow

open List Option

/-! ### Values -/

namespace Value

/-- A number that documents keep: a finite double, an integer that doubles have, or a number of single
precision that is read back as the double it stands for. -/
inductive Exact : Value → Prop
  | float {x : Float} (h : x.isFinite = true) : Exact (float x)
  | int {n : Int64} (h : n.toInt.natAbs ≤ 2 ^ 53) : Exact (int n)
  | sized (t : IntType) {n : Int} (h : n.natAbs ≤ 2 ^ 53) : Exact (sized t n)
  | single {x : Float32} (hx : x.isFinite = true)
      (h : readFloat (NumberStyle.document.float32 x) = .ok x.toFloat) : Exact (single x)

/-- A text of UTF-8. -/
inductive Legible : Value → Prop
  | text {t : Text} (h : t.Valid) : Legible (text t)

theorem Legible.replay? {v : Value} (h : v.Legible) : v.replay? = some v := by
  cases h with
  | text ht => exact (replay?_text _).trans (by rw [ht])

theorem toValue?_number {t : Text} {x : Float} (h : readFloat t = .ok x) :
    (Json.number t).displayed.toValue? = some (float x) := by
  rw [Json.displayed, Json.toValue?, h]
  all_goals nofun

/-- An exact number comes back as the double it stands for. -/
theorem Exact.exists_replay? {v : Value} (h : v.Exact) :
    ∃ x, v.replay? = some (.float x) ∧ v.toFloat? = some x ∧ v.toInt? = some (Float64.toInt x) := by
  cases h with
  | @float x h =>
    refine ⟨x, ?_, rfl, rfl⟩
    have hwritten : (Value.float x).written? = some (.number (NumberStyle.document.float x)) := if_pos h
    rw [replay?, hwritten]
    exact toValue?_number (NumberStyle.readFloat_float (by decide) h)
  | @int n h =>
    exact ⟨_, toValue?_number (readFloat_ofInt h), rfl, by rw [Float64.toInt_ofInt h]; rfl⟩
  | @sized t n h => exact ⟨_, toValue?_number (readFloat_ofInt h), rfl, rfl⟩
  | @single x hx h =>
    refine ⟨x.toFloat, ?_, rfl, rfl⟩
    have hwritten : (Value.single x).written? = some (.number (NumberStyle.document.float32 x)) := if_pos hx
    rw [replay?, hwritten]
    exact toValue?_number h

end Value

namespace Row

variable {r r' : Row} {key : Text}

theorem Replays.get?_eq (h : r.Replays r') (hr : r.Distinct) (hkey : key.Ascii)
    (hv : ∀ v, Fields.get? r key = some v → v.Legible) : Fields.get? r key = Fields.get? r' key := by
  rw [h.get? hr hkey]
  cases hget : Fields.get? r key with
  | none => rfl
  | some v => exact (hv v hget).replay?.symm

/-- A number under a name of ASCII bytes is read as before. -/
theorem Replays.number_eq (h : r.Replays r') (hr : r.Distinct) (hkey : key.Ascii)
    (hv : ∀ v, Fields.get? r key = some v → v.Exact) :
    (Fields.get? r key).bind Value.toFloat? = (Fields.get? r' key).bind Value.toFloat? ∧
      (Fields.get? r key).bind Value.toInt? = (Fields.get? r' key).bind Value.toInt? := by
  rw [h.get? hr hkey]
  cases hget : Fields.get? r key with
  | none => exact ⟨rfl, rfl⟩
  | some v =>
    obtain ⟨x, hreplay, hfloat, hint⟩ := (hv v hget).exists_replay?
    simp only [bind_some, hreplay, hfloat, hint]
    exact ⟨rfl, rfl⟩

end Row

/-! ### The settings of indicators -/

/-- A row whose settings for indicators survive. -/
structure Row.Portable (r : Row) : Prop where
  ascending : Fields.Ascending r
  texts : ∀ e ∈ r, e.1 ∈ Indicator.texts → e.2.Legible
  numbers : ∀ e ∈ r, e.1 ∈ Indicator.numbers → e.2.Exact

namespace Row.Portable

variable {r r' : Row}

theorem set (h : r.Portable) {key : Text} (htext : key ∉ Indicator.texts) (hnumber : key ∉ Indicator.numbers)
    (v : Value) : Row.Portable (Fields.set key v r) where
  ascending := h.ascending.set key v
  texts e he hkey := by
    rcases Fields.mem_set he with rfl | he
    · exact absurd hkey htext
    · exact h.texts e he hkey
  numbers e he hkey := by
    rcases Fields.mem_set he with rfl | he
    · exact absurd hkey hnumber
    · exact h.numbers e he hkey

/-- Indicators read the same settings as before. -/
theorem params_eq (h : r.Portable) (hr : r.Replays r') (k : Indicator) : k.params r = k.params r' := by
  have hdistinct : r.Distinct := h.ascending.nodup
  have hascii : ∀ key ∈ Indicator.texts ++ Indicator.numbers, key.Ascii := by decide
  have htext (key : Text) (hkey : key ∈ Indicator.texts) (default : Text) :
      Indicator.textSetting r key default = Indicator.textSetting r' key default := by
    unfold Indicator.textSetting
    rw [hr.get?_eq hdistinct (hascii key (mem_append_left _ hkey))
      fun v hv => h.texts _ (Fields.mem_of_get? hv) hkey]
  have hnumber (key : Text) (hkey : key ∈ Indicator.numbers) :=
    hr.number_eq hdistinct (hascii key (mem_append_right _ hkey)) fun v hv =>
      h.numbers _ (Fields.mem_of_get? hv) hkey
  have hint (key : Text) (hkey : key ∈ Indicator.numbers) (default : Int64) :
      Indicator.intSetting r key default = Indicator.intSetting r' key default := by
    unfold Indicator.intSetting
    rw [(hnumber key hkey).2]
  unfold Indicator.params
  simp only [htext "field" (by decide), htext "high" (by decide), htext "low" (by decide),
    htext "close" (by decide), htext "vol" (by decide), htext "price" (by decide), hint "window" (by decide),
    hint "fast" (by decide), hint "slow" (by decide), hint "signal" (by decide), hint "smooth" (by decide),
    (hnumber "std" (by decide)).1]

end Row.Portable

/-! ### The symbolic form of a function -/

/-- A value that gives no symbolic form when it is read as a function. -/
inductive Value.Mute : Value → Prop
  | text (t : Text) : Mute (text t)
  | func {f : Func} (h : f.expr.isEmpty = true) : Mute (func f)
  | fold {f : FoldFunc} (h : f.expr.isEmpty = true) : Mute (fold f)

theorem Value.Mute.exists_replay? {v : Value} (h : v.Mute) : ∃ t : Text, v.replay? = some (.text t) := by
  cases h with
  | text t => exact ⟨_, replay?_text t⟩
  | func _ => exact ⟨_, replay?_func _⟩
  | fold _ => exact ⟨_, replay?_fold _⟩

/-- The node has the symbolic form among its settings, unless that is empty; then its functions have none. -/
structure Node.Voiced (n : Node) (e : Text) : Prop where
  expr : n.value? "expr" = if e.isEmpty then none else some (.text e)
  name : ∃ t, n.value? "fn_name" = some (.text t)
  mute : e.isEmpty = true → ∀ key ∈ (["fn", "predicate"] : List Text), ∀ v, n.value? key = some v → v.Mute

namespace Node.Voiced

variable {n : Node} {e : Text}

theorem text_name (h : n.Voiced e) : ∃ t, n.text "fn_name" "" = .ok t := by
  obtain ⟨t, ht⟩ := h.name
  rw [Node.text, Node.setting?, ht]
  exact ⟨_, rfl⟩

theorem func? (h : n.Voiced e) (he : e.isEmpty = true) (key : Text)
    (hkey : key ∈ (["fn", "predicate"] : List Text)) :
    ∃ o : Option Func, n.func? key = .ok o ∧ ∀ f, o = some f → f.expr.isEmpty = true := by
  obtain ⟨t, ht⟩ := h.text_name
  unfold Node.func? Node.setting?
  cases hv : n.value? key with
  | none => exact ⟨none, rfl, nofun⟩
  | some v =>
    cases h.mute he key hkey v hv with
    | text _ | fold _ => exact ⟨none, by rw [ht]; rfl, nofun⟩
    | @func f hf => exact ⟨some f, by rw [ht]; rfl, fun f' heq => some.inj heq ▸ hf⟩

theorem fold? (h : n.Voiced e) (he : e.isEmpty = true) :
    ∃ o : Option FoldFunc, n.fold? "fn" = .ok o ∧ ∀ f, o = some f → f.expr.isEmpty = true := by
  unfold Node.fold? Node.setting?
  cases hv : n.value? "fn" with
  | none => exact ⟨none, rfl, nofun⟩
  | some v =>
    cases h.mute he "fn" (by decide) v hv with
    | text _ | func _ => exact ⟨none, rfl, nofun⟩
    | @fold f hf => exact ⟨some f, rfl, fun f' heq => some.inj heq ▸ hf⟩

theorem expr_eq (h : n.Voiced e) : n.expr = .ok e := by
  cases he : e.isEmpty with
  | false =>
    have htext : n.text "expr" "" = .ok e := by
      rw [Node.text, Node.setting?, h.expr, he]
      show Except.ok (if e.isEmpty = true then ("" : Text) else e) = _
      rw [he]
      rfl
    rw [Node.expr, htext]
    show (if (!e.isEmpty) = true then _ else _) = _
    rw [he]
    rfl
  | true =>
    have htext : n.text "expr" "" = .ok "" := by
      rw [Node.text, Node.setting?, h.expr, he]
      rfl
    obtain ⟨f, hf, hfe⟩ := h.func? he "fn" (by decide)
    obtain ⟨p, hp, hpe⟩ := h.func? he "predicate" (by decide)
    obtain ⟨r, hr, hre⟩ := h.fold? he
    have hempty {t : Text} (ht : t.isEmpty = true) : t = e :=
      Text.ext ((List.isEmpty_iff.mp ht).trans (List.isEmpty_iff.mp he).symm)
    obtain rfl := hempty (t := "") rfl
    unfold Node.expr
    rw [htext, hf, hp, hr]
    -- no function that there is has a symbolic form
    rcases f with _ | f <;> rcases p with _ | p <;> rcases r with _ | r <;>
      simp_all [bind, Except.bind, pure, Except.pure]

/-- What comes back has the same symbolic form. -/
theorem follows (h : n.Voiced e) (he : e.Valid) {n' : Node} (hconfig : n.config.Replays n'.config)
    (hdistinct : n.config.Distinct) : n'.Voiced e where
  expr := by
    refine Eq.trans (Eq.symm ?_) h.expr
    refine hconfig.get?_eq hdistinct (by decide) fun v hv => ?_
    have hexpr := h.expr
    rw [Node.value?, hv] at hexpr
    split at hexpr
    · cases hexpr
    · cases hexpr
      exact .text he
  name := by
    obtain ⟨t, ht⟩ := h.name
    refine ⟨t.shown, ?_⟩
    rw [Node.value?, hconfig.get? hdistinct (by decide), show Fields.get? n.config "fn_name" = _ from ht]
    rfl
  mute := by
    intro hempty key hkey v hv
    have hascii : ∀ key ∈ (["fn", "predicate"] : List Text), key.Ascii := by decide
    rw [Node.value?, hconfig.get? hdistinct (hascii key hkey)] at hv
    obtain ⟨w, hw, hreplay⟩ := bind_eq_some_iff.mp hv
    obtain ⟨t, ht⟩ := (h.mute hempty key hkey w hw).exists_replay?
    cases hreplay.symm.trans ht
    exact .text t

end Node.Voiced

/-! ### Nodes -/

/-- Whatever the backends that write texts read of the node survives. -/
structure Node.Portable (n : Node) : Prop where
  distinct : n.config.Distinct
  legible : ∀ key ∈ n.op.settings, ∀ v, n.value? key = some v → v.Legible
  voiced : n.op = .map ∨ n.op = .filter ∨ n.op = .reduce → ∃ e : Text, e.Valid ∧ n.Voiced e
  size : n.op = .window → ∀ v, n.value? "size" = some v → v.Exact
  params : n.op = .custom → n.config.Portable

theorem Op.ascii_of_mem_settings (op : Op) : ∀ key ∈ op.settings, key.Ascii := by
  cases op with
  | other name => exact nofun
  | _ => decide

namespace Node.Portable

variable {n n' : Node}

theorem agrees (h : n.Portable) (hn : Node.Alongside Node.Follows n n') : n.Agrees n' where
  id := hn.id
  op := hn.related.op
  parents := hn.parents
  value key hkey :=
    hn.related.config.get?_eq h.distinct (n.op.ascii_of_mem_settings key hkey) (h.legible key hkey)
  expr hop := by
    obtain ⟨e, he, hvoiced⟩ := h.voiced hop
    rw [hvoiced.expr_eq, (hvoiced.follows he hn.related.config h.distinct).expr_eq]
  size hop default :=
    congrArg (getD · default) (hn.related.config.number_eq h.distinct (by decide) (h.size hop)).2
  params hop k := (h.params hop).params_eq hn.related.config k

/-- Of such a node only texts are read. -/
theorem of_texts (hdistinct : n.config.Distinct)
    (hlegible : ∀ key ∈ n.op.settings, ∀ v, n.value? key = some v → v.Legible)
    (hop : n.op = .source ∨ n.op = .sink ∨ n.op = .join ∨ n.op = .union ∨ n.op = .merge) : n.Portable where
  distinct := hdistinct
  legible := hlegible
  voiced := by rcases hop with h | h | h | h | h <;> simp [h]
  size := by rcases hop with h | h | h | h | h <;> simp [h]
  params := by rcases hop with h | h | h | h | h <;> simp [h]

end Node.Portable

/-! ### Operators -/

theorem lambdaName_valid {name : Text} (h : name.Valid) : (lambdaName name).Valid := by
  unfold lambdaName
  split
  · exact Text.valid_of_ascii (by decide)
  · exact h

namespace Operator

/-- An operator that binds one node, with valid texts and exact numbers. -/
inductive Portable : Operator → Prop
  | map {f : Func} (hname : f.name.Valid) (hexpr : f.expr.Valid) : Portable (map f)
  | filter {f : Func} (hname : f.name.Valid) (hexpr : f.expr.Valid) : Portable (filter f)
  | reduce {f : FoldFunc} (hname : f.name.Valid) (hexpr : f.expr.Valid) (init : Value) : Portable (reduce f init)
  | window {size : Int64} (h : size.toInt.natAbs ≤ 2 ^ 53) : Portable (window size)
  | sink {uri : Text} (h : uri.Valid) : Portable (sink uri)
  | custom {kind : Text} {params : Row} (hkind : kind.Valid) (h : params.Portable) :
      Portable (custom kind params)
  | join (other : Option Nat) {on : Text} (h : on.Valid) : Portable (join other on)
  | union (others : List (Option Nat)) : Portable (union others)

theorem ascending_withExpr {config : Row} (h : Fields.Ascending config) (e : Text) :
    Fields.Ascending (withExpr config e) := by
  unfold withExpr
  split
  · exact h
  · exact h.set _ _

theorem portable_withExpr {op : Op} (hop : op = .map ∨ op = .filter ∨ op = .reduce) {config : Row}
    {name e : Text} (hconfig : Fields.Ascending config)
    (hname : Fields.get? config "fn_name" = some (.text (lambdaName name))) (hvalid : name.Valid) (he : e.Valid)
    (hnone : Fields.get? config "predicate_sql" = none ∧ Fields.get? config "expr" = none)
    (hmute : e.isEmpty = true → ∀ key ∈ (["fn", "predicate"] : List Text), ∀ v,
      Fields.get? config key = some v → v.Mute)
    (id : Text) (parents : List Text) : Node.Portable { id, op, config := withExpr config e, parents } where
  distinct := (ascending_withExpr hconfig e).nodup
  legible := by
    have hsettings : op.settings = [("fn_name" : Text), "predicate_sql"] := by
      rcases hop with rfl | rfl | rfl <;> rfl
    show ∀ key ∈ op.settings, ∀ v, Fields.get? (withExpr config e) key = some v → v.Legible
    rw [hsettings, forall_mem_cons, forall_mem_singleton, get?_withExpr (by decide),
      get?_withExpr (by decide), hname, hnone.1]
    refine ⟨fun v hv => ?_, nofun⟩
    cases hv
    exact .text (lambdaName_valid hvalid)
  voiced _ := by
    refine ⟨e, he, ?_, ⟨_, (get?_withExpr (by decide)).trans hname⟩, fun hempty key hkey v hv => ?_⟩
    · show Fields.get? (withExpr config e) "expr" = _
      unfold withExpr
      split
      · exact hnone.2
      · rw [Fields.get?_set, if_pos rfl]
    · have hne : ∀ key ∈ (["fn", "predicate"] : List Text), key ≠ "expr" := by decide
      exact hmute hempty key hkey v ((get?_withExpr (hne key hkey)).symm.trans hv)
  size := by rcases hop with rfl | rfl | rfl <;> exact nofun
  params := by rcases hop with rfl | rfl | rfl <;> exact nofun

namespace Portable

variable {o : Operator}

theorem portable_node (h : o.Portable) (id : Text) (parents : List Text) :
    Node.Portable { id, op := o.op, config := o.config, parents } := by
  cases h with
  | @map f hname hexpr =>
    refine portable_withExpr (.inl rfl) (Fields.ascending_iff.mpr ?_) rfl hname hexpr ⟨rfl, rfl⟩ ?_ id parents
    · show List.Pairwise _ [("fn" : Text), "fn_name"]
      decide
    · intro hempty
      rw [forall_mem_cons, forall_mem_singleton]
      exact ⟨fun v hv => some.inj hv ▸ .func hempty, fun v hv => absurd hv.symm (some_ne_none v)⟩
  | @filter f hname hexpr =>
    refine portable_withExpr (.inr (.inl rfl)) (Fields.ascending_iff.mpr ?_) rfl hname hexpr ⟨rfl, rfl⟩ ?_ id
      parents
    · show List.Pairwise _ [("fn_name" : Text), "predicate"]
      decide
    · intro hempty
      rw [forall_mem_cons, forall_mem_singleton]
      exact ⟨fun v hv => absurd hv.symm (some_ne_none v), fun v hv => some.inj hv ▸ .func hempty⟩
  | @reduce f hname hexpr init =>
    refine portable_withExpr (.inr (.inr rfl)) (Fields.ascending_iff.mpr ?_) rfl hname hexpr ⟨rfl, rfl⟩ ?_ id
      parents
    · show List.Pairwise _ [("fn" : Text), "fn_name", "init"]
      decide
    · intro hempty
      rw [forall_mem_cons, forall_mem_singleton]
      exact ⟨fun v hv => some.inj hv ▸ .fold hempty, fun v hv => absurd hv.symm (some_ne_none v)⟩
  | @window size hsize =>
    refine ⟨show List.Nodup [("size" : Text)] by decide, forall_mem_nil _, by simp [op, Operator.window],
      fun _ v hv => ?_, fun h => by cases h⟩
    exact some.inj hv ▸ .int hsize
  | @sink uri huri =>
    refine .of_texts (show List.Nodup [("uri" : Text)] by decide) (forall_mem_singleton.mpr fun v hv => ?_)
      (.inr (.inl rfl))
    exact some.inj hv ▸ .text huri
  | @custom kind params hkind hparams =>
    have hset : Row.Portable (Fields.set "kind" (.text kind) params) := hparams.set (by decide) (by decide) _
    refine ⟨hset.ascending.nodup, forall_mem_singleton.mpr fun v hv => ?_, by simp [op, Operator.custom],
      (fun h => by cases h), fun _ => hset⟩
    have hget : Fields.get? (Fields.set "kind" (.text kind) params) "kind" = some (.text kind) := by
      rw [Fields.get?_set, if_pos rfl]
    exact some.inj (hget.symm.trans hv) ▸ .text hkind
  | @join other on hon =>
    refine .of_texts (show List.Nodup [("on" : Text)] by decide) (forall_mem_singleton.mpr fun v hv => ?_)
      (.inr (.inr (.inl rfl)))
    exact some.inj hv ▸ .text hon
  | union others =>
    exact .of_texts nodup_nil (forall_mem_nil _) (.inr (.inr (.inr (.inl rfl))))

/-- What is read back of the node of a portable operator resembles it. -/
theorem lasting (h : o.Portable) (id : Text) (parents : List Text) :
    Node.Lasting { id, op := o.op, config := o.config, parents } := by
  refine Node.lasting_of_agrees ?_ fun n' hn' => (h.portable_node id parents).agrees hn'
  cases h <;> exact ⟨nofun, nofun⟩

/-- The operator can stand in a branch: its settings have no list under `steps`. -/
theorem enduring (h : o.Portable) (hsteps : ∀ v, Fields.get? o.config "steps" = some v → ¬ v.Listed) :
    o.Enduring where
  declared := by cases h <;> rfl
  stepless := ⟨(h.portable_node "" []).distinct, hsteps⟩
  lasting id p := h.lasting id [p]

end Portable

end Operator

end Dataflow
