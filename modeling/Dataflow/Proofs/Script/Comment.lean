import Dataflow.Script.Kernel

/-!
# Comments in generated programs

Where a dialect has no statement for a node, a comment stands in, with some text of the node in it.  A
comment ends with its line, so all of it is a comment just if every line of that text after the first starts
with the mark of a comment itself (`remark_commented_iff`), as it does if there is no line break in the text.
-/

namespace Dataflow

open List

namespace Text

/-- Each line of the text after the first starts with the mark. -/
def Continues (t mark : Text) : Prop := ∀ a b, t.bytes = a ++ 10 :: b → mark.bytes <+: b

/-- Each line of the text starts with the mark. -/
def Commented (t mark : Text) : Prop := mark.bytes <+: t.bytes ∧ t.Continues mark

variable {t mark front : Text} {rest : List UInt8}

theorem continues_append_iff (hfront : 10 ∉ front.bytes) : (front ++ t).Continues mark ↔ t.Continues mark := by
  constructor
  · intro h a b ht
    exact h (front.bytes ++ a) b (by rw [bytes_append, ht, List.append_assoc])
  · intro h a b hab
    rcases append_eq_append_iff.mp hab with ⟨a', -, ht⟩ | ⟨c, hfronts, hc⟩
    · exact h a' b ht
    · cases c with
      | nil => exact h [] b hc.symm
      | cons x c =>
        cases (cons.inj hc).1
        exact absurd (hfronts ▸ mem_append_right a mem_cons_self) hfront

theorem continues_append_blank_iff (hmark : 32 ∉ mark.bytes) (hrest : 10 ∉ rest) :
    (t ++ ⟨32 :: rest⟩).Continues mark ↔ t.Continues mark := by
  constructor
  · intro h a b ht
    have hb : mark.bytes <+: b ++ 32 :: rest := h a _ (by rw [bytes_append, ht, List.append_assoc, cons_append])
    -- a mark that goes on behind `b` has the blank in it
    rcases prefix_or_prefix_of_prefix hb (prefix_append b _) with hle | ⟨c, hc⟩
    · exact hle
    · rw [← hc, prefix_append_right_inj] at hb
      cases c with
      | nil => exact ⟨[], by simpa using hc.symm⟩
      | cons x c =>
        cases (cons_prefix_cons.mp hb).1
        exact absurd (hc ▸ mem_append_right b mem_cons_self) hmark
  · intro h a b hab
    rcases append_eq_append_iff.mp hab with ⟨c, -, hc⟩ | ⟨c, ht, hc⟩
    · have hmem : 10 ∈ c ++ 10 :: b := mem_append_right c mem_cons_self
      rw [← hc] at hmem
      exact absurd (mem_of_ne_of_mem (by decide) hmem) hrest
    · cases c with
      | nil => cases (cons.inj hc).1
      | cons x c =>
        obtain ⟨rfl, rfl⟩ := cons.inj hc
        exact (h a c ht).trans (prefix_append c _)

theorem commented_iff {c : Text} (hc : c = mark ++ " " ++ t) (hmark : 10 ∉ mark.bytes) :
    c.Commented mark ↔ t.Continues mark := by
  have hfront : 10 ∉ (mark ++ " ").bytes := by
    rw [bytes_append, mem_append, not_or]
    exact ⟨hmark, by decide⟩
  rw [hc, Commented, continues_append_iff hfront]
  exact and_iff_right ⟨(" " : Text).bytes ++ t.bytes, (List.append_assoc ..).symm⟩

end Text

/-! ### Dialects -/

/-- What a comment starts with. -/
def Dialect.mark : Dialect → Text
  | dolphindb => "//"
  | sql => "--"

theorem Dialect.commented_comment_iff (d : Dialect) (t : Text) :
    (d.comment t).Commented d.mark ↔ t.Continues d.mark :=
  Text.commented_iff (by cases d <;> rfl) (by cases d <;> decide)

namespace KernelDialect

/-- What a comment starts with. -/
def remark : KernelDialect → Text
  | cuda => "//"
  | triton => "#"

theorem commented_comment_iff (d : KernelDialect) (t : Text) :
    (d.comment t).Commented d.remark ↔ t.Continues d.remark :=
  Text.commented_iff (by cases d <;> rfl) (by cases d <;> decide)

theorem commented_load_iff (d : KernelDialect) (uri : Text) :
    (d.load uri).Commented d.remark ↔ uri.Continues d.remark := by
  have hmark : 32 ∉ d.remark.bytes := by cases d <;> decide
  refine (d.commented_comment_iff _).trans ?_
  cases d <;> exact (Text.continues_append_blank_iff hmark (by decide)).trans (Text.continues_append_iff (by decide))

theorem commented_store_iff (d : KernelDialect) (uri : Text) :
    (d.store uri).Commented d.remark ↔ uri.Continues d.remark := by
  rw [store, commented_comment_iff, Text.continues_append_iff (by decide)]

end KernelDialect

/-! ### Nodes -/

variable {n : Node} {u : Text}

namespace Script

/-- The node has no statement in a script, and the text is what the comment shows of it. -/
inductive Unsupported (n : Node) : Text → Prop
  | reduce (hop : n.op = .reduce) {e : Text} (he : n.expr = .ok e) (hempty : e.isEmpty = true) : Unsupported n ""
  | custom (hop : n.op = .custom) {kind : Text} (hkind : n.kind = .ok kind) (hnone : Indicator.lookup? kind = none) :
      Unsupported n kind
  | window (hop : n.op = .window) : Unsupported n "Window"
  | other {name : Text} (hop : n.op = .other name) : Unsupported n name

theorem Unsupported.exists_ofNode (h : Unsupported n u) (d : Dialect) (inputs : List Program) :
    ∃ front : Text, 10 ∉ front.bytes ∧ ofNode d n inputs =
      .ok ((Program.merge inputs).append n.id (d.comment (front ++ u)) (input inputs 0)) := by
  unfold ofNode
  cases h with
  | reduce hop he hempty =>
    refine ⟨"unsupported reduce without expression", by decide, ?_⟩
    simp only [hop, he]
    show Except.ok (if _ then _ else _) = _
    rw [if_pos hempty]
    rfl
  | custom hop hkind hnone =>
    have hindicator : indicatorOf n = .ok (.error u) := by
      simp only [indicatorOf, hkind, hnone, bind, Except.bind]
      rfl
    refine ⟨"unsupported custom op ", by decide, ?_⟩
    simp only [hop, hindicator]
    rfl
  | window hop | other hop =>
    refine ⟨"unsupported op ", by decide, ?_⟩
    simp only [hop]
    rfl

end Script

namespace Kernel

/-- The node has no kernel, and the text is what the comment shows of it. -/
inductive Remarked (n : Node) : Text → Prop
  | source (hop : n.op = .source) {uri : Text} (huri : n.text "uri" "unknown" = .ok uri) : Remarked n uri
  | sink (hop : n.op = .sink) {uri : Text} (huri : n.text "uri" "stdout" = .ok uri) : Remarked n uri
  | other (hsource : n.op ≠ .source) (hsink : n.op ≠ .sink) (hmap : n.op ≠ .map) : Remarked n n.op.name

theorem Remarked.exists_ofNode (h : Remarked n u) (d : KernelDialect) (inputs : List Program) :
    ∃ t result, ofNode d n inputs = .ok ((Program.merge inputs).append n.id t result) ∧
      (t.Commented d.remark ↔ u.Continues d.remark) := by
  unfold ofNode
  cases h with
  | source hop huri =>
    refine ⟨_, Script.variableOf n, ?_, d.commented_load_iff u⟩
    simp only [hop, huri]
    rfl
  | sink hop huri =>
    refine ⟨_, (Program.merge inputs).result, ?_, d.commented_store_iff u⟩
    simp only [hop, huri]
    rfl
  | other hsource hsink hmap =>
    refine ⟨d.comment ("unsupported op for GPU: " ++ n.op.name), (Program.merge inputs).result, ?_, ?_⟩
    · split
      · exact absurd ‹_› hsource
      · exact absurd ‹_› hmap
      · exact absurd ‹_› hsink
      · rfl
    · rw [d.commented_comment_iff, Text.continues_append_iff (by decide)]

end Kernel

/-- **A comment that stands in for a statement is one throughout** if and only if each line of the node's text
in it, after the first, starts with the mark of a comment.  In scripts that text is a kind that is no indicator
or the name of an operation without a statement; in kernels it is the place of a source or sink, or the name of
any other operation but a map. -/
theorem remark_commented_iff (n : Node) (u : Text) (inputs : List Program) :
    (Script.Unsupported n u → ∀ d : Dialect, ∃ t result,
      Script.ofNode d n inputs = .ok ((Program.merge inputs).append n.id t result) ∧
        (t.Commented d.mark ↔ u.Continues d.mark)) ∧
    (Kernel.Remarked n u → ∀ d : KernelDialect, ∃ t result,
      Kernel.ofNode d n inputs = .ok ((Program.merge inputs).append n.id t result) ∧
        (t.Commented d.remark ↔ u.Continues d.remark)) := by
  refine ⟨fun h d => ?_, fun h d => h.exists_ofNode d inputs⟩
  obtain ⟨front, hfront, hnode⟩ := h.exists_ofNode d inputs
  exact ⟨_, _, hnode, (d.commented_comment_iff _).trans (Text.continues_append_iff hfront)⟩

/-- A kind whose second line is a comment too. -/
theorem remark_commented_iff_custom :
    let n : Node := ⟨"c", .custom, [("kind", .text "k\n-- x")], []⟩
    (∃ t result, Script.ofNode .sql n [] = .ok ((Program.merge []).append "c" t result) ∧
      (t.Commented Dialect.sql.mark ↔ Text.Continues "k\n-- x" Dialect.sql.mark)) ∧
    ∃ t result, Kernel.ofNode .triton n [] = .ok ((Program.merge []).append "c" t result) ∧
      (t.Commented KernelDialect.triton.remark ↔ Text.Continues "Custom" KernelDialect.triton.remark) := by
  intro n
  exact ⟨(remark_commented_iff n _ []).1 (.custom rfl rfl rfl) .sql,
    (remark_commented_iff n _ []).2 (.other (by decide) (by decide) (by decide)) .triton⟩

/-- A kind of two lines: the second one is a statement. -/
theorem remark_breaks_out :
    ∃ t result, Script.ofNode .sql ⟨"c", .custom, [("kind", .text "k\nDROP TABLE x;")], ["s"]⟩ [{}] =
        .ok ((Program.merge [{}]).append "c" t result) ∧
      t = "-- unsupported custom op k\nDROP TABLE x;" ∧ ¬ t.Commented Dialect.sql.mark := by
  refine ⟨_, _, rfl, rfl, fun h => ?_⟩
  exact absurd (h.2 ("-- unsupported custom op k" : Text).bytes ("DROP TABLE x;" : Text).bytes rfl) (by decide)

end Dataflow
