import Dataflow.Proofs.Session.Identifier
import Dataflow.Script.Lower

/-!
# Literals in statements

A literal of SQL stands between two marks, single ones for a text and double ones for a name, and a mark inside
it is written twice.  `Text.literal?` reads one by that rule.  A quoted text is read back as the text, whatever
follows it, as long as this does not start with the mark again (`Text.literal?_marked`).

Main statement (`Script.quotes_read_back`): the place of a source and the file of a sink are the only literal
of their statement, and are read back from it.
-/

namespace Dataflow

open List

namespace Text

/-! ### Reading literals -/

/-- The rest of a literal behind its first mark: the value, and what follows the mark that ends it. -/
def literalRest? (mark : UInt8) : List UInt8 → Option (List UInt8 × List UInt8)
  | [] => none
  | [a] => if a = mark then some ([], []) else none
  | a :: b :: rest =>
    if a ≠ mark then (literalRest? mark (b :: rest)).map fun (s, t) => (a :: s, t)
    else if b = mark then (literalRest? mark rest).map fun (s, t) => (mark :: s, t)
    else some ([], b :: rest)

/-- The literal that the text starts with, and what follows it. -/
def literal? (mark : UInt8) (t : Text) : Option (Text × Text) :=
  match t.bytes with
  | [] => none
  | a :: rest => if a = mark then (literalRest? mark rest).map fun (s, t) => (⟨s⟩, ⟨t⟩) else none

/-- The text without marks of literals. -/
def Bare (t : Text) : Prop := 39 ∉ t.bytes ∧ 34 ∉ t.bytes

instance (t : Text) : Decidable t.Bare := inferInstanceAs (Decidable (_ ∧ _))

/-- The text has one literal, the value between these marks. -/
def Shows (t : Text) (mark : UInt8) (value : Text) : Prop :=
  ∃ front literal back : Text, t = front ++ literal ++ back ∧ front.Bare ∧ back.Bare ∧
    literal? mark (literal ++ back) = some (value, back)

/-- The value between marks, with its own marks doubled. -/
def marked (mark : UInt8) (value : Text) : Text :=
  ⟨[mark]⟩ ++ value.replaceAll ⟨[mark]⟩ ⟨[mark, mark]⟩ ++ ⟨[mark]⟩

variable {mark : UInt8} {s t front back : Text}

theorem bytes_replaceAll (mark : UInt8) (t new : Text) :
    (t.replaceAll ⟨[mark]⟩ new).bytes = t.bytes.flatMap fun b => if b = mark then new.bytes else [b] := by
  have hparts : ∀ bs part : List UInt8, ∃ p ps, splitBytes [mark] 0 part bs = p :: ps ∧
      p ++ (ps.flatMap fun q => new.bytes ++ q) =
        part.reverse ++ bs.flatMap fun b => if b = mark then new.bytes else [b] := by
    intro bs
    induction bs with
    | nil => exact fun part => ⟨part.reverse, [], by rw [splitBytes], by simp⟩
    | cons b bs ih =>
      intro part
      by_cases hb : b = mark
      · obtain ⟨p, ps, hsplit, hp⟩ := ih []
        refine ⟨part.reverse, p :: ps, ?_, ?_⟩
        · rw [splitBytes, if_pos (by simp [hb]), ← hsplit]
          rfl
        · rw [flatMap_cons, List.append_assoc, hp, flatMap_cons, if_pos hb]
          rfl
      · obtain ⟨p, ps, hsplit, hp⟩ := ih (b :: part)
        refine ⟨p, ps, ?_, ?_⟩
        · rw [splitBytes, if_neg (by simpa using Ne.symm hb), hsplit]
        · rw [hp, flatMap_cons, if_neg hb, reverse_cons, List.append_assoc]
  obtain ⟨p, ps, hsplit, hp⟩ := hparts t.bytes []
  rw [replaceAll, split, hsplit]
  simpa [join, concat, flatMap_map] using hp

theorem literalRest?_doubled (s : List UInt8) {rest : List UInt8} (h : rest.head? ≠ some mark) :
    literalRest? mark ((s.flatMap fun b => if b = mark then [mark, mark] else [b]) ++ mark :: rest) =
      some (s, rest) := by
  induction s with
  | nil =>
    cases rest with
    | nil => simp [literalRest?]
    | cons b rest => simpa [literalRest?] using h
  | cons a s ih =>
    rw [flatMap_cons, List.append_assoc]
    by_cases ha : a = mark
    · subst ha
      simp [literalRest?, ih]
    · rw [if_neg ha, singleton_append]
      -- something follows, at least the mark at the end
      obtain ⟨b, r, hr⟩ := exists_cons_of_ne_nil (append_ne_nil_of_right_ne_nil
        (s.flatMap fun b => if b = mark then [mark, mark] else [b]) (cons_ne_nil mark rest))
      rw [hr] at ih ⊢
      rw [literalRest?, if_pos ha, ih]
      rfl

theorem literal?_marked (mark : UInt8) (s : Text) (h : t.bytes.head? ≠ some mark) :
    literal? mark (marked mark s ++ t) = some (s, t) := by
  have hrest := literalRest?_doubled s.bytes h
  rw [← bytes_replaceAll mark s ⟨[mark, mark]⟩] at hrest
  simp [literal?, marked, hrest]

theorem bare_append_iff : (s ++ t).Bare ↔ s.Bare ∧ t.Bare := by
  simp only [Bare, bytes_append, mem_append, not_or]
  exact and_and_and_comm

theorem shows_marked (hmark : mark = 39 ∨ mark = 34) (hfront : front.Bare) (hback : back.Bare) (s : Text) :
    (front ++ marked mark s ++ back).Shows mark s := by
  refine ⟨front, _, back, rfl, hfront, hback, literal?_marked mark s fun h => ?_⟩
  have hmem := mem_of_mem_head? h
  rcases hmark with rfl | rfl
  · exact hback.1 hmem
  · exact hback.2 hmem

end Text

open Text

/-! ### Statements -/

namespace Dialect

theorem quote_eq (t : Text) : quote t = marked 39 t := rfl

theorem quoteName_eq (t : Text) : quoteName t = marked 34 t := rfl

variable {v input : Text}

/-- The literal of a source: the path of its file, or the name of its table. -/
def subject (l : Location) : UInt8 × Text :=
  if l.isFile then (39, l.path) else (34, l.path.orElse "unknown")

/-- A view on a table that is written with one literal has this literal only. -/
theorem shows_view (hv : v.Bare) {front back : Text} (hfront : front.Bare) (hback : back.Bare) {mark : UInt8}
    (hmark : mark = 39 ∨ mark = 34) (value : Text) :
    (view v ("SELECT * FROM " ++ (front ++ marked mark value ++ back))).Shows mark value := by
  have hstatement : view v ("SELECT * FROM " ++ (front ++ marked mark value ++ back)) =
      ("CREATE TEMP VIEW " ++ v ++ " AS SELECT * FROM " ++ front) ++ marked mark value ++ (back ++ ";") :=
    Text.ext (by simp [view]; rfl)
  rw [hstatement]
  refine shows_marked hmark ?_ (bare_append_iff.mpr ⟨hback, by decide⟩) value
  simp only [bare_append_iff]
  exact ⟨⟨⟨by decide, hv⟩, by decide⟩, hfront⟩

theorem shows_source (hv : v.Bare) (l : Location) : (sql.source v l).Shows (subject l).1 (subject l).2 := by
  have hcall {f : Text} (hf : f.Bare) : (view v ("SELECT * FROM " ++ call f [quote l.path])).Shows 39 l.path := by
    have htable : call f [quote l.path] = (f ++ "(") ++ marked 39 l.path ++ ")" :=
      Text.ext (by simp [call, Text.join, Text.concat, quote_eq])
    rw [htable]
    exact shows_view hv (bare_append_iff.mpr ⟨hf, by decide⟩) (by decide) (.inl rfl) l.path
  obtain ⟨uri, scheme, path, format⟩ := l
  cases format with
  | none =>
    have hname : quoteName (path.orElse "unknown") = "" ++ marked 34 (path.orElse "unknown") ++ "" :=
      Text.ext (by rw [quoteName_eq]; exact (append_nil _).symm)
    show (view v ("SELECT * FROM " ++ quoteName (path.orElse "unknown"))).Shows 34 _
    rw [hname]
    exact shows_view hv (by decide) (by decide) (.inr rfl) _
  | some format => cases format <;> exact hcall (by decide)

theorem shows_sink (hinput : input.Bare) {l : Location} {target : Text} (h : fileTarget? l = some target) :
    (sql.sink input l).Shows 39 target := by
  have hstatement : sql.sink input l = ("COPY " ++ input ++ " TO ") ++ marked 39 target ++ ";" := by
    simp only [sink, h]
    rfl
  rw [hstatement]
  refine shows_marked (.inl rfl) ?_ (by decide) target
  simp only [bare_append_iff]
  exact ⟨⟨by decide, hinput⟩, by decide⟩

end Dialect

namespace Script

variable {n : Node} {inputs : List Program} {p : Program}

theorem bare_variableOf (n : Node) : (variableOf n).Bare := by
  have hplain {mark : UInt8} (h : Byte.isLower mark = false ∧ Byte.isDigit mark = false ∧ mark ≠ byte '_') :
      mark ∉ n.ident.bytes := by
    intro hmem
    obtain ⟨c, -, hc⟩ := mem_flatMap.mp hmem
    simpa [h] using Byte.plain_of_mem_ident hc
  exact bare_append_iff.mpr ⟨by decide, hplain (by decide), hplain (by decide)⟩

theorem bare_input (h : ∀ p ∈ inputs, p.result.Bare) (i : Nat) : (input inputs i).Bare := by
  unfold input
  split
  · next p hp =>
    split
    · decide
    · exact h p (mem_of_getElem? hp)
  · decide

theorem result_append (p : Program) (owner statement result : Text) :
    (p.append owner statement result).result = result := by
  unfold Program.append
  split <;> rfl

/-- The result of a node is its own variable, or that of its input. -/
theorem result_ofNode {d : Dialect} (h : ofNode d n inputs = .ok p) :
    p.result = variableOf n ∨ p.result = input inputs 0 := by
  unfold ofNode at h
  simp only [bind, Except.bind, pure, Except.pure] at h
  -- whatever can fail, each way through the node appends one statement
  repeat' split at h
  all_goals cases h <;> simp [result_append]

/-- **Quoted texts cannot be escaped.** -/
theorem quotes_read_back (s t : Text) (n : Node) (inputs : List Program) (hinputs : ∀ p ∈ inputs, p.result.Bare) :
    (t.bytes.head? ≠ some 39 → literal? 39 (Dialect.quote s ++ t) = some (s, t)) ∧
    (t.bytes.head? ≠ some 34 → literal? 34 (Dialect.quoteName s ++ t) = some (s, t)) ∧
    (∀ uri, n.op = .source → n.text "uri" "" = .ok uri → ∃ statement,
      ofNode .sql n inputs = .ok ((Program.merge inputs).append n.id statement (variableOf n)) ∧
        statement.Shows (Dialect.subject (.parse uri)).1 (Dialect.subject (.parse uri)).2) ∧
    (∀ uri target, n.op = .sink → n.text "uri" "stdout" = .ok uri →
      Dialect.fileTarget? (.parse uri) = some target → ∃ statement,
        ofNode .sql n inputs = .ok ((Program.merge inputs).append n.id statement (input inputs 0)) ∧
          statement.Shows 39 target) ∧
    ∀ p, ofNode .sql n inputs = .ok p → p.result.Bare := by
  refine ⟨literal?_marked 39 s, literal?_marked 34 s, fun uri hop huri => ?_, fun uri target hop huri htarget => ?_,
    fun p hp => ?_⟩
  · refine ⟨_, ?_, Dialect.shows_source (bare_variableOf n) (.parse uri)⟩
    simp only [ofNode, hop, huri]
    rfl
  · refine ⟨_, ?_, Dialect.shows_sink (bare_input hinputs 0) htarget⟩
    simp only [ofNode, hop, huri]
    rfl
  · rcases result_ofNode hp with h | h
    · exact h ▸ bare_variableOf n
    · exact h ▸ bare_input hinputs 0

theorem quotes_read_back_sink :
    let n : Node := { id := "k", op := .sink, config := [("uri", .text "it's.csv")], parents := ["s"] }
    ∃ statement, ofNode .sql n [{ result := "t_s" }] =
        .ok ((Program.merge [{ result := "t_s" }]).append "k" statement "t_s") ∧ statement.Shows 39 "it's.csv" := by
  intro n
  have hinputs : ∀ p ∈ [({ result := "t_s" } : Program)], p.result.Bare := by simpa using by decide
  exact (quotes_read_back "" "" n _ hinputs).2.2.2.1 "it's.csv" "it's.csv" rfl rfl rfl

end Script

end Dataflow
