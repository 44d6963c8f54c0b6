import QueryLabel.Proofs.Lexeme.Newline
import QueryLabel.Proofs.Lexer.Place

/-! Texts one behind the other. A text that leaves nothing open has its own tokens before any other
text that begins on a new line. -/

namespace QueryLabel
open Lexeme

variable {sql : String}

/-- A text that leaves nothing open: no quote or bracket that would open a name was dropped, no
operators stand together as the opening of a comment, and the quotes of each string pair up. -/
structure SelfContained (sql : String) : Prop where
  name : ∀ l ∈ list sql.toList, l.role = .unknown → l.text ∉ [['"'], ['\x60'], ['[']]
  comment : ∀ x ∈ spanned sql, ∀ y ∈ spanned sql, x.token = ⟨.operator, "/"⟩ →
    y.token = ⟨.operator, "*"⟩ → y.start ≠ x.stop
  string : ∀ t ∈ tokenize sql, t.isOpen = false

/-- What opens a comment without closing it is read as two operators that touch. -/
theorem exists_spanned_of_infix
    (h : [⟨.token .operator, ['/']⟩, ⟨.token .operator, ['*']⟩] <:+: list sql.toList) :
    ∃ x ∈ spanned sql, ∃ y ∈ spanned sql, x.token = ⟨.operator, "/"⟩ ∧
      y.token = ⟨.operator, "*"⟩ ∧ y.start = x.stop := by
  obtain ⟨as, bs, hs⟩ := h
  have hspanned : spanned sql = Lexer.spannedFrom 0 (list sql.toList) := rfl
  rw [← hs, List.append_assoc, Lexer.spannedFrom_append] at hspanned
  generalize 0 + String.utf8Len (as.flatMap text) = k at hspanned
  refine ⟨⟨⟨.operator, "/"⟩, k, k + 1⟩, ?_, ⟨⟨.operator, "*"⟩, k + 1, k + 2⟩, ?_, rfl, rfl, rfl⟩
  · rw [hspanned]
    exact List.mem_append_right _ List.mem_cons_self
  · rw [hspanned]
    exact List.mem_append_right _ (List.mem_cons_of_mem _ List.mem_cons_self)

theorem SelfContained.apart (h : SelfContained sql) (b : List Char) :
    Apart (list sql.toList) b where
  name p hp hm := by
    have hnot := h.name _ hm rfl
    have hmem : [p.1] ∈ [['"'], ['\x60'], ['[']] := by
      simp only [quotePairs, List.mem_cons, List.not_mem_nil, or_false] at hp
      rcases hp with rfl | rfl | rfl <;> decide
    exact absurd hmem hnot
  comment hi := by
    obtain ⟨x, hx, y, hy, hxt, hyt, heq⟩ := exists_spanned_of_infix hi
    exact absurd heq (h.comment x hx y hy hxt hyt)
  string := h.string

/-- Tokens do not see what begins on a new line, if nothing is left open before it. -/
theorem tokenize_append_newline (h : SelfContained sql) (b : String) :
    tokenize (sql ++ "\n" ++ b) = tokenize sql ++ tokenize b := by
  rw [tokenize_eq, tokenize_eq, tokenize_eq, String.toList_append, String.toList_append,
    List.append_assoc]
  exact tokens_append_newline (h.apart b.toList)

/-- A text with quoted names, both kinds of comment and a string, before one that begins by closing
all of them. -/
theorem tokenize_append_newline_closing :
    let sql := "SELECT \"a\"\"/*\", [b\"] FROM t /* ` */ -- it's"
    let b := "*/ \" ] ' ` OR x = 1."
    SelfContained sql ∧ tokenize (sql ++ "\n" ++ b) = tokenize sql ++ tokenize b := by
  intro sql b
  have h : SelfContained sql := ⟨by decide, by decide, by decide⟩
  exact ⟨h, tokenize_append_newline h b⟩

end QueryLabel
