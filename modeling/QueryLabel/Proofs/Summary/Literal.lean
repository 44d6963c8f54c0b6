import QueryLabel.Summary
import Mathlib.Data.List.Forall2

/-! Literals in a summary. Whatever a literal says, it is passed over in the same way. -/

namespace QueryLabel

variable {t u : Token} {ts us : List Token} {i : Nat} {piece : String}

/-- Tokens between which no label can tell: equal ones, and literals of one kind. -/
inductive Token.Alike : Token → Token → Prop
  | refl (t : Token) : Alike t t
  | literal {t : Token} (h : t.isLiteral) (text : String) : Alike t ⟨t.kind, text⟩

namespace Summary

variable {s : State}

/-- The state after a literal. -/
def State.skip : State → State
  | .expectAlias => .afterAlias
  | _ => .idle

theorem kind_ne_keyword_literal (h : t.isLiteral) : t.kind ≠ .keyword := by
  rcases Token.isLiteral_iff.1 h with hk | hk <;> simp [hk]

theorem isKeyword_literal (h : t.isLiteral) (word : String) : t.isKeyword word = false :=
  Token.isKeyword_of_kind_ne (kind_ne_keyword_literal h) word

theorem isAnyKeyword_literal (h : t.isLiteral) (words : List String) :
    t.isAnyKeyword words = false :=
  Token.isAnyKeyword_of_kind_ne (kind_ne_keyword_literal h) words

theorem operation?_literal (h : t.isLiteral) : operation? t = none := by
  simp [operation?, isAnyKeyword_literal h]

theorem isName_literal (h : t.isLiteral) : isName t = false := by
  rcases Token.isLiteral_iff.1 h with hk | hk <;>
    simp [isName, isObjectType, isAnyKeyword_literal h, hk]

theorem isOperator_literal (h : t.isLiteral) (text : String) : t.isOperator text = false := by
  rcases Token.isLiteral_iff.1 h with hk | hk <;> simp [Token.isOperator, hk]

/-- A literal is never shown. -/
theorem step_literal (h : t.isLiteral) : s.step t = (false, s.skip) := by
  have hk : t.kind ≠ .operator ∧ t.kind ≠ .identifier := by
    rcases Token.isLiteral_iff.1 h with hk | hk <;> simp [hk]
  cases s <;> simp [State.step, State.proceed, State.skip, operation?_literal h, isName_literal h,
    isObjectType, isAnyKeyword_literal h, isKeyword_literal h, isOperator_literal h, hk]

theorem step_alike (h : t.Alike u) : s.step u = s.step t := by
  cases h with
  | refl => rfl
  | literal h text => rw [step_literal h, step_literal (t := ⟨t.kind, text⟩) h]

/-- Alike tokens lead to the same words: a literal is passed over, and all others are equal. -/
theorem map_text_selectFrom_alike (h : List.Forall₂ Token.Alike ts us) :
    (selectFrom s us).map Token.text = (selectFrom s ts).map Token.text := by
  induction h generalizing s with
  | nil => rfl
  | @cons t u ts us htu _ ih =>
    rw [selectFrom, selectFrom, step_alike htu]
    cases htu with
    | refl =>
      split
      · rw [List.map_cons, List.map_cons, ih]
      · exact ih
    | literal hl text =>
      rw [step_literal hl]
      exact ih

theorem ofTokens_alike (h : List.Forall₂ Token.Alike ts us) : ofTokens us = ofTokens ts := by
  rw [ofTokens, ofTokens, parts, parts, map_text_selectFrom_alike h]

theorem forall₂_alike_set (ht : ts[i]? = some t) (h : t.isLiteral) :
    List.Forall₂ Token.Alike ts (ts.set i ⟨t.kind, piece⟩) := by
  induction ts generalizing i with
  | nil => simp at ht
  | cons u ts ih =>
    cases i with
    | zero =>
      obtain rfl : u = t := by simpa using ht
      exact .cons (.literal h piece) (List.forall₂_same.2 fun v _ => .refl v)
    | succ i => exact .cons (.refl u) (ih (by simpa using ht))

end Summary

end QueryLabel
