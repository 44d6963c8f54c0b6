import QueryLabel.Proofs.Lexeme.Exchange
import QueryLabel.Proofs.Rule.Blank

/-! The first piece of a text by its first character. Most characters leave only a few rules that
can apply. -/

namespace QueryLabel.Lexeme
open Rule Charset

variable {c : Char} {p : Char × Char} {s : List Char}

theorem measure_string : measure ('\'' :: s) = (.token .string, string ('\'' :: s)) := by
  have hb : blank ('\'' :: s) = 0 := run_eq_zero_iff.2 rfl
  have hc : comment ('\'' :: s) = 0 := by simp [comment_cons]
  have hn : number ('\'' :: s) = 0 :=
    number_eq_zero (by decide) (by decide) (by decide) (by decide)
  have hs : string ('\'' :: s) ≠ 0 := by
    rw [string_cons, if_pos (by decide)]
    omega
  simp only [measure_eq_pick, Rule.all, pick_cons, hb, hc, hn, if_true, if_neg hs]

theorem measure_number (hd : heads Char.isDigit s) : measure s = (.token .numeric, number s) := by
  obtain ⟨c, a, rfl, hc⟩ := heads_iff.1 hd
  have hc' : isBlank c = false ∧ c ≠ '-' ∧ c ≠ '/' :=
    of_isDigit (P := fun c => isBlank c = false ∧ c ≠ '-' ∧ c ≠ '/') (by decide) hc
  have hb : blank (c :: a) = 0 := run_eq_zero_iff.2 hc'.1
  have hm : comment (c :: a) = 0 := by simp [comment_cons, hc'.2.1, hc'.2.2]
  have hn : number (c :: a) ≠ 0 := number_ne_zero hd
  simp only [measure_eq_pick, Rule.all, pick_cons, hb, hm, if_true, if_neg hn]

theorem measure_blank (hb : heads isBlank s) : measure s = (.blank, blank s) := by
  have hn : blank s ≠ 0 := by
    intro hz
    rw [run_eq_zero_iff.1 hz] at hb
    exact Bool.noConfusion hb
  rw [measure_eq_pick, Rule.all, pick_cons, if_neg hn]

/-- What a name may start with begins a name or a keyword and nothing else. -/
theorem measure_nameStart (hc : isNameStart c) : measure (c :: s) =
    if Keyword.length (c :: s) = 0 then (.token .identifier, 1 + run isNamePart s)
    else (.token .keyword, Keyword.length (c :: s)) := by
  have hne (d : Char) (hd : isNameStart d = false) : c ≠ d := by
    rintro rfl
    exact Bool.noConfusion (hc.symm.trans hd)
  have hblank : isBlank c = false := by
    refine Bool.eq_false_iff.2 fun hb => ?_
    exact Bool.noConfusion (hc.symm.trans (noPart_of_isBlank hb).nameStart)
  have hdigit : c.isDigit = false := by
    refine Bool.eq_false_iff.2 fun hd => ?_
    have hstart : isNameStart c = false :=
      of_isDigit (P := fun c => isNameStart c = false) (by decide) hd
    exact Bool.noConfusion (hc.symm.trans hstart)
  have hm := hne '-' (by decide)
  have hb : blank (c :: s) = 0 := run_eq_zero_iff.2 hblank
  have hcomment : comment (c :: s) = 0 := by simp [comment_cons, hm, hne '/' (by decide)]
  have hnumber : number (c :: s) = 0 :=
    number_eq_zero hdigit (hne '+' (by decide)) hm (hne '.' (by decide))
  have hs : string (c :: s) = 0 := by simp [string_cons, hne '\'' (by decide)]
  have hq : quotedName (c :: s) = 0 := by
    simp [quotedName_cons, hne '"' (by decide), hne '\x60' (by decide), hne '[' (by decide)]
  have hn : name (c :: s) = 1 + run isNamePart s := by
    simp [name_cons, plainName_cons, hne '@' (by decide), hc]
  simp only [measure_eq_pick, Rule.all, pick_cons, hb, hcomment, hnumber, hs, hq, hn, if_true,
    if_neg (show 1 + run isNamePart s ≠ 0 by omega)]

/-- A character that is no blank and begins neither a string nor a word. -/
def isSymbol (c : Char) : Bool :=
  !isBlank c && c != '\'' && !(Keyword.fold c).isAlpha && !isNameStart c && c != '@'

/-- A symbol can begin only a comment, a number, a quoted name or an operator. -/
theorem measure_symbol (hc : isSymbol c) : measure (c :: s) =
    pick [(.comment, comment), (.token .numeric, number), (.token .quotedIdentifier, quotedName),
      (.token .operator, operator)] (c :: s) := by
  simp only [isSymbol, Bool.and_eq_true, Bool.not_eq_true', bne_iff_ne, ne_eq] at hc
  obtain ⟨⟨⟨⟨hblank, hquote⟩, hletter⟩, hstart⟩, hat⟩ := hc
  have hb : blank (c :: s) = 0 := run_eq_zero_iff.2 hblank
  have hs : string (c :: s) = 0 := by simp [string_cons, hquote]
  have hk : Keyword.length (c :: s) = 0 := Keyword.length_eq_zero hletter
  have hn : name (c :: s) = 0 := by simp [name_cons, plainName_cons, hat, hstart]
  simp only [measure_eq_pick, Rule.all, pick_cons, hb, hs, hk, hn, if_true]

/-- The characters that open a quoted name, each with the one that closes it. -/
def quotePairs : List (Char × Char) :=
  [('"', '"'), ('\x60', '\x60'), ('[', ']')]

theorem ne_of_mem_quotePairs (hp : p ∈ quotePairs) : p.2 ≠ '\n' ∧ p.2 ≠ ';' := by
  have hall : ∀ p ∈ quotePairs, p.2 ≠ '\n' ∧ p.2 ≠ ';' := by decide
  exact hall p hp

theorem isQuote_of_mem_quotePairs (hp : (c, c) ∈ quotePairs) :
    (c == '"' || c == '\x60') = true := by
  have hall : ∀ p ∈ quotePairs, p.1 = p.2 → (p.1 == '"' || p.1 == '\x60') = true := by decide
  exact hall (c, c) hp rfl

theorem quotedName_eq_zero_iff (hp : p ∈ quotePairs) : quotedName (p.1 :: s) = 0 ↔ p.2 ∉ s := by
  simp only [quotePairs, List.mem_cons, List.not_mem_nil, or_false] at hp
  rcases hp with rfl | rfl | rfl
  · rw [quotedName_cons, if_pos (by decide), lead_eq_zero, quotedRest_eq_zero_iff]
  · rw [quotedName_cons, if_pos (by decide), lead_eq_zero, quotedRest_eq_zero_iff]
  · rw [quotedName_cons, if_neg (by decide), if_pos (by decide), lead_eq_zero]
    simp [bracketRest]

/-- Where no name is closed, the character that would open it is dropped. -/
theorem measure_opener (hp : p ∈ quotePairs) : measure (p.1 :: s) =
    if p.2 ∈ s then (.token .quotedIdentifier, quotedName (p.1 :: s)) else (.unknown, 1) := by
  have hall : ∀ p ∈ quotePairs, isSymbol p.1 ∧ p.1 ≠ '-' ∧ p.1 ≠ '/' ∧ p.1.isDigit = false ∧
      p.1 ≠ '+' ∧ p.1 ≠ '.' := by decide
  obtain ⟨hsym, hm, hslash, hd, hplus, hdot⟩ := hall p hp
  have hc : comment (p.1 :: s) = 0 := by simp [comment_cons, hm, hslash]
  have hn : number (p.1 :: s) = 0 := number_eq_zero hd hplus hm hdot
  have ho : operator (p.1 :: s) = 0 := by
    simp only [quotePairs, List.mem_cons, List.not_mem_nil, or_false] at hp
    rcases hp with rfl | rfl | rfl <;> cases s <;> rfl
  simp only [measure_symbol hsym, pick_cons, hc, hn, ho, if_true, quotedName_eq_zero_iff hp]
  by_cases hm : p.2 ∈ s
  · rw [if_pos hm, if_neg (not_not_intro hm)]
  · rw [if_neg hm, if_pos hm]
    rfl

/-- The operators that begin neither a number nor a longer operator. -/
def loneOperators : List Char :=
  ['=', '*', '/', '%', ',', ';', '(', ')']

theorem measure_loneOperator (hc : c ∈ loneOperators) (h : comment (c :: s) = 0) :
    measure (c :: s) = (.token .operator, 1) := by
  have hall : loneOperators.all fun c => isSymbol c && !c.isDigit && c != '+' && c != '-' &&
      c != '.' && c != '"' && c != '\x60' && c != '[' := by decide
  have hsingle := List.all_eq_true.1 hall c hc
  simp only [Bool.and_eq_true, Bool.not_eq_true', bne_iff_ne, ne_eq] at hsingle
  obtain ⟨⟨⟨⟨⟨⟨⟨hsym, hd⟩, hplus⟩, hm⟩, hdot⟩, hdouble⟩, hback⟩, hbracket⟩ := hsingle
  have hn : number (c :: s) = 0 := number_eq_zero hd hplus hm hdot
  have hq : quotedName (c :: s) = 0 := by simp [quotedName_cons, hdouble, hback, hbracket]
  have ho : operator (c :: s) = 1 := by
    simp only [loneOperators, List.mem_cons, List.not_mem_nil, or_false] at hc
    rcases hc with rfl | rfl | rfl | rfl | rfl | rfl | rfl | rfl <;> cases s <;> rfl
  simp only [measure_symbol hsym, pick_cons, h, hn, hq, ho, if_true, if_neg Nat.one_ne_zero]

end QueryLabel.Lexeme
