import QueryLabel.Proofs.Lexeme.First
import QueryLabel.Proofs.Lexeme.Trim

/-! Quoting. Any text can be put between quotes, if it doubles those that it holds, and any text
without a closing bracket between brackets. What is quoted so is one token before any text, unless
that text begins with another quote, which would be taken for a doubled one. -/

namespace QueryLabel
open Rule

variable {q : Char} {a b u : List Char} {content rest : String} {kind : Kind}

/-- A text with each of its quotes written twice. -/
def doubled (q : Char) (s : List Char) : List Char :=
  s.flatMap fun c => if c == q then [q, q] else [c]

/-- A text between quotes. -/
def quoted (q : Char) (content : String) : String :=
  String.ofList (q :: (doubled q content.toList ++ [q]))

theorem doubled_cons_self : doubled q (q :: a) = q :: q :: doubled q a := by
  simp [doubled]

theorem doubled_cons_of_ne {c : Char} (h : c ≠ q) : doubled q (c :: a) = c :: doubled q a := by
  simp [doubled, h]

theorem doubled_eq_self (h : q ∉ a) : doubled q a = a := by
  induction a with
  | nil => rfl
  | cons c a ih =>
    rw [List.mem_cons, not_or] at h
    rw [doubled_cons_of_ne (Ne.symm h.1), ih h.2]

namespace Rule

/-- The quotes of a doubled text pair up among themselves, so a string ends at the quote behind. -/
theorem stringRest_doubled (hb : heads (· == '\'') b = false) :
    stringRest (doubled '\'' a ++ '\'' :: b) = (doubled '\'' a).length + 1 := by
  induction a with
  | nil => simp [doubled, stringRest_cons, hb]
  | cons c a ih =>
    by_cases hc : c = '\''
    · subst c
      simp only [doubled_cons_self, List.cons_append, stringRest_cons (c := '\''), heads_cons,
        List.tail_cons, ih, List.length_cons, beq_self_eq_true, if_true]
      omega
    · rw [doubled_cons_of_ne hc, List.cons_append, stringRest_cons, if_neg (by simpa using hc), ih,
        List.length_cons]
      omega

/-- So does a quoted name. -/
theorem quotedRest_doubled (hb : heads (· == q) b = false) :
    quotedRest q (doubled q a ++ q :: b) = (doubled q a).length + 1 := by
  induction a with
  | nil => simp [doubled, quotedRest_cons, hb]
  | cons c a ih =>
    by_cases hc : c = q
    · subst c
      simp only [doubled_cons_self, List.cons_append, quotedRest_cons (c := q), heads_cons,
        List.tail_cons, ih, List.length_cons, beq_self_eq_true, if_true, lead_succ]
      omega
    · rw [doubled_cons_of_ne hc, List.cons_append, quotedRest_cons, if_neg (by simpa using hc), ih,
        List.length_cons, lead_succ]
      omega

theorem bracketRest_append (h : ']' ∉ a) : bracketRest (a ++ ']' :: b) = a.length + 1 := by
  have hrun : run (· != ']') (a ++ ']' :: b) = a.length := by
    rw [run_append_of_forall]
    · simp [run_cons]
    · intro c hc
      have hne : c ≠ ']' := by
        rintro rfl
        exact h hc
      simpa using hne
  rw [bracketRest, hrun]
  simp

end Rule

namespace Lexeme

theorem measure_quoted_string (hb : heads (· == '\'') b = false) :
    measure ('\'' :: (doubled '\'' a ++ ['\'']) ++ b) =
      (.token .string, ('\'' :: (doubled '\'' a ++ ['\''])).length) := by
  rw [List.cons_append, List.append_assoc, List.singleton_append, measure_string, string_cons,
    if_pos (by decide), stringRest_doubled hb]
  simp [Nat.add_comm]

theorem measure_quoted_name (hq : (q, q) ∈ quotePairs) (hb : heads (· == q) b = false) :
    measure (q :: (doubled q a ++ [q]) ++ b) =
      (.token .quotedIdentifier, (q :: (doubled q a ++ [q])).length) := by
  have hmem : q ∈ doubled q a ++ q :: b := by simp
  rw [List.cons_append, List.append_assoc, List.singleton_append, measure_opener hq, if_pos hmem,
    quotedName_cons, if_pos (isQuote_of_mem_quotePairs hq), quotedRest_doubled hb, lead_succ]
  simp [Nat.add_comm]

theorem measure_bracketed (ha : ']' ∉ a) : measure ('[' :: (a ++ [']']) ++ b) =
    (.token .quotedIdentifier, ('[' :: (a ++ [']'])).length) := by
  have hp : ('[', ']') ∈ quotePairs := by decide
  have hmem : ']' ∈ a ++ ']' :: b := by simp
  rw [List.cons_append, List.append_assoc, List.singleton_append, measure_opener hp, if_pos hmem,
    quotedName_cons, if_neg (by decide), if_pos (by decide), bracketRest_append ha, lead_succ]
  simp [Nat.add_comm]

theorem tokenize_append_of_measure (hu : u ≠ [])
    (h : measure (u ++ rest.toList) = (.token kind, u.length)) :
    tokenize (String.ofList u ++ rest) = ⟨kind, String.ofList u⟩ :: tokenize rest := by
  rw [tokenize_eq, String.toList_append, String.toList_ofList, tokens, list_of_measure hu h]
  rfl

end Lexeme

theorem heads_toList_eq_false (h : rest.toList.head? ≠ some q) :
    heads (· == q) rest.toList = false := by
  cases hs : rest.toList with
  | nil => rfl
  | cons c s => simpa [hs] using h

/-- Whatever is quoted is one token, and what follows it is read as if it stood alone. -/
theorem tokenize_quoted_append (content rest : String) :
    (rest.toList.head? ≠ some '\'' → tokenize (quoted '\'' content ++ rest) =
      ⟨.string, quoted '\'' content⟩ :: tokenize rest) ∧
    (∀ q ∈ ['"', '\x60'], rest.toList.head? ≠ some q → tokenize (quoted q content ++ rest) =
      ⟨.quotedIdentifier, quoted q content⟩ :: tokenize rest) ∧
    (']' ∉ content.toList → tokenize ("[" ++ content ++ "]" ++ rest) =
      ⟨.quotedIdentifier, "[" ++ content ++ "]"⟩ :: tokenize rest) := by
  refine ⟨?_, ?_, ?_⟩
  · intro h
    apply Lexeme.tokenize_append_of_measure (List.cons_ne_nil _ _)
    exact Lexeme.measure_quoted_string (heads_toList_eq_false h)
  · intro q hq h
    have hpair : (q, q) ∈ Lexeme.quotePairs := by
      simp only [List.mem_cons, List.not_mem_nil, or_false] at hq
      rcases hq with rfl | rfl <;> decide
    apply Lexeme.tokenize_append_of_measure (List.cons_ne_nil _ _)
    exact Lexeme.measure_quoted_name hpair (heads_toList_eq_false h)
  · intro h
    have hchars : "[" ++ content ++ "]" = String.ofList ('[' :: (content.toList ++ [']'])) := by
      apply String.toList_injective
      simp
    rw [hchars]
    apply Lexeme.tokenize_append_of_measure (List.cons_ne_nil _ _)
    exact Lexeme.measure_bracketed h

/-- A text that begins and ends with a quote and opens a name and both kinds of comment, before one
that could close the brackets and begins no other quote. -/
theorem tokenize_quoted_append_opening :
    let content := "';\"\"--[\x60/*'"
    let rest := "] x'"
    (quoted '\'' content = "''';\"\"--[\x60/*'''" ∧ rest.toList.head? ≠ some '\'' ∧
      tokenize (quoted '\'' content ++ rest) = ⟨.string, quoted '\'' content⟩ :: tokenize rest) ∧
    ('"' ∈ ['"', '\x60'] ∧ rest.toList.head? ≠ some '"' ∧ tokenize (quoted '"' content ++ rest) =
      ⟨.quotedIdentifier, quoted '"' content⟩ :: tokenize rest) ∧
    (']' ∉ content.toList ∧ tokenize ("[" ++ content ++ "]" ++ rest) =
      ⟨.quotedIdentifier, "[" ++ content ++ "]"⟩ :: tokenize rest) := by
  intro content rest
  obtain ⟨hstring, hname, hbracket⟩ := tokenize_quoted_append content rest
  have hquote : rest.toList.head? ≠ some '\'' := by decide
  have hdouble : rest.toList.head? ≠ some '"' := by decide
  have hmem : '"' ∈ ['"', '\x60'] := by decide
  have hclosed : ']' ∉ content.toList := by decide
  exact ⟨⟨by decide, hquote, hstring hquote⟩, ⟨hmem, hdouble, hname '"' hmem hdouble⟩, hclosed,
    hbracket hclosed⟩

/-- Before a text that begins with a quote, the closing quote is taken for one of the content. -/
example : tokenize (quoted '\'' "a" ++ "'b'") = [⟨.string, "'a''b'"⟩] := by decide

end QueryLabel
