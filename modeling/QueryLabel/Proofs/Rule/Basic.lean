import QueryLabel.Lexeme.Rule

/-! The rules by the first character of the text. Every later proof about a rule starts from these
equations and from the bound that no rule takes more than there is. -/

namespace QueryLabel.Rule
open Charset

variable {p : Char → Bool} {c d q : Char} {s t : List Char} {k m n : Nat}

/-- Whether the text begins with a character of a class. -/
def heads (p : Char → Bool) (s : List Char) : Bool :=
  s.head?.any p

@[simp] theorem heads_nil : heads p [] = false := rfl

@[simp] theorem heads_cons : heads p (c :: s) = p c := by
  simp [heads]

theorem heads_iff : heads p s ↔ ∃ c t, s = c :: t ∧ p c := by
  cases s <;> simp

/-- The length of a piece whose first `k` characters count only if more follow. -/
def lead (k : Nat) : Nat → Nat
  | 0 => 0
  | n => k + n

@[simp] theorem lead_zero : lead k 0 = 0 := rfl

theorem lead_succ : lead k (n + 1) = k + (n + 1) := rfl

theorem lead_eq_zero : lead k n = 0 ↔ n = 0 := by
  cases n <;> simp [lead]

theorem eq_zero_of_lead_le (h : lead k n ≤ k) : n = 0 := by
  cases n with
  | zero => rfl
  | succ n =>
    rw [lead_succ] at h
    omega

theorem lead_le_iff : lead k n ≤ k + m ↔ n ≤ m := by
  cases n <;> simp [lead]

@[simp] theorem run_nil : run p [] = 0 := rfl

theorem run_cons : run p (c :: s) = if p c then run p s + 1 else 0 := by
  rw [run, List.takeWhile_cons]
  split <;> rfl

theorem run_eq_zero_iff : run p s = 0 ↔ heads p s = false := by
  cases s <;> simp [run_cons]

theorem take_run : s.take (run p s) = s.takeWhile p :=
  (List.prefix_iff_eq_take.1 (List.takeWhile_prefix p)).symm

theorem drop_run : s.drop (run p s) = s.dropWhile p := by
  induction s with
  | nil => rfl
  | cons c s ih =>
    rw [run_cons, List.dropWhile_cons]
    split
    · rw [List.drop_succ_cons, ih]
    · rfl

theorem commentEnd_cons : commentEnd (c :: s) =
    if c == '*' && heads (· == '/') s then 2 else lead 1 (commentEnd s) := by
  cases s with
  | nil => simp [commentEnd]
  | cons d s =>
    rw [commentEnd, heads_cons]
    cases commentEnd (d :: s) <;> simp [lead, Nat.add_comm]

/-- A line comment goes on through every character but a line break. -/
def isInLine (c : Char) : Bool :=
  c != '\r' && c != '\n'

theorem comment_cons : comment (c :: s) =
    if c == '-' && heads (· == '-') s then 2 + run isInLine s.tail
    else if c == '/' && heads (· == '*') s then lead 2 (commentEnd s.tail)
    else 0 := by
  unfold comment
  split
  · simp_all
    rfl
  · next s' heq =>
    obtain ⟨rfl, rfl⟩ := List.cons.inj heq
    cases h : commentEnd s' <;> simp [h, lead]
  · next h₁ h₂ =>
    cases s with
    | nil => simp
    | cons d s =>
      rw [if_neg (by simpa using fun hc hd => h₁ s (by rw [hc, hd])),
        if_neg (by simpa using fun hc hd => h₂ s (by rw [hc, hd]))]

theorem stringRest_cons : stringRest (c :: s) =
    if c == '\'' then if heads (· == '\'') s then 2 + stringRest s.tail else 1
    else 1 + stringRest s := by
  cases s with
  | nil => simp [stringRest]
  | cons d s => rfl

theorem string_cons : string (c :: s) = if c == '\'' then 1 + stringRest s else 0 := by
  unfold string
  split <;> simp_all

theorem quotedRest_cons : quotedRest q (c :: s) =
    if c == q then if heads (· == q) s then 1 + lead 1 (quotedRest q s.tail) else 1
    else lead 1 (quotedRest q s) := by
  cases s with
  | nil => simp [quotedRest]
  | cons d s =>
    rw [quotedRest, heads_cons, List.tail_cons]
    cases quotedRest q s <;> cases quotedRest q (d :: s) <;> grind [lead_zero, lead_succ]

theorem quotedName_cons : quotedName (c :: s) =
    lead 1 (if c == '"' || c == '\x60' then quotedRest c s
      else if c == '[' then bracketRest s else 0) := rfl

theorem plainName_cons : plainName (c :: s) =
    if isNameStart c then 1 + run isNamePart s else 0 := rfl

theorem name_cons : name (c :: s) =
    if c == '@' then
      if heads (· == '@') s then lead 2 (plainName s.tail) else lead 1 (plainName s)
    else plainName (c :: s) := by
  unfold name
  split
  · next s' heq =>
    obtain ⟨rfl, rfl⟩ := List.cons.inj heq
    cases h : plainName s' <;> simp [h, lead]
  · next s' hs heq =>
    obtain ⟨rfl, rfl⟩ := List.cons.inj heq
    cases s <;> cases h : plainName _ <;> simp_all [lead]
  · simp_all

theorem operator_cons : operator (c :: s) =
    if heads (isPairOperator c) s then 2 else if isOperatorChar c then 1 else 0 := by
  cases s <;> rfl

theorem sign_eq : sign s = if heads (fun c => c == '+' || c == '-') s then 1 else 0 := by
  cases s <;> rfl

theorem hexadecimal_cons : hexadecimal (c :: s) =
    if c == '0' && heads (fun d => d == 'x' || d == 'X') s then lead 2 (run Digits.isHex s.tail)
    else 0 := by
  unfold hexadecimal
  split
  · next d s' heq =>
    obtain ⟨rfl, rfl⟩ := List.cons.inj heq
    cases h : run Digits.isHex s' <;> simp [h, lead]
  · cases s <;> simp_all

/-- A point with the digits after it, if any. -/
def fraction (s : List Char) : Nat :=
  if heads (· == '.') s then 1 + run Char.isDigit s.tail else 0

theorem mantissa_of_eq_zero (h : run Char.isDigit s = 0) :
    mantissa s = if heads (· == '.') s then lead 1 (run Char.isDigit s.tail) else 0 := by
  unfold mantissa
  rw [h, List.drop_zero]
  cases s with
  | nil => simp
  | cons c s =>
    by_cases hc : c = '.'
    · subst hc
      cases h : run Char.isDigit s <;> simp [h, lead]
    · simp [hc]

theorem mantissa_of_ne_zero (h : run Char.isDigit s ≠ 0) :
    mantissa s = run Char.isDigit s + fraction (s.drop (run Char.isDigit s)) := by
  unfold mantissa fraction
  split
  · next hz _ => exact absurd hz h
  · next hz _ => exact absurd hz h
  · next ht _ => simp [ht, Nat.add_assoc]
  · next ht =>
    cases hs : s.drop (run Char.isDigit s) <;> simp_all

theorem exponent_cons : exponent (c :: s) =
    if c == 'e' || c == 'E' then lead (1 + sign s) (run Char.isDigit (s.drop (sign s)))
    else 0 := rfl

theorem magnitude_eq : magnitude s =
    if hexadecimal s = 0 then
      if mantissa s = 0 then 0 else mantissa s + exponent (s.drop (mantissa s))
    else hexadecimal s := by
  unfold magnitude
  split
  · split <;> simp_all
  · simp_all

theorem number_eq : number s = lead (sign s) (magnitude (s.drop (sign s))) := rfl

theorem lead_le (h : n ≤ m) : lead k n ≤ k + m :=
  lead_le_iff.2 h

theorem run_le : run p s ≤ s.length :=
  (List.takeWhile_sublist p).length_le

theorem run_lt_iff : run p s < s.length ↔ ∃ c ∈ s, p c = false := by
  induction s with
  | nil => simp
  | cons c s ih =>
    rw [run_cons]
    split <;> simp_all

theorem length_tail_of_heads (h : heads p s) : s.tail.length + 1 = s.length := by
  cases s with
  | nil => simp at h
  | cons c s => rfl

theorem commentEnd_le : commentEnd s ≤ s.length := by
  induction s with
  | nil => exact Nat.le_refl 0
  | cons c s ih =>
    rw [commentEnd_cons, List.length_cons]
    split
    · next h =>
      have := length_tail_of_heads (Bool.and_eq_true_iff.1 h).2
      omega
    · have := lead_le (k := 1) ih
      omega

theorem comment_le : comment s ≤ s.length := by
  cases s with
  | nil => exact Nat.le_refl 0
  | cons c s =>
    rw [comment_cons, List.length_cons]
    split
    · next h =>
      have := length_tail_of_heads (Bool.and_eq_true_iff.1 h).2
      have := run_le (p := isInLine) (s := s.tail)
      omega
    · split
      · next h =>
        have := length_tail_of_heads (Bool.and_eq_true_iff.1 h).2
        have := lead_le (k := 2) (commentEnd_le (s := s.tail))
        omega
      · exact Nat.zero_le _

theorem stringRest_le : stringRest s ≤ s.length := by
  fun_induction stringRest s <;> simp_all <;> omega

theorem string_le : string s ≤ s.length := by
  cases s with
  | nil => exact Nat.le_refl 0
  | cons c s =>
    have := stringRest_le (s := s)
    rw [string_cons, List.length_cons]
    split <;> omega

theorem quotedRest_le : quotedRest q s ≤ s.length := by
  fun_induction quotedRest q s <;> simp_all <;> omega

theorem bracketRest_eq :
    bracketRest s = if run (· != ']') s < s.length then run (· != ']') s + 1 else 0 := by
  simp [bracketRest, run_lt_iff]

theorem bracketRest_le : bracketRest s ≤ s.length := by
  rw [bracketRest_eq]
  split <;> omega

theorem quotedName_le : quotedName s ≤ s.length := by
  cases s with
  | nil => exact Nat.le_refl 0
  | cons c s =>
    have hq := lead_le (k := 1) (quotedRest_le (q := c) (s := s))
    have hb := lead_le (k := 1) (bracketRest_le (s := s))
    rw [quotedName_cons, List.length_cons]
    split
    · omega
    · split
      · omega
      · exact Nat.zero_le _

theorem plainName_le : plainName s ≤ s.length := by
  cases s with
  | nil => exact Nat.le_refl 0
  | cons c s =>
    have := run_le (p := isNamePart) (s := s)
    rw [plainName_cons, List.length_cons]
    split <;> omega

theorem name_le : name s ≤ s.length := by
  cases s with
  | nil => exact Nat.le_refl 0
  | cons c s =>
    rw [name_cons, List.length_cons]
    split
    · split
      · next h =>
        have := length_tail_of_heads h
        have := lead_le (k := 2) (plainName_le (s := s.tail))
        omega
      · have := lead_le (k := 1) (plainName_le (s := s))
        omega
    · exact plainName_le

theorem operator_le : operator s ≤ s.length := by
  fun_cases operator s <;> simp_all

theorem sign_le : sign s ≤ s.length := by
  cases s with
  | nil => exact Nat.le_refl 0
  | cons c s =>
    rw [sign_eq, List.length_cons]
    split <;> omega

theorem hexadecimal_le : hexadecimal s ≤ s.length := by
  cases s with
  | nil => exact Nat.le_refl 0
  | cons c s =>
    rw [hexadecimal_cons, List.length_cons]
    split
    · next h =>
      have := length_tail_of_heads (Bool.and_eq_true_iff.1 h).2
      have := lead_le (k := 2) (run_le (p := Digits.isHex) (s := s.tail))
      omega
    · exact Nat.zero_le _

theorem fraction_le : fraction s ≤ s.length := by
  unfold fraction
  split
  · next h =>
    have := length_tail_of_heads h
    have := run_le (p := Char.isDigit) (s := s.tail)
    omega
  · exact Nat.zero_le _

theorem mantissa_le : mantissa s ≤ s.length := by
  by_cases hz : run Char.isDigit s = 0
  · rw [mantissa_of_eq_zero hz]
    split
    · next h =>
      have := length_tail_of_heads h
      have := lead_le (k := 1) (run_le (p := Char.isDigit) (s := s.tail))
      omega
    · exact Nat.zero_le _
  · have hk := run_le (p := Char.isDigit) (s := s)
    have hf := fraction_le (s := s.drop (run Char.isDigit s))
    rw [List.length_drop] at hf
    rw [mantissa_of_ne_zero hz]
    omega

theorem exponent_le : exponent s ≤ s.length := by
  cases s with
  | nil => exact Nat.le_refl 0
  | cons c s =>
    have hs := sign_le (s := s)
    have := lead_le (k := 1 + sign s) (run_le (p := Char.isDigit) (s := s.drop (sign s)))
    rw [List.length_drop] at this
    rw [exponent_cons, List.length_cons]
    split <;> omega

theorem magnitude_le : magnitude s ≤ s.length := by
  have hm := mantissa_le (s := s)
  have he := exponent_le (s := s.drop (mantissa s))
  rw [List.length_drop] at he
  rw [magnitude_eq]
  split
  · split <;> omega
  · exact hexadecimal_le

theorem number_le : number s ≤ s.length := by
  have hs := sign_le (s := s)
  have := lead_le (k := sign s) (magnitude_le (s := s.drop (sign s)))
  rw [List.length_drop] at this
  rw [number_eq]
  omega

end QueryLabel.Rule
