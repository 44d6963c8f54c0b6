import QueryLabel.Proofs.Lexeme.First
import QueryLabel.Proofs.Lexeme.Trim
import QueryLabel.Proofs.Rule.Closed

/-! Texts put on lines of their own. If the text behind a line break closes nothing that the one
before it leaves open, both fall into the pieces that they fall into alone. -/

namespace QueryLabel.Lexeme
open Rule Charset

variable {a b b' s z : List Char} {c : Char} {l : Lexeme} {as bs ls : List Lexeme}

/-- Nothing that the pieces leave open is closed by `b`: no quoted name, whose opening character was
dropped, and no block comment, whose opening was taken for two operators. A string that is left open
would go on into any text. -/
structure Apart (ls : List Lexeme) (b : List Char) : Prop where
  name : ∀ p ∈ quotePairs, ⟨.unknown, [p.1]⟩ ∈ ls → p.2 ∉ b
  comment : [⟨.token .operator, ['/']⟩, ⟨.token .operator, ['*']⟩] <:+: ls → commentEnd b = 0
  string : ∀ t ∈ ls.filterMap token?, t.isOpen = false

theorem Apart.of_infix (h : Apart ls b) (hm : as <:+: ls) : Apart as b where
  name p hp hl := h.name p hp (hm.subset hl)
  comment hi := h.comment (hi.trans hm)
  string t ht := by
    obtain ⟨l, hl, hlt⟩ := List.mem_filterMap.1 ht
    exact h.string t (List.mem_filterMap.2 ⟨l, hm.subset hl, hlt⟩)

/-- A blank or a comment opens nothing. -/
theorem Apart.concat (h : Apart ls b) (hl : l.role = .blank ∨ l.role = .comment) :
    Apart (ls ++ [l]) b where
  name p hp hm := by
    rcases List.mem_append.1 hm with hm | hm
    · exact h.name p hp hm
    · obtain rfl := List.mem_singleton.1 hm
      rcases hl with hl | hl <;> cases hl
  comment hi := by
    rcases List.infix_concat_iff.1 hi with hs | hi
    · have hlast := hs.getLast (by simp)
      rw [List.getLast_concat] at hlast
      obtain rfl : l = ⟨.token .operator, ['*']⟩ := hlast.symm
      rcases hl with hl | hl <;> cases hl
    · exact h.comment hi
  string t ht := by
    have htok : l.token? = none := by rcases hl with hl | hl <;> rw [token?, hl]
    rw [List.filterMap_append, List.filterMap_cons_none htok, List.filterMap_nil,
      List.append_nil] at ht
    exact h.string t ht

theorem Apart.mono (h : Apart ls b) (hq : ∀ p ∈ quotePairs, p.2 ∈ b' → p.2 ∈ b)
    (hc : commentEnd b = 0 → commentEnd b' = 0) : Apart ls b' where
  name p hp hm hb := h.name p hp hm (hq p hp hb)
  comment hi := hc (h.comment hi)
  string := h.string

theorem list_of_measure_one {role : Role} (h : measure (c :: s) = (role, 1)) :
    list (c :: s) = ⟨role, [c]⟩ :: list s :=
  list_of_measure (u := [c]) (by simp) h

theorem list_opener {p : Char × Char} (hp : p ∈ quotePairs) (h : p.2 ∉ s) :
    list (p.1 :: s) = ⟨.unknown, [p.1]⟩ :: list s :=
  list_of_measure_one (by rw [measure_opener hp, if_neg h])

/-- Where a block comment is not closed, its opening is taken for two operators. -/
theorem list_block (h : commentEnd s = 0) : list ('/' :: '*' :: s) =
    ⟨.token .operator, ['/']⟩ :: ⟨.token .operator, ['*']⟩ :: list s := by
  have hslash : comment ('/' :: '*' :: s) = 0 := by simp [comment_cons, h]
  have hstar : comment ('*' :: s) = 0 := by simp [comment_cons]
  rw [list_of_measure_one (measure_loneOperator (by decide) hslash),
    list_of_measure_one (measure_loneOperator (by decide) hstar)]

theorem quotedRest_append_newline {q : Char} (hp : (q, q) ∈ quotePairs)
    (h : Apart (list (q :: s)) b) : quotedRest q (s ++ '\n' :: b) = quotedRest q s := by
  have hn : q ≠ '\n' := (ne_of_mem_quotePairs hp).1
  have hw : heads (· == q) ('\n' :: b) = false := by simpa using hn.symm
  by_cases hb : q ∈ b
  · -- a quote in `b` would close the name, had one been left open
    have hs : q ∈ s := by
      by_contra hs
      exact h.name (q, q) hp (by rw [list_opener hp hs]; exact List.mem_cons_self) hb
    have hopen : quotedRest q s ≠ 0 := mt quotedRest_eq_zero_iff.1 (not_not_intro hs)
    refine quotedRest_append_of_closed hw s hopen (Bool.eq_false_iff.2 fun hd => ?_)
    obtain ⟨d, t, hdrop, hdq⟩ := heads_iff.1 hd
    obtain rfl : d = q := eq_of_beq hdq
    have ht : d ∉ t := by
      have := not_mem_of_heads_drop_quotedRest s hopen hd
      rwa [hdrop] at this
    have hm : measure (d :: s) = (.token .quotedIdentifier, quotedRest d s + 1) := by
      rw [measure_opener hp, if_pos hs, quotedName_cons, if_pos (isQuote_of_mem_quotePairs hp),
        lead_of_ne_zero hopen, Nat.add_comm]
    have hl : ⟨.unknown, [d]⟩ ∈ list (d :: s) := by
      rw [list_cons, hm, List.drop_succ_cons, hdrop, list_opener hp ht]
      exact List.mem_cons_of_mem _ List.mem_cons_self
    exact h.name (d, d) hp hl hb
  · have hk : Keeps (quotedRest q) s [] ('\n' :: b) :=
      quotedRest_keeps hw (fun hm => absurd hm (by simp [hn, hb])) s
    exact hk.of_nil quotedRest_le

theorem bracketRest_append_newline (h : Apart (list ('[' :: s)) b) :
    bracketRest (s ++ '\n' :: b) = bracketRest s := by
  by_cases hb : ']' ∈ b
  · apply bracketRest_append_of_ne_zero
    have hp : ('[', ']') ∈ quotePairs := by decide
    have hs : ']' ∈ s := by
      by_contra hs
      exact h.name ('[', ']') hp (by rw [list_opener hp hs]; exact List.mem_cons_self) hb
    simp [bracketRest, hs]
  · have hk : Keeps bracketRest s [] ('\n' :: b) :=
      bracketRest_keeps fun hm => absurd hm (by simp [hb])
    exact hk.of_nil bracketRest_le

theorem quotedName_append_newline (h : Apart (list a) b) (ha : a ≠ []) :
    quotedName (a ++ '\n' :: b) = quotedName a := by
  obtain ⟨c, s, rfl⟩ := List.exists_cons_of_ne_nil ha
  rw [List.cons_append, quotedName_cons, quotedName_cons]
  by_cases hq : (c == '"' || c == '\x60') = true
  · have hc : c = '"' ∨ c = '\x60' := by simpa using hq
    have hp : (c, c) ∈ quotePairs := by rcases hc with rfl | rfl <;> decide
    rw [if_pos hq, if_pos hq, quotedRest_append_newline hp h]
  · by_cases hb : (c == '[') = true
    · obtain rfl := eq_of_beq hb
      rw [if_neg hq, if_neg hq, if_pos hb, if_pos hb, bracketRest_append_newline h]
    · rw [if_neg hq, if_neg hq, if_neg hb, if_neg hb]

theorem string_append_newline (h : Apart (list a) b) (ha : a ≠ []) :
    string (a ++ '\n' :: b) = string a := by
  obtain ⟨c, s, rfl⟩ := List.exists_cons_of_ne_nil ha
  by_cases hc : c = '\''
  · subst hc
    refine string_append_of_even rfl ha ?_
    have hl : list ('\'' :: s) = ⟨.token .string, ('\'' :: s).take (string ('\'' :: s))⟩ ::
        list (('\'' :: s).drop (string ('\'' :: s))) := by
      rw [list_cons, first, measure_string]
    have ho := h.string ⟨.string, String.ofList (('\'' :: s).take (string ('\'' :: s)))⟩
      (by rw [hl]; simp [token?])
    simpa [Token.isOpen] using ho
  · simp [string_cons, hc]

/-- The first piece of a text that is not all blank is the same on a line of its own. -/
theorem measure_append_newline (h : Apart (list a) b) (ha : ∃ c ∈ a, isBlank c = false) :
    measure (a ++ '\n' :: b) = measure a := by
  have hne : a ≠ [] := by
    rintro rfl
    simp at ha
  have hd : Detaches [] ('\n' :: b) := detaches_newline
  have hword : Keyword.endsWord ('\n' :: b) = Keyword.endsWord [] := by
    have : isWord '\n' = false := by decide
    simp [Keyword.endsWord, this]
  have hblank : blank (a ++ '\n' :: b) = blank a := run_append (run_lt_iff.2 ha)
  have hcomment : Rule.comment (a ++ '\n' :: b) = Rule.comment a := by
    refine comment_append_newline (fun t ht hz => h.comment ?_) hne
    rw [ht, list_block hz]
    exact (List.prefix_append _ (list t)).isInfix
  have hkeep := measure_of_detaches hd hne (keeps_nil hblank) (keeps_nil hcomment)
    (keeps_nil (string_append_newline h hne)) (keeps_nil (quotedName_append_newline h hne))
    (Keyword.length_keeps hd hword) (by rw [List.append_nil]; exact measure_le hne)
  rwa [List.append_nil] at hkeep

/-- On a line of its own a text falls into the pieces that it falls into alone, but that blanks at
its end are taken together with the line break. -/
theorem exists_list_append_newline (h : Apart (list a) b) :
    ∃ ls z, (∀ c ∈ z, isBlank c) ∧ list a = ls ++ list z ∧
      list (a ++ '\n' :: b) = ls ++ list (z ++ '\n' :: b) := by
  induction hn : a.length using Nat.strongRecOn generalizing a with
  | _ n ih =>
    by_cases hblank : ∀ c ∈ a, isBlank c
    · exact ⟨[], a, hblank, rfl, rfl⟩
    · have hex : ∃ c ∈ a, isBlank c = false := by simpa using hblank
      have hne : a ≠ [] := by
        rintro rfl
        simp at hex
      have hm := measure_append_newline h hex
      have hle := measure_le hne
      have hpos := measure_pos (s := a)
      have hl := list_of_ne_nil hne
      rw [hl] at h
      obtain ⟨ls, z, hz, hla, hlb⟩ := ih (a.drop (measure a).2).length
        (by rw [List.length_drop]; omega)
          (h.of_infix (List.suffix_cons _ _).isInfix) rfl
      refine ⟨first a :: ls, z, hz, by rw [hl, hla]; rfl, ?_⟩
      rw [list_of_ne_nil (by simp), first, hm, List.take_append_of_le_length hle,
        List.drop_append_of_le_length hle, hlb]
      rfl

theorem tokens_append_newline (h : Apart (list a) b) :
    tokens (a ++ '\n' :: b) = tokens a ++ tokens b := by
  obtain ⟨ls, z, hz, hla, hlb⟩ := exists_list_append_newline h
  have hzb : tokens (z ++ '\n' :: b) = tokens b := by
    rw [← tokens_dropWhile, List.dropWhile_append_of_pos hz, List.dropWhile_cons_of_pos (by decide),
      tokens_dropWhile]
  have hza := tokens_of_blank hz
  simp only [tokens] at hzb hza ⊢
  rw [hla, hlb, List.filterMap_append, List.filterMap_append, hza, hzb, List.append_nil]

/-- What comes later in a text closes nothing that was left open before. -/
theorem apart_of_list (hs : list s = as ++ bs) (hb : bs ≠ []) : Apart as (bs.flatMap text) where
  name p hp hm hmem := by
    obtain ⟨cs, ds, rfl⟩ := List.append_of_mem hm
    rw [List.append_assoc, List.cons_append] at hs
    obtain ⟨_, hmeasure, _⟩ := list_eq_cons (list_flatMap_text hs)
    rw [List.flatMap_cons, List.flatMap_append, List.singleton_append, measure_opener hp,
      if_pos (List.mem_append_right _ hmem)] at hmeasure
    exact absurd (congrArg Prod.fst hmeasure) (by simp)
  comment hi := by
    obtain ⟨cs, ds, rfl⟩ := hi
    simp only [List.append_assoc, List.cons_append, List.nil_append] at hs
    obtain ⟨_, hmeasure, _⟩ := list_eq_cons (list_flatMap_text hs)
    simp only [List.flatMap_cons, List.flatMap_append, List.singleton_append] at hmeasure
    have hz : Rule.comment ('/' :: '*' :: (ds.flatMap text ++ bs.flatMap text)) = 0 := by
      by_contra hz
      rw [measure_symbol (by decide), pick_cons, if_neg hz] at hmeasure
      exact absurd (congrArg Prod.fst hmeasure) (by simp)
    exact commentEnd_of_append (lead_eq_zero.1 hz)
  string t ht := by
    obtain ⟨l, hl, hlt⟩ := List.mem_filterMap.1 ht
    obtain ⟨cs, ds, rfl⟩ := List.append_of_mem hl
    refine Bool.eq_false_iff.2 fun ho => hb ?_
    rw [List.append_assoc, List.cons_append] at hs
    exact (List.append_eq_nil_iff.1 (eq_nil_of_isOpen hs hlt ho)).2

theorem Apart.dropWhile (h : Apart (list s) b) : Apart (list (s.dropWhile isBlank)) b := by
  by_cases hs : heads isBlank s
  · have hne : s ≠ [] := by
      rintro rfl
      exact Bool.noConfusion hs
    have hd : s.drop (blank s) = s.dropWhile isBlank := drop_run
    rw [list_of_ne_nil hne, measure_blank hs, hd] at h
    exact h.of_infix (List.suffix_cons _ _).isInfix
  · cases s with
    | nil => exact h
    | cons c s => rwa [List.dropWhile_cons_of_neg (by simpa using hs)]

/-- What is left open without the blanks at the end is left open with them. -/
theorem Apart.of_append_blank {w : List Char} (hw : ∀ c ∈ w, isBlank c)
    (h : Apart (list (a ++ w)) b) : Apart (list a) b := by
  obtain ⟨ls, xs, ys, hxs, hys, hlast, _⟩ := exists_list_append_blank hw a
  rw [hys] at h
  rw [hxs]
  have hls : Apart ls b := h.of_infix (List.prefix_append ls ys).isInfix
  cases hlast with
  | none => rwa [List.append_nil]
  | silent hr _ => exact hls.concat hr
  | @string x hx =>
    have hopen : Token.isOpen ⟨.string, String.ofList (x ++ w)⟩ := by
      simp [Token.isOpen, List.count_eq_zero.2 (quote_not_mem_blank hw), hx]
    have hclosed := h.string ⟨.string, String.ofList (x ++ w)⟩ (by simp [token?])
    exact Bool.noConfusion (hopen.symm.trans hclosed)

theorem Apart.trim (h : Apart (list s) b) : Apart (list (trim s)) b := by
  obtain ⟨w, hw, hs⟩ := exists_dropWhile_eq_trim_append s
  exact (hs ▸ h.dropWhile).of_append_blank hw

end QueryLabel.Lexeme
