import QueryLabel.Proofs.Lexer.Place
import QueryLabel.Proofs.Lexer.Quoted
import QueryLabel.Proofs.Summary.Literal

/-! Data in a query. A literal may be exchanged for another one, and neither the other tokens nor
the summary change. -/

namespace QueryLabel
open Rule

variable {b s : List Char} {as bs : List Lexeme} {l : Lexeme} {t : Token} {sql piece : String}
  {i : Nat} {x : Spanned}

/-- What may be written in the place of a literal: for a string, one whose content closes neither a
string nor a name or a comment that was left open before; for whole digits, digits that begin no
hexadecimal number. -/
inductive Token.MayBecome : Token → String → Prop
  | string {text content : String}
      (hc : ∀ c ∈ content.toList, c ∉ ['\'', '"', '\x60', ']', '/']) :
      MayBecome ⟨.string, text⟩ ("'" ++ content ++ "'")
  | digits {text digits : String} (ht : ∀ c ∈ text.toList, c.isDigit)
      (hd : ∀ c ∈ digits.toList, c.isDigit) (hne : digits ≠ "")
      (h0 : digits.toList.head? ≠ some '0') : MayBecome ⟨.numeric, text⟩ digits

theorem Token.MayBecome.isLiteral (h : t.MayBecome piece) : t.isLiteral := by
  cases h <;> rfl

namespace Lexeme

/-- A text that begins with a string, split at the end of the string. -/
theorem heads_of_string (hl : list (l.text ++ b) = l :: bs) (hr : l.role = .token .string) :
    (∃ a, l.text = '\'' :: a) ∧ heads (· == '\'') b = false := by
  obtain ⟨_, hm, _⟩ := list_eq_cons hl
  rw [hr] at hm
  obtain ⟨hs, hn⟩ := of_measure (r := (.token .string, string)) (by simp [Rule.all]) hm
  have hne : l.text ≠ [] := List.ne_nil_of_length_pos (Nat.pos_of_ne_zero hn)
  obtain ⟨c, a, ha⟩ := List.exists_cons_of_ne_nil hne
  rw [ha, List.cons_append] at hs
  change string (c :: (a ++ b)) = (c :: a).length at hs
  rw [string_cons, List.length_cons] at hs
  split at hs
  · next hc =>
    refine ⟨⟨a, by rw [ha, eq_of_beq hc]⟩, ?_⟩
    have hd := heads_drop_stringRest (s := a ++ b)
    rwa [show stringRest (a ++ b) = a.length by omega, List.drop_left] at hd
  · omega

/-- Another string may stand in the place of a string. -/
theorem list_replace_string {content : List Char} (hl : list (l.text ++ b) = l :: bs)
    (hr : l.role = .token .string) (hc : ∀ c ∈ content, c ∉ ['\'', '"', '\x60', ']', '/']) :
    Narrows (l.text ++ b) ('\'' :: (content ++ ['\'']) ++ b) ∧
      list ('\'' :: (content ++ ['\'']) ++ b) =
        ⟨.token .string, '\'' :: (content ++ ['\''])⟩ :: list b := by
  obtain ⟨⟨a, ha⟩, hb⟩ := heads_of_string hl hr
  have hnot (q : Char) (hq : q ∈ ['\'', '"', '\x60', ']', '/']) : q ∉ content :=
    fun h => hc q h hq
  constructor
  · rw [ha]
    refine narrows_literal (.inl rfl) (by decide) (fun q hq => ?_) (by simp [List.getLast?_cons])
    have hne : q ≠ '\'' := by
      rintro rfl
      simp at hq
    simp [hne, hnot q (List.mem_cons_of_mem _ hq)]
  · refine list_of_measure (by simp) ?_
    have hm := measure_quoted_string (a := content) hb
    rwa [doubled_eq_self (hnot '\'' (by simp))] at hm

/-- Other digits may stand in the place of a number of digits. -/
theorem list_replace_digits {digits : List Char} (hl : list (l.text ++ b) = l :: bs)
    (hr : l.role = .token .numeric) (ht : ∀ c ∈ l.text, c.isDigit)
    (hd : ∀ c ∈ digits, c.isDigit) (hne : digits ≠ []) (h0 : heads (· == '0') digits = false) :
    Narrows (l.text ++ b) (digits ++ b) ∧
      list (digits ++ b) = ⟨.token .numeric, digits⟩ :: list b := by
  obtain ⟨_, hm, _⟩ := list_eq_cons hl
  rw [hr] at hm
  obtain ⟨hs, hn⟩ := of_measure (r := (.token .numeric, number)) (by simp [Rule.all]) hm
  have htne : l.text ≠ [] := List.ne_nil_of_length_pos (Nat.pos_of_ne_zero hn)
  have hb := of_number_digits ht htne hs
  constructor
  · obtain ⟨c', a', ha'⟩ := List.exists_cons_of_ne_nil htne
    obtain ⟨c, a, rfl⟩ := List.exists_cons_of_ne_nil hne
    have hc' : c'.isDigit := ht c' (ha' ▸ List.mem_cons_self)
    have hc : c.isDigit := hd c List.mem_cons_self
    have hnot (q : Char) (hq : q.isDigit = false) : q ∉ c :: a := by
      intro h
      simp [hd q h] at hq
    rw [ha']
    refine narrows_literal (.inr ⟨hc', hc⟩) ?_ (fun q hq => hnot q ?_) (fun h => ?_)
    · exact of_isDigit (P := fun c => isJoint c = false) (by decide) hc
    · simp only [List.mem_cons, List.not_mem_nil, or_false] at hq
      rcases hq with rfl | rfl | rfl | rfl <;> rfl
    · exact hnot '*' (by decide) (List.mem_of_getLast? h)
  · have hh : heads Char.isDigit (digits ++ b) := by
      obtain ⟨c, a, rfl⟩ := List.exists_cons_of_ne_nil hne
      rw [List.cons_append, heads_cons]
      exact hd c List.mem_cons_self
    exact list_of_measure hne (by rw [measure_number hh, number_digits hd hne h0 hb])

/-- The pieces around a literal stay as they are when another literal takes its place. -/
theorem list_replace (hs : list s = as ++ l :: bs) (ht : l.token? = some t)
    (h : t.MayBecome piece) :
    list (as.flatMap text ++ (piece.toList ++ bs.flatMap text)) =
      as ++ ⟨l.role, piece.toList⟩ :: bs := by
  obtain ⟨hr, htext⟩ := token?_eq_some_iff.1 ht
  have hl : list (l.text ++ bs.flatMap text) = l :: bs := list_flatMap_text hs
  have hb : list (bs.flatMap text) = bs := by
    have hs' : list s = (as ++ [l]) ++ bs := by rw [hs, List.append_assoc, List.singleton_append]
    exact list_flatMap_text hs'
  have hw : Narrows (l.text ++ bs.flatMap text) (piece.toList ++ bs.flatMap text) ∧
      list (piece.toList ++ bs.flatMap text) = ⟨l.role, piece.toList⟩ :: bs := by
    cases h with
    | string hc =>
      have hp := list_replace_string hl hr hc
      rw [hb, ← hr] at hp
      simpa using hp
    | @digits text _ ht' hd hne h0 =>
      have hchars : ∀ c ∈ l.text, c.isDigit := by
        obtain rfl : text = String.ofList l.text := htext
        simpa using ht'
      have hhead : heads (· == '0') piece.toList = false := by
        cases hp : piece.toList <;> simp_all
      have hp := list_replace_digits hl hr hchars hd (by simpa using hne) hhead
      rwa [hb, ← hr] at hp
  rw [list_exchange hs hw.1, hw.2]

end Lexeme

/-- A literal is invisible but for its own text: with another one in its place, the tokens are the
same around it and the summary is the same. -/
theorem tokenize_replace_literal (hx : (spanned sql)[i]? = some x) (h : x.token.MayBecome piece) :
    tokenize (x.replace sql piece) = (tokenize sql).set i ⟨x.token.kind, piece⟩ ∧
      Summary.ofQuery (x.replace sql piece) = Summary.ofQuery sql := by
  obtain ⟨as, l, bs, hls, ht, hi, hs, he⟩ := exists_of_getElem?_spanned hx
  have htext : sql.toList = as.flatMap Lexeme.text ++ l.text ++ bs.flatMap Lexeme.text := by
    rw [← Lexeme.flatMap_text_list (s := sql.toList), hls]
    simp
  have htokens : tokenize (x.replace sql piece) = (tokenize sql).set i ⟨x.token.kind, piece⟩ := by
    have hnew : Lexeme.token? ⟨l.role, piece.toList⟩ = some ⟨x.token.kind, piece⟩ :=
      Lexeme.token?_eq_some_iff.2
        ⟨(Lexeme.token?_eq_some_iff.1 ht).1, by rw [String.ofList_toList]⟩
    change (Lexeme.list (x.replace sql piece).toList).filterMap Lexeme.token? =
      ((Lexeme.list sql.toList).filterMap Lexeme.token?).set i _
    rw [Spanned.toList_replace piece htext hs he, List.append_assoc, Lexeme.list_replace hls ht h,
      hls, List.filterMap_append, List.filterMap_append, ← hi,
      List.set_append_right _ _ (Nat.le_refl _), Nat.sub_self, List.filterMap_cons_some hnew,
      List.filterMap_cons_some ht, List.set_cons_zero]
  refine ⟨htokens, ?_⟩
  rw [Summary.ofQuery, htokens]
  exact Summary.ofTokens_alike (Summary.forall₂_alike_set (getElem?_tokenize hx) h.isLiteral)

/-- Both kinds of literal behind a bracket that nothing closes: a string with a doubled quote gives
way to one that looks like a comment, and a number to another one. -/
theorem tokenize_replace_literal_unclosed :
    let sql := "SELECT * FROM [t WHERE ssn = '12;3''' AND n = 42"
    let str : Spanned := ⟨⟨.string, "'12;3'''"⟩, 29, 37⟩
    let num : Spanned := ⟨⟨.numeric, "42"⟩, 46, 48⟩
    (tokenize (str.replace sql "'--('") = (tokenize sql).set 7 ⟨.string, "'--('"⟩ ∧
      Summary.ofQuery (str.replace sql "'--('") = Summary.ofQuery sql) ∧
    tokenize (num.replace sql "7") = (tokenize sql).set 11 ⟨.numeric, "7"⟩ ∧
      Summary.ofQuery (num.replace sql "7") = Summary.ofQuery sql := by
  have hs : Token.MayBecome ⟨.string, "'12;3'''"⟩ ("'" ++ "--(" ++ "'") := .string (by simp)
  have hn : Token.MayBecome ⟨.numeric, "42"⟩ "7" :=
    .digits (by simp) (by simp) (by decide) (by decide)
  exact ⟨tokenize_replace_literal (by decide) hs, tokenize_replace_literal (by decide) hn⟩

end QueryLabel
