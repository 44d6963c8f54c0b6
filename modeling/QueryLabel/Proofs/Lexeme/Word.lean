import QueryLabel.Lexer
import QueryLabel.Proofs.Lexeme.First
import Mathlib.Data.List.Forall2

/-! Words. A piece that begins like a word is a keyword if the whole word, up to where words end,
spells a reserved one. If not, it is a name, which may end before the word does, at an accent, or
go on behind it, at a dot. -/

namespace QueryLabel

namespace Keyword
open Charset Rule

variable {c d : Char} {s x : List Char}

/-- A character stands for a letter of a reserved word in either case, and a long s for an `S`. -/
def StandsFor (c d : Char) : Prop :=
  c.toLower = d.toLower ∨ c = '\u017F' ∧ d = 'S'

/-- Whether a text spells a word, letter by letter. -/
def Spells (s : List Char) (word : String) : Prop :=
  List.Forall₂ StandsFor s word.toList

/-- Of the characters that fold to an ASCII letter, the Kelvin sign is in no reserved word. -/
theorem fold_eq_iff (hd : d ∈ reserved.flatMap String.toList) :
    fold c = fold d ↔ StandsFor c d := by
  -- Stated with `all`, since a quantifier may be decided over all characters that there are.
  have hall : (reserved.flatMap String.toList).all fun d => fold d = d.toLower ∧ 'k' ≠ d.toLower ∧
      '\u017F' ≠ d.toLower ∧ '\u212A' ≠ d.toLower ∧ ('s' = d.toLower ↔ d = 'S') := by
    decide +kernel
  obtain ⟨hfold, hk, hlong, hkelvin, hs⟩ := of_decide_eq_true (List.all_eq_true.1 hall d hd)
  by_cases h : c = '\u017F'
  · subst c
    have hc : fold '\u017F' = 's' := rfl
    have hl : Char.toLower '\u017F' = '\u017F' := rfl
    simp only [StandsFor, hc, hl, hfold, hlong, hs, false_or, true_and]
  · by_cases h' : c = '\u212A'
    · subst c
      have hc : fold '\u212A' = 'k' := rfl
      have hl : Char.toLower '\u212A' = '\u212A' := rfl
      simp only [StandsFor, hc, hl, hfold, hkelvin, hk, h, false_and, or_false]
    · have hc : fold c = c.toLower := by simp [fold, h, h']
      simp only [StandsFor, hc, hfold, h, false_and, or_false]

theorem map_fold_eq_iff (hx : ∀ d ∈ x, d ∈ reserved.flatMap String.toList) :
    s.map fold = x.map fold ↔ List.Forall₂ StandsFor s x := by
  induction x generalizing s with
  | nil => simp
  | cons d x ih =>
    cases s with
    | nil => simp
    | cons c s =>
      have hc : fold c = fold d ↔ StandsFor c d := fold_eq_iff (hx d List.mem_cons_self)
      have hs := ih (s := s) fun e he => hx e (List.mem_cons_of_mem d he)
      rw [List.map_cons, List.map_cons, List.cons.injEq, hc, hs, List.forall₂_cons]

theorem isReserved_iff : isReserved s ↔ ∃ word ∈ reserved, Spells s word := by
  have hiff : ∀ word ∈ reserved, (s.map fold == word.toList.map fold) ↔ Spells s word := by
    intro word hword
    rw [beq_iff_eq]
    apply map_fold_eq_iff
    intro d hd
    exact List.mem_flatMap.2 ⟨word, hword, hd⟩
  rw [isReserved, List.any_eq_true]
  constructor
  · rintro ⟨word, hword, h⟩
    exact ⟨word, hword, (hiff word hword).1 h⟩
  · rintro ⟨word, hword, h⟩
    exact ⟨word, hword, (hiff word hword).2 h⟩

theorem isWord_of_isNameStart (h : isNameStart c) : isWord c := by
  rcases Bool.or_eq_true_iff.1 h with hl | hu
  · exact isWord_of_isLetter hl
  · exact eq_of_beq hu ▸ isWord_underscore

theorem endsWord_iff : endsWord s ↔ s.takeWhile isWord = [] := by
  cases s with
  | nil => simp [endsWord]
  | cons c s => cases hc : isWord c <;> simp [endsWord, hc]

theorem endsWord_dropWhile : endsWord (s.dropWhile isWord) := by
  induction s with
  | nil => rfl
  | cons c s ih =>
    cases hc : isWord c with
    | false => simp [endsWord, hc]
    | true => rwa [List.dropWhile_cons_of_pos hc]

/-- The letters of a reserved word are word characters, so it can only be matched as a whole. -/
theorem matchesWord_iff (hx : ∀ d ∈ x, (fold d).isAlpha) :
    matchesWord x s ↔ (s.takeWhile isWord).map fold = x.map fold := by
  rw [matchesWord, startsWith, Bool.and_eq_true_iff, beq_iff_eq]
  constructor
  · rintro ⟨hstart, hend⟩
    have hword : ∀ c ∈ s.take x.length, isWord c := by
      intro c hc
      have hmem : fold c ∈ x.map fold := hstart ▸ List.mem_map_of_mem hc
      obtain ⟨d, hd, hcd⟩ := List.mem_map.1 hmem
      exact isWord_of_isNameStart (isNameStart_of_fold (hcd ▸ hx d hd))
    have htake : s.takeWhile isWord = s.take x.length := by
      have happend : (s.take x.length ++ s.drop x.length).takeWhile isWord =
          s.take x.length ++ (s.drop x.length).takeWhile isWord :=
        List.takeWhile_append_of_pos hword
      rwa [List.take_append_drop, endsWord_iff.1 hend, List.append_nil] at happend
    rwa [htake]
  · intro hmap
    have hlen : run isWord s = x.length := by
      simpa [run] using congrArg List.length hmap
    have htake : s.take x.length = s.takeWhile isWord := hlen ▸ take_run
    have hdrop : s.drop x.length = s.dropWhile isWord := hlen ▸ drop_run
    rw [htake, hdrop]
    exact ⟨hmap, endsWord_dropWhile⟩

/-- Of the word that a text begins with, all or nothing is taken. -/
theorem length_eq : length s = if isReserved (s.takeWhile isWord) then run isWord s else 0 := by
  have hiff : ∀ word ∈ reserved, matchesWord word.toList s ↔
      (s.takeWhile isWord).map fold = word.toList.map fold := by
    intro word hword
    exact matchesWord_iff (letters_of_reserved _ (List.mem_map_of_mem hword))
  unfold length
  cases hfind : (reserved.map String.toList).find? (matchesWord · s) with
  | none =>
    have hnot : ¬ isReserved (s.takeWhile isWord) := by
      intro hres
      obtain ⟨word, hword, heq⟩ := List.any_eq_true.1 hres
      apply List.find?_eq_none.1 hfind word.toList (List.mem_map_of_mem hword)
      exact (hiff word hword).2 (eq_of_beq heq)
    rw [if_neg hnot]
    rfl
  | some x =>
    obtain ⟨word, hword, rfl⟩ := List.mem_map.1 (List.mem_of_find?_eq_some hfind)
    have hmap := (hiff word hword).1 (by simpa using List.find?_some hfind)
    have hres : isReserved (s.takeWhile isWord) :=
      List.any_eq_true.2 ⟨word, hword, beq_iff_eq.2 hmap⟩
    have hlen : word.toList.length = run isWord s := by
      simpa [run] using (congrArg List.length hmap).symm
    rw [if_pos hres]
    exact hlen

end Keyword

namespace Lexeme
open Charset Rule

variable {s : List Char}

/-- The first piece of a text that begins like a word. -/
theorem first_nameStart (hs : heads isNameStart s) : first s =
    if Keyword.isReserved (s.takeWhile isWord) then ⟨.token .keyword, s.takeWhile isWord⟩
    else ⟨.token .identifier, s.takeWhile isNamePart⟩ := by
  obtain ⟨c, t, rfl, hc⟩ := heads_iff.1 hs
  by_cases hres : Keyword.isReserved ((c :: t).takeWhile isWord)
  · have hword : isWord c := Keyword.isWord_of_isNameStart hc
    have hlen : Keyword.length (c :: t) = run isWord (c :: t) := by
      rw [Keyword.length_eq, if_pos hres]
    have hpos : run isWord (c :: t) ≠ 0 := by
      rw [run_cons, if_pos hword]
      omega
    rw [if_pos hres, first, measure_nameStart hc, hlen, if_neg hpos, take_run]
  · have hlen : Keyword.length (c :: t) = 0 := by rw [Keyword.length_eq, if_neg hres]
    have hpart : isNamePart c := by
      rcases Bool.or_eq_true_iff.1 hc with hl | hu <;> simp_all [isNamePart]
    have hrun : 1 + run isNamePart t = run isNamePart (c :: t) := by
      rw [run_cons, if_pos hpart, Nat.add_comm]
    rw [if_neg hres, first, measure_nameStart hc, hlen, if_pos rfl, hrun, take_run]

/-- A keyword is all of the word that the text begins with. -/
theorem of_first_keyword (h : (first s).role = .token .keyword) :
    heads isNameStart s ∧ Keyword.isReserved (s.takeWhile isWord) := by
  have hm : measure s = (.token .keyword, (measure s).2) := Prod.ext h rfl
  obtain ⟨hn, hpos⟩ := of_measure (r := (.token .keyword, Keyword.length)) (by simp [Rule.all]) hm
  have hlen : Keyword.length s = (measure s).2 := hn
  have hres : Keyword.isReserved (s.takeWhile isWord) := by
    by_contra hnot
    rw [Keyword.length_eq, if_neg hnot] at hlen
    exact hpos hlen.symm
  refine ⟨?_, hres⟩
  cases s with
  | nil => exact absurd hres (by decide)
  | cons c s =>
    cases hc : isWord c with
    | false =>
      rw [List.takeWhile_cons_of_neg (by simp [hc])] at hres
      exact absurd hres (by decide)
    | true =>
      rw [List.takeWhile_cons_of_pos hc] at hres
      exact Keyword.isNameStart_of_isReserved hres

end Lexeme

open Charset Rule

/-- Words are classified exactly. Where a piece begins with a letter or an underscore, it is a
keyword if the word there, up to where words end, spells a reserved one, and otherwise a name; and
every keyword is such a word. -/
theorem classifies_words {sql : String} {as bs : List Lexeme} {l : Lexeme}
    (h : Lexeme.list sql.toList = as ++ l :: bs) :
    let rest := (l :: bs).flatMap Lexeme.text
    let word := rest.takeWhile isWord
    let isKeyword := ∃ entry ∈ Keyword.reserved, Keyword.Spells word entry
    sql.toList = as.flatMap Lexeme.text ++ rest ∧
      (heads isNameStart rest →
        (isKeyword → l = ⟨.token .keyword, word⟩) ∧
        (¬ isKeyword → l = ⟨.token .identifier, rest.takeWhile isNamePart⟩)) ∧
      (l.role = .token .keyword → heads isNameStart rest ∧ isKeyword ∧ l.text = word) := by
  intro rest word isKeyword
  have hl : l = Lexeme.first rest := by
    have hlist : Lexeme.list rest = l :: bs := Lexeme.list_flatMap_text h
    obtain ⟨hne, _⟩ := Lexeme.list_eq_cons hlist
    rw [Lexeme.list_of_ne_nil hne] at hlist
    exact (List.cons.inj hlist).1.symm
  have hiff : Keyword.isReserved word ↔ isKeyword := Keyword.isReserved_iff
  refine ⟨?_, ?_, ?_⟩
  · rw [← Lexeme.flatMap_text_list (s := sql.toList), h, List.flatMap_append]
  · intro hrest
    have hfirst := Lexeme.first_nameStart hrest
    constructor
    · intro hres
      rw [hl, hfirst, if_pos (hiff.2 hres)]
    · intro hres
      rw [hl, hfirst, if_neg (mt hiff.1 hres)]
  · intro hrole
    obtain ⟨hrest, hres⟩ := Lexeme.of_first_keyword (hl ▸ hrole)
    refine ⟨hrest, hiff.1 hres, ?_⟩
    rw [hl, Lexeme.first_nameStart hrest, if_pos hres]

/-- A keyword with a long s, and a name that ends at an accent, where its word does not. -/
theorem classifies_words_accented :
    let sql := "INſERT in\u0301to.x"
    let insert : Lexeme := ⟨.token .keyword, "INſERT".toList⟩
    let name : Lexeme := ⟨.token .identifier, "in".toList⟩
    let back : List Lexeme := [⟨.unknown, ['\u0301']⟩, ⟨.token .identifier, "to.x".toList⟩]
    let rest := (name :: back).flatMap Lexeme.text
    Lexeme.list sql.toList = [insert, ⟨.blank, [' ']⟩] ++ name :: back ∧
      heads isNameStart rest ∧ rest.takeWhile isWord = "in\u0301to".toList ∧
      (¬ ∃ entry ∈ Keyword.reserved, Keyword.Spells (rest.takeWhile isWord) entry) ∧
      name = ⟨.token .identifier, rest.takeWhile isNamePart⟩ ∧
      (∃ entry ∈ Keyword.reserved, Keyword.Spells (sql.toList.takeWhile isWord) entry) ∧
      insert.text = sql.toList.takeWhile isWord := by
  intro sql insert name back rest
  have hname : Lexeme.list sql.toList = [insert, ⟨.blank, [' ']⟩] ++ name :: back := by decide
  have hinsert : Lexeme.list sql.toList = [] ++ insert :: ⟨.blank, [' ']⟩ :: name :: back := hname
  have hrest : heads isNameStart rest := by decide
  have hnot : ¬ ∃ entry ∈ Keyword.reserved, Keyword.Spells (rest.takeWhile isWord) entry :=
    mt Keyword.isReserved_iff.2 (by decide)
  obtain ⟨hsql, -, hkeyword⟩ := classifies_words hinsert
  obtain ⟨-, hres, htext⟩ := hkeyword rfl
  rw [List.flatMap_nil, List.nil_append] at hsql
  rw [← hsql] at hres htext
  exact ⟨hname, hrest, by decide, hnot, ((classifies_words hname).2.1 hrest).2 hnot, hres, htext⟩

/-- A dot ends a word but not a name, so a reserved word in front of one is a keyword all the same,
and what is no reserved word goes on behind it. -/
example : tokenize "into.log table_1.x" =
    [⟨.keyword, "into"⟩, ⟨.identifier, "log"⟩, ⟨.identifier, "table_1.x"⟩] := by decide

end QueryLabel
