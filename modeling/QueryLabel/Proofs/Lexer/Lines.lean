import QueryLabel.Proofs.Lexeme.Newline
import QueryLabel.Summary

/-! One token a line. A token that stands alone is still the same token, and on lines of their own
the tokens of a text stand as if each were alone. -/

namespace QueryLabel
open Keyword (isReserved)

namespace Lexeme
open Rule

variable {n : Nat} {s u v b : List Char} {role : Role} {t : Token} {ts : List Token}
  {as ls : List Lexeme}

/-- Nothing but a keyword or a bare name spells a reserved word. -/
theorem role_of_isReserved (hu : isReserved u) (h : measure (u ++ v) = (role, n)) :
    role = .token .keyword ∨ role = .token .identifier := by
  cases u with
  | nil => exact absurd hu (by decide)
  | cons c u =>
    rw [List.cons_append, measure_nameStart (Keyword.isNameStart_of_isReserved hu)] at h
    split at h
    · exact .inr (congrArg Prod.fst h).symm
    · exact .inl (congrArg Prod.fst h).symm

/-- Alone, a piece is measured as before `v`, unless it is a name that turns into a keyword where
the text ends. -/
theorem measure_alone (h : measure (u ++ v) = (role, u.length)) (hu : u ≠ [])
    (hr : role = .token .identifier → isReserved u = false) : measure u = (role, u.length) := by
  have hd : Detaches v [] := detaches_nil
  have hkeyword : Keeps Keyword.length u v [] := by
    by_cases hk : role = .token .keyword
    · have hlen := (of_measure (r := (.token .keyword, Keyword.length)) (by simp [Rule.all])
        (hk ▸ h)).1
      have hend : Keyword.endsWord v := Keyword.endsWord_of_length hlen hu
      exact Keyword.length_keeps hd hend.symm
    · apply Keyword.length_keeps_of_not_isReserved hd
      refine Bool.eq_false_iff.2 fun hres => ?_
      have hname := (role_of_isReserved hres h).resolve_left hk
      exact Bool.noConfusion (hres.symm.trans (hr hname))
  have hnone (p : Char → Bool) : heads p [] → heads p v := fun h => Bool.noConfusion h
  have hkeep := measure_of_detaches hd hu (run_keeps (hnone _))
    (comment_keeps hd (hnone _) (fun _ => rfl) hu) (string_keeps (hnone _) (fun _ => rfl) hu)
    (quotedName_keeps hd (fun q _ hq => absurd hq List.not_mem_nil) hu) hkeyword (by rw [h])
  rw [List.append_nil] at hkeep
  exact hkeep.trans h

/-- A token of a text is the only token of its own text. -/
theorem list_text_of_mem_tokens (h : t ∈ tokens s)
    (hr : t.kind = .identifier → isReserved t.text.toList = false) :
    list t.text.toList = [⟨.token t.kind, t.text.toList⟩] := by
  obtain ⟨l, hl, hlt⟩ := List.mem_filterMap.1 h
  obtain ⟨as, bs, hs⟩ := List.append_of_mem hl
  obtain ⟨hrole, htext⟩ := token?_eq_some_iff.1 hlt
  have hchars : t.text.toList = l.text := by rw [htext, String.toList_ofList]
  rw [hchars] at hr ⊢
  have hu := text_ne_nil hl
  obtain ⟨_, hm, _⟩ := list_eq_cons (list_flatMap_text hs)
  rw [List.flatMap_cons, hrole] at hm
  have halone := measure_alone hm hu (by simpa using hr)
  have hlist := list_of_measure (v := []) hu (by rwa [List.append_nil])
  rwa [List.append_nil, list_nil] at hlist

theorem pairwise_of_list (hs : list s = as ++ ls) :
    ls.Pairwise fun l _ => ∀ t, l.token? = some t → t.isOpen = false := by
  induction ls generalizing as with
  | nil => exact .nil
  | cons l ls ih =>
    have hback : list s = (as ++ [l]) ++ ls := by rw [hs, List.append_assoc, List.singleton_append]
    refine .cons ?_ (ih hback)
    intro m hm t ht
    refine Bool.eq_false_iff.2 fun ho => ?_
    rw [eq_nil_of_isOpen hs ht ho] at hm
    exact absurd hm List.not_mem_nil

/-- Of the tokens of a text only the last one may be open. -/
theorem pairwise_tokens : (tokens s).Pairwise fun t _ => t.isOpen = false := by
  have hs : list s = [] ++ list s := rfl
  exact List.pairwise_filterMap.2 ((pairwise_of_list hs).imp fun h t ht _ _ => h t ht)

/-- A token alone leaves nothing open, unless it is a string that nothing closes. -/
theorem apart_token (ho : t.isOpen = false) : Apart [⟨.token t.kind, t.text.toList⟩] b where
  name p _ hm := by
    cases congrArg role (List.mem_singleton.1 hm)
  comment hi := absurd hi.length_le (by simp)
  string t' ht' := by
    obtain rfl : t' = t := by simpa [token?, String.ofList_toList] using ht'
    exact ho

/-- Tokens that stand alone are read back from lines of their own, if only the last one is open. -/
theorem tokens_lines (h : ∀ t ∈ ts, list t.text.toList = [⟨.token t.kind, t.text.toList⟩])
    (ho : ts.Pairwise fun t _ => t.isOpen = false) :
    tokens ("\n".intercalate (ts.map Token.text)).toList = ts := by
  induction ts with
  | nil => rfl
  | cons t ts ih =>
    have hlist := h t List.mem_cons_self
    have htok : tokens t.text.toList = [t] := by simp [tokens, hlist, token?, String.ofList_toList]
    cases ts with
    | nil => rwa [List.map_singleton, String.intercalate_singleton]
    | cons t' ts =>
      have hrest := ih (fun u hu => h u (List.mem_cons_of_mem t hu)) ho.of_cons
      have hclosed : t.isOpen = false := List.rel_of_pairwise_cons ho List.mem_cons_self
      have hbreak : "\n".toList = ['\n'] := rfl
      rw [List.map_cons] at hrest
      rw [List.map_cons, List.map_cons, String.intercalate_cons_cons, String.toList_append,
        String.toList_append, List.append_assoc, hbreak, List.singleton_append,
        tokens_append_newline (hlist ▸ apart_token hclosed), htok, hrest, List.singleton_append]

end Lexeme

/-- The tokens of a text, each on a line of its own. -/
def onePerLine (sql : String) : String :=
  "\n".intercalate ((tokenize sql).map Token.text)

/-- On lines of their own the tokens of a text are read back, if no bare name among them spells a
reserved word. -/
theorem tokenize_onePerLine (sql : String)
    (h : ∀ t ∈ tokenize sql, t.kind = .identifier → isReserved t.text.toList = false) :
    tokenize (onePerLine sql) = tokenize sql ∧
      Summary.ofQuery (onePerLine sql) = Summary.ofQuery sql ∧
      onePerLine (onePerLine sql) = onePerLine sql := by
  have htokens : tokenize (onePerLine sql) = tokenize sql :=
    Lexeme.tokens_lines (fun t ht => Lexeme.list_text_of_mem_tokens ht (h t ht))
      Lexeme.pairwise_tokens
  refine ⟨htokens, ?_, ?_⟩
  · rw [Summary.ofQuery, Summary.ofQuery, htokens]
  · rw [onePerLine, htokens, onePerLine]

/-- A quoted name found by going back, a sign and an exponent that are no part of a number, the
opening of a comment that nothing closes, and a string that nothing closes. -/
theorem tokenize_onePerLine_unclosed :
    let sql := "SELECT [a]],\"b\"\"- -1e+x FROM/*fromage,in@@in'it "
    let lines :=
      "SELECT\n[a]\n,\n\"b\"\n-\n-1\ne\n+\nx\nFROM\n/\n*\nfromage\n,\nin\n@@in\n'it "
    (∀ t ∈ tokenize sql, t.kind = .identifier → isReserved t.text.toList = false) ∧
      onePerLine sql = lines ∧ tokenize (onePerLine sql) = tokenize sql ∧
      Summary.ofQuery (onePerLine sql) = Summary.ofQuery sql ∧
      onePerLine (onePerLine sql) = onePerLine sql := by
  intro sql lines
  have h : ∀ t ∈ tokenize sql, t.kind = .identifier → isReserved t.text.toList = false := by decide
  exact ⟨h, by decide, tokenize_onePerLine sql h⟩

/-- A name may spell a reserved word where an accent, which is dropped, keeps the word from ending. -/
example : tokenize "in\u0301" = [⟨.identifier, "in"⟩] ∧
    tokenize (onePerLine "in\u0301") = [⟨.keyword, "in"⟩] := by decide

end QueryLabel
