import QueryLabel.Proofs.Lexeme.Newline
import QueryLabel.Summary

/-! Comments in a query. Whatever a comment says, a line break in its place leaves the tokens and
the summary as they are. -/

namespace QueryLabel

namespace Lexeme
open Rule Charset

variable {chosen : Nat → Bool} {n : Nat} {c : Char} {s : List Char} {l : Lexeme}
  {as bs ls : List Lexeme}

/-- The text of pieces that are counted from `n`, with a line break in the place of each chosen
comment. -/
def textWithout (chosen : Nat → Bool) : (n : Nat) → List Lexeme → List Char
  | _, [] => []
  | n, l :: ls =>
    (if l.role == .comment && chosen n then ['\n'] else l.text) ++ textWithout chosen (n + 1) ls

theorem mem_textWithout (h : c ∈ textWithout chosen n ls) : c = '\n' ∨ c ∈ ls.flatMap text := by
  induction ls generalizing n with
  | nil => exact absurd h List.not_mem_nil
  | cons l ls ih =>
    rw [List.flatMap_cons]
    rcases List.mem_append.1 h with hl | hls
    · split at hl
      · exact .inl (List.mem_singleton.1 hl)
      · exact .inr (List.mem_append_left _ hl)
    · exact (ih hls).imp_right (List.mem_append_right _)

theorem heads_slash_textWithout (h : heads (· == '/') (textWithout chosen n ls)) :
    heads (· == '/') (ls.flatMap text) := by
  induction ls generalizing n with
  | nil => exact h
  | cons l ls ih =>
    rw [textWithout] at h
    rw [List.flatMap_cons]
    split at h
    · exact absurd h (by rw [List.singleton_append, heads_cons]; decide)
    · cases hl : l.text with
      | nil =>
        rw [hl] at h
        exact ih h
      | cons d t =>
        rw [hl] at h
        exact h

/-- No block comment is closed by leaving comments out. -/
theorem commentEnd_textWithout (h : commentEnd (ls.flatMap text) = 0) :
    commentEnd (textWithout chosen n ls) = 0 := by
  induction ls generalizing n with
  | nil => rfl
  | cons l ls ih =>
    rw [List.flatMap_cons] at h
    have hls := ih (n := n + 1) (commentEnd_of_append h)
    rw [textWithout]
    split
    · exact commentEnd_append_newline (a := []) rfl hls
    · exact commentEnd_append_eq_zero h hls heads_slash_textWithout

/-- A comment begins with a character that ends words. -/
theorem endsWord_of_comment (h : comment s ≠ 0) : Keyword.endsWord s := by
  cases s with
  | nil => rfl
  | cons c s =>
    have hall : isWord '-' = false ∧ isWord '/' = false := by decide
    have hc : c = '-' ∨ c = '/' := by
      by_contra hc
      rw [not_or] at hc
      exact h (by simp [comment_cons, hc.1, hc.2])
    rcases hc with rfl | rfl
    · simp [Keyword.endsWord, hall.1]
    · simp [Keyword.endsWord, hall.2]

/-- What stands before a comment is read as if the text ended there. -/
theorem list_before_comment (hs : list s = as ++ l :: bs) (hl : l.role = .comment) :
    list (as.flatMap text) = as := by
  have hrest := list_flatMap_text hs
  obtain ⟨_, hm, _⟩ := list_eq_cons hrest
  rw [hl] at hm
  obtain ⟨hc, hne⟩ := of_measure (r := (.comment, comment)) (by simp [Rule.all]) hm
  have hword : Keyword.endsWord ((l :: bs).flatMap text) :=
    endsWord_of_comment fun hz => hne (hc.symm.trans hz)
  have := list_exchange hs (narrows_nil hword)
  rwa [List.append_nil, list_nil, List.append_nil] at this

/-- The pieces up to some place are passed one by one; at a chosen comment the text falls apart into
what stands before the line break and what follows it. -/
theorem tokens_textWithout (hs : list (as.flatMap text ++ bs.flatMap text) = as ++ bs) :
    tokens (as.flatMap text ++ textWithout chosen n bs) = (as ++ bs).filterMap token? := by
  induction bs generalizing as n with
  | nil =>
    rw [List.flatMap_nil] at hs
    rw [textWithout, tokens, hs]
  | cons l bs ih =>
    rw [textWithout]
    split
    · next hchosen =>
      have hl : l.role = .comment := eq_of_beq (Bool.and_eq_true_iff.1 hchosen).1
      have htok : l.token? = none := by rw [token?, hl]
      have hfront := list_before_comment hs hl
      have hback : list (bs.flatMap text) = bs := by
        rw [← List.singleton_append, ← List.append_assoc] at hs
        exact list_flatMap_text hs
      have hapart : Apart (list (as.flatMap text)) (textWithout chosen (n + 1) bs) := by
        rw [hfront]
        refine (apart_of_list hs (List.cons_ne_nil l bs)).mono ?_ ?_
        · intro p hp hm
          rw [List.flatMap_cons]
          exact List.mem_append_right _
            ((mem_textWithout hm).resolve_left (ne_of_mem_quotePairs hp).1)
        · intro hz
          rw [List.flatMap_cons] at hz
          exact commentEnd_textWithout (commentEnd_of_append hz)
      have hrest : tokens (textWithout chosen (n + 1) bs) = bs.filterMap token? := @ih _ [] hback
      rw [List.singleton_append, tokens_append_newline hapart, hrest, tokens, hfront,
        List.filterMap_append, List.filterMap_cons_none htok]
    · have hs' : list ((as ++ [l]).flatMap text ++ bs.flatMap text) = as ++ [l] ++ bs := by
        simpa using hs
      have := ih (n := n + 1) hs'
      simpa using this

end Lexeme

/-- The text with a line break in the place of each comment that is chosen by its number among the
pieces of the text. -/
def withoutComments (chosen : Nat → Bool) (sql : String) : String :=
  String.ofList (Lexeme.textWithout chosen 0 (Lexeme.list sql.toList))

/-- Comments are inert: any of them may give way to a line break. -/
theorem tokenize_withoutComments (chosen : Nat → Bool) (sql : String) :
    tokenize (withoutComments chosen sql) = tokenize sql ∧
      Summary.ofQuery (withoutComments chosen sql) = Summary.ofQuery sql := by
  have htokens : tokenize (withoutComments chosen sql) = tokenize sql := by
    have hs : Lexeme.list (([] : List Lexeme).flatMap Lexeme.text ++
        (Lexeme.list sql.toList).flatMap Lexeme.text) = [] ++ Lexeme.list sql.toList := by
      rw [Lexeme.flatMap_text_list]
      rfl
    rw [tokenize_eq, withoutComments, String.toList_ofList]
    exact Lexeme.tokens_textWithout hs
  exact ⟨htokens, by rw [Summary.ofQuery, Summary.ofQuery, htokens]⟩

/-- Of the three pieces that look like comments one is inside another and one inside a string. -/
example : withoutComments (fun _ => true) "a/* ' -- */b '-- ;'" = "a\nb '-- ;'" := by decide

end QueryLabel
