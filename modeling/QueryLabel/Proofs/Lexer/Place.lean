import QueryLabel.Lexer
import Mathlib.Data.String.Basic

/-! Places of tokens in a text: which bytes stand before a token and which behind it. -/

namespace QueryLabel

variable {offset i : Nat} {ls ms : List Lexeme} {sql : String} {x : Spanned} {a b c : List Char}

theorem Lexeme.size_eq {l : Lexeme} : l.size = String.utf8Len l.text := by
  unfold size
  induction l.text with
  | nil => rfl
  | cons c s ih => rw [List.foldr_cons, ih, String.utf8Len_cons, Nat.add_comm]

/-- The tokens of later pieces stand behind the bytes of the earlier ones. -/
theorem Lexer.spannedFrom_append : spannedFrom offset (ls ++ ms) =
    spannedFrom offset ls ++ spannedFrom (offset + String.utf8Len (ls.flatMap Lexeme.text)) ms := by
  induction ls generalizing offset with
  | nil => rfl
  | cons l ls ih =>
    rw [List.flatMap_cons, String.utf8Len_append, ← Lexeme.size_eq, ← Nat.add_assoc]
    cases ht : l.token? <;> simp [spannedFrom, ht, ih]

/-- A token stands behind the pieces that are read before it. -/
theorem Lexer.exists_of_getElem?_spannedFrom (h : (spannedFrom offset ls)[i]? = some x) :
    ∃ as l bs, ls = as ++ l :: bs ∧ l.token? = some x.token ∧
      (as.filterMap Lexeme.token?).length = i ∧
      x.start = offset + String.utf8Len (as.flatMap Lexeme.text) ∧
      x.stop = x.start + String.utf8Len l.text := by
  induction ls generalizing offset i with
  | nil => simp [spannedFrom] at h
  | cons l ls ih =>
    rw [spannedFrom] at h
    cases ht : l.token? with
    | none =>
      simp only [ht] at h
      obtain ⟨as, m, bs, rfl, hm, hi, hs, he⟩ := ih h
      exact ⟨l :: as, m, bs, rfl, hm, by simpa [ht] using hi,
        by rw [hs, List.flatMap_cons, String.utf8Len_append, Lexeme.size_eq]; omega, he⟩
    | some t =>
      simp only [ht] at h
      cases i with
      | zero =>
        obtain rfl : ⟨t, offset, offset + l.size⟩ = x := by simpa using h
        exact ⟨[], l, ls, rfl, ht, rfl, rfl, by rw [Lexeme.size_eq]⟩
      | succ i =>
        obtain ⟨as, m, bs, rfl, hm, hi, hs, he⟩ := ih (by simpa using h)
        exact ⟨l :: as, m, bs, rfl, hm, by simpa [ht] using hi,
          by rw [hs, List.flatMap_cons, String.utf8Len_append, Lexeme.size_eq]; omega, he⟩

theorem exists_of_getElem?_spanned (h : (spanned sql)[i]? = some x) :
    ∃ as l bs, Lexeme.list sql.toList = as ++ l :: bs ∧ l.token? = some x.token ∧
      (as.filterMap Lexeme.token?).length = i ∧
      x.start = String.utf8Len (as.flatMap Lexeme.text) ∧
      x.stop = x.start + String.utf8Len l.text := by
  obtain ⟨as, l, bs, hl, ht, hi, hs, he⟩ := Lexer.exists_of_getElem?_spannedFrom h
  exact ⟨as, l, bs, hl, ht, hi, hs.trans (Nat.zero_add _), he⟩

theorem getElem?_tokenize (h : (spanned sql)[i]? = some x) : (tokenize sql)[i]? = some x.token := by
  change (Lexer.ofString sql).tokens[i]? = _
  rw [← Lexer.map_token_spanned, List.getElem?_map]
  exact congrArg (Option.map Spanned.token) h

/-- The text with another piece in the place of a token. -/
def Spanned.replace (x : Spanned) (sql piece : String) : String :=
  String.Pos.Raw.extract sql 0 ⟨x.start⟩ ++ piece ++
    String.Pos.Raw.extract sql ⟨x.stop⟩ sql.rawEndPos

theorem Spanned.toList_replace (piece : String) (hs : sql.toList = a ++ b ++ c)
    (ha : x.start = String.utf8Len a) (hb : x.stop = x.start + String.utf8Len b) :
    (x.replace sql piece).toList = a ++ piece.toList ++ c := by
  obtain rfl : sql = String.ofList (a ++ b ++ c) := by rw [← hs, String.ofList_toList]
  have hpre := String.extract_of_valid [] a (b ++ c)
  have hpost := String.extract_of_valid (a ++ b) c []
  rw [replace, hb, ha]
  simp only [List.nil_append, List.append_nil, String.utf8Len_nil, Nat.zero_add,
    String.utf8Len_append, ← List.append_assoc] at hpre hpost
  simp only [String.rawEndPos_ofList, String.utf8Len_append, String.toList_append]
  rw [hpost, show (0 : String.Pos.Raw) = ⟨0⟩ from rfl, hpre]
  simp

end QueryLabel
