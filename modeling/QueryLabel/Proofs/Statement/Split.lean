import QueryLabel.Statement
import QueryLabel.Proofs.Lexeme.Trim
import QueryLabel.Proofs.Lexer.Place
import QueryLabel.Proofs.Summary.Literal

/-! Statements on their own. A statement that is cut out of a script and trimmed reads as it did
inside the script. -/

namespace QueryLabel.Statement
open Charset

variable {α β : Type} {p : α → Bool} {xs : List α} {sql st : String} {ls seg : List Lexeme}

/-- A list has no separator, or falls into what stands before its first one and what follows. -/
theorem split_induction {motive : List α → Prop}
    (last : ∀ xs, (∀ x ∈ xs, p x = false) → motive xs)
    (next : ∀ xs sep ys, (∀ x ∈ xs, p x = false) → p sep → motive ys → motive (xs ++ sep :: ys))
    (xs : List α) : motive xs := by
  induction hn : xs.length using Nat.strongRecOn generalizing xs with
  | _ n ih =>
    have htake : ∀ x ∈ xs.takeWhile (!p ·), p x = false := by
      intro x hx
      simpa using List.mem_takeWhile_imp hx
    rw [← List.takeWhile_append_dropWhile (p := (!p ·)) (l := xs)]
    cases hd : xs.dropWhile (!p ·) with
    | nil => exact last _ (by simpa using htake)
    | cons sep ys =>
      have hsep : p sep := by
        have := List.head?_dropWhile_not (!p ·) xs
        simpa [hd] using this
      have hlen : ys.length < n := by
        have := List.length_dropWhile_le (!p ·) xs
        rw [hd, List.length_cons] at this
        omega
      exact next _ sep ys htake hsep (ih _ hlen ys rfl)

/-- A part between separators, with what stands around it. -/
theorem exists_of_mem_splitOnP {ys : List α} (h : ys ∈ xs.splitOnP p) :
    ∃ as bs, xs = as ++ (ys ++ bs) ∧ ∀ b ∈ bs.head?, p b := by
  induction xs using split_induction (p := p) with
  | last xs hp =>
    rw [List.splitOnP_eq_singleton hp, List.mem_singleton] at h
    exact ⟨[], [], by simp [h], by simp⟩
  | next xs sep zs hp hsep ih =>
    rw [List.splitOnP_append_cons_of_forall_mem hp sep hsep] at h
    rcases List.mem_cons.1 h with rfl | h
    · exact ⟨[], sep :: zs, rfl, by simpa using hsep⟩
    · obtain ⟨as, bs, rfl, hb⟩ := ih h
      exact ⟨xs ++ sep :: as, bs, by simp, hb⟩

theorem splitOnP_filterMap {f : α → Option β} {q : β → Bool} (h : ∀ x, p x = (f x).any q) :
    (xs.filterMap f).splitOnP q = (xs.splitOnP p).map (List.filterMap f) := by
  have hq (zs : List α) (hz : ∀ x ∈ zs, p x = false) : ∀ y ∈ zs.filterMap f, q y = false := by
    intro y hy
    obtain ⟨x, hx, hxy⟩ := List.mem_filterMap.1 hy
    simpa [h, hxy] using hz x hx
  induction xs using split_induction (p := p) with
  | last xs hp =>
    rw [List.splitOnP_eq_singleton hp, List.splitOnP_eq_singleton (hq xs hp), List.map_singleton]
  | next xs sep ys hp hsep ih =>
    obtain ⟨y, hy, hyq⟩ : ∃ y, f sep = some y ∧ q y := by
      simpa [h, Option.any_eq_true] using hsep
    rw [List.splitOnP_append_cons_of_forall_mem hp sep hsep, List.filterMap_append,
      List.filterMap_cons_some hy, List.splitOnP_append_cons_of_forall_mem (hq xs hp) y hyq, ih,
      List.map_cons]

/-- The tokens of a text between its semicolons, as far as there are any. -/
def tokenSegments (sql : String) : List (List Token) :=
  ((tokenize sql).splitOnP (·.isOperator ";")).filter (!·.isEmpty)

theorem isTerminator_eq (l : Lexeme) : l.isTerminator = l.token?.any (·.isOperator ";") := by
  obtain ⟨role, text⟩ := l
  cases role with
  | token kind =>
    have ht : (String.ofList text == ";") = (text == [';']) := by
      rw [Bool.eq_iff_iff, beq_iff_eq, beq_iff_eq, ← String.toList_inj, String.toList_ofList]
      rfl
    have hk : (Role.token kind == .token .operator) = (kind == .operator) := by cases kind <;> rfl
    simp [Lexeme.isTerminator, Lexeme.token?, Token.isOperator, ht, hk]
  | blank => rfl
  | comment => rfl
  | unknown => rfl

/-- Both ways of telling the segments, by pieces and by tokens, agree. -/
theorem map_segments : (segments ls).map (List.filterMap Lexeme.token?) =
    ((ls.filterMap Lexeme.token?).splitOnP (·.isOperator ";")).filter (!·.isEmpty) := by
  rw [splitOnP_filterMap isTerminator_eq, List.filter_map, segments]
  congr 2
  funext seg
  induction seg with
  | nil => rfl
  | cons l seg ih => cases h : l.token? <;> simp_all

/-- A part before a semicolon falls into the same pieces when nothing stands around it. -/
theorem list_of_part {cs : List Char} {as bs : List Lexeme}
    (hs : Lexeme.list cs = as ++ (seg ++ bs)) (hb : ∀ b ∈ bs.head?, b.isTerminator) :
    Lexeme.list (seg.flatMap Lexeme.text) = seg := by
  have hseg := Lexeme.list_flatMap_text hs
  cases bs with
  | nil => simpa using hseg
  | cons b bs =>
    have hbt : b.text = [';'] := by
      have := hb b rfl
      simp only [Lexeme.isTerminator, Bool.and_eq_true, beq_iff_eq] at this
      exact this.2
    have hn : Rule.Narrows ((b :: bs).flatMap Lexeme.text) [] := by
      apply Rule.narrows_nil
      have hword : isWord ';' = false := by decide
      simp [hbt, Keyword.endsWord, hword]
    simpa [Lexeme.list_nil] using Lexeme.list_exchange hseg hn

theorem list_of_mem_segments (h : seg ∈ segments (Lexeme.list sql.toList)) :
    Lexeme.list (seg.flatMap Lexeme.text) = seg := by
  obtain ⟨as, bs, hs, hb⟩ := exists_of_mem_splitOnP (List.mem_filter.1 h).1
  exact list_of_part hs hb

theorem map_tokenize_split (sql : String) :
    (split sql).map tokenize = (tokenSegments sql).map (·.map Token.shorn) := by
  have htokens : tokenSegments sql =
      (segments (Lexeme.list sql.toList)).map (List.filterMap Lexeme.token?) :=
    map_segments.symm
  rw [htokens, split, List.map_map, List.map_map]
  apply List.map_congr_left
  intro seg hseg
  simp only [Function.comp, tokenize_eq, text, String.toList_ofList]
  rw [Lexeme.tokens_trim, Lexeme.tokens, list_of_mem_segments hseg]

theorem infix_of_mem_segments (h : st ∈ (segments ls).map text) :
    st.toList <:+: ls.flatMap Lexeme.text := by
  obtain ⟨seg, hseg, rfl⟩ := List.mem_map.1 h
  obtain ⟨as, bs, hs, _⟩ := exists_of_mem_splitOnP (List.mem_filter.1 hseg).1
  have hpart : seg.flatMap Lexeme.text <:+: ls.flatMap Lexeme.text := by
    rw [hs]
    exact ⟨as.flatMap Lexeme.text, bs.flatMap Lexeme.text, by simp⟩
  rw [text, String.toList_ofList]
  exact trim_infix.trans hpart

theorem infix_of_mem_split (h : st ∈ split sql) : st.toList <:+: sql.toList := by
  have := infix_of_mem_segments h
  rwa [Lexeme.flatMap_text_list] at this

theorem not_isBlank_of_mem_split {c : Char} (h : st ∈ split sql)
    (hc : c ∈ st.toList.head? ∨ c ∈ st.toList.getLast?) : isBlank c = false := by
  obtain ⟨seg, -, rfl⟩ := List.mem_map.1 h
  rw [text, String.toList_ofList] at hc
  exact not_isBlank_of_trim hc

/-- The token of a string that nothing closes is the last one, and it ends where the text does. -/
theorem stop_of_isOpen {x : Spanned} (hx : x ∈ spanned sql) (ho : x.token.isOpen) :
    x.stop = sql.utf8ByteSize ∧ (spanned sql).getLast? = some x := by
  obtain ⟨i, hi⟩ := List.mem_iff_getElem?.1 hx
  obtain ⟨as, l, bs, hls, ht, has, hstart, hstop⟩ := exists_of_getElem?_spanned hi
  obtain rfl := Lexeme.eq_nil_of_isOpen hls ht ho
  constructor
  · rw [hstop, hstart, ← String.utf8Len_toList, ← Lexeme.flatMap_text_list (s := sql.toList), hls]
    simp
  · have hlen : (spanned sql).length = i + 1 := by
      rw [spanned, ← List.length_map Spanned.token, Lexer.map_token_spanned]
      change ((Lexeme.list sql.toList).filterMap Lexeme.token?).length = i + 1
      rw [hls, List.filterMap_append, List.length_append, has, List.filterMap_cons_some ht]
      rfl
    rw [List.getLast?_eq_getElem?, hlen]
    exact hi

theorem alike_shorn (t : Token) : t.Alike t.shorn := by
  unfold Token.shorn
  split
  · next h =>
    apply Token.Alike.literal
    simp only [Token.isOpen, Bool.and_eq_true, beq_iff_eq] at h
    exact Token.isLiteral_iff.2 (.inl h.1)
  · exact .refl t

theorem map_ofQuery_split :
    (split sql).map Summary.ofQuery = (tokenSegments sql).map Summary.ofTokens := by
  have h := congrArg (List.map Summary.ofTokens) (map_tokenize_split sql)
  rw [List.map_map, List.map_map] at h
  apply h.trans
  apply List.map_congr_left
  intro seg _
  apply Summary.ofTokens_alike
  rw [List.forall₂_map_right_iff]
  exact List.forall₂_same.2 fun t _ => alike_shorn t

/-- Each statement reads as the segment of tokens that it stems from, except that a string which
nothing closes, and which therefore ends the script, loses the blanks at its end. -/
theorem split_agrees (sql : String) :
    (split sql).map tokenize = (tokenSegments sql).map (·.map Token.shorn) ∧
    (split sql).map Summary.ofQuery = (tokenSegments sql).map Summary.ofTokens ∧
    (∀ st ∈ split sql, st.toList <:+: sql.toList ∧
      ∀ c, c ∈ st.toList.head? ∨ c ∈ st.toList.getLast? → isBlank c = false) ∧
    ∀ x ∈ spanned sql, x.token.isOpen →
      x.stop = sql.utf8ByteSize ∧ (spanned sql).getLast? = some x := by
  refine ⟨map_tokenize_split sql, map_ofQuery_split, ?_, ?_⟩
  · intro st hst
    exact ⟨infix_of_mem_split hst, fun c hc => not_isBlank_of_mem_split hst hc⟩
  · intro x hx ho
    exact stop_of_isOpen hx ho

/-- A script with semicolons in a string, in comments and between no tokens, whose last string
nothing closes. -/
theorem split_agrees_unclosed :
    let script := "SELECT ';' -- a;\n ; /* b; */ ;\u00a0UPDATE t SET x = 'no; end \u00a0\n"
    let statement := "UPDATE t SET x = 'no; end"
    let last : Spanned := ⟨⟨.string, "'no; end \u00a0\n"⟩, 49, 61⟩
    split script = ["SELECT ';' -- a;", statement] ∧
    (split script).map tokenize = (tokenSegments script).map (·.map Token.shorn) ∧
    (split script).map Summary.ofQuery = (tokenSegments script).map Summary.ofTokens ∧
    (statement.toList <:+: script.toList ∧ isBlank 'U' = false ∧ isBlank 'd' = false) ∧
    last.stop = script.utf8ByteSize ∧ (spanned script).getLast? = some last := by
  intro script statement last
  obtain ⟨htokens, hsummary, hends, hopen⟩ := split_agrees script
  obtain ⟨hpart, hblank⟩ := hends statement (by decide)
  exact ⟨by decide, htokens, hsummary,
    ⟨hpart, hblank 'U' (by decide), hblank 'd' (by decide)⟩,
    hopen last (by decide) (by decide)⟩

end QueryLabel.Statement
