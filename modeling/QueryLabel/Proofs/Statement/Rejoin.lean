import QueryLabel.Proofs.Lexeme.Newline
import QueryLabel.Proofs.Statement.Split

/-! Statements joined again. Between semicolons on lines of their own the statements of a script
are found again, each as it was, whatever one of them leaves open. -/

namespace QueryLabel.Statement
open Charset
open Lexeme (list Apart)

variable {a b u v : List Char} {c : Char} {sep : Lexeme} {as ls us vs xs ys : List Lexeme}
  {st sql : String} {sts : List String}

/-- A text that is one statement: it is trimmed and holds tokens, but no semicolon among them. -/
structure Single (st : String) : Prop where
  ends : ∀ c, c ∈ st.toList.head? ∨ c ∈ st.toList.getLast? → isBlank c = false
  tokens : tokenize st ≠ []
  terminator : ∀ t ∈ tokenize st, t.isOperator ";" = false

/-- Statements one behind the other. What one of them leaves open, none of those behind it closes;
of the last one nothing is asked, so it may be an open string. -/
inductive Separable : List String → Prop
  | nil : Separable []
  | cons {st : String} {sts : List String} (hs : Single st)
      (ha : sts ≠ [] → Apart (list st.toList) (';' :: '\n' :: ("\n;\n".intercalate sts).toList))
      (h : Separable sts) : Separable (st :: sts)

theorem Single.exists_cons (h : Single st) : ∃ c t, st.toList = c :: t ∧ isBlank c = false := by
  cases hst : st.toList with
  | nil => exact absurd (by rw [tokenize_eq, hst]; rfl) h.tokens
  | cons c t => exact ⟨c, t, rfl, h.ends c (.inl (by rw [hst]; rfl))⟩

theorem toList_intercalate_cons (hne : sts ≠ []) : ("\n;\n".intercalate (st :: sts)).toList =
    st.toList ++ '\n' :: ';' :: '\n' :: ("\n;\n".intercalate sts).toList := by
  obtain ⟨st', sts, rfl⟩ := List.exists_cons_of_ne_nil hne
  rw [String.intercalate_cons_cons, String.toList_append, String.toList_append, List.append_assoc]
  rfl

theorem mem_intercalate (h : c ∈ ("\n;\n".intercalate sts).toList) :
    c = '\n' ∨ c = ';' ∨ ∃ st ∈ sts, c ∈ st.toList := by
  induction sts with
  | nil => exact absurd h List.not_mem_nil
  | cons st sts ih =>
    by_cases hne : sts = []
    · subst hne
      rw [String.intercalate_singleton] at h
      exact .inr (.inr ⟨st, List.mem_cons_self, h⟩)
    · rw [toList_intercalate_cons hne] at h
      simp only [List.mem_append, List.mem_cons] at h
      rcases h with h | h | h | h | h
      · exact .inr (.inr ⟨st, List.mem_cons_self, h⟩)
      · exact .inl h
      · exact .inr (.inl h)
      · exact .inl h
      · refine (ih h).imp_right (Or.imp_right ?_)
        rintro ⟨st', hm, hc⟩
        exact ⟨st', List.mem_cons_of_mem st hm, hc⟩

/-- No comment is closed by joining statements that close none. -/
theorem commentEnd_intercalate (h : ∀ st ∈ sts, Rule.commentEnd st.toList = 0) :
    Rule.commentEnd ("\n;\n".intercalate sts).toList = 0 := by
  induction sts with
  | nil => rfl
  | cons st sts ih =>
    have hst := h st List.mem_cons_self
    by_cases hne : sts = []
    · subst hne
      rwa [String.intercalate_singleton]
    · have hrest := ih fun st' hm => h st' (List.mem_cons_of_mem st hm)
      rw [toList_intercalate_cons hne]
      exact Rule.commentEnd_append_newline hst
        (Rule.commentEnd_append_newline (a := [';']) rfl hrest)

theorem segments_of_forall (h : ∀ l ∈ ls, l.isTerminator = false) :
    segments ls = if ls.any (·.token?.isSome) then [ls] else [] := by
  rw [segments, List.splitOnP_eq_singleton h, List.filter_singleton, Bool.cond_eq_ite]

theorem segments_append_cons (hsep : sep.isTerminator) :
    segments (xs ++ sep :: ys) = segments xs ++ segments ys := by
  rw [segments, List.splitOnP_append_cons _ _ hsep, List.filter_append]
  rfl

/-- A line break that belongs to no token. -/
def newline : Lexeme :=
  ⟨.blank, ['\n']⟩

/-- The semicolon between two statements. -/
def semicolon : Lexeme :=
  ⟨.token .operator, [';']⟩

theorem list_newline (h : Rule.heads isBlank b = false) : list ('\n' :: b) = newline :: list b := by
  apply Lexeme.list_of_measure_one
  have hb : Rule.run isBlank b = 0 := Rule.run_eq_zero_iff.2 h
  rw [Lexeme.measure_blank rfl, Rule.blank, Rule.run_cons, hb]
  rfl

theorem list_semicolon : list (';' :: b) = semicolon :: list b := by
  apply Lexeme.list_of_measure_one
  exact Lexeme.measure_loneOperator (by decide) (by simp [Rule.comment_cons])

/-- A statement is read before a semicolon on the next line as it is read alone. -/
theorem list_append_semicolon (h : Apart (list st.toList) (';' :: '\n' :: b)) (hs : Single st)
    (hb : Rule.heads isBlank b = false) : list (st.toList ++ '\n' :: ';' :: '\n' :: b) =
      list st.toList ++ newline :: semicolon :: newline :: list b := by
  obtain ⟨ls, z, hz, hla, hlb⟩ := Lexeme.exists_list_append_newline h
  -- a trimmed text has no blanks at its end that the line break could be taken together with
  have hnil : z = [] := by
    by_contra hne
    have hst : st.toList = ls.flatMap Lexeme.text ++ z := by
      rw [← Lexeme.flatMap_text_list (s := st.toList), hla, List.flatMap_append,
        Lexeme.flatMap_text_list]
    have hlast : z.getLast hne ∈ st.toList.getLast? := by
      rw [hst, List.getLast?_append_of_ne_nil _ hne]
      exact List.getLast?_eq_some_getLast hne
    have := hs.ends _ (.inr hlast)
    exact Bool.noConfusion ((hz _ (List.getLast_mem hne)).symm.trans this)
  rw [hnil, Lexeme.list_nil, List.append_nil] at hla
  rw [hlb, hnil, hla, List.nil_append, list_newline rfl, list_semicolon, list_newline hb]

/-- A statement among line breaks is one segment. -/
theorem segments_single (h : Single st) (hu : ∀ l ∈ us, l = newline) (hv : ∀ l ∈ vs, l = newline) :
    (segments (us ++ (list st.toList ++ vs))).map text = [st] := by
  have hterm : ∀ l ∈ us ++ (list st.toList ++ vs), l.isTerminator = false := by
    intro l hl
    simp only [List.mem_append] at hl
    rcases hl with hl | hl | hl
    · rw [hu l hl]
      rfl
    · rw [isTerminator_eq]
      cases ht : l.token? with
      | none => rfl
      | some t => exact h.terminator t (List.mem_filterMap.2 ⟨l, hl, ht⟩)
    · rw [hv l hl]
      rfl
  have htoken : (us ++ (list st.toList ++ vs)).any (·.token?.isSome) := by
    obtain ⟨t, ht⟩ := List.exists_mem_of_ne_nil _ h.tokens
    obtain ⟨l, hl, hlt⟩ := List.mem_filterMap.1 ht
    have hmem : l ∈ us ++ (list st.toList ++ vs) :=
      List.mem_append_right _ (List.mem_append_left _ hl)
    exact List.any_eq_true.2 ⟨l, hmem, by rw [hlt]; rfl⟩
  have hblank (ls : List Lexeme) (hl : ∀ l ∈ ls, l = newline) :
      ∀ c ∈ ls.flatMap Lexeme.text, isBlank c := by
    intro c hc
    obtain ⟨l, hm, hc⟩ := List.mem_flatMap.1 hc
    rw [hl l hm] at hc
    obtain rfl := List.mem_singleton.1 hc
    rfl
  rw [segments_of_forall hterm, if_pos htoken, List.map_singleton, text, List.flatMap_append,
    List.flatMap_append, Lexeme.flatMap_text_list,
    trim_append (hblank us hu) (hblank vs hv) h.ends, String.ofList_toList]

theorem Separable.not_heads_blank (h : Separable sts) :
    Rule.heads isBlank ("\n;\n".intercalate sts).toList = false := by
  cases h with
  | nil => rfl
  | @cons st sts hs _ _ =>
    obtain ⟨c, t, ht, hc⟩ := hs.exists_cons
    by_cases hne : sts = []
    · rw [hne, String.intercalate_singleton, ht, Rule.heads_cons, hc]
    · rw [toList_intercalate_cons hne, ht, List.cons_append, Rule.heads_cons, hc]

/-- Statements that are joined are the statements of the whole, also behind a line break. -/
theorem segments_intercalate (h : Separable sts) (hu : ∀ l ∈ us, l = newline) :
    (segments (us ++ list ("\n;\n".intercalate sts).toList)).map text = sts := by
  induction h generalizing us with
  | nil =>
    have hterm : ∀ l ∈ us, l.isTerminator = false := fun l hl => by rw [hu l hl]; rfl
    have hnone : ¬ us.any (·.token?.isSome) := by
      rw [List.any_eq_true]
      rintro ⟨l, hl, hsome⟩
      rw [hu l hl] at hsome
      exact Bool.noConfusion hsome
    rw [show list ("\n;\n".intercalate []).toList = [] from rfl, List.append_nil,
      segments_of_forall hterm, if_neg hnone, List.map_nil]
  | @cons st sts hs ha h ih =>
    by_cases hne : sts = []
    · rw [hne, String.intercalate_singleton, ← List.append_nil (list st.toList)]
      exact segments_single hs hu fun l hl => absurd hl List.not_mem_nil
    · have hnl : ∀ l ∈ [newline], l = newline := fun l hl => List.mem_singleton.1 hl
      -- the line break behind the semicolon comes to stand before the next statement
      have hlist : us ++ (list st.toList ++ newline :: semicolon :: newline ::
          list ("\n;\n".intercalate sts).toList) = (us ++ (list st.toList ++ [newline])) ++
            semicolon :: ([newline] ++ list ("\n;\n".intercalate sts).toList) := by simp
      rw [toList_intercalate_cons hne, list_append_semicolon (ha hne) hs h.not_heads_blank, hlist,
        segments_append_cons rfl, List.map_append, segments_single hs hu hnl, ih hnl]
      rfl

theorem single_text (hs : list (xs.flatMap Lexeme.text) = xs)
    (hp : ∀ l ∈ xs, l.isTerminator = false) (ht : xs.any (·.token?.isSome)) : Single (text xs) := by
  have htokens : tokenize (text xs) = (xs.filterMap Lexeme.token?).map Token.shorn := by
    rw [tokenize_eq, text, String.toList_ofList, Lexeme.tokens_trim, Lexeme.tokens, hs]
  constructor
  · intro c hc
    rw [text, String.toList_ofList] at hc
    exact not_isBlank_of_trim hc
  · obtain ⟨l, hl, hsome⟩ := List.any_eq_true.1 ht
    obtain ⟨t, hlt⟩ := Option.isSome_iff_exists.1 hsome
    rw [htokens]
    exact List.ne_nil_of_mem (List.mem_map_of_mem (List.mem_filterMap.2 ⟨l, hl, hlt⟩))
  · intro t hm
    rw [htokens] at hm
    obtain ⟨t, hseg, rfl⟩ := List.mem_map.1 hm
    obtain ⟨l, hl, hlt⟩ := List.mem_filterMap.1 hseg
    have hterm := hp l hl
    rw [isTerminator_eq, hlt] at hterm
    refine Bool.eq_false_iff.2 fun ho => ?_
    have hkind : t.kind = .operator := by rw [← t.kind_shorn, Token.isOperator_iff.1 ho]
    have hclosed : t.isOpen = false := by simp [Token.isOpen, hkind]
    rw [Token.shorn_of_not_isOpen hclosed] at ho
    exact Bool.noConfusion (ho.symm.trans hterm)

/-- What a statement leaves open is not closed by those behind it, for then it would have been
closed in the script. -/
theorem apart_text (hs : list a = as ++ (xs ++ sep :: ys))
    (hxs : list (xs.flatMap Lexeme.text) = xs) :
    Apart (list (text xs).toList)
      (';' :: '\n' :: ("\n;\n".intercalate ((segments ys).map text)).toList) := by
  have hrest := Lexeme.list_flatMap_text hs
  have hpart : ∀ st ∈ (segments ys).map text,
      st.toList <:+: (sep :: ys).flatMap Lexeme.text := by
    intro st hst
    rw [List.flatMap_cons]
    exact (infix_of_mem_segments hst).trans (List.suffix_append _ _).isInfix
  have hapart : Apart xs
      (';' :: '\n' :: ("\n;\n".intercalate ((segments ys).map text)).toList) := by
    refine (Lexeme.apart_of_list hrest (List.cons_ne_nil sep ys)).mono ?_ ?_
    · intro p hp hm
      obtain ⟨hnl, hsemi⟩ := Lexeme.ne_of_mem_quotePairs hp
      have hj := (List.mem_cons.1 ((List.mem_cons.1 hm).resolve_left hsemi)).resolve_left hnl
      obtain ⟨st, hst, hc⟩ := ((mem_intercalate hj).resolve_left hnl).resolve_left hsemi
      exact (hpart st hst).subset hc
    · intro hz
      have hj := commentEnd_intercalate fun st hst => Rule.commentEnd_of_infix hz (hpart st hst)
      exact Rule.commentEnd_append_newline (a := [';']) rfl hj
  rw [text, String.toList_ofList]
  apply Apart.trim
  rwa [hxs]

theorem separable_segments (hs : list a = as ++ ls) : Separable ((segments ls).map text) := by
  induction ls using split_induction (p := Lexeme.isTerminator) generalizing as with
  | last xs hp =>
    rw [segments_of_forall hp]
    split
    · next ht =>
      have hxs : list (xs.flatMap Lexeme.text) = xs := by
        rw [← List.append_nil xs] at hs
        exact list_of_part hs fun b hb => absurd hb (Option.not_mem_none b)
      exact .cons (single_text hxs hp ht) (fun h => absurd rfl h) .nil
    · exact .nil
  | next xs sep ys hp hsep ih =>
    have hback : list a = (as ++ xs ++ [sep]) ++ ys := by simpa using hs
    have hys := ih hback
    rw [segments_append_cons hsep, segments_of_forall hp, List.map_append]
    split
    · next ht =>
      have hxs : list (xs.flatMap Lexeme.text) = xs :=
        list_of_part hs fun b hb => by rwa [← Option.some.inj hb]
      exact .cons (single_text hxs hp ht) (fun _ => apart_text hs hxs) hys
    · exact hys

theorem Separable.single (h : Separable sts) (hst : st ∈ sts) : Single st := by
  induction h with
  | nil => exact absurd hst List.not_mem_nil
  | cons hs _ _ ih =>
    rcases List.mem_cons.1 hst with rfl | hst
    · exact hs
    · exact ih hst

/-- The statements of a script are found again when they are joined, and each is the only statement
of its own text. -/
theorem split_rejoined (sql : String) : split ("\n;\n".intercalate (split sql)) = split sql ∧
    ∀ st ∈ split sql, split st = [st] := by
  have hs : list sql.toList = [] ++ list sql.toList := rfl
  have h : Separable (split sql) := separable_segments hs
  have hnil : ∀ l ∈ ([] : List Lexeme), l = newline := fun l hl => absurd hl List.not_mem_nil
  constructor
  · have hjoined := segments_intercalate h hnil
    rwa [List.nil_append] at hjoined
  · intro st hst
    have halone := segments_single (h.single hst) hnil hnil
    rwa [List.nil_append, List.append_nil] at halone

/-- Statements that leave a quote, a bracket, a block comment, a line comment and a string open, and
a segment that is a comment only. -/
theorem split_rejoined_unclosed :
    let script := "a \"b; -- c;\n; [d; /*; e -- f;\n; 'g; \t"
    let statement := "e -- f;"
    split script = ["a \"b", "[d", "/*", statement, "'g;"] ∧
      split ("\n;\n".intercalate (split script)) = split script ∧
      split statement = [statement] := by
  intro script statement
  have hsplit : split script = ["a \"b", "[d", "/*", statement, "'g;"] := by decide +kernel
  obtain ⟨hrejoined, heach⟩ := split_rejoined script
  exact ⟨hsplit, hrejoined, heach statement (by simp [hsplit])⟩

end QueryLabel.Statement
