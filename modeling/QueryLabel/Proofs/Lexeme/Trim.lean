import QueryLabel.Lexer
import QueryLabel.Proofs.Charset.Trim
import QueryLabel.Proofs.Lexeme.Exchange
import QueryLabel.Proofs.Rule.Blank

/-! Trimming before reading. A text without the blanks at its ends has the same tokens, but that a
string which nothing closes ends sooner. -/

namespace QueryLabel

/-- A string that nothing closes: its quotes do not pair up. -/
def Token.isOpen (t : Token) : Bool :=
  t.kind == .string && t.text.toList.count '\'' % 2 == 1

/-- A string that nothing closes loses the blanks at its end. -/
def Token.shorn (t : Token) : Token :=
  if t.isOpen then ⟨t.kind, String.ofList (t.text.toList.rdropWhile Charset.isBlank)⟩ else t

theorem Token.shorn_of_not_isOpen {t : Token} (h : t.isOpen = false) : t.shorn = t := by
  rw [shorn, h]
  rfl

theorem Token.kind_shorn (t : Token) : t.shorn.kind = t.kind := by
  unfold shorn
  split <;> rfl

namespace Lexeme
open Rule Charset

variable {a s w : List Char} {l : Lexeme} {t : Token}
  {rules : List (Role × (List Char → Nat))}

/-- The tokens among the pieces of a text. -/
def tokens (s : List Char) : List Token :=
  (list s).filterMap token?

/-- What the first piece of `a` becomes before the blanks `w`. -/
inductive Widens (a w : List Char) : Role × Nat → Role × Nat → Prop
  | same {x : Role × Nat} (h : x.1 = .token .string → (a.take x.2).count '\'' % 2 = 0) :
      Widens a w x x
  | silent {role : Role} {n : Nat} (hr : role = .blank ∨ role = .comment) (hn : a.length < n) :
      Widens a w (role, a.length) (role, n)
  | string (h : a.count '\'' % 2 = 1) :
      Widens a w (.token .string, a.length) (.token .string, (a ++ w).length)

/-- What holds of each rule before two texts holds of the first one that applies. -/
theorem pick_rel {R : Role × Nat → Role × Nat → Prop} (h0 : R (.unknown, 1) (.unknown, 1))
    (hr : ∀ rule ∈ rules, (rule.2 a = 0 ↔ rule.2 s = 0) ∧
      (rule.2 a ≠ 0 → R (rule.1, rule.2 a) (rule.1, rule.2 s))) :
    R (pick rules a) (pick rules s) := by
  induction rules with
  | nil => exact h0
  | cons rule rules ih =>
    obtain ⟨hz, hn⟩ := hr rule List.mem_cons_self
    rw [pick_cons, pick_cons]
    by_cases ha : rule.2 a = 0
    · rw [if_pos ha, if_pos (hz.1 ha)]
      exact ih fun r hr' => hr r (List.mem_cons_of_mem _ hr')
    · rw [if_neg ha, if_neg (mt hz.2 ha)]
      exact hn ha

theorem widens_of_grows {role : Role} {f : List Char → Nat} (hr : role = .blank ∨ role = .comment)
    (ha : a ≠ []) (h : Grows f a w) : (f a = 0 ↔ f (a ++ w) = 0) ∧
      (f a ≠ 0 → Widens a w (role, f a) (role, f (a ++ w))) := by
  have hpos := List.length_pos_iff.2 ha
  rcases h with h | ⟨h, hlt⟩
  · rw [h]
    exact ⟨Iff.rfl, fun _ => .same fun hs => by rcases hr with rfl | rfl <;> simp at hs⟩
  · exact ⟨by omega, fun _ => h ▸ .silent hr hlt⟩

theorem widens_of_keeps {role : Role} {f : List Char → Nat} (hr : role ≠ .token .string)
    (hf : f a ≤ a.length) (h : Keeps f a [] w) : (f a = 0 ↔ f (a ++ w) = 0) ∧
      (f a ≠ 0 → Widens a w (role, f a) (role, f (a ++ w))) := by
  rw [h.of_nil hf]
  exact ⟨Iff.rfl, fun _ => .same fun hs => absurd hs hr⟩

variable (hw : ∀ c ∈ w, isBlank c)
include hw

theorem widens_string (ha : a ≠ []) : (string a = 0 ↔ string (a ++ w) = 0) ∧
    (string a ≠ 0 →
      Widens a w (.token .string, string a) (.token .string, string (a ++ w))) := by
  have hpos := List.length_pos_iff.2 ha
  rcases string_append_blank hw ha with ⟨h, hc⟩ | ⟨h, hl, hc⟩
  · rw [h]
    exact ⟨Iff.rfl, fun _ => .same fun _ => hc⟩
  · rw [h, hl, List.length_append]
    exact ⟨by omega, fun _ => List.length_append ▸ .string hc⟩

theorem measure_widens (ha : a ≠ []) : Widens a w (measure a) (measure (a ++ w)) := by
  have hs := severs_blank hw
  have hd := hs.toDetaches
  rw [measure_eq_pick, measure_eq_pick]
  refine pick_rel (.same (by simp)) ?_
  simp only [Rule.all, List.forall_mem_cons]
  exact ⟨widens_of_grows (.inl rfl) ha run_grows,
    widens_of_grows (.inr rfl) ha (comment_grows hw ha),
    widens_of_keeps (by simp) number_le (number_keeps hd ha),
    widens_string hw ha,
    widens_of_keeps (by simp) quotedName_le (quotedName_keeps hd hs.closing ha),
    widens_of_keeps (by simp) Keyword.length_le (Keyword.length_keeps hd hs.word),
    widens_of_keeps (by simp) name_le (name_keeps hd ha),
    widens_of_keeps (by simp) operator_le (operator_keeps hd ha), by simp⟩

omit hw in
theorem tokens_of_ne_nil (hs : s ≠ []) :
    tokens s = (first s).token?.toList ++ tokens (s.drop (measure s).2) := by
  rw [tokens, list_of_ne_nil hs, List.filterMap_cons]
  cases (first s).token? <;> rfl

omit hw in
theorem tokens_dropWhile : tokens (s.dropWhile isBlank) = tokens s := by
  have hd : s.drop (blank s) = s.dropWhile isBlank := drop_run
  rw [← hd]
  by_cases h : blank s = 0
  · rw [h, List.drop_zero]
  · have hs : s ≠ [] := by
      rintro rfl
      exact h rfl
    have hm : measure s = (.blank, blank s) := by
      rw [measure_eq_pick, Rule.all, pick_cons, if_neg h]
    have ht : (first s).token? = none := by
      rw [first, hm]
      rfl
    rw [tokens_of_ne_nil hs, ht, hm]
    rfl

theorem tokens_of_blank : tokens w = [] := by
  rw [← tokens_dropWhile, List.dropWhile_eq_nil_iff.2 hw]
  rfl

omit hw in
theorem isOpen_eq_false {role : Role} (ht : token? ⟨role, s⟩ = some t)
    (h : role = .token .string → s.count '\'' % 2 = 0) : t.isOpen = false := by
  obtain ⟨hr, htext⟩ := token?_eq_some_iff.1 ht
  simp only [Token.isOpen, Bool.and_eq_false_iff, htext, String.toList_ofList]
  by_cases hk : t.kind = .string
  · simp [h (hk ▸ hr)]
  · simp [hk]

theorem shorn_append_blank (hl : ∀ c ∈ a.getLast?, isBlank c = false)
    (h : a.count '\'' % 2 = 1) :
    Token.shorn ⟨.string, String.ofList (a ++ w)⟩ = ⟨.string, String.ofList a⟩ := by
  have ho : Token.isOpen ⟨.string, String.ofList (a ++ w)⟩ := by
    simp [Token.isOpen, List.count_eq_zero.2 (quote_not_mem_blank hw), h]
  rw [Token.shorn, if_pos ho, String.toList_ofList, rdropWhile_append_blank hw hl]

/-- What the last piece of a text becomes before the blanks `w`, if it goes on into them. -/
inductive Last (w : List Char) : List Lexeme → List Lexeme → Prop
  | none : Last w [] (list w)
  | silent {role : Role} {x y v : List Char} (hr : role = .blank ∨ role = .comment)
      (hv : ∀ c ∈ v, isBlank c) : Last w [⟨role, x⟩] (⟨role, y⟩ :: list v)
  | string {x : List Char} (h : x.count '\'' % 2 = 1) :
      Last w [⟨.token .string, x⟩] [⟨.token .string, x ++ w⟩]

/-- Blanks at the end of a text change no piece of it but the last one. -/
theorem exists_list_append_blank (a : List Char) : ∃ ls xs ys, list a = ls ++ xs ∧
    list (a ++ w) = ls ++ ys ∧ Last w xs ys ∧ ∀ t ∈ ls.filterMap token?, t.isOpen = false := by
  induction hn : a.length using Nat.strongRecOn generalizing a with
  | _ n ih =>
    by_cases ha : a = []
    · subst ha
      exact ⟨[], [], list w, rfl, rfl, .none, by simp⟩
    have haw : a ++ w ≠ [] := by simp [ha]
    have hp := measure_pos (s := a)
    have hle := measure_le ha
    have hm := measure_widens hw ha
    rw [list_of_ne_nil ha, list_of_ne_nil haw, first, first]
    generalize measure a = x at hm hp hle
    generalize measure (a ++ w) = y at hm
    cases hm with
    | same h =>
      obtain ⟨ls, xs, ys, hxs, hys, hlast, hclosed⟩ :=
        ih (a.drop x.2).length (by rw [List.length_drop]; omega) (a.drop x.2) rfl
      rw [List.take_append_of_le_length hle, List.drop_append_of_le_length hle, hxs, hys]
      refine ⟨⟨x.1, a.take x.2⟩ :: ls, xs, ys, rfl, rfl, hlast, ?_⟩
      intro t ht
      rcases List.mem_filterMap.1 ht with ⟨l, hl, hlt⟩
      rcases List.mem_cons.1 hl with rfl | hl
      · exact isOpen_eq_false hlt h
      · exact hclosed t (List.mem_filterMap.2 ⟨l, hl, hlt⟩)
    | @silent role n hr hn =>
      have hd : ∀ c ∈ (a ++ w).drop n, isBlank c := by
        intro c hc
        rw [List.drop_append, List.drop_eq_nil_of_le (by omega), List.nil_append] at hc
        exact hw c (List.mem_of_mem_drop hc)
      rw [List.take_length, List.drop_length]
      exact ⟨[], _, _, rfl, rfl, .silent hr hd, by simp⟩
    | string h =>
      rw [List.take_length, List.take_length, List.drop_length, List.drop_length]
      exact ⟨[], _, _, rfl, rfl, .string h, by simp⟩

/-- Blanks at the end of a text are no part of its tokens, but for a string that goes on there. -/
theorem tokens_append_blank (hl : ∀ c ∈ a.getLast?, isBlank c = false) :
    tokens a = (tokens (a ++ w)).map Token.shorn := by
  obtain ⟨ls, xs, ys, hxs, hys, hlast, hclosed⟩ := exists_list_append_blank hw a
  have hfront : (ls.filterMap token?).map Token.shorn = ls.filterMap token? := by
    rw [List.map_congr_left fun t ht => Token.shorn_of_not_isOpen (hclosed t ht), List.map_id']
  have hback : xs.filterMap token? = (ys.filterMap token?).map Token.shorn := by
    cases hlast with
    | none =>
      rw [show (list w).filterMap token? = [] from tokens_of_blank hw]
      rfl
    | @silent role x y v hr hv =>
      have htok (b : List Char) : token? ⟨role, b⟩ = none := by
        rcases hr with rfl | rfl <;> rfl
      rw [List.filterMap_cons_none (htok x), List.filterMap_cons_none (htok y),
        show (list v).filterMap token? = [] from tokens_of_blank hv]
      rfl
    | @string x h =>
      have hx : ∀ c ∈ x.getLast?, isBlank c = false := by
        intro c hc
        apply hl c
        rw [← flatMap_text_list (s := a), hxs]
        simp_all
      exact congrArg (· :: []) (shorn_append_blank hw hx h).symm
  rw [tokens, tokens, hxs, hys, List.filterMap_append, List.filterMap_append, List.map_append,
    hfront, hback]

omit hw in
theorem tokens_trim : tokens (trim s) = (tokens s).map Token.shorn := by
  obtain ⟨w, hw, hs⟩ := exists_dropWhile_eq_trim_append s
  rw [tokens_append_blank hw fun c hc => not_isBlank_of_trim (.inr hc), ← hs, tokens_dropWhile]

omit hw in
/-- Nothing follows a string that nothing closes. -/
theorem eq_nil_of_isOpen {as bs : List Lexeme} (hs : list s = as ++ l :: bs)
    (ht : l.token? = some t) (ho : t.isOpen) : bs = [] := by
  obtain ⟨hr, htext⟩ := token?_eq_some_iff.1 ht
  obtain ⟨hk, hc⟩ : t.kind = .string ∧ l.text.count '\'' % 2 = 1 := by
    simpa [Token.isOpen, htext] using ho
  obtain ⟨hne, hm, r, hlr, hb⟩ := list_eq_cons (list_flatMap_text hs)
  rw [hr, hk] at hm
  have hn := (of_measure (r := (.token .string, string)) (by simp [Rule.all]) hm).1
  have hlen : l.text.length = ((l :: bs).flatMap text).length := by
    rcases string_append_blank (w := []) (by simp) hne with ⟨_, h⟩ | ⟨h, _, _⟩
    · rw [show string _ = _ from hn, hlr, List.take_left] at h
      omega
    · exact hn.symm.trans h
  have hr : r = [] := by
    rw [hlr, List.length_append] at hlen
    exact List.eq_nil_of_length_eq_zero (by omega)
  rw [← hb, hr, list_nil]

end Lexeme

theorem tokenize_eq (sql : String) : tokenize sql = Lexeme.tokens sql.toList := rfl

end QueryLabel
