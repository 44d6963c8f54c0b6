import QueryLabel.Proofs.Report.Text

/-! Styles add nothing to a report but their codes. Where every code is deleted, a report with
styles and one without are the same, whatever codes or parts of codes the summaries hold. -/

namespace QueryLabel.Report

namespace Style

variable {n : Nat} {c : Char} {s t u code : List Char} {style : Style} {styled : Bool}

/-- The codes that styles are made of. -/
def codes : List (List Char) :=
  [reset, bold.code, dim.code]

/-- Whether a text begins with a code. -/
def startsCode (s : List Char) : Bool :=
  codes.any (·.isPrefixOf s)

/-- A text with every code deleted. The first argument counts the characters of a code that are
still to be deleted. -/
def stripFrom : Nat → List Char → List Char
  | _, [] => []
  | 0, c :: s => if startsCode (c :: s) then stripFrom 3 s else c :: stripFrom 0 s
  | n + 1, _ :: s => stripFrom n s

/-- A text with every code deleted. -/
def strip (s : List Char) : List Char :=
  stripFrom 0 s

/-- What stood on either side of a code makes no new one. -/
example : strip ['\x1b', '\x1b', '[', '0', 'm', '[', '1', 'm'] = ['\x1b', '[', '1', 'm'] := by
  decide

theorem code_mem_codes (style : Style) : style.code ∈ codes := by
  cases style <;> decide

/-- An escape character begins a code, and none stands further on in it. -/
theorem exists_of_mem_codes (h : code ∈ codes) :
    ∃ t, code = '\x1b' :: t ∧ t.length = 3 ∧ '\x1b' ∉ t := by
  simp only [codes, List.mem_cons, List.not_mem_nil, or_false] at h
  rcases h with rfl | rfl | rfl
  · exact ⟨['[', '0', 'm'], rfl, rfl, by decide⟩
  · exact ⟨['[', '1', 'm'], rfl, rfl, by decide⟩
  · exact ⟨['[', '2', 'm'], rfl, rfl, by decide⟩

theorem startsCode_iff : startsCode s ↔ ∃ code ∈ codes, code <+: s := by
  simp [startsCode, List.any_eq_true]

theorem startsCode_eq_false_iff : startsCode s = false ↔ ∀ code ∈ codes, ¬ code <+: s := by
  rw [← Bool.not_eq_true, startsCode_iff]
  simp

/-- A text is read code by code, and where none begins, character by character. -/
theorem code_induction {motive : List Char → Prop} (nil : motive [])
    (code : ∀ code ∈ codes, ∀ s, motive s → motive (code ++ s))
    (other : ∀ c s, startsCode (c :: s) = false → motive s → motive (c :: s)) (s : List Char) :
    motive s := by
  induction h : s.length using Nat.strongRecOn generalizing s with
  | _ n ih =>
    cases s with
    | nil => exact nil
    | cons c s =>
      cases hstart : startsCode (c :: s) with
      | false => exact other c s hstart (ih s.length (by simp at h; omega) s rfl)
      | true =>
        obtain ⟨w, hw, t, ht⟩ := startsCode_iff.1 hstart
        rw [← ht]
        refine code w hw t (ih t.length ?_ t rfl)
        obtain ⟨u, rfl, -, -⟩ := exists_of_mem_codes hw
        rw [← h, ← ht, List.length_append, List.length_cons]
        omega

/-! ### Deleting codes -/

theorem strip_cons (h : startsCode (c :: s) = false) : strip (c :: s) = c :: strip s := by
  rw [strip, stripFrom, h]
  rfl

theorem strip_code_append (h : code ∈ codes) : strip (code ++ s) = strip s := by
  have hstart : startsCode (code ++ s) := startsCode_iff.2 ⟨code, h, List.prefix_append code s⟩
  obtain ⟨t, rfl, hlen, -⟩ := exists_of_mem_codes h
  obtain ⟨c, d, e, rfl⟩ := List.length_eq_three.1 hlen
  rw [List.cons_append] at hstart ⊢
  rw [strip, stripFrom, hstart]
  rfl

/-- A code that reaches over a border has the character behind the border among its later ones. -/
theorem startsCode_append_cons (hc : ∀ code ∈ codes, c ∉ code.tail) (hs : s ≠ []) :
    startsCode (s ++ c :: u) = startsCode s := by
  rw [Bool.eq_iff_iff, startsCode_iff, startsCode_iff]
  constructor
  · rintro ⟨code, hcode, hfront⟩
    refine ⟨code, hcode, ?_⟩
    by_contra hover
    have hborder : s ++ [c] <+: code := by
      have hsc : s ++ [c] <+: s ++ c :: u := ⟨u, by simp⟩
      apply List.prefix_of_prefix_length_le hsc hfront
      by_contra hlen
      apply hover
      apply List.prefix_of_prefix_length_le hfront (List.prefix_append s _)
      rw [List.length_append, List.length_singleton] at hlen
      omega
    obtain ⟨t, rfl⟩ := hborder
    obtain ⟨d, s, rfl⟩ := List.exists_cons_of_ne_nil hs
    exact hc _ hcode (by simp)
  · rintro ⟨code, hcode, hfront⟩
    exact ⟨code, hcode, hfront.trans (List.prefix_append s _)⟩

/-- Deleting goes apart at a character that no code holds further on. -/
theorem strip_append_cons (hc : ∀ code ∈ codes, c ∉ code.tail) :
    strip (s ++ c :: u) = strip s ++ strip (c :: u) := by
  induction s using code_induction with
  | nil => rfl
  | code w hw s ih => rw [List.append_assoc, strip_code_append hw, strip_code_append hw, ih]
  | other d s hstart ih =>
    have hborder : startsCode (d :: (s ++ c :: u)) = false :=
      (startsCode_append_cons hc (List.cons_ne_nil d s)).trans hstart
    rw [List.cons_append, strip_cons hborder, strip_cons hstart, ih, List.cons_append]

/-- An escape character stands at the beginning of codes only. -/
theorem escape_not_mem_tail : ∀ code ∈ codes, '\x1b' ∉ code.tail := by
  decide

/-- Each occurrence of a code is deleted, whatever stands around it. -/
theorem strip_append_code (h : code ∈ codes) : strip (s ++ code ++ u) = strip s ++ strip u := by
  have hcode := strip_code_append (s := u) h
  obtain ⟨t, rfl, -, -⟩ := exists_of_mem_codes h
  rw [List.append_assoc, List.cons_append, strip_append_cons escape_not_mem_tail,
    ← List.cons_append, hcode]

/-- Nothing else is deleted. -/
theorem strip_eq_self (h : ∀ code ∈ codes, ¬ code <:+: s) : strip s = s := by
  induction s with
  | nil => rfl
  | cons c s ih =>
    have hstart : startsCode (c :: s) = false := by
      rw [startsCode_eq_false_iff]
      intro code hcode hfront
      exact h code hcode hfront.isInfix
    have hs : ∀ code ∈ codes, ¬ code <:+: s := by
      intro code hcode hpart
      exact h code hcode (List.infix_cons hpart)
    rw [strip_cons hstart, ih hs]

theorem strip_of_not_mem (h : '\x1b' ∉ s) : strip s = s := by
  apply strip_eq_self
  intro code hcode hpart
  obtain ⟨t, rfl, -, -⟩ := exists_of_mem_codes hcode
  exact h (hpart.mem List.mem_cons_self)

/-- A character that no code holds stays, and what stands on either side of it is stripped by
itself. -/
theorem strip_append_other (hc : ∀ code ∈ codes, c ∉ code) :
    strip (s ++ c :: u) = strip s ++ c :: strip u := by
  have htail : ∀ code ∈ codes, c ∉ code.tail := by
    intro code hcode hmem
    exact hc code hcode (List.mem_of_mem_tail hmem)
  have hstart : startsCode (c :: u) = false := by
    rw [startsCode_eq_false_iff]
    intro code hcode hfront
    obtain ⟨t, rfl, -, -⟩ := exists_of_mem_codes hcode
    rw [List.cons_prefix_cons] at hfront
    exact hc _ hcode (hfront.1 ▸ List.mem_cons_self)
  rw [strip_append_cons htail, strip_cons hstart]

/-! ### Resuming a style -/

theorem resumeAfter_reset :
    style.resumeAfter 0 (reset ++ s) = reset ++ (style.code ++ style.resumeAfter 0 s) := by
  simp [reset, resumeAfter]

theorem resumeAfter_cons (h : ¬ reset <+: c :: s) :
    style.resumeAfter 0 (c :: s) = c :: style.resumeAfter 0 s := by
  simp [resumeAfter, h]

theorem resumeAfter_code (other : Style) :
    style.resumeAfter 0 (other.code ++ s) = other.code ++ style.resumeAfter 0 s := by
  cases other <;> simp [code, resumeAfter, reset]

/-- Nothing that is resumed makes the end of a code or breaks one. -/
theorem prefix_resumeAfter_iff (ht : '\x1b' ∉ t) : t <+: style.resumeAfter 0 s ↔ t <+: s := by
  induction t generalizing s with
  | nil => simp
  | cons c t ih =>
    cases s with
    | nil => rfl
    | cons d s =>
      by_cases hreset : reset <+: d :: s
      · obtain ⟨u, hu⟩ := hreset
        rw [← hu, resumeAfter_reset]
        have hc : c ≠ '\x1b' := fun h => ht (h ▸ List.mem_cons_self)
        simp [reset, hc]
      · rw [resumeAfter_cons hreset, List.cons_prefix_cons, List.cons_prefix_cons,
          ih (List.not_mem_of_not_mem_cons ht)]

theorem startsCode_resumeAfter :
    startsCode (c :: style.resumeAfter 0 s) = startsCode (c :: s) := by
  rw [Bool.eq_iff_iff, startsCode_iff, startsCode_iff]
  apply exists_congr
  intro code
  apply and_congr_right
  intro hcode
  obtain ⟨t, rfl, -, ht⟩ := exists_of_mem_codes hcode
  rw [List.cons_prefix_cons, List.cons_prefix_cons, prefix_resumeAfter_iff ht]

/-- What is resumed behind the codes of a text goes with its codes. -/
theorem strip_resumeAfter : strip (style.resumeAfter 0 s) = strip s := by
  induction s using code_induction with
  | nil => rfl
  | code w hw s ih =>
    have hcases : w = reset ∨ ∃ other : Style, w = other.code := by
      simp only [codes, List.mem_cons, List.not_mem_nil, or_false] at hw
      rcases hw with hw | hw | hw
      · exact .inl hw
      · exact .inr ⟨bold, hw⟩
      · exact .inr ⟨dim, hw⟩
    rcases hcases with rfl | ⟨other, rfl⟩
    · rw [resumeAfter_reset, strip_code_append hw, strip_code_append (code_mem_codes style), ih,
        strip_code_append hw]
    · rw [resumeAfter_code, strip_code_append hw, ih, strip_code_append hw]
  | other c s hstart ih =>
    have hreset : ¬ reset <+: c :: s := startsCode_eq_false_iff.1 hstart reset (by decide)
    rw [resumeAfter_cons hreset, strip_cons (startsCode_resumeAfter.trans hstart),
      strip_cons hstart, ih]

theorem strip_applyIf : strip (applyIf styled style s) = strip s := by
  cases styled with
  | false => rfl
  | true =>
    have hreset : strip (style.resumeAfter 0 s ++ reset ++ []) =
        strip (style.resumeAfter 0 s) ++ strip [] := strip_append_code (by decide)
    have happly : applyIf true style s = style.code ++ (style.resumeAfter 0 s ++ reset ++ []) := by
      simp [applyIf, apply]
    rw [happly, strip_code_append (code_mem_codes style), hreset, strip_resumeAfter]
    exact List.append_nil _

end Style

namespace Text
open Style (strip)

variable {t : List Char} {r : Record} {styled : Bool}

/-- A line without its codes, whatever follows it. -/
theorem strip_line_append : strip (line styled r ++ t) =
    strip (number r.index) ++ ' ' :: (strip (label r.summary) ++ '\n' :: strip t) := by
  rw [line_eq, List.append_assoc, List.append_assoc, List.cons_append, List.singleton_append]
  rw [Style.strip_append_other (by decide), Style.strip_append_other (by decide),
    Style.strip_applyIf, Style.strip_applyIf]

theorem strip_number (index : Nat) : strip (number index) = number index := by
  apply Style.strip_of_not_mem
  intro h
  rcases List.mem_append.1 h with h | h
  · rcases mem_padded h with h | h <;> exact absurd h (by decide)
  · exact absurd h (by decide)

theorem strip_label {summary : String} (h : ∀ code ∈ Style.codes, ¬ code <:+: summary.toList) :
    strip (label summary) = label summary := by
  unfold label
  split
  · decide
  · exact Style.strip_eq_self h

/-- With styles and without, the lines are the same but for their codes. -/
theorem strip_flatMap_line (records : List Record) :
    strip (records.flatMap (line true)) = strip (records.flatMap (line false)) := by
  induction records with
  | nil => rw [List.flatMap_nil, List.flatMap_nil]
  | cons r records ih =>
    rw [List.flatMap_cons, List.flatMap_cons, strip_line_append, strip_line_append, ih]

/-- Where no summary holds a code, the lines without styles hold none. -/
theorem strip_flatMap_line_plain {records : List Record}
    (h : ∀ r ∈ records, ∀ code ∈ Style.codes, ¬ code <:+: r.summary.toList) :
    strip (records.flatMap (line false)) = records.flatMap (line false) := by
  induction records with
  | nil => rfl
  | cons r records ih =>
    obtain ⟨hr, hrecords⟩ := List.forall_mem_cons.1 h
    rw [List.flatMap_cons, strip_line_append, strip_number, strip_label hr, ih hrecords, line_plain]
    simp

end Text

/-- Styles add nothing but codes. Without its codes a report in style is the report without styles
less the codes that its summaries hold themselves, which is all of it if they hold none; and where
the terminal takes no styles, the two are the same as they stand. -/
theorem styles_add_codes_only (terminal : Bool) (records : List Record) :
    Style.strip (render true ⟨.text, true⟩ records).toList =
      Style.strip (render terminal ⟨.text, false⟩ records).toList ∧
    ((∀ r ∈ records, ∀ code ∈ Style.codes, ¬ code <:+: r.summary.toList) →
      Style.strip (render true ⟨.text, true⟩ records).toList =
        (render terminal ⟨.text, false⟩ records).toList) ∧
    render false ⟨.text, true⟩ records = render terminal ⟨.text, false⟩ records := by
  have hstyled : (render true ⟨.text, true⟩ records).toList = Text.render true records :=
    String.toList_ofList
  have hplain : (render terminal ⟨.text, false⟩ records).toList = Text.render false records :=
    String.toList_ofList
  rw [hstyled, hplain]
  cases records with
  | nil => exact ⟨rfl, fun _ => by decide, rfl⟩
  | cons r records =>
    have hstrip := Text.strip_flatMap_line (r :: records)
    refine ⟨hstrip, ?_, rfl⟩
    intro h
    exact hstrip.trans (Text.strip_flatMap_line_plain h)

/-- A summary that ends in half a code, and none at all. -/
theorem styles_add_codes_only_half :
    let records : List Record := [⟨8, "UPDATE [\x1b[0]"⟩, ⟨9, ""⟩]
    (∀ r ∈ records, ∀ code ∈ Style.codes, ¬ code <:+: r.summary.toList) ∧
      Style.strip (render true ⟨.text, true⟩ records).toList =
        (render true ⟨.text, false⟩ records).toList ∧
      render true ⟨.text, true⟩ records ≠ render true ⟨.text, false⟩ records := by
  intro records
  have hcodes : ∀ r ∈ records, ∀ code ∈ Style.codes, ¬ code <:+: r.summary.toList := by decide
  exact ⟨hcodes, (styles_add_codes_only true records).2.1 hcodes, by decide⟩

end QueryLabel.Report
