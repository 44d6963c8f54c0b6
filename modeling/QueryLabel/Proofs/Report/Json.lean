import QueryLabel.Report.Basic

/-! Reports as JSON lose nothing. By the grammar of JSON a summary in quotes reads as itself and
ends at its own last quote. A report is made of lines without control characters, four for each
record, and from these the records can be told. -/

namespace QueryLabel.Report

namespace Json

variable {c d : Char} {m n : Nat} {ds es s t v w text text' behind behind' comma comma' : List Char}
  {ls : List (List Char)} {r r' : Record} {rs xs ys : List Record}

/-! ### Strings -/

/-- The letters that stand behind a backslash, each with the character that it stands for. -/
def shortForms : List (Char × Char) :=
  [('"', '"'), ('\\', '\\'), ('/', '/'), ('b', '\x08'), ('f', '\x0c'), ('n', '\n'), ('r', '\r'),
    ('t', '\t')]

/-- Four hexadecimal digits and the number that they write. -/
def IsCode (ds : List Char) (n : Nat) : Prop :=
  ds.length = 4 ∧ ds.all Digits.isHex ∧ Digits.number 16 ds = n

/-- What may stand behind a backslash for a character. -/
inductive Escapes : List Char → Char → Prop
  | short {letter c : Char} (h : (letter, c) ∈ shortForms) : Escapes [letter] c
  | code {ds : List Char} {c : Char} (h : IsCode ds c.toNat) : Escapes ('u' :: ds) c
  /-- A character whose number has too many digits, as a high and a low surrogate. -/
  | pair {ds es : List Char} {m n : Nat} {c : Char} (hm : IsCode ds m) (hn : IsCode es n)
      (hhigh : 0xD800 ≤ m ∧ m < 0xDC00) (hlow : 0xDC00 ≤ n ∧ n < 0xE000)
      (hc : c.toNat = 0x10000 + (m - 0xD800) * 0x400 + (n - 0xDC00)) :
      Escapes ('u' :: ds ++ '\\' :: 'u' :: es) c

/-- The ways to write a character inside a string. -/
inductive Writes : List Char → Char → Prop
  | plain {c : Char} (hc : 32 ≤ c.toNat) (hquote : c ≠ '"') (hback : c ≠ '\\') : Writes [c] c
  | escaped {w : List Char} {c : Char} (h : Escapes w c) : Writes ('\\' :: w) c

/-- How a string goes on behind its opening quote: what it says, and what is left behind the quote
that ends it. -/
inductive GoesOn : List Char → List Char → List Char → Prop
  | done {behind : List Char} : GoesOn ('"' :: behind) [] behind
  | step {s t w text behind : List Char} {c : Char} (hs : s = w ++ t) (hw : Writes w c)
      (h : GoesOn t text behind) : GoesOn s (c :: text) behind

/-- How a text is read as a string with something left behind it. -/
def Reads (s text behind : List Char) : Prop :=
  ∃ t, s = '"' :: t ∧ GoesOn t text behind

theorem IsCode.eq_of_append (h : IsCode ds m) (h' : IsCode es n) (heq : ds ++ s = es ++ t) :
    m = n ∧ s = t := by
  obtain ⟨hlen, -, rfl⟩ := h
  obtain ⟨hlen', -, rfl⟩ := h'
  obtain ⟨rfl, rfl⟩ := List.append_inj heq (hlen.trans hlen'.symm)
  exact ⟨rfl, rfl⟩

/-- A character is no surrogate. -/
theorem not_surrogate (c : Char) : ¬ (0xD800 ≤ c.toNat ∧ c.toNat < 0xE000) := by
  intro h
  rcases c.valid with hv | ⟨hv, -⟩
  · change c.toNat < 0xD800 at hv
    omega
  · change 0xDFFF < c.toNat at hv
    omega

theorem ne_of_mem_shortForms {letter : Char} (h : (letter, c) ∈ shortForms) :
    letter ≠ 'u' ∧ 32 ≤ letter.toNat := by
  have hall : ∀ p ∈ shortForms, p.1 ≠ 'u' ∧ 32 ≤ p.1.toNat := by decide
  exact hall _ h

theorem eq_of_mem_shortForms {letter : Char} (h : (letter, c) ∈ shortForms)
    (h' : (letter, d) ∈ shortForms) : c = d := by
  have hall : ∀ p ∈ shortForms, ∀ q ∈ shortForms, p.1 = q.1 → p.2 = q.2 := by decide
  exact hall _ h _ h' rfl

/-- No escape begins like another one. -/
theorem Escapes.eq_of_append (h : Escapes v c) (h' : Escapes w d) (heq : v ++ s = w ++ t) :
    c = d ∧ s = t := by
  cases h with
  | short h =>
    obtain ⟨hu, -⟩ := ne_of_mem_shortForms h
    cases h' with
    | short h' =>
      obtain ⟨rfl, rfl⟩ := List.cons.inj heq
      exact ⟨eq_of_mem_shortForms h h', rfl⟩
    | code | pair => exact absurd (List.cons.inj heq).1 hu
  | code h =>
    cases h' with
    | short h' => exact absurd (List.cons.inj heq).1.symm (ne_of_mem_shortForms h').1
    | code h' =>
      obtain ⟨hcd, hst⟩ := h.eq_of_append h' (List.cons.inj heq).2
      exact ⟨Char.toNat_inj.1 hcd, hst⟩
    | pair hm _ hhigh =>
      rw [List.append_assoc] at heq
      obtain ⟨hcm, -⟩ := h.eq_of_append hm (List.cons.inj heq).2
      exact absurd ⟨by omega, by omega⟩ (not_surrogate c)
  | pair hm hn hhigh _ hc =>
    rw [List.append_assoc] at heq
    cases h' with
    | short h' => exact absurd (List.cons.inj heq).1.symm (ne_of_mem_shortForms h').1
    | code h' =>
      obtain ⟨hmd, -⟩ := hm.eq_of_append h' (List.cons.inj heq).2
      exact absurd ⟨by omega, by omega⟩ (not_surrogate d)
    | pair hm' hn' _ _ hd =>
      rw [List.append_assoc] at heq
      obtain ⟨rfl, heq⟩ := hm.eq_of_append hm' (List.cons.inj heq).2
      obtain ⟨rfl, rfl⟩ := hn.eq_of_append hn' (List.cons.inj (List.cons.inj heq).2).2
      exact ⟨Char.toNat_inj.1 (hc.trans hd.symm), rfl⟩

theorem Writes.eq_of_append (h : Writes v c) (h' : Writes w d) (heq : v ++ s = w ++ t) :
    c = d ∧ s = t := by
  cases h with
  | plain _ _ hback =>
    cases h' with
    | plain => exact List.cons.inj heq
    | escaped => exact absurd (List.cons.inj heq).1 hback
  | escaped h =>
    cases h' with
    | plain _ _ hback => exact absurd (List.cons.inj heq).1.symm hback
    | escaped h' => exact h.eq_of_append h' (List.cons.inj heq).2

theorem Writes.ne_quote (h : Writes w c) : w ++ s ≠ '"' :: t := by
  intro heq
  cases h with
  | plain _ hquote _ => exact hquote (List.cons.inj heq).1
  | escaped => exact absurd (List.cons.inj heq).1 (by decide)

/-- A text goes on as one string only. -/
theorem GoesOn.unique (h : GoesOn s text behind) (h' : GoesOn s text' behind') :
    text = text' ∧ behind = behind' := by
  induction h generalizing text' with
  | done =>
    cases h' with
    | done => exact ⟨rfl, rfl⟩
    | step hs hw _ => exact absurd hs.symm hw.ne_quote
  | step hs hw _ ih =>
    cases h' with
    | done => exact absurd hs.symm hw.ne_quote
    | step hs' hw' h' =>
      obtain ⟨rfl, rfl⟩ := hw.eq_of_append hw' (hs.symm.trans hs')
      obtain ⟨rfl, rfl⟩ := ih h'
      exact ⟨rfl, rfl⟩

theorem isCode_hex : ∀ n < 32, IsCode (Digits.hex 'a' 4 n) n := by
  unfold IsCode
  decide

/-- What is written for a character is a way to write it. -/
theorem writes_escape (c : Char) : Writes (escape c) c := by
  have hshort {letter d : Char} (h : (letter, d) ∈ shortForms) (hd : c == d) :
      Writes ['\\', letter] c :=
    .escaped (.short (eq_of_beq hd ▸ h))
  fun_cases escape c with
  | case1 h | case2 _ h | case3 _ _ h | case4 _ _ _ h | case5 _ _ _ _ h | case6 _ _ _ _ _ h
  | case7 _ _ _ _ _ _ h => exact hshort (by decide) h
  | case8 _ _ _ _ _ _ _ hcontrol => exact .escaped (.code (isCode_hex _ hcontrol))
  | case9 hquote hback _ _ _ _ _ hc =>
    exact .plain (Nat.le_of_not_lt hc) (by simpa using hquote) (by simpa using hback)

theorem goesOn_escape (s behind : List Char) :
    GoesOn (s.flatMap escape ++ '"' :: behind) s behind := by
  induction s with
  | nil => exact .done
  | cons c s ih =>
    rw [List.flatMap_cons, List.append_assoc]
    exact .step rfl (writes_escape c) ih

/-- A summary in quotes reads as itself, whatever it holds and whatever follows. -/
theorem reads_quote_iff : Reads (quote s ++ behind) text behind' ↔ text = s ∧ behind' = behind := by
  have hself : GoesOn (s.flatMap escape ++ '"' :: behind) s behind := goesOn_escape s behind
  have hquote : quote s ++ behind = '"' :: (s.flatMap escape ++ '"' :: behind) := by
    simp [quote]
  rw [hquote]
  constructor
  · rintro ⟨t, ht, h⟩
    obtain rfl := (List.cons.inj ht).2
    exact h.unique hself
  · rintro ⟨rfl, rfl⟩
    exact ⟨_, rfl, hself⟩

theorem quote_injective (h : quote s = quote t) : s = t := by
  have hs : Reads (quote s ++ []) s [] := reads_quote_iff.2 ⟨rfl, rfl⟩
  rw [h] at hs
  exact (reads_quote_iff.1 hs).1

/-! ### Lines -/

/-- A text without control characters, line ends among them. -/
def Printable (s : List Char) : Prop :=
  ∀ c ∈ s, 32 ≤ c.toNat

instance : DecidablePred Printable :=
  fun s => List.decidableBAll (fun c : Char => 32 ≤ c.toNat) s

theorem printable_cons_iff : Printable (c :: s) ↔ 32 ≤ c.toNat ∧ Printable s :=
  List.forall_mem_cons

theorem printable_append_iff : Printable (s ++ t) ↔ Printable s ∧ Printable t :=
  List.forall_mem_append

/-- The lines of a record, of which the last may have a comma behind it. -/
def objectLines (comma : List Char) (r : Record) : List (List Char) :=
  ["  \x7b".toList, "    \"index\": ".toList ++ r.index.repr.toList ++ [','],
    "    \"summary\": ".toList ++ quote r.summary.toList, "  \x7d".toList ++ comma]

/-- The lines of records in a row, with a comma behind all but the last. -/
def rowLines : List Record → List (List Char)
  | [] => []
  | r :: rs => objectLines (if rs.isEmpty then [] else [',']) r ++ rowLines rs

/-- The lines of a report. -/
def lines : List Record → List (List Char)
  | [] => ["[]".toList]
  | rs => "[".toList :: rowLines rs ++ ["]".toList]

theorem intercalate_cons {l : List Char} (hls : ls ≠ []) :
    ['\n'].intercalate (l :: ls) = l ++ '\n' :: ['\n'].intercalate ls := by
  obtain ⟨l', ls, rfl⟩ := List.exists_cons_of_ne_nil hls
  rw [List.intercalate_cons_cons, List.append_assoc, List.singleton_append]

/-- A record is its lines, with others behind them. -/
theorem intercalate_objectLines (hls : ls ≠ []) :
    ['\n'].intercalate (objectLines comma r ++ ls) =
      object r ++ comma ++ '\n' :: ['\n'].intercalate ls := by
  have hobject : object r =
      ("  \x7b".toList ++ '\n' :: "    \"index\": ".toList) ++ r.index.repr.toList ++
        (',' :: '\n' :: "    \"summary\": ".toList) ++ quote r.summary.toList ++
        '\n' :: "  \x7d".toList := rfl
  simp only [objectLines, List.cons_append, List.nil_append]
  rw [intercalate_cons (by simp), intercalate_cons (by simp), intercalate_cons (by simp),
    intercalate_cons hls, hobject]
  simp only [List.append_assoc, List.cons_append, List.nil_append]

/-- The records of a row are its lines, up to the line that closes the report. -/
theorem intercalate_rowLines : ['\n'].intercalate (rowLines (r :: rs) ++ ["]".toList]) =
    object r ++ rest rs ++ "\n]".toList := by
  induction rs generalizing r with
  | nil =>
    rw [rowLines, rowLines, List.append_nil, List.isEmpty_nil, if_pos rfl,
      intercalate_objectLines (by simp), rest]
    rfl
  | cons r' rs ih =>
    rw [rowLines, List.append_assoc, intercalate_objectLines (by simp), ih]
    simp [rest]

theorem render_eq_lines : render xs = ['\n'].intercalate (lines xs) := by
  cases xs with
  | nil => rfl
  | cons r rs =>
    have hlines : lines (r :: rs) = "[".toList :: (rowLines (r :: rs) ++ ["]".toList]) := rfl
    have hopen : "[\n".toList = "[".toList ++ ['\n'] := rfl
    rw [hlines, intercalate_cons (by simp), intercalate_rowLines, render, hopen]
    simp only [List.append_assoc, List.cons_append, List.nil_append]

theorem printable_of_isHex (h : Digits.isHex c) : 32 ≤ c.toNat := by
  simp only [Digits.isHex, Char.isDigit, Bool.or_eq_true, Bool.and_eq_true, decide_eq_true_eq,
    Char.le_def, UInt32.le_iff_toNat_le] at h
  rcases h with (⟨h, -⟩ | ⟨h, -⟩) | ⟨h, -⟩ <;> exact Nat.le_trans (by decide) h

theorem IsCode.printable (h : IsCode ds n) : Printable ds := by
  intro d hd
  exact printable_of_isHex (List.all_eq_true.1 h.2.1 d hd)

theorem Escapes.printable (h : Escapes w c) : Printable w := by
  cases h with
  | short h => exact printable_cons_iff.2 ⟨(ne_of_mem_shortForms h).2, by decide⟩
  | code h => exact printable_cons_iff.2 ⟨by decide, h.printable⟩
  | pair hm hn =>
    rw [printable_append_iff, printable_cons_iff, printable_cons_iff, printable_cons_iff]
    exact ⟨⟨by decide, hm.printable⟩, by decide, by decide, hn.printable⟩

theorem Writes.printable (h : Writes w c) : Printable w := by
  cases h with
  | plain hc => exact printable_cons_iff.2 ⟨hc, by decide⟩
  | escaped h => exact printable_cons_iff.2 ⟨by decide, h.printable⟩

/-- No control character stands in quotes. -/
theorem printable_quote (s : List Char) : Printable (quote s) := by
  have hbody : Printable (s.flatMap escape) := by
    intro c hc
    obtain ⟨d, -, hc⟩ := List.mem_flatMap.1 hc
    exact (writes_escape d).printable c hc
  rw [quote, printable_append_iff, printable_cons_iff]
  exact ⟨⟨by decide, hbody⟩, by decide⟩

theorem printable_objectLines (hcomma : Printable comma) :
    ∀ line ∈ objectLines comma r, Printable line := by
  have hdigits : Printable r.index.repr.toList := by
    intro c hc
    have hdigit := Digits.isDigit_of_mem_repr hc
    exact printable_of_isHex (by simp [Digits.isHex, hdigit])
  intro line h
  simp only [objectLines, List.mem_cons, List.not_mem_nil, or_false] at h
  rcases h with rfl | rfl | rfl | rfl
  · decide
  · rw [printable_append_iff, printable_append_iff]
    exact ⟨⟨by decide, hdigits⟩, by decide⟩
  · rw [printable_append_iff]
    exact ⟨by decide, printable_quote r.summary.toList⟩
  · rw [printable_append_iff]
    exact ⟨by decide, hcomma⟩

theorem printable_rowLines : ∀ line ∈ rowLines rs, Printable line := by
  induction rs with
  | nil => simp [rowLines]
  | cons r rs ih =>
    rw [rowLines, List.forall_mem_append]
    refine ⟨printable_objectLines ?_, ih⟩
    split <;> decide

theorem printable_lines (xs : List Record) : ∀ line ∈ lines xs, Printable line := by
  cases xs with
  | nil => decide
  | cons r rs =>
    have hlines : lines (r :: rs) = "[".toList :: (rowLines (r :: rs) ++ ["]".toList]) := rfl
    rw [hlines, List.forall_mem_cons, List.forall_mem_append]
    exact ⟨by decide, printable_rowLines, by decide⟩

theorem eq_of_objectLines (h : objectLines comma r = objectLines comma' r') : r = r' := by
  obtain ⟨index, summary⟩ := r
  obtain ⟨index', summary'⟩ := r'
  simp only [objectLines, List.cons.injEq, List.append_cancel_left_eq, List.append_cancel_right_eq,
    true_and] at h
  obtain ⟨hindex, hsummary, -⟩ := h
  have hdigits : Nat.toDigits 10 index = Nat.toDigits 10 index' := by
    rwa [Nat.toList_repr, Nat.toList_repr] at hindex
  have hnumber := congrArg (fun ds => Nat.ofDigitChars 10 ds 0) hdigits
  rw [Nat.ofDigitChars_ten_toDigits, Nat.ofDigitChars_ten_toDigits] at hnumber
  rw [hnumber, String.toList_inj.1 (quote_injective hsummary)]

theorem rowLines_injective (h : rowLines xs = rowLines ys) : xs = ys := by
  induction xs generalizing ys with
  | nil =>
    cases ys with
    | nil => rfl
    | cons => simp [rowLines, objectLines] at h
  | cons r xs ih =>
    cases ys with
    | nil => simp [rowLines, objectLines] at h
    | cons r' ys =>
      obtain ⟨hobject, hrest⟩ := List.append_inj h rfl
      rw [eq_of_objectLines hobject, ih hrest]

theorem lines_injective (h : lines xs = lines ys) : xs = ys := by
  cases xs with
  | nil =>
    cases ys with
    | nil => rfl
    | cons => exact absurd (List.cons.inj h).1 (by decide)
  | cons r xs =>
    cases ys with
    | nil => exact absurd (List.cons.inj h).1 (by decide)
    | cons r' ys => exact rowLines_injective (List.append_cancel_right (List.cons.inj h).2)

theorem splitOn_render (xs : List Record) : (render xs).splitOn '\n' = lines xs := by
  rw [render_eq_lines]
  apply List.splitOn_intercalate
  · intro line hline hmem
    exact absurd (printable_lines xs line hline '\n' hmem) (by decide)
  · cases xs <;> simp [lines]

end Json

/-- A report as JSON loses nothing. Different records have different reports; a report is made of
the lines of its layout, in which no control character stands; and every summary in quotes reads as
itself, so nothing in it ends its string. -/
theorem json_loses_nothing (terminal terminal' colored colored' : Bool) (xs ys : List Record) :
    (render terminal ⟨.json, colored⟩ xs = render terminal' ⟨.json, colored'⟩ ys ↔ xs = ys) ∧
    ((render terminal ⟨.json, colored⟩ xs).toList = ['\n'].intercalate (Json.lines xs) ∧
      ∀ line ∈ Json.lines xs, Json.Printable line) ∧
    ∀ s behind text behind', Json.Reads (Json.quote s ++ behind) text behind' ↔
      text = s ∧ behind' = behind := by
  refine ⟨⟨?_, ?_⟩, ⟨?_, Json.printable_lines xs⟩, ?_⟩
  · intro h
    have hchars : Json.render xs = Json.render ys := String.ofList_inj.1 h
    apply Json.lines_injective
    rw [← Json.splitOn_render, ← Json.splitOn_render, hchars]
  · rintro rfl
    rfl
  · rw [← Json.render_eq_lines]
    exact String.toList_ofList
  · intro s behind text behind'
    exact Json.reads_quote_iff

/-- One record whose summary has all that would close its string and open a second record, and the
two records that it pretends to be. -/
theorem json_loses_nothing_forged :
    let summary := "\"\n  \x7d,\n  \x7b\"index\": 1, \"summary\": \"\\\x1b"
    let forged : List Record := [⟨0, summary⟩]
    let honest : List Record := [⟨0, ""⟩, ⟨1, "\\\x1b"⟩]
    let line := "    \"summary\": \"\\\"\\n  \x7d,\\n  \x7b\\\"index\\\": 1, ".toList ++
      "\\\"summary\\\": \\\"\\\\\\u001b\"".toList
    render true ⟨.json, true⟩ forged ≠ render false ⟨.json, false⟩ honest ∧
      line ∈ Json.lines forged ∧ Json.Printable line ∧
      Json.Reads (Json.quote summary.toList ++ ['\n']) summary.toList ['\n'] ∧
      ¬ Json.Reads (Json.quote summary.toList ++ ['\n']) []
        ((Json.quote summary.toList).drop 3 ++ ['\n']) := by
  intro summary forged honest line
  obtain ⟨hiff, ⟨-, hprintable⟩, hreads⟩ := json_loses_nothing true false true false forged honest
  have hne : forged ≠ honest := by decide
  have hline : line ∈ Json.lines forged := by decide
  refine ⟨mt hiff.1 hne, hline, hprintable line hline, (hreads _ _ _ _).2 ⟨rfl, rfl⟩, ?_⟩
  intro h
  exact absurd ((hreads _ _ _ _).1 h).1 (by decide)

end QueryLabel.Report
