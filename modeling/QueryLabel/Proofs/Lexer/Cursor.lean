import QueryLabel.Proofs.Lexeme.Exchange
import QueryLabel.Proofs.Lexer.Place

/-! Reading a text byte by byte. A cursor cuts the rest of the text off at the byte that it has come
to, and the first piece off the rest. The loops come to an end since each cut moves on, but a cut
inside a character or outside the text would fail. On no text does one fail, and what the loops read
is what the lexer reads. -/

namespace QueryLabel

/-- The text from one byte up to another. There is none unless both are borders of characters, in
this order. -/
def slice? (s : String) (start stop : Nat) : Option String :=
  if start ≤ stop ∧ String.Pos.Raw.IsValid s ⟨start⟩ ∧ String.Pos.Raw.IsValid s ⟨stop⟩ then
    some (String.Pos.Raw.extract s ⟨start⟩ ⟨stop⟩)
  else none

/-- A piece of a text and the bytes that it stands in. -/
structure SpannedLexeme where
  lexeme : Lexeme
  start : Nat
  stop : Nat
  deriving DecidableEq

/-- The token that a piece is, in its place. -/
def SpannedLexeme.token? (x : SpannedLexeme) : Option Spanned :=
  x.lexeme.token?.map fun t => ⟨t, x.start, x.stop⟩

/-- A text and the byte up to which it was read. -/
structure Cursor where
  source : String
  position : Nat

namespace Cursor

/-- The number of bytes of the first characters of a text, if it has so many. -/
def width? : Nat → List Char → Option Nat
  | 0, _ => some 0
  | _ + 1, [] => none
  | n + 1, c :: s => (width? n s).map (c.utf8Size + ·)

/-- Cuts the first piece off what is still to be read. -/
def scan? (c : Cursor) : Option SpannedLexeme := do
  let rest ← slice? c.source c.position c.source.utf8ByteSize
  let (role, length) := Lexeme.measure rest.toList
  let size ← width? length rest.toList
  let text ← slice? rest 0 size
  return ⟨⟨role, text.toList⟩, c.position, c.position + size⟩

variable {c : Cursor} {x : SpannedLexeme} {n size : Nat} {s : List Char}

theorem le_of_width? (h : width? n s = some size) : n ≤ size := by
  induction n, s using width?.induct generalizing size with
  | case1 s => exact Nat.zero_le size
  | case2 n => cases h
  | case3 n c s ih =>
    obtain ⟨rest, hrest, rfl⟩ := Option.map_eq_some_iff.1 h
    have hle := ih hrest
    have hpos := c.utf8Size_pos
    omega

/-- Each cut moves on, wherever it begins. -/
theorem lt_stop_of_scan? (h : c.scan? = some x) : c.position < x.stop := by
  simp only [scan?, Option.bind_eq_bind, Option.bind_eq_some_iff, Option.pure_def,
    Option.some.injEq] at h
  obtain ⟨rest, _, size, hsize, _, _, rfl⟩ := h
  have hle := le_of_width? hsize
  have hpos : 0 < (Lexeme.measure rest.toList).2 := Lexeme.measure_pos
  exact Nat.lt_add_of_pos_right (Nat.lt_of_lt_of_le hpos hle)

/-- Reads piece after piece up to the next token. -/
def next? (c : Cursor) : Option (Option Spanned × Cursor) :=
  if c.position < c.source.utf8ByteSize then
    match _ : c.scan? with
    | none => none
    | some x =>
      match x.token? with
      | some t => some (some t, ⟨c.source, x.stop⟩)
      | none => next? ⟨c.source, x.stop⟩
  else some (none, c)
termination_by c.source.utf8ByteSize - c.position
decreasing_by
  have hlt := lt_stop_of_scan? ‹_›
  omega

/-- Reads piece after piece up to the end of the text. -/
def lexemes? (c : Cursor) : Option (List SpannedLexeme) :=
  if c.position < c.source.utf8ByteSize then
    match _ : c.scan? with
    | none => none
    | some x => (lexemes? ⟨c.source, x.stop⟩).map (x :: ·)
  else some []
termination_by c.source.utf8ByteSize - c.position
decreasing_by
  have hlt := lt_stop_of_scan? ‹_›
  omega

theorem next?_of_lt (h : c.position < c.source.utf8ByteSize) (hx : c.scan? = some x) :
    c.next? = match x.token? with
      | some t => some (some t, ⟨c.source, x.stop⟩)
      | none => next? ⟨c.source, x.stop⟩ := by
  rw [next?, if_pos h]
  split
  · next hnone =>
    rw [hx] at hnone
    cases hnone
  · next y hy =>
    obtain rfl : y = x := Option.some.inj (hy.symm.trans hx)
    rfl

theorem lexemes?_of_lt (h : c.position < c.source.utf8ByteSize) (hx : c.scan? = some x) :
    c.lexemes? = (lexemes? ⟨c.source, x.stop⟩).map (x :: ·) := by
  rw [lexemes?, if_pos h]
  split
  · next hnone =>
    rw [hx] at hnone
    cases hnone
  · next y hy =>
    obtain rfl : y = x := Option.some.inj (hy.symm.trans hx)
    rfl

end Cursor

/-- Pieces that follow each other from one byte of a text to another and leave none out. Each is the
text between its ends, and none is empty. -/
inductive Tiles (sql : String) : Nat → List SpannedLexeme → Nat → Prop
  | nil (i : Nat) : Tiles sql i [] i
  | cons {x : SpannedLexeme} {xs : List SpannedLexeme} {j : Nat} (hlt : x.start < x.stop)
    (hx : slice? sql x.start x.stop = some (String.ofList x.lexeme.text))
    (hxs : Tiles sql x.stop xs j) : Tiles sql x.start (x :: xs) j

/-- The lexer after so many tokens were asked for. -/
def Lexer.after (l : Lexer) : Nat → Lexer
  | 0 => l
  | n + 1 => (l.after n).next.2

/-- The lexer has come to a border between pieces of the text. -/
def Lexer.Reads (l : Lexer) (sql : String) : Prop :=
  ∃ front rest, sql = String.ofList (front ++ rest) ∧
    l = ⟨Lexeme.list rest, String.utf8Len front⟩

variable {sql : String} {front text rest : List Char} {i j n : Nat} {l : Lexer} {p : Lexeme}
  {ps : List Lexeme} {x : SpannedLexeme} {xs : List SpannedLexeme}

theorem isValid_ofList_append :
    String.Pos.Raw.IsValid (String.ofList (front ++ rest)) ⟨String.utf8Len front⟩ := by
  rw [String.ofList_append]
  apply String.Pos.Raw.IsValid.append_right
  apply String.Pos.Raw.isValid_of_eq_rawEndPos
  rw [String.rawEndPos_ofList]

theorem slice?_ofList :
    slice? (String.ofList (front ++ text ++ rest)) (String.utf8Len front)
      (String.utf8Len front + String.utf8Len text) = some (String.ofList text) := by
  have hstart : String.Pos.Raw.IsValid (String.ofList (front ++ text ++ rest))
      ⟨String.utf8Len front⟩ := by
    rw [List.append_assoc]
    exact isValid_ofList_append
  have hstop : String.Pos.Raw.IsValid (String.ofList (front ++ text ++ rest))
      ⟨String.utf8Len front + String.utf8Len text⟩ := by
    rw [← String.utf8Len_append]
    exact isValid_ofList_append
  rw [slice?, if_pos ⟨Nat.le_add_right _ _, hstart, hstop⟩, String.extract_of_valid]

theorem Cursor.width?_append : width? text.length (text ++ rest) = some (String.utf8Len text) := by
  induction text with
  | nil => rfl
  | cons c text ih => simp [width?, ih, Nat.add_comm]

/-! ### One piece -/

theorem Lexer.reads_ofString : (ofString sql).Reads sql :=
  ⟨[], sql.toList, by simp, rfl⟩

/-- The next piece is the one that the rules find at the front of what is still to be read. -/
theorem Lexer.Reads.exists_of_cons (h : Reads ⟨p :: ps, i⟩ sql) :
    ∃ front rest, sql = String.ofList (front ++ p.text ++ rest) ∧ i = String.utf8Len front ∧
      Lexeme.measure (p.text ++ rest) = (p.role, p.text.length) ∧ p.text ≠ [] ∧
      ps = Lexeme.list rest := by
  obtain ⟨front, rest, rfl, hl⟩ := h
  obtain ⟨hps, hi⟩ := Lexer.mk.inj hl
  obtain ⟨_, hm, t, rfl, ht⟩ := Lexeme.list_eq_cons hps.symm
  have hne : p.text ≠ [] := Lexeme.text_ne_nil (hps ▸ List.mem_cons_self)
  exact ⟨front, t, by rw [List.append_assoc], hi, hm, hne, ht.symm⟩

theorem Lexer.Reads.tail (h : Reads ⟨p :: ps, i⟩ sql) : Reads ⟨ps, i + p.size⟩ sql := by
  obtain ⟨front, rest, rfl, rfl, _, _, rfl⟩ := h.exists_of_cons
  exact ⟨front ++ p.text, rest, rfl, by rw [String.utf8Len_append, Lexeme.size_eq]⟩

theorem Lexer.Reads.size_pos (h : Reads ⟨p :: ps, i⟩ sql) : 0 < p.size := by
  obtain ⟨_, _, _, _, _, hne, _⟩ := h.exists_of_cons
  rw [Lexeme.size_eq]
  exact Nat.pos_of_ne_zero fun hz => hne (String.utf8Len_eq_zero.1 hz)

theorem Lexer.Reads.lt_utf8ByteSize (h : Reads ⟨p :: ps, i⟩ sql) : i < sql.utf8ByteSize := by
  have hpos := h.size_pos
  obtain ⟨front, rest, rfl, rfl, _⟩ := h.exists_of_cons
  rw [Lexeme.size_eq] at hpos
  rw [String.utf8ByteSize_ofList, String.utf8Len_append, String.utf8Len_append]
  omega

theorem Lexer.Reads.eq_utf8ByteSize (h : Reads ⟨[], i⟩ sql) : i = sql.utf8ByteSize := by
  obtain ⟨front, rest, rfl, hl⟩ := h
  obtain ⟨hnil, rfl⟩ := Lexer.mk.inj hl
  have hrest : rest = [] := by rw [← Lexeme.flatMap_text_list (s := rest), ← hnil]; rfl
  rw [hrest, List.append_nil, String.utf8ByteSize_ofList]

theorem Lexer.Reads.slice?_eq (h : Reads ⟨p :: ps, i⟩ sql) :
    slice? sql i (i + p.size) = some (String.ofList p.text) := by
  obtain ⟨front, rest, rfl, rfl, _⟩ := h.exists_of_cons
  rw [Lexeme.size_eq]
  exact slice?_ofList

/-- No cut fails on the way to the next piece. -/
theorem Lexer.Reads.scan?_eq (h : Reads ⟨p :: ps, i⟩ sql) :
    Cursor.scan? ⟨sql, i⟩ = some ⟨p, i, i + p.size⟩ := by
  obtain ⟨front, rest, rfl, rfl, hm, _⟩ := h.exists_of_cons
  have hrest : slice? (String.ofList (front ++ p.text ++ rest)) (String.utf8Len front)
      (String.utf8Len (front ++ p.text ++ rest)) = some (String.ofList (p.text ++ rest)) := by
    simpa [Nat.add_assoc] using @slice?_ofList front (p.text ++ rest) []
  have htext : slice? (String.ofList (p.text ++ rest)) 0 (String.utf8Len p.text) =
      some (String.ofList p.text) := by
    simpa using @slice?_ofList [] p.text rest
  simp only [Cursor.scan?, String.utf8ByteSize_ofList, hrest, Option.bind_eq_bind, Option.bind_some,
    String.toList_ofList, hm, Cursor.width?_append, htext, Lexeme.size_eq, Option.pure_def]

/-! ### The loops -/

/-- No cut fails in the search for the next token, and it finds what the lexer finds. -/
theorem Lexer.Reads.next?_eq (h : l.Reads sql) :
    Cursor.next? ⟨sql, l.offset⟩ = some (l.next.1, ⟨sql, l.next.2.offset⟩) ∧
      l.next.2.Reads sql := by
  obtain ⟨ps, i⟩ := l
  unfold next
  induction ps generalizing i with
  | nil =>
    have hi := h.eq_utf8ByteSize
    rw [Cursor.next?, if_neg (by simp [hi])]
    exact ⟨rfl, h⟩
  | cons p ps ih =>
    rw [Cursor.next?_of_lt h.lt_utf8ByteSize h.scan?_eq]
    cases ht : p.token? with
    | some t => simpa [SpannedLexeme.token?, nextFrom, ht] using h.tail
    | none => simpa [SpannedLexeme.token?, nextFrom, ht] using ih _ h.tail

theorem Lexer.Reads.after (h : l.Reads sql) : (l.after n).Reads sql := by
  induction n with
  | zero => exact h
  | succ n ih => exact ih.next?_eq.2

theorem Lexer.head?_spanned : l.spanned.head? = l.next.1 := by
  rw [spanned_eq_next]
  split <;> simp_all

theorem Lexer.tail_spanned : l.spanned.tail = l.next.2.spanned := by
  obtain ⟨ps, i⟩ := l
  unfold next spanned
  induction ps generalizing i with
  | nil => rfl
  | cons p ps ih =>
    cases ht : p.token? with
    | none => simpa [spannedFrom, nextFrom, ht] using ih _
    | some t => simp [spannedFrom, nextFrom, ht]

theorem Lexer.spanned_after : (l.after n).spanned = l.spanned.drop n := by
  induction n with
  | zero => rfl
  | succ n ih => rw [after, ← tail_spanned, ih, List.tail_drop]

/-- The tokens are the answers when one token after another is asked for. -/
theorem Lexer.next_after : (l.after n).next.1 = l.spanned[n]? := by
  rw [← head?_spanned, spanned_after, List.head?_drop]

/-- The whole text is cut up into the pieces of the lexer. -/
theorem Lexer.Reads.exists_lexemes? (h : Reads ⟨ps, i⟩ sql) :
    ∃ xs, Cursor.lexemes? ⟨sql, i⟩ = some xs ∧ xs.map SpannedLexeme.lexeme = ps ∧
      Tiles sql i xs sql.utf8ByteSize ∧ spannedFrom i ps = xs.filterMap SpannedLexeme.token? := by
  induction ps generalizing i with
  | nil =>
    have hi := h.eq_utf8ByteSize
    refine ⟨[], ?_, rfl, hi ▸ .nil i, rfl⟩
    rw [Cursor.lexemes?, if_neg (by simp [hi])]
  | cons p ps ih =>
    obtain ⟨xs, hxs, hmap, htiles, htokens⟩ := ih h.tail
    have hlt : i < i + p.size := Nat.lt_add_of_pos_right h.size_pos
    refine ⟨⟨p, i, i + p.size⟩ :: xs, ?_, by rw [List.map_cons, hmap], ?_, ?_⟩
    · rw [Cursor.lexemes?_of_lt h.lt_utf8ByteSize h.scan?_eq, hxs]
      rfl
    · exact Tiles.cons (x := ⟨p, i, i + p.size⟩) hlt h.slice?_eq htiles
    · rw [spannedFrom, List.filterMap_cons, ← htokens]
      cases ht : p.token? <;> simp [SpannedLexeme.token?, ht]

theorem Tiles.le_start (h : Tiles sql i xs j) : ∀ x ∈ xs, i ≤ x.start := by
  induction h with
  | nil => simp
  | cons hlt _ _ ih =>
    rw [List.forall_mem_cons]
    refine ⟨Nat.le_refl _, fun y hy => ?_⟩
    have hle := ih y hy
    omega

theorem Tiles.pairwise (h : Tiles sql i xs j) : xs.Pairwise fun x y => x.stop ≤ y.start := by
  induction h with
  | nil => exact .nil
  | cons _ _ hxs ih => exact .cons hxs.le_start ih

theorem Tiles.of_mem (h : Tiles sql i xs j) : ∀ x ∈ xs, x.start < x.stop ∧
    slice? sql x.start x.stop = some (String.ofList x.lexeme.text) := by
  induction h with
  | nil => simp
  | cons hlt hx _ ih => exact List.forall_mem_cons.2 ⟨⟨hlt, hx⟩, ih⟩

theorem SpannedLexeme.token?_eq_some_iff {y : Spanned} :
    x.token? = some y ↔ x.lexeme.token? = some y.token ∧ x.start = y.start ∧ x.stop = y.stop := by
  obtain ⟨t, start, stop⟩ := y
  simp [SpannedLexeme.token?]

/-- Every cut moves on, and so every text is read to its end, where no cut fails. Its pieces leave
no byte out; its tokens stand at the places that are given for them, each behind the one before, and
they are what is answered when one token after another is asked for. After the last one there is no
other. -/
theorem reads_whole_text (sql : String) :
    (∀ (c : Cursor) (x : SpannedLexeme), c.scan? = some x → c.position < x.stop) ∧
    (∃ xs, Cursor.lexemes? ⟨sql, 0⟩ = some xs ∧
      xs.map SpannedLexeme.lexeme = Lexeme.list sql.toList ∧ Tiles sql 0 xs sql.utf8ByteSize ∧
      spanned sql = xs.filterMap SpannedLexeme.token?) ∧
    (∀ y ∈ spanned sql, y.start < y.stop ∧ slice? sql y.start y.stop = some y.token.text) ∧
    ((spanned sql).Pairwise fun y z => y.stop ≤ z.start) ∧
    (∀ n, let l := (Lexer.ofString sql).after n
      let r := (Lexer.ofString sql).after (n + 1)
      l.next = ((spanned sql)[n]?, r) ∧
      Cursor.next? ⟨sql, l.offset⟩ = some ((spanned sql)[n]?, ⟨sql, r.offset⟩)) ∧
    ∀ (l : Lexer) (n : Nat), l.next.1 = none → (l.after n).next.1 = none := by
  have hreads : (Lexer.ofString sql).Reads sql := Lexer.reads_ofString
  obtain ⟨xs, hxs, hmap, htiles, htokens⟩ := hreads.exists_lexemes?
  have hspanned : spanned sql = xs.filterMap SpannedLexeme.token? := htokens
  refine ⟨?_, ⟨xs, hxs, hmap, htiles, htokens⟩, ?_, ?_, ?_, ?_⟩
  · intro c x hx
    exact Cursor.lt_stop_of_scan? hx
  · intro y hy
    rw [hspanned] at hy
    obtain ⟨x, hx, hxy⟩ := List.mem_filterMap.1 hy
    obtain ⟨ht, hstart, hstop⟩ := SpannedLexeme.token?_eq_some_iff.1 hxy
    rw [← hstart, ← hstop, (Lexeme.token?_eq_some_iff.1 ht).2]
    exact htiles.of_mem x hx
  · rw [hspanned, List.pairwise_filterMap]
    refine htiles.pairwise.imp fun hle y hy z hz => ?_
    obtain ⟨_, _, hstop⟩ := SpannedLexeme.token?_eq_some_iff.1 hy
    obtain ⟨_, hstart, _⟩ := SpannedLexeme.token?_eq_some_iff.1 hz
    rwa [← hstop, ← hstart]
  · intro n l r
    have hnext : l.next = ((spanned sql)[n]?, r) := Prod.ext Lexer.next_after rfl
    have hcursor := (hreads.after (n := n)).next?_eq.1
    rw [hnext] at hcursor
    exact ⟨hnext, hcursor⟩
  · intro l n hnone
    rw [← Lexer.head?_spanned, List.head?_eq_none_iff] at hnone
    rw [Lexer.next_after, hnone, List.getElem?_nil]

/-- A character of three bytes that no rule takes, and a string that nothing closes. -/
theorem reads_whole_text_unclosed :
    let sql := "€ 'x;"
    let c : Cursor := ⟨sql, 0⟩
    let first : SpannedLexeme := ⟨⟨.unknown, "€".toList⟩, 0, 3⟩
    let last : Spanned := ⟨⟨.string, "'x;"⟩, 4, 7⟩
    let l := (Lexer.ofString sql).after 1
    (c.scan? = some first ∧ c.position < first.stop) ∧
    (∃ xs, c.lexemes? = some xs ∧ xs.map SpannedLexeme.lexeme =
        [⟨.unknown, "€".toList⟩, ⟨.blank, " ".toList⟩, ⟨.token .string, "'x;".toList⟩]) ∧
    (last ∈ spanned sql ∧ last.start < last.stop ∧
      slice? sql last.start last.stop = some last.token.text) ∧
    l.next.1 = none ∧ (l.after 2).next.1 = none := by
  intro sql c first last l
  obtain ⟨hmoves, ⟨xs, hxs, hmap, _⟩, hplaces, _, _, hend⟩ := reads_whole_text sql
  have hfirst : c.scan? = some first := by decide +kernel
  have hlast : last ∈ spanned sql := by decide +kernel
  have hnone : l.next.1 = none := by decide +kernel
  refine ⟨⟨hfirst, hmoves c first hfirst⟩, ⟨xs, hxs, ?_⟩, ⟨hlast, hplaces last hlast⟩, hnone, ?_⟩
  · rw [hmap]
    decide +kernel
  · exact hend l 2 hnone

end QueryLabel
