import QueryLabel.Proofs.Lexeme.Exchange
import QueryLabel.Proofs.Summary.Selection
import Mathlib.Data.List.Flatten

/-! Where the characters of a summary come from. Each word of a summary is a piece of the query, and
none of these pieces is a literal, a comment or a character that no rule takes. -/

namespace QueryLabel

variable {n p : Nat} {a b c : List Char} {ls : List Lexeme} {x : Lexeme × List Nat} {t : Token}
  {ts : List Token} {sql : String}

/-- The piece that a character of a query belongs to, by the number of characters before it. -/
def pieceAt? (sql : String) (p : Nat) : Option Lexeme :=
  ((Lexeme.list sql.toList).flatMap fun l => List.replicate l.text.length l)[p]?

namespace Lexeme

/-- Pieces with the places of their characters. -/
def placed (n : Nat) : List Lexeme → List (Lexeme × List Nat)
  | [] => []
  | l :: ls => (l, List.range' n l.text.length) :: placed (n + l.text.length) ls

theorem map_fst_placed : (placed n ls).map Prod.fst = ls := by
  induction ls generalizing n with
  | nil => rfl
  | cons l ls ih => rw [placed, List.map_cons, ih]

theorem flatMap_snd_placed :
    (placed n ls).flatMap Prod.snd = List.range' n (ls.flatMap text).length := by
  induction ls generalizing n with
  | nil => rfl
  | cons l ls ih =>
    rw [placed, List.flatMap_cons, ih, List.range'_append_1, List.flatMap_cons, List.length_append]

/-- The places of a piece are those behind the pieces before it. -/
theorem of_mem_placed (h : x ∈ placed n ls) : ∃ as bs, ls = as ++ x.1 :: bs ∧
    x.2 = List.range' (n + (as.flatMap text).length) x.1.text.length := by
  induction ls generalizing n with
  | nil => simp [placed] at h
  | cons l ls ih =>
    rw [placed] at h
    rcases List.mem_cons.1 h with rfl | h
    · exact ⟨[], ls, rfl, rfl⟩
    · obtain ⟨as, bs, hls, hplaces⟩ := ih h
      refine ⟨l :: as, bs, by rw [hls, List.cons_append], ?_⟩
      rw [hplaces, List.flatMap_cons, List.length_append, Nat.add_assoc]

theorem filterMap_range' :
    (List.range' a.length b.length).filterMap ((a ++ b ++ c)[·]?) = b := by
  induction b generalizing a with
  | nil => rfl
  | cons x b ih =>
    have hx : (a ++ x :: b ++ c)[a.length]? = some x := by simp
    have hrest := ih (a := a ++ [x])
    rw [List.append_assoc a [x] b, List.singleton_append, List.length_append,
      List.length_singleton] at hrest
    rw [List.length_cons, List.range'_succ, List.filterMap_cons_some hx, hrest]

theorem text_of_mem_placed (h : x ∈ placed 0 (list sql.toList)) :
    x.2.filterMap (sql.toList[·]?) = x.1.text := by
  obtain ⟨as, bs, hls, hplaces⟩ := of_mem_placed h
  have htext : sql.toList = as.flatMap text ++ x.1.text ++ bs.flatMap text := by
    rw [← flatMap_text_list (s := sql.toList), hls, List.flatMap_append, List.flatMap_cons,
      List.append_assoc]
  rw [hplaces, htext, Nat.zero_add, filterMap_range']

theorem pieceAt?_of_mem_placed (h : x ∈ placed 0 (list sql.toList)) (hp : p ∈ x.2) :
    pieceAt? sql p = some x.1 := by
  obtain ⟨as, bs, hls, hplaces⟩ := of_mem_placed h
  have hlength : (as.flatMap fun l => List.replicate l.text.length l).length =
      (as.flatMap text).length := by
    simp [List.length_flatMap]
  rw [hplaces, List.mem_range'_1] at hp
  rw [pieceAt?, hls, List.flatMap_append, List.flatMap_cons,
    List.getElem?_append_right (by omega),
    List.getElem?_append_left (by rw [List.length_replicate]; omega),
    List.getElem?_replicate_of_lt (by omega)]

end Lexeme

namespace Summary

theorem map_filterMap_eq {α β γ : Type} {f : α → Option β} {g : β → γ} {g' : α → γ} {xs : List α}
    (h : ∀ x y, f x = some y → g y = g' x) :
    (xs.filterMap f).map g = (xs.filter fun x => (f x).isSome).map g' := by
  induction xs with
  | nil => rfl
  | cons x xs ih =>
    cases hx : f x with
    | none => simpa [hx] using ih
    | some y => simpa [hx, h x y hx] using ih

/-- What is shown of a query is a choice of its pieces, in their order. -/
theorem exists_placed_of_selectFrom (s : State) (sql : String) :
    ∃ xs : List (Lexeme × List Nat), xs.Sublist (Lexeme.placed 0 (Lexeme.list sql.toList)) ∧
      (∀ x ∈ xs, ∃ t ∈ selectFrom s (tokenize sql), x.1.token? = some t) ∧
      (selectFrom s (tokenize sql)).map Token.text = xs.map fun x => String.ofList x.1.text := by
  have hsub : (selectFrom s (tokenize sql)).Sublist
      ((Lexeme.placed 0 (Lexeme.list sql.toList)).filterMap fun x => x.1.token?) := by
    have hmap := List.filterMap_map (g := Lexeme.token?) (f := Prod.fst)
      (l := Lexeme.placed 0 (Lexeme.list sql.toList))
    rw [Lexeme.map_fst_placed] at hmap
    exact hmap ▸ selectFrom_sublist
  obtain ⟨xs, hxs, hts⟩ := List.sublist_filterMap_iff.1 hsub
  refine ⟨xs.filter fun x => x.1.token?.isSome, List.filter_sublist.trans hxs, ?_, ?_⟩
  · intro x hx
    obtain ⟨hx, hsome⟩ := List.mem_filter.1 hx
    obtain ⟨t, ht⟩ := Option.isSome_iff_exists.1 hsome
    exact ⟨t, hts ▸ List.mem_filterMap.2 ⟨x, hx, ht⟩, ht⟩
  · rw [hts]
    exact map_filterMap_eq fun x t ht => (Lexeme.token?_eq_some_iff.1 ht).2

theorem kind_of_mem_selectFrom (h : t ∈ selectFrom .idle ts) :
    t.kind = .identifier ∨ t.kind = .quotedIdentifier ∨ t.kind = .keyword := by
  rw [← filterMap_selection] at h
  obtain ⟨p, hp, ht⟩ := List.mem_filterMap.1 h
  obtain ⟨u, hu, hshow⟩ := showable_of_mem hp
  obtain rfl : u = t := Option.some.inj (hu.symm.trans ht)
  exact hshow.kind

/-- The places of the characters that are shown, word by word. -/
theorem exists_places (sql : String) : ∃ runs : List (List Nat),
    ofQuery sql = " ".intercalate
      (runs.map fun run => String.ofList (run.filterMap (sql.toList[·]?))) ∧
    runs.flatten.Pairwise (· < ·) ∧
    ∀ p ∈ runs.flatten, ∃ l, pieceAt? sql p = some l ∧
      l.role ∉ [.token .string, .token .numeric, .comment, .unknown] := by
  obtain ⟨xs, hsub, htokens, htexts⟩ := exists_placed_of_selectFrom .idle sql
  refine ⟨xs.map Prod.snd, ?_, ?_, ?_⟩
  · rw [ofQuery, ofTokens, parts, htexts, List.map_map]
    congr 1
    apply List.map_congr_left
    intro x hx
    exact congrArg String.ofList (Lexeme.text_of_mem_placed (hsub.mem hx)).symm
  · have hall := hsub.flatMap Prod.snd
    rw [Lexeme.flatMap_snd_placed] at hall
    exact (List.pairwise_lt_range' 1).sublist hall
  · intro p hp
    obtain ⟨run, hrun, hp⟩ := List.mem_flatten.1 hp
    obtain ⟨x, hx, rfl⟩ := List.mem_map.1 hrun
    obtain ⟨t, ht, hxt⟩ := htokens x hx
    refine ⟨x.1, Lexeme.pieceAt?_of_mem_placed (hsub.mem hx) hp, ?_⟩
    rw [(Lexeme.token?_eq_some_iff.1 hxt).1]
    rcases kind_of_mem_selectFrom ht with hk | hk | hk <;> simp [hk]

/-- What a summary shows. Of tokens it is the texts at some places, from the left, and what stands
there is a name, a shown keyword, or the `ALL` behind a shown `UNION`; of a query it is characters
at some places, from the left, none of them in a literal, a comment or a piece that no rule
takes. -/
theorem shows_no_literal :
    (∀ ts, ofTokens ts = " ".intercalate (((selection ts).filterMap (ts[·]?)).map Token.text) ∧
      (selection ts).Pairwise (· < ·) ∧
      ∀ p ∈ selection ts, ∃ t, ts[p]? = some t ∧ Showable ts p t ∧
        t.kind ∉ [.string, .numeric, .operator]) ∧
    ∀ sql, ∃ runs : List (List Nat),
      ofQuery sql = " ".intercalate
        (runs.map fun run => String.ofList (run.filterMap (sql.toList[·]?))) ∧
      runs.flatten.Pairwise (· < ·) ∧
      ∀ p ∈ runs.flatten, ∃ l, pieceAt? sql p = some l ∧
        l.role ∉ [.token .string, .token .numeric, .comment, .unknown] := by
  refine ⟨fun ts => ⟨?_, pairwise_selection ts, ?_⟩, exists_places⟩
  · rw [ofTokens, parts_eq_selection]
  · intro p hp
    obtain ⟨t, ht, hshow⟩ := showable_of_mem hp
    refine ⟨t, ht, hshow, ?_⟩
    rcases hshow.kind with hk | hk | hk <;> simp [hk]

/-- Tokens that no query has, with a second `ALL` that is not shown, and a query whose only name
holds what would else be a literal and a comment. -/
theorem shows_no_literal_union :
    let ts : List Token := [⟨.keyword, "union"⟩, ⟨.keyword, "All"⟩, ⟨.keyword, "ALL"⟩,
      ⟨.keyword, "IN"⟩, ⟨.operator, "("⟩, ⟨.string, "'a'"⟩, ⟨.keyword, "create"⟩,
      ⟨.keyword, "View"⟩, ⟨.identifier, "7"⟩]
    let sql := "SELECT/*t*/ 'x', ?1 FROM [a 'b' /*c*/] -- d"
    (ofTokens ts = "union All create View 7" ∧ 1 ∈ selection ts ∧
      ∃ t, ts[1]? = some t ∧ Showable ts 1 t ∧ t.kind ∉ [.string, .numeric, .operator]) ∧
    ofQuery sql = "SELECT [a 'b' /*c*/]" ∧ ∃ runs : List (List Nat),
      ofQuery sql = " ".intercalate
        (runs.map fun run => String.ofList (run.filterMap (sql.toList[·]?))) ∧
      runs.flatten.Pairwise (· < ·) ∧
      ∀ p ∈ runs.flatten, ∃ l, pieceAt? sql p = some l ∧
        l.role ∉ [.token .string, .token .numeric, .comment, .unknown] := by
  intro ts sql
  obtain ⟨htokens, hquery⟩ := shows_no_literal
  have hmem : 1 ∈ selection ts := by decide
  exact ⟨⟨by decide, hmem, (htokens ts).2.2 1 hmem⟩, by decide, hquery sql⟩

end Summary

end QueryLabel
