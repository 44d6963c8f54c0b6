import QueryLabel.Proofs.Cache.Effect
import Mathlib.Data.List.DropRight

/-! The history of a cache. The keys of a cache are always the last ones of those that were new when
they were written, and a key has the value that was last written for it. -/

namespace QueryLabel.Cache

variable {V E : Type} {c : Cache V} {key : String} {value : V} {n : Capacity} {step : Step V E}
  {steps : List (Step V E)}

/-- What a run leaves behind. -/
structure History (V : Type) where
  /-- The keys that were absent when they were written, oldest first, since the cache was last
  emptied. -/
  inserted : List String
  /-- The capacities in force since the cache was last emptied. -/
  capacities : List Capacity
  /-- All that was ever written, latest first. -/
  writes : List (String × V)

namespace History

/-- The history of a cache to which nothing was done. -/
def fresh (n : Capacity) : History V := ⟨[], [n], []⟩

/-- Notes what is done to a cache. -/
def note (h : History V) (c : Cache V) : Effect V → History V
  | .nothing => h
  | .write key value =>
    { h with
      inserted := if key ∈ c.keys then h.inserted else h.inserted ++ [key]
      writes := (key, value) :: h.writes }
  | .resize capacity => { h with capacities := h.capacities ++ [capacity] }
  | .empty capacity => { h with inserted := [], capacities := [capacity] }

/-- Notes what operations do in turn. -/
def noteAll (h : History V) (c : Cache V) : List (Step V E) → History V
  | [] => h
  | step :: steps => (h.note c (c.effect step)).noteAll (c.perform step).2 steps

/-- The history of a run. -/
def ofRun (n : Capacity) (steps : List (Step V E)) : History V :=
  (fresh n).noteAll (.empty n) steps

/-- The value last written for a key. -/
def written? (h : History V) (key : String) : Option V :=
  h.writes.lookup key

/-- One capacity was in force since the cache was last emptied. -/
def Steady (h : History V) (n : Nat) : Prop :=
  ∀ capacity ∈ h.capacities, capacity.val = n

instance {h : History V} {n : Nat} : Decidable (h.Steady n) :=
  inferInstanceAs (Decidable (∀ capacity ∈ h.capacities, capacity.val = n))

/-- What a history tells of the cache that it leads to. -/
structure Tells (h : History V) (c : Cache V) : Prop where
  keys_suffix : c.keys <:+ h.inserted
  capacity_mem : c.capacity ∈ h.capacities
  size_eq {n : Nat} (hn : h.Steady n) : c.size = min n h.inserted.length
  written {e : String × V} (he : e ∈ c.entries) : h.written? e.1 = some e.2

variable {h : History V}

theorem written?_note_self : (h.note c (.write key value)).written? key = some value := by
  simp [note, written?]

theorem written?_note_of_ne {k : String} (hk : k ≠ key) :
    (h.note c (.write key value)).written? k = h.written? k := by
  simp [note, written?, List.lookup_cons, beq_false_of_ne hk]

theorem tells_empty : ((h.note c (.empty n))).Tells (.empty n) where
  keys_suffix := List.suffix_rfl
  capacity_mem := List.mem_singleton_self n
  size_eq _ := (Nat.min_zero _).symm
  written he := absurd he List.not_mem_nil

theorem tells_fresh : (fresh n : History V).Tells (.empty n) :=
  tells_empty (h := fresh n) (c := .empty n)

/-- Whatever becomes of the other entries, the entry that is written is the last one written. -/
theorem Tells.written_note {e : String × V} (ht : h.Tells c)
    (he : e ∈ c.entries ∧ e.1 ≠ key ∨ e = (key, value)) :
    (h.note c (.write key value)).written? e.1 = some e.2 := by
  rcases he with ⟨he, hk⟩ | rfl
  · rw [written?_note_of_ne hk]
    exact ht.written he
  · exact written?_note_self

/-- A key that is there is written in its place. -/
theorem Tells.overwrite (ht : h.Tells c) (hk : key ∈ c.keys) :
    (h.note c (.write key value)).Tells (c.store key value) where
  keys_suffix := by
    rw [keys_store_of_mem hk]
    simpa [note, hk] using ht.keys_suffix
  capacity_mem := by
    rw [capacity_store]
    exact ht.capacity_mem
  size_eq hn := by
    rw [← length_keys, keys_store_of_mem hk, length_keys]
    simpa [note, hk] using ht.size_eq hn
  written {e} he := by
    rw [store_of_mem hk] at he
    obtain ⟨e', he', rfl⟩ := List.mem_map.1 he
    apply ht.written_note
    split
    · next heq => exact .inr (by rw [eq_of_beq heq])
    · next hne => exact .inl ⟨he', by simpa using hne⟩

/-- A key that is absent is written behind all others, and the oldest one may have to go. -/
theorem Tells.insert (ht : h.Tells c) (hk : key ∉ c.keys) :
    (h.note c (.write key value)).Tells (c.store key value) where
  keys_suffix := by
    have hroom : (if c.size < c.capacity then c.keys else c.keys.tail) <:+ h.inserted := by
      split
      · exact ht.keys_suffix
      · exact (List.tail_suffix _).trans ht.keys_suffix
    obtain ⟨old, hold⟩ := hroom
    rw [keys_store_of_not_mem hk]
    exact ⟨old, by simp [note, hk, ← hold]⟩
  capacity_mem := by
    rw [capacity_store]
    exact ht.capacity_mem
  size_eq {n} hn := by
    have hsize := ht.size_eq hn
    have hcap : c.capacity.val = n := hn _ ht.capacity_mem
    have hpos := c.capacity.property
    have hkeys := c.length_keys
    rw [← length_keys, keys_store_of_not_mem hk]
    simp only [note, hk, if_false, List.length_append, List.length_singleton]
    split
    · omega
    · rw [List.length_tail]
      omega
  written {e} he := by
    rw [store_of_not_mem hk] at he
    apply ht.written_note
    rcases List.mem_append.1 he with he | he
    · have hmem : e ∈ c.entries := mem_of_mem_makeRoom he
      refine .inl ⟨hmem, ?_⟩
      rintro rfl
      exact hk (List.mem_map_of_mem hmem)
    · exact .inr (List.mem_singleton.1 he)

/-- A new capacity that is not exceeded leaves the keys alone. -/
theorem Tells.resize (ht : h.Tells c) :
    (h.note c (.resize n)).Tells { c with capacity := n } where
  keys_suffix := ht.keys_suffix
  capacity_mem := List.mem_append_right _ (List.mem_singleton_self n)
  size_eq hn := ht.size_eq fun m hm => hn m (List.mem_append_left _ hm)
  written he := ht.written he

theorem Tells.perform (ht : h.Tells c) : (h.note c (c.effect step)).Tells (c.perform step).2 := by
  rw [perform_snd]
  cases c.effect step with
  | nothing => exact ht
  | write key value =>
    by_cases hk : key ∈ c.keys
    · exact ht.overwrite hk
    · exact ht.insert hk
  | resize capacity => exact ht.resize
  | empty capacity => exact tells_empty

theorem Tells.performAll (ht : h.Tells c) : (h.noteAll c steps).Tells (c.performAll steps).2 := by
  induction steps generalizing c h with
  | nil => exact ht
  | cons step steps ih => exact ih ht.perform

theorem Tells.keys_eq {n : Nat} (ht : h.Tells c) (hn : h.Steady n) :
    c.keys = h.inserted.rtake (min n h.inserted.length) := by
  rw [List.rtake, ← ht.size_eq hn, ← length_keys]
  exact List.suffix_iff_eq_drop.1 ht.keys_suffix

theorem Tells.get? {v : V} (ht : h.Tells c) (hv : c.get? key = some v) :
    h.written? key = some v :=
  ht.written (mem_of_get? hv)

end History

/-- After every run the keys are the last ones that were new when they were written, as many as
there may be if the capacity was always the same; and a key has a value if it is one of them, the
one that was last written. -/
theorem first_in_first_out (n : Capacity) (steps : List (Step V E)) :
    let c := ((empty n).performAll steps).2
    let h := History.ofRun n steps
    c.keys <:+ h.inserted ∧
    (∀ m, h.Steady m → c.keys = h.inserted.rtake (min m h.inserted.length)) ∧
    ∀ key, ((c.get? key).isSome ↔ key ∈ c.keys) ∧ ∀ v ∈ c.get? key, h.written? key = some v := by
  intro c h
  have ht : h.Tells c := History.tells_fresh.performAll
  refine ⟨ht.keys_suffix, fun m hm => ht.keys_eq hm, fun key => ⟨isSome_get?_iff, ?_⟩⟩
  intro v hv
  exact ht.get? hv

/-- A cache that is emptied because it holds too much, and is then driven on by new keys: neither a
hit nor an overwritten value nor a computation that stops short moves a key, and one that had to go
comes back as the last one. -/
theorem first_in_first_out_returning :
    let steps : List (Step Nat String) := [.store "x" 0, .store "y" 0, .store "z" 0,
      .configure ⟨2, by decide⟩, .store "a" 1, .fetch "b" (.ok 2), .store "a" 10,
      .fetch "a" (.ok 100), .fetch "c" (.error .crash), .fetch "c" (.error (.failure "none")),
      .fetch "c" (.ok 3), .get "b", .store "a" 4]
    let c := ((empty ⟨3, by decide⟩).performAll steps).2
    let h := History.ofRun ⟨3, by decide⟩ steps
    h.inserted = ["a", "b", "c", "a"] ∧ h.Steady 2 ∧
      c.keys = h.inserted.rtake (min 2 h.inserted.length) ∧ c.keys = ["c", "a"] ∧
      c.get? "a" = some 4 ∧ h.written? "a" = some 4 := by
  intro steps c h
  obtain ⟨-, hkeys, hget⟩ := first_in_first_out ⟨3, by decide⟩ steps
  have hwritten : h.written? "a" = some 4 := (hget "a").2 4 (by decide)
  exact ⟨by decide, by decide, hkeys 2 (by decide), by decide, by decide, hwritten⟩

end QueryLabel.Cache
