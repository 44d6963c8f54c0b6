import QueryLabel.Cache.Basic

/-! Caches whose entries are all values of one function. Every operation keeps them so, as long as
what is stored is a value of that function too. -/

namespace QueryLabel.Cache

variable {V : Type} {f : String → V} {c : Cache V} {key : String} {value : V} {n : Capacity}

/-- Each entry holds what `f` makes of its key. -/
def Holds (f : String → V) (c : Cache V) : Prop :=
  ∀ e ∈ c.entries, e.2 = f e.1

theorem holds_empty : Holds f (empty n) := by
  simp [Holds, empty]

theorem Holds.get? (h : Holds f c) (hv : c.get? key = some value) : value = f key :=
  h (key, value) (mem_of_get? hv)

theorem Holds.overwrite (h : Holds f c) : ∀ e ∈ overwrite key (f key) c.entries, e.2 = f e.1 := by
  intro e he
  obtain ⟨e', he', rfl⟩ := List.mem_map.1 he
  split
  · next hk => rw [eq_of_beq hk]
  · exact h e' he'

theorem Holds.makeRoom (h : Holds f c) : ∀ e ∈ c.makeRoom, e.2 = f e.1 := by
  intro e he
  exact h e (mem_of_mem_makeRoom he)

theorem Holds.store (h : Holds f c) : Holds f (c.store key (f key)) := by
  unfold Cache.store
  split
  · exact h.overwrite
  · intro e he
    rcases List.mem_append.1 he with he | he
    · exact h.makeRoom e he
    · obtain rfl := List.mem_singleton.1 he
      rfl

/-- Fetching gives the value of the function, whether it was stored or not. -/
theorem Holds.fetch (h : Holds f c) :
    (c.fetch key fun _ => f key).1 = f key ∧ Holds f (c.fetch key fun _ => f key).2 := by
  cases hg : c.get? key with
  | some value =>
    rw [fetch_of_some hg]
    exact ⟨h.get? hg, h⟩
  | none =>
    rw [fetch_of_none hg]
    exact ⟨rfl, h.store⟩

theorem Holds.configure (h : Holds f c) : Holds f (c.configure n) := by
  unfold Cache.configure
  split
  · exact holds_empty
  · exact h

theorem Holds.clear : Holds f c.clear :=
  holds_empty

end QueryLabel.Cache
