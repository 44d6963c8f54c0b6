import QueryLabel.Proofs.Cache.Effect
import Mathlib.Data.List.Nodup

/-! The bounds of a cache. It never holds a key twice, nor more keys than it may, since an operation
brings in one new key at most, for which the oldest one goes if there is no room. -/

namespace QueryLabel.Cache

/-- How the keys change where there is room for `n` and they are not all given up. -/
inductive Turnover (n : Nat) : List String → List String → Prop
  | kept (keys : List String) : Turnover n keys keys
  | added {key : String} {keys : List String} (hk : key ∉ keys) (hroom : keys.length < n) :
    Turnover n keys (keys ++ [key])
  | replaced {key oldest : String} {keys : List String} (hk : key ∉ oldest :: keys)
    (hfull : n ≤ (oldest :: keys).length) : Turnover n (oldest :: keys) (keys ++ [key])

/-- No key is held twice, and no more keys than there may be. -/
structure Bounded {V : Type} (c : Cache V) : Prop where
  nodup : c.keys.Nodup
  size_le : c.size ≤ c.capacity

variable {V E : Type} {c : Cache V} {keys keys' : List String} {key : String} {value : V}
  {n : Nat} {step : Step V E} {steps : List (Step V E)}

theorem Turnover.nodup (h : Turnover n keys keys') (hkeys : keys.Nodup) : keys'.Nodup := by
  cases h with
  | kept => exact hkeys
  | added hk _ => exact List.nodup_append_comm.1 (hkeys.cons hk)
  | replaced hk _ =>
    have hrest := hkeys.of_cons.cons fun hmem => hk (List.mem_cons_of_mem _ hmem)
    exact List.nodup_append_comm.1 hrest

theorem Turnover.length_le (h : Turnover n keys keys') (hkeys : keys.length ≤ n) :
    keys'.length ≤ n := by
  cases h with
  | kept => exact hkeys
  | added _ hroom =>
    rw [List.length_append]
    exact hroom
  | replaced _ _ => simpa using hkeys

theorem turnover_store : Turnover c.capacity c.keys (c.store key value).keys := by
  by_cases hk : key ∈ c.keys
  · rw [keys_store_of_mem hk]
    exact .kept _
  · rw [keys_store_of_not_mem hk]
    split
    · next hroom => exact .added hk (by rwa [length_keys])
    · next hfull =>
      -- There is room for one key at least, so a cache that is full holds an oldest one.
      have hpos := c.capacity.property
      have hlength := c.length_keys
      cases hkeys : c.keys with
      | nil =>
        rw [hkeys, List.length_nil] at hlength
        omega
      | cons oldest keys => exact .replaced (hkeys ▸ hk) (by rw [← hkeys]; omega)

/-- Whether an operation gives up all keys. -/
def empties (c : Cache V) : Step V E → Bool
  | .clear => true
  | .configure capacity => capacity < c.size
  | _ => false

theorem empties_iff : c.empties step ↔ ∃ capacity, c.effect step = .empty capacity := by
  cases step with
  | fetch key outcome =>
    obtain he | ⟨value, he⟩ := @effect_fetch V E c key outcome
    all_goals simp [empties, he]
  | configure capacity =>
    by_cases h : capacity < c.size <;> simp [empties, effect, h]
  | _ => simp [empties, effect]

theorem keys_perform : if c.empties step then (c.perform step).2.keys = []
    else Turnover c.capacity c.keys (c.perform step).2.keys := by
  rw [perform_snd]
  split
  · next h =>
    obtain ⟨capacity, he⟩ := empties_iff.1 h
    rw [he]
    rfl
  · next h =>
    cases he : c.effect step with
    | nothing => exact .kept _
    | write key value => exact turnover_store
    | resize capacity => exact .kept _
    | empty capacity => exact absurd (empties_iff.2 ⟨capacity, he⟩) h

/-- The capacity that an operation chooses. -/
def Step.capacity? : Step V E → Option Capacity
  | .configure capacity => some capacity
  | _ => none

theorem capacity_perform : (c.perform step).2.capacity = step.capacity?.getD c.capacity := by
  cases step with
  | store key value => exact capacity_store
  | fetch key outcome =>
    rw [perform_snd]
    obtain he | ⟨value, he⟩ := effect_fetch
    · rw [he]
      rfl
    · rw [he]
      exact capacity_store
  | configure capacity => exact capacity_configure
  | _ => rfl

/-- The capacity is the one that was chosen last. -/
theorem capacity_performAll :
    (c.performAll steps).2.capacity = (steps.filterMap Step.capacity?).getLastD c.capacity := by
  induction steps generalizing c with
  | nil => rfl
  | cons step steps ih =>
    change ((c.perform step).2.performAll steps).2.capacity = _
    rw [ih, capacity_perform, List.filterMap_cons]
    cases step.capacity? with
    | none => rfl
    | some capacity => exact (List.getLastD_cons ..).symm

/-- Entries that exceed a new capacity are not kept. -/
theorem size_le_of_resize {capacity : Capacity} (h : c.effect step = .resize capacity) :
    c.size ≤ capacity := by
  cases step with
  | configure chosen =>
    simp only [effect] at h
    split at h
    · cases h
    · next hsize =>
      cases h
      exact Nat.le_of_not_lt hsize
  | fetch key outcome =>
    obtain he | ⟨value, he⟩ := @effect_fetch V E c key outcome
    all_goals
      rw [he] at h
      cases h
  | _ => cases h

theorem bounded_empty (capacity : Capacity) : (empty capacity : Cache V).Bounded where
  nodup := List.nodup_nil
  size_le := Nat.zero_le _

theorem Bounded.insert (h : c.Bounded) : (c.store key value).Bounded where
  nodup := turnover_store.nodup h.nodup
  size_le := by
    rw [capacity_store, ← length_keys]
    exact turnover_store.length_le (by rw [length_keys]; exact h.size_le)

theorem Bounded.perform (h : c.Bounded) : (c.perform step).2.Bounded := by
  rw [perform_snd]
  cases he : c.effect step with
  | nothing => exact h
  | write key value => exact h.insert
  | resize capacity =>
    have hsize := size_le_of_resize he
    exact ⟨h.nodup, hsize⟩
  | empty capacity => exact bounded_empty capacity

theorem Bounded.performAll (h : c.Bounded) : (c.performAll steps).2.Bounded := by
  induction steps generalizing c with
  | nil => exact h
  | cons step steps ih => exact ih h.perform

/-- After every run the keys are distinct and no more than there may be, and the capacity is the one
that was chosen last. The operation after it either gives up all keys, or brings in one key at most,
for which the oldest one goes only where there is no room. -/
theorem keys_within_capacity (n : Capacity) (steps : List (Step V E)) :
    let c := ((empty n).performAll steps).2
    c.keys.Nodup ∧ c.size = c.keys.length ∧ c.size ≤ c.capacity ∧
    c.capacity = (steps.filterMap Step.capacity?).getLastD n ∧
    ∀ step : Step V E, if c.empties step then (c.perform step).2.keys = []
      else Turnover c.capacity c.keys (c.perform step).2.keys := by
  intro c
  have hc : c.Bounded := (bounded_empty n).performAll
  exact ⟨hc.nodup, length_keys.symm, hc.size_le, capacity_performAll, fun _ => keys_perform⟩

end QueryLabel.Cache
