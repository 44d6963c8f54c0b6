import QueryLabel.Proofs.Cache.Bounded
import QueryLabel.Proofs.Cache.Trace
import Mathlib.Algebra.GroupWithZero.Nat
import Mathlib.Data.List.Perm.Subperm

/-! Caches with room for all that is written. Such a cache forgets nothing: its keys are all that
were written, in the order in which they first were, and each is computed once at most. -/

namespace QueryLabel.Cache

variable {V E : Type} {c : Cache V} {key : String} {value : V} {step : Step V E}
  {steps : List (Step V E)} {room written : List String}

/-- Whether an operation leaves the capacity alone and does not empty the cache. -/
def Step.keeps : Step V E → Bool
  | .configure _ => false
  | .clear => false
  | _ => true

/-- The key that an operation writes if it is absent. A computation that stops short writes
nothing. -/
def Step.writes? : Step V E → Option String
  | .store key _ => some key
  | .fetch key (.ok _) => some key
  | _ => none

/-- How often an operation has computed a value for a key, as its answer tells. A computation that
stops short has come to none. -/
def completions (key : String) : Step V E × Reply V E → Nat
  | (.fetch k _, .fetched (.ok _) computed) => if k = key then computed else 0
  | _ => 0

theorem eraseDups_concat (ks : List String) (key : String) :
    (ks ++ [key]).eraseDups = if key ∈ ks then ks.eraseDups else ks.eraseDups ++ [key] := by
  have hsingle : [key].eraseDups = [key] := rfl
  rw [List.eraseDups_append]
  by_cases h : key ∈ ks <;> simp [List.removeAll, h, hsingle]

theorem eraseDups_prefix_append (ks ks' : List String) :
    ks.eraseDups <+: (ks ++ ks').eraseDups := by
  rw [List.eraseDups_append]
  exact List.prefix_append _ _

theorem writes_cons (step : Step V E) (steps : List (Step V E)) :
    (step :: steps).filterMap Step.writes? =
      step.writes?.toList ++ steps.filterMap Step.writes? := by
  rw [List.filterMap_cons]
  cases step.writes? <;> rfl

/-- The cache holds the keys that were written, and they are among those for which there is room. -/
structure Remembers (room written : List String) (c : Cache V) : Prop where
  bounded : c.Bounded
  keys_eq : c.keys = written.eraseDups
  subset : written ⊆ room
  length_le : room.length ≤ c.capacity

namespace Remembers

theorem mem_keys_iff (h : c.Remembers room written) : key ∈ c.keys ↔ key ∈ written := by
  rw [h.keys_eq, List.mem_eraseDups]

/-- There is room for a key that is absent. -/
theorem size_lt (h : c.Remembers room written) (hroom : key ∈ room) (hk : key ∉ c.keys) :
    c.size < c.capacity := by
  have hnodup : (key :: c.keys).Nodup := h.bounded.nodup.cons hk
  have hsubset : key :: c.keys ⊆ room := by
    refine List.cons_subset.2 ⟨hroom, fun k hmem => ?_⟩
    exact h.subset (h.mem_keys_iff.1 hmem)
  have hlength : (key :: c.keys).length ≤ room.length := (hnodup.subperm hsubset).length_le
  rw [List.length_cons, length_keys] at hlength
  exact Nat.lt_of_lt_of_le hlength h.length_le

theorem keys_store (h : c.Remembers room written) (hroom : key ∈ room) :
    (c.store key value).keys = (written ++ [key]).eraseDups := by
  rw [eraseDups_concat, ← h.keys_eq]
  by_cases hk : key ∈ c.keys
  · rw [keys_store_of_mem hk, if_pos (h.mem_keys_iff.1 hk)]
  · rw [keys_store_of_not_mem hk, if_pos (h.size_lt hroom hk), if_neg (mt h.mem_keys_iff.2 hk)]

theorem keys_perform (h : c.Remembers room written) (hkeeps : step.keeps)
    (hroom : ∀ key ∈ step.writes?, key ∈ room) :
    (c.perform step).2.keys = (written ++ step.writes?.toList).eraseDups := by
  have hsame : c.keys = (written ++ []).eraseDups := by rw [List.append_nil, h.keys_eq]
  rw [perform_snd]
  cases step with
  | store key value => exact h.keys_store (hroom key rfl)
  | fetch key outcome =>
    cases outcome with
    | error stop => exact hsame
    | ok value =>
      change (Effect.apply c (if key ∈ c.keys then .nothing else .write key value)).keys = _
      split
      · next hk =>
        simp only [Step.writes?, Option.toList_some]
        rw [eraseDups_concat, if_pos (h.mem_keys_iff.1 hk)]
        exact h.keys_eq
      · exact h.keys_store (hroom key rfl)
  | get key => exact hsame
  | keys => exact hsame
  | configure capacity => cases hkeeps
  | clear => cases hkeeps

theorem perform (h : c.Remembers room written) (hkeeps : step.keeps)
    (hroom : ∀ key ∈ step.writes?, key ∈ room) :
    (c.perform step).2.Remembers room (written ++ step.writes?.toList) where
  bounded := h.bounded.perform
  keys_eq := h.keys_perform hkeeps hroom
  subset := by
    refine List.append_subset.2 ⟨h.subset, fun key hmem => ?_⟩
    exact hroom key (Option.mem_toList.1 hmem)
  length_le := by
    have hnone : step.capacity? = none := by
      cases step with
      | configure capacity => cases hkeeps
      | _ => rfl
    rw [capacity_perform, hnone]
    exact h.length_le

theorem performAll (h : c.Remembers room written) (hkeeps : ∀ step ∈ steps, step.keeps)
    (hroom : steps.filterMap Step.writes? ⊆ room) :
    (c.performAll steps).2.Remembers room (written ++ steps.filterMap Step.writes?) := by
  induction steps generalizing c written with
  | nil => exact (List.append_nil written).symm ▸ h
  | cons step steps ih =>
    obtain ⟨hstep, hsteps⟩ := List.forall_mem_cons.1 hkeeps
    rw [writes_cons, List.append_subset] at hroom
    have hnext := h.perform hstep fun key hmem => hroom.1 (Option.mem_toList.2 hmem)
    have hlast := ih hnext hsteps hroom.2
    rwa [List.append_assoc, ← writes_cons] at hlast

/-- A value is computed only for a key that was not written before, and then once, and that writes
the key. -/
theorem completions_perform (h : c.Remembers room written) (key : String) (step : Step V E) :
    completions key (step, (c.perform step).1) = 0 ∨
      completions key (step, (c.perform step).1) = 1 ∧ key ∉ written ∧
        step.writes? = some key := by
  cases step with
  | fetch k outcome =>
    rw [perform_fetch]
    cases hg : c.get? k with
    | some v =>
      have hk : k ∈ c.keys := mem_keys_of_get? hg
      exact .inl (by simp [completions, answer, hg, hk])
    | none =>
      have hk : k ∉ c.keys := get?_eq_none_iff.1 hg
      cases outcome with
      | error stop => exact .inl (by simp [completions, answer, hg])
      | ok value =>
        by_cases hkey : k = key
        · subst hkey
          exact .inr ⟨by simp [completions, answer, hg, hk], mt h.mem_keys_iff.2 hk, rfl⟩
        · exact .inl (by simp [completions, answer, hg, hkey])
  | _ => exact .inl rfl

/-- No value is computed for a key that was written before, and one at most for any other. -/
theorem sum_completions_le (h : c.Remembers room written) (hkeeps : ∀ step ∈ steps, step.keeps)
    (hroom : steps.filterMap Step.writes? ⊆ room) :
    ((c.transcript steps).map (completions key)).sum ≤ if key ∈ written then 0 else 1 := by
  induction steps generalizing c written with
  | nil => exact Nat.zero_le _
  | cons step steps ih =>
    obtain ⟨hstep, hsteps⟩ := List.forall_mem_cons.1 hkeeps
    rw [writes_cons, List.append_subset] at hroom
    have hnext := h.perform hstep fun key hmem => hroom.1 (Option.mem_toList.2 hmem)
    have hrest := ih hnext hsteps hroom.2
    rw [transcript_cons, List.map_cons, List.sum_cons]
    rcases h.completions_perform key step with hzero | ⟨hone, hk, hwrites⟩
    · rw [hzero, Nat.zero_add]
      refine Nat.le_trans hrest ?_
      by_cases hk : key ∈ written
      · simp [hk]
      · rw [if_neg hk]
        split <;> simp
    · simp only [hwrites, Option.toList_some, List.mem_append, List.mem_singleton, or_true, if_true]
        at hrest
      -- The key is written now, so the rest of the run computes nothing for it.
      rw [hone, if_neg hk]
      omega

end Remembers

theorem remembers_empty {n : Capacity} (h : room.length ≤ n) :
    (empty n : Cache V).Remembers room [] where
  bounded := bounded_empty n
  keys_eq := rfl
  subset := List.nil_subset room
  length_le := h

/-- A run that writes no more distinct keys than there may be is remembered in full, from its
beginning to any of its operations. -/
theorem remembers_performAll {before : List (Step V E)} {n : Capacity}
    (hkeeps : ∀ step ∈ steps, step.keeps)
    (hroom : (steps.filterMap Step.writes?).eraseDups.length ≤ n) (hbefore : before <+: steps) :
    ((empty n).performAll before).2.Remembers (steps.filterMap Step.writes?).eraseDups
      (before.filterMap Step.writes?) := by
  have hempty : (empty n : Cache V).Remembers (steps.filterMap Step.writes?).eraseDups [] :=
    remembers_empty hroom
  refine hempty.performAll (fun step hmem => hkeeps step (hbefore.subset hmem)) ?_
  intro key hkey
  exact List.mem_eraseDups.2 ((hbefore.filterMap _).subset hkey)

end QueryLabel.Cache
