import QueryLabel.Cache.Run

/-! What an operation does to a cache. Whatever it answers, it does one of four things. -/

namespace QueryLabel.Cache

variable {V E : Type} {c : Cache V} {key : String} {outcome : Except (Stop E) V} {step : Step V E}

/-- What can be done to a cache. -/
inductive Effect (V : Type)
  | nothing
  | write (key : String) (value : V)
  | resize (capacity : Capacity)
  | empty (capacity : Capacity)

/-- What an operation does. A fetch writes the value that it computed, and a capacity that is
exceeded empties the cache. -/
def effect (c : Cache V) : Step V E → Effect V
  | .store key value => .write key value
  | .fetch key (.ok value) => if key ∈ c.keys then .nothing else .write key value
  | .fetch _ (.error _) => .nothing
  | .get _ => .nothing
  | .keys => .nothing
  | .configure capacity => if capacity < c.size then .empty capacity else .resize capacity
  | .clear => .empty c.capacity

def Effect.apply (c : Cache V) : Effect V → Cache V
  | nothing => c
  | write key value => c.store key value
  | resize capacity => { c with capacity }
  | empty capacity => .empty capacity

/-- What a fetch answers: the value that is there, or else what the computation gives. -/
def answer (c : Cache V) (key : String) (outcome : Except (Stop E) V) : Except (Stop E) V :=
  match c.get? key with
  | some value => .ok value
  | none => outcome

theorem effect_fetch :
    c.effect (.fetch key outcome) = .nothing ∨
      ∃ value, c.effect (.fetch key outcome) = .write key value := by
  cases outcome with
  | error stop => exact .inl rfl
  | ok value =>
    by_cases hk : key ∈ c.keys
    · exact .inl (if_pos hk)
    · exact .inr ⟨value, if_neg hk⟩

/-- A fetch computes where its key is absent, and then once. -/
theorem perform_fetch :
    c.perform (.fetch key outcome) =
      (.fetched (c.answer key outcome) (if key ∈ c.keys then 0 else 1),
        (c.effect (.fetch key outcome)).apply c) := by
  cases hg : c.get? key with
  | some value =>
    have hk : key ∈ c.keys := mem_keys_of_get? hg
    cases outcome <;> simp [perform, fetchTally_of_some hg, answer, hg, effect, Effect.apply, hk]
  | none =>
    have hk : key ∉ c.keys := get?_eq_none_iff.1 hg
    cases outcome with
    | ok value =>
      simp [perform, fetchTally_of_none_ok hg, answer, hg, effect, Effect.apply, hk]
    | error stop =>
      simp [perform, fetchTally_of_none_error hg, answer, hg, effect, Effect.apply, hk]

theorem perform_snd : (c.perform step).2 = (c.effect step).apply c := by
  cases step with
  | store key value => rfl
  | fetch key outcome => rw [perform_fetch]
  | get key => rfl
  | keys => rfl
  | configure capacity =>
    simp only [perform, configure, effect]
    split <;> rfl
  | clear => rfl

end QueryLabel.Cache
