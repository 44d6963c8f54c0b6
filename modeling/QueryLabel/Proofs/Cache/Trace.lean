import QueryLabel.Proofs.Cache.Effect

/-! Operations that leave no trace. What reads a cache, finds its key or stops short may be left out
of a run, and nothing else in the run can tell. -/

namespace QueryLabel.Cache

variable {V E : Type} {c : Cache V} {step : Step V E} {steps : List (Step V E)}

/-- Whether an operation has left a trace, as far as its answer tells. A fetch has left none if it
computed nothing, or if what it computed came to nothing. -/
def leavesTrace : Step V E × Reply V E → Bool
  | (.get _, _) => false
  | (.keys, _) => false
  | (.fetch _ _, .fetched (.ok _) computed) => computed != 0
  | (.fetch _ _, _) => false
  | _ => true

/-- The operations of a run with their answers. -/
def transcript (c : Cache V) (steps : List (Step V E)) : List (Step V E × Reply V E) :=
  steps.zip (c.performAll steps).1

theorem transcript_cons :
    c.transcript (step :: steps) =
      (step, (c.perform step).1) :: (c.perform step).2.transcript steps := rfl

theorem effect_of_not_leavesTrace (h : leavesTrace (step, (c.perform step).1) = false) :
    c.effect step = .nothing := by
  cases step with
  | fetch key outcome =>
    cases outcome with
    | error stop => rfl
    | ok value =>
      rw [perform_fetch] at h
      by_cases hk : key ∈ c.keys
      · exact if_pos hk
      · simp [leavesTrace, answer, get?_eq_none_iff.2 hk, hk] at h
  | get key => rfl
  | keys => rfl
  | store key value => cases h
  | configure capacity => cases h
  | clear => cases h

theorem performAll_filter_leavesTrace :
    c.performAll (((c.transcript steps).filter leavesTrace).map Prod.fst) =
      (((c.transcript steps).filter leavesTrace).map Prod.snd, (c.performAll steps).2) := by
  induction steps generalizing c with
  | nil => rfl
  | cons step steps ih =>
    rw [transcript_cons, List.filter_cons]
    split
    · simp only [List.map_cons, performAll, ih]
    · next h =>
      have hc : (c.perform step).2 = c := by
        rw [perform_snd, effect_of_not_leavesTrace (by simpa using h)]
        rfl
      simp only [performAll, hc]
      exact ih

theorem length_performAll : (c.performAll steps).1.length = steps.length := by
  induction steps generalizing c with
  | nil => rfl
  | cons step steps ih => exact congrArg Nat.succ ih

theorem getElem?_performAll_append {before after : List (Step V E)} :
    (c.performAll (before ++ step :: after)).1[before.length]? =
      some ((c.performAll before).2.perform step).1 := by
  have hlength : (c.performAll before).1.length = before.length := length_performAll
  rw [performAll_append, ← hlength, List.getElem?_append_right (Nat.le_refl _), Nat.sub_self]
  rfl

/-- Left to themselves, the operations of a run that left a trace answer as they did and lead to the
same cache. In the whole run a fetch computes where its key is absent at that time, and then
once. -/
theorem traceless_operations_vanish (c : Cache V) :
    (∀ steps : List (Step V E),
      let kept := (c.transcript steps).filter leavesTrace
      c.performAll (kept.map Prod.fst) = (kept.map Prod.snd, (c.performAll steps).2)) ∧
    ∀ (before after : List (Step V E)) (key : String) (outcome : Except (Stop E) V),
      let c' := (c.performAll before).2
      (c.performAll (before ++ .fetch key outcome :: after)).1[before.length]? =
        some (.fetched (c'.answer key outcome) (if key ∈ c'.keys then 0 else 1)) := by
  refine ⟨fun steps => performAll_filter_leavesTrace, ?_⟩
  intro before after key outcome c'
  rw [getElem?_performAll_append, perform_fetch]

end QueryLabel.Cache
