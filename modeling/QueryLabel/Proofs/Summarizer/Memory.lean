import QueryLabel.Proofs.Cache.Holds
import QueryLabel.Proofs.Cache.Room
import QueryLabel.Summarizer

/-! The memory of a summarizer. A batch is a run of fetches; so where there is room for all of its
texts, each of them is summarized once and remembered, in the order in which they first came. -/

namespace QueryLabel
open Cache

variable {V E : Type}

namespace Summarizer

variable {s : Summarizer} {texts : List String}

/-- The fetches of a batch. No summary stops short. -/
def fetches (texts : List String) : List (Step String Empty) :=
  texts.map fun sql => .fetch sql (.ok (Summary.ofQuery sql))

theorem summarize_snd (sql : String) : (s.summarize sql).2 =
    (s.perform (.fetch sql (.ok (Summary.ofQuery sql)) : Step String Empty)).2 := by
  cases hg : s.get? sql with
  | some summary =>
    rw [summarize, fetch_of_some hg, perform, fetchTally_of_some hg]
  | none =>
    rw [summarize, fetch_of_none hg, perform, fetchTally_of_none_ok hg]

theorem batch_snd : (s.batch texts).2 = (s.performAll (fetches texts)).2 := by
  induction texts generalizing s with
  | nil => rfl
  | cons sql texts ih =>
    change ((s.summarize sql).2.batch texts).2 = _
    rw [ih, summarize_snd]
    rfl

theorem keeps_fetches (texts : List String) : ∀ step ∈ fetches texts, step.keeps := by
  intro step hstep
  obtain ⟨sql, -, rfl⟩ := List.mem_map.1 hstep
  rfl

theorem writes_fetches (texts : List String) : (fetches texts).filterMap Step.writes? = texts := by
  rw [fetches, List.filterMap_map]
  exact List.filterMap_some

end Summarizer

/-- Where a run writes no more distinct keys than there may be, nothing is forgotten, however many
keys it only asks for. At any time the keys are those written so far, in the order in which they
first were, and they stay; and for each key one value is computed at most. So a batch leaves its
texts without the later duplicates. -/
theorem remembers_within_capacity (n : Capacity) :
    (∀ steps : List (Step V E), (∀ step ∈ steps, step.keeps) →
      (steps.filterMap Step.writes?).eraseDups.length ≤ n →
      (∀ before after, before ++ after <+: steps →
        let c := ((empty n).performAll before).2
        c.keys = (before.filterMap Step.writes?).eraseDups ∧
        c.keys <+: ((empty n).performAll (before ++ after)).2.keys) ∧
      ∀ key, (((empty n).transcript steps).map (completions key)).sum ≤ 1) ∧
    ∀ texts : List String, texts.eraseDups.length ≤ n →
      (Summarizer.batch (empty n) texts).2.keys = texts.eraseDups := by
  refine ⟨fun steps hkeeps hroom => ⟨?_, ?_⟩, ?_⟩
  · intro before after hprefix c
    have hbefore := remembers_performAll hkeeps hroom ((List.prefix_append _ _).trans hprefix)
    have hafter := remembers_performAll hkeeps hroom hprefix
    refine ⟨hbefore.keys_eq, ?_⟩
    rw [hafter.keys_eq, hbefore.keys_eq, List.filterMap_append]
    exact eraseDups_prefix_append _ _
  · intro key
    refine (remembers_empty hroom).sum_completions_le hkeeps ?_
    intro k hk
    exact List.mem_eraseDups.2 hk
  · intro texts htexts
    rw [← Summarizer.writes_fetches texts] at htexts
    have h := remembers_performAll (Summarizer.keeps_fetches texts) htexts List.prefix_rfl
    rw [Summarizer.batch_snd, h.keys_eq, Summarizer.writes_fetches]

/-- Two keys in a cache for two: computations that stop short, for a third key too, a hit, and
values written again where there is no room left. -/
theorem remembers_within_capacity_full :
    let n : Capacity := ⟨2, by decide⟩
    let steps : List (Step Nat String) := [.fetch "b" (.error .crash), .fetch "a" (.ok 1),
      .fetch "b" (.error (.failure "none")), .get "c", .fetch "b" (.ok 2), .store "a" 10,
      .fetch "c" (.error .crash), .fetch "b" (.ok 3), .store "b" 4]
    let texts := ["SELECT a FROM t", "DELETE FROM u", "SELECT a FROM t"]
    (∀ step ∈ steps, step.keeps) ∧ (steps.filterMap Step.writes?).eraseDups.length ≤ n ∧
      ((empty n).performAll steps).2.keys = ["a", "b"] ∧
      (((empty n).transcript steps).map (completions "b")).sum ≤ 1 ∧
      texts.eraseDups.length ≤ n ∧ (Summarizer.batch (empty n) texts).2.keys = texts.eraseDups := by
  intro n steps texts
  have hkeeps : ∀ step ∈ steps, step.keeps := by simp [steps, Step.keeps]
  have hroom : (steps.filterMap Step.writes?).eraseDups.length ≤ n := by decide
  have htexts : texts.eraseDups.length ≤ n := by decide
  obtain ⟨hrun, hbatch⟩ := remembers_within_capacity (V := Nat) (E := String) n
  obtain ⟨hkeys, hcompletions⟩ := hrun steps hkeeps hroom
  have hall : ((empty n).performAll steps).2.keys = (steps.filterMap Step.writes?).eraseDups :=
    (hkeys steps [] (by simp)).1
  exact ⟨hkeeps, hroom, hall.trans (by decide), hcompletions "b", htexts, hbatch texts htexts⟩

end QueryLabel
