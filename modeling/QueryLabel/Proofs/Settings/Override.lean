import QueryLabel.Settings
import QueryLabel.Proofs.Capacity

/-! Overriding the capacity by text. What gives a capacity sets it, and all else changes nothing and
is told with the text as it came; so of many texts the last one that gives a capacity counts. -/

namespace QueryLabel.Settings
open Capacity (Gives)

variable {s : Settings} {raw : String} {raws raws' : List String} {capacity : Capacity}

/-- A text that gives no capacity. -/
def Refused (raw : String) : Prop :=
  ∀ capacity, ¬ Gives raw capacity

/-- The settings after texts were attempted in turn. -/
def settled (s : Settings) (raws : List String) : Settings :=
  ((s.attemptAll raws).map Prod.snd).getLastD s

theorem attempt_eq_iff :
    s.attempt raw = (none, { s with capacity }) ↔ Gives raw capacity := by
  rw [← Capacity.read_trim_eq_ok_iff, ← given_eq_ok_iff]
  cases h : given raw with
  | ok given => simp [attempt_of_ok h]
  | error e => simp [attempt_of_error h]

theorem attempt_of_refused (h : Refused raw) :
    ∃ reason, s.attempt raw = (some (.invalidVariable raw reason), s) := by
  cases hgiven : given raw with
  | ok capacity =>
    have hgives := Capacity.read_trim_eq_ok_iff.1 (given_eq_ok_iff.1 hgiven)
    exact absurd hgives (h capacity)
  | error e =>
    obtain ⟨reason, rfl⟩ := exists_of_given_eq_error hgiven
    exact ⟨reason, attempt_of_error hgiven⟩

theorem settled_cons : s.settled (raw :: raws) = (s.attempt raw).2.settled raws := by
  rw [settled, attemptAll, List.map_cons, List.getLastD_cons]
  rfl

theorem settled_append : s.settled (raws ++ raws') = (s.settled raws).settled raws' := by
  induction raws generalizing s with
  | nil => rfl
  | cons raw raws ih => rw [List.cons_append, settled_cons, settled_cons, ih]

theorem settled_of_refused (h : ∀ raw ∈ raws, Refused raw) : s.settled raws = s := by
  induction raws with
  | nil => rfl
  | cons raw raws ih =>
    obtain ⟨hraw, hraws⟩ := List.forall_mem_cons.1 h
    obtain ⟨reason, hattempt⟩ := attempt_of_refused (s := s) hraw
    rw [settled_cons, hattempt]
    exact ih hraws

theorem settled_of_gives (hgives : Gives raw capacity) (h : ∀ raw ∈ raws', Refused raw) :
    s.settled (raws ++ raw :: raws') = { s with capacity } := by
  rw [settled_append, settled_cons, attempt_eq_iff.2 hgives, settled_of_refused h]

/-- A text overrides the capacity just if it gives one, and that is the new capacity then. Any other
text leaves the settings alone and is quoted as it came by the error. So after any texts the
capacity is that of the last one that gives one, or what it was if none does. -/
theorem attempt_overrides (s : Settings) :
    (∀ raw capacity, s.attempt raw = (none, { s with capacity }) ↔ Gives raw capacity) ∧
    (∀ raw, Refused raw → ∃ reason,
      let e := Error.invalidVariable raw reason
      s.attempt raw = (some e, s) ∧ e.fault.category = .badRequest ∧
        e.fault = .settings ("Invalid SQL_SUMMARY_CACHE_SIZE '" ++ raw ++
          "': expected a positive integer (" ++ reason.message ++ ")")) ∧
    (∀ raws, (∀ raw ∈ raws, Refused raw) → s.settled raws = s) ∧
    ∀ before raw after capacity, Gives raw capacity → (∀ raw ∈ after, Refused raw) →
      s.settled (before ++ raw :: after) = { s with capacity } := by
  refine ⟨fun raw capacity => attempt_eq_iff, ?_, fun raws => settled_of_refused,
    fun before raw after capacity => settled_of_gives⟩
  intro raw h
  obtain ⟨reason, hattempt⟩ := attempt_of_refused h
  exact ⟨reason, hattempt, rfl, rfl⟩

/-- The greatest capacity, with a plus sign and zeros between an ideographic space and a line
separator, and then a number that is too large by one and a zero. -/
theorem attempt_overrides_greatest :
    let s : Settings := {}
    let greatest : Capacity := ⟨18446744073709551615, by decide⟩
    let raw := "\u3000+0018446744073709551615\u2028"
    Gives raw greatest ∧ s.attempt raw = (none, { s with capacity := greatest }) ∧
      Refused "18446744073709551616" ∧
      (∃ reason, let e := Error.invalidVariable "18446744073709551616" reason
        s.attempt "18446744073709551616" = (some e, s) ∧ e.fault.category = .badRequest ∧
          e.fault = .settings ("Invalid SQL_SUMMARY_CACHE_SIZE '" ++ "18446744073709551616" ++
            "': expected a positive integer (" ++ reason.message ++ ")")) ∧
      Refused " 0\n" ∧ s.settled ["18446744073709551616"] = s ∧
      s.settled (["7"] ++ raw :: ["18446744073709551616", " 0\n"]) =
        { s with capacity := greatest } := by
  intro s greatest raw
  obtain ⟨hgiven, hrefused, hnone, hlast⟩ := attempt_overrides s
  have hread (raw : String) (reason : Capacity.ReadError)
      (h : Capacity.read (Charset.trim raw.toList) = .error reason) : Refused raw := by
    intro capacity hgives
    rw [Capacity.read_trim_eq_ok_iff.2 hgives] at h
    cases h
  have hgreatest : Gives raw greatest := Capacity.read_trim_eq_ok_iff.1 (by decide)
  have hlarge : Refused "18446744073709551616" := hread _ .tooLarge (by decide)
  have hzero : Refused " 0\n" := hread _ .zero (by decide)
  exact ⟨hgreatest, (hgiven raw greatest).2 hgreatest, hlarge, hrefused _ hlarge, hzero,
    hnone _ (by simp [hlarge]), hlast ["7"] raw _ greatest hgreatest (by simp [hlarge, hzero])⟩

end QueryLabel.Settings
