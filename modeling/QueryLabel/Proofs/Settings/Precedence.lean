import QueryLabel.Settings
import Mathlib.Control.Monad.Basic

/-! Which source the capacity comes from. The variable comes first. Of the files only one is heard:
the one in the working directory where it is there, even if it assigns nothing, and else the one in
the home directory. -/

namespace QueryLabel.Settings

variable {s s' : Settings} {text : String} {file : Option (Except ReadError String)}
  {value : Option String} {sources : Sources}

/-- The capacity that a file assigns, if it is there and assigns one. -/
def assignedBy : Option (Except ReadError String) → Option Capacity
  | some (.ok text) => ((Toml.parse? text).bind assigned).join
  | _ => none

/-- The capacity that the variable gives, if it is set. -/
def givenBy (value : Option String) : Option Capacity :=
  value.bind fun raw => (Capacity.read (Charset.trim raw.toList)).toOption

/-- The capacity of the highest source that gives one: the variable, then the file in the working
directory, then the file in the home directory. -/
def Sources.ranked (sources : Sources) : Capacity :=
  ((givenBy sources.environment).or
    ((assignedBy sources.here).or (assignedBy sources.home))).getD .standard

/-- No variable is set, and the file in the working directory assigns nothing but keeps the one in
the home directory, which does, from being heard. -/
structure Sources.Hides (sources : Sources) : Prop where
  unset : givenBy sources.environment = none
  present : sources.here.isSome
  silent : assignedBy sources.here = none
  hidden : (assignedBy sources.home).getD .standard ≠ .standard

theorem capacity_ofToml (h : ofToml text = .ok s) :
    s.capacity = (assignedBy (some (.ok text))).getD .standard := by
  unfold ofToml at h
  split at h
  · next capacity hassigned =>
    cases h
    rw [assignedBy, hassigned]
    rfl
  · cases h

theorem capacity_replace (h : s.replace file = .ok s') :
    s'.capacity = if file.isSome then (assignedBy file).getD .standard else s.capacity := by
  match file, h with
  | none, h =>
    cases h
    rfl
  | some (.ok text), h => exact capacity_ofToml h
  | some (.error _), h => cases h

theorem capacity_overrideWith (h : s.overrideWith value = .ok s') :
    s'.capacity = (givenBy value).getD s.capacity := by
  cases value with
  | none =>
    cases h
    rfl
  | some raw =>
    rw [overrideWith_some] at h
    cases hgiven : given raw with
    | ok capacity =>
      rw [hgiven] at h
      cases h
      simp [givenBy, given_eq_ok_iff.1 hgiven, Except.toOption]
    | error e =>
      rw [hgiven] at h
      cases h

theorem bind_eq_ok {x : Except Error Settings} {f : Settings → Except Error Settings}
    (h : x >>= f = .ok s) : ∃ s', x = .ok s' ∧ f s' = .ok s := by
  cases x with
  | error e => cases h
  | ok s' => exact ⟨s', rfl, h⟩

/-- The capacity that settings come to have. -/
theorem capacity_load (h : load sources = .ok s) :
    s.capacity = ((givenBy sources.environment).or
      (assignedBy (sources.here.or sources.home))).getD .standard := by
  obtain ⟨s₁, hhome, h⟩ := bind_eq_ok h
  obtain ⟨s₂, hhere, h⟩ := bind_eq_ok h
  rw [capacity_overrideWith h, capacity_replace hhere, capacity_replace hhome]
  cases hg : givenBy sources.environment with
  | some capacity => rfl
  | none =>
    cases sources.here with
    | some file => simp
    | none => cases sources.home <;> simp [assignedBy]

theorem capacity_eq_ranked_iff (h : load sources = .ok s) :
    s.capacity = sources.ranked ↔ ¬ sources.Hides := by
  rw [capacity_load h, Sources.ranked]
  constructor
  · rintro heq ⟨hunset, hpresent, hsilent, hhidden⟩
    obtain ⟨file, hfile⟩ := Option.isSome_iff_exists.1 hpresent
    rw [hunset, hsilent, hfile, Option.some_or, ← hfile, hsilent] at heq
    exact hhidden heq.symm
  · intro hnot
    cases hunset : givenBy sources.environment with
    | some capacity => rfl
    | none =>
      cases hfile : sources.here with
      | none => rfl
      | some file =>
        cases hsilent : assignedBy (some file) with
        | some capacity => simp [hsilent]
        | none =>
          have hhidden : (assignedBy sources.home).getD .standard = .standard := by
            by_contra hne
            exact hnot ⟨hunset, by rw [hfile]; rfl, by rw [hfile]; exact hsilent, hne⟩
          simpa [hsilent] using hhidden.symm

/-- A file that assigns nothing takes the place of one that does, and so what is left is the
standard value. -/
theorem silent_file_hides_home :
    let text := Bytes.ofString
    let here : Bytes × Node := (text localFile, .file (text "# nothing is set here\n"))
    let home : Bytes × Node := (text "home", .directory [(text ".config", .directory
      [(text "sql-query-summary", .directory
        [(text "config.toml", .file (text "[cache]\nmax_entries = 500\n"))])])])
    let w : World := ⟨.directory [here, home], [], [("HOME", text "/home")], []⟩
    load (.ofWorld w) = .ok ⟨.standard⟩ ∧ (Sources.ofWorld w).ranked = ⟨500, by decide⟩ := by
  intro text here home w
  exact ⟨by decide +kernel, by decide +kernel⟩

/-- Settings take their capacity from the variable if it is set, else from the file in the working
directory if it is there, else from the one in the home directory. This is the highest source that
gives one, unless a silent file hides another. -/
theorem capacity_ofWorld (w : World) (h : load (.ofWorld w) = .ok s) :
    let sources := Sources.ofWorld w
    s.capacity = ((givenBy sources.environment).or
      (assignedBy (sources.here.or sources.home))).getD .standard ∧
    (s.capacity = sources.ranked ↔ ¬ sources.Hides) :=
  ⟨capacity_load h, capacity_eq_ranked_iff h⟩

/-- The file in the working directory assigns a capacity in a list, and the variable is not set,
since its value is no text. -/
theorem capacity_ofWorld_list :
    let text := Bytes.ofString
    let here : Bytes × Node := (text localFile, .file (text "cache = [5]"))
    let home : Bytes × Node := (text ".config", .directory [(text "sql-query-summary", .directory
      [(text "config.toml", .file (text "[cache]\nmax_entries = 500\n"))])])
    let w : World := ⟨.directory [here, home], [], [("HOME", []), (variableName, [255])], []⟩
    let sources := Sources.ofWorld w
    let s : Settings := ⟨⟨5, by decide⟩⟩
    load sources = .ok s ∧
      s.capacity = ((givenBy sources.environment).or
        (assignedBy (sources.here.or sources.home))).getD .standard ∧
      (s.capacity = sources.ranked ↔ ¬ sources.Hides) := by
  intro text here home w sources s
  have hload : load sources = .ok s := by decide +kernel
  exact ⟨hload, capacity_ofWorld w hload⟩

end QueryLabel.Settings
