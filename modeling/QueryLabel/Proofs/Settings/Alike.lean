import QueryLabel.Settings

/-! Settings from sources that differ only in what they set. Whether settings can be had, and why
not, does not depend on the capacities that the sources assign, as long as these are accepted. -/

namespace QueryLabel.Settings

variable {s s' : Settings} {x y : Except Error Settings} {f g : Settings → Except Error Settings}
  {file file' : Option (Except ReadError String)} {raw raw' : Option String} {a b : Sources}

/-- Both are settings, or both are the same error. -/
inductive Similar : Except Error Settings → Except Error Settings → Prop
  | ok (s s' : Settings) : Similar (.ok s) (.ok s')
  | error (e : Error) : Similar (.error e) (.error e)

theorem Similar.bind (h : Similar x y) (hf : ∀ s s', Similar (f s) (g s')) :
    Similar (x >>= f) (y >>= g) := by
  cases h with
  | ok s s' => exact hf s s'
  | error e => exact .error e

theorem Similar.refl (x : Except Error Settings) : Similar x x := by
  cases x with
  | ok s => exact .ok s s
  | error e => exact .error e

theorem Similar.of_isOk (hx : x.isOk) (hy : y.isOk) : Similar x y := by
  cases x with
  | ok s =>
    cases y with
    | ok s' => exact .ok s s'
    | error e => cases hy
  | error e => cases hx

/-- A file replaces whatever was set before. -/
theorem similar_replace (s s' : Settings) : Similar (s.replace file) (s'.replace file) := by
  cases file with
  | none => exact .ok s s'
  | some content => cases content <;> exact .refl _

/-- The variable sets all there is. -/
theorem similar_overrideWith (s s' : Settings) :
    Similar (s.overrideWith raw) (s'.overrideWith raw) := by
  cases raw with
  | none => exact .ok s s'
  | some raw =>
    rw [overrideWith_some, overrideWith_some]
    cases given raw with
    | ok capacity => exact .ok _ _
    | error e => exact .error e

theorem Similar.isOk (h : Similar x y) : x.isOk = y.isOk := by
  cases h <;> rfl

/-- Sources that differ at most in what is accepted. A source that is not there is accepted too. -/
structure Sources.Alike (a b : Sources) : Prop where
  home : a.home = b.home ∨ (replace {} a.home).isOk ∧ (replace {} b.home).isOk
  here : a.here = b.here ∨ (replace {} a.here).isOk ∧ (replace {} b.here).isOk
  environment : a.environment = b.environment ∨
    (overrideWith {} a.environment).isOk ∧ (overrideWith {} b.environment).isOk

/-- Steps that go on alike from all settings, and are the same or both accept, are alike. -/
theorem Similar.of_accepted (hf : ∀ s s', Similar (f s) (f s')) (hg : ∀ s s', Similar (g s) (g s'))
    (h : f = g ∨ (f {}).isOk ∧ (g {}).isOk) (s s' : Settings) : Similar (f s) (g s') := by
  rcases h with rfl | ⟨hfok, hgok⟩
  · exact hf s s'
  · apply Similar.of_isOk
    · rwa [(hf s {}).isOk]
    · rwa [(hg s' {}).isOk]

theorem similar_of_alike_file (s s' : Settings)
    (h : file = file' ∨ (replace {} file).isOk ∧ (replace {} file').isOk) :
    Similar (s.replace file) (s'.replace file') :=
  Similar.of_accepted similar_replace similar_replace (h.imp_left fun he => by rw [he]) s s'

theorem similar_of_alike_variable (s s' : Settings)
    (h : raw = raw' ∨ (overrideWith {} raw).isOk ∧ (overrideWith {} raw').isOk) :
    Similar (s.overrideWith raw) (s'.overrideWith raw') :=
  Similar.of_accepted similar_overrideWith similar_overrideWith (h.imp_left fun he => by rw [he])
    s s'

theorem similar_load (h : a.Alike b) : Similar (load a) (load b) := by
  apply (similar_of_alike_file {} {} h.home).bind
  intro s s'
  apply (similar_of_alike_file s s' h.here).bind
  intro s s'
  exact similar_of_alike_variable s s' h.environment

end QueryLabel.Settings
