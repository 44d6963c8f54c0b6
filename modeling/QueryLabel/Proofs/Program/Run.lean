import QueryLabel.Program
import QueryLabel.Proofs.Settings.Alike
import QueryLabel.Proofs.Summarizer.Transparent
import QueryLabel.Proofs.World.Text

/-! Runs of the program in a world. A run prints the whole report on its script, or nothing at all;
and how much it may remember shows in nothing that it prints. -/

namespace QueryLabel

variable {i : Nat} {sql : String} {terminal : Bool} {options : Options}
  {capacity : Option Capacity} {n : Capacity} {records : List Record}
  {words words' : List Bytes} {w : World} {queries : Bytes} {fault : Fault}

theorem Record.numberFrom_map {α : Type} {xs : List α} {f : α → String} :
    numberFrom i (xs.map f) = xs.mapIdx fun j x => ⟨i + j, f x⟩ := by
  induction xs generalizing i with
  | nil => rfl
  | cons x xs ih =>
    rw [List.map_cons, numberFrom, ih, List.mapIdx_cons]
    simp [Nat.add_assoc, Nat.add_comm 1]

namespace Program

/-- The statements of a script with their summaries, numbered from zero. -/
def numbered (sql : String) : List Record :=
  (Statement.split sql).mapIdx fun i statement => ⟨i, Summary.ofQuery statement⟩

/-- What may come of a script if its statements are taken in any order, all with one memory. -/
def Recorded (n : Capacity) (sql : String) (records : List Record) : Prop :=
  ∃ order summaries, order.Perm (Statement.split sql).zipIdx ∧
    (Summarizer.batchIn (.empty n) order).1.Perm summaries.zipIdx ∧
    records = Record.number summaries

theorem number_map_ofQuery :
    Record.number ((Statement.split sql).map Summary.ofQuery) = numbered sql := by
  simp [Record.number, Record.numberFrom_map, numbered]

/-- The records of a script do not depend on how much is remembered. -/
theorem records_eq : Program.records n sql = numbered sql := by
  rw [Program.records, (Summarizer.batch_faithful Cache.holds_empty).1, number_map_ofQuery]

/-- Nor do they depend on which statement is summarized when. -/
theorem Recorded.eq (h : Recorded n sql records) : records = numbered sql := by
  obtain ⟨order, summaries, horder, hanswers, rfl⟩ := h
  have hsame : summaries = (Statement.split sql).map Summary.ofQuery :=
    Summarizer.eq_of_zipIdx_perm
      (hanswers.symm.trans (Summarizer.batchIn_perm Cache.holds_empty horder))
  rw [hsame, number_map_ofQuery]

/-- What the source of the queries holds: the input, or a file. -/
def contents (w : World) (queries : Bytes) : Except ReadError Bytes :=
  if queries = inputPath then .ok w.input
  else match w.find queries with
    | .ok (.file bytes) => .ok bytes
    | .ok (.directory _) => .error .isDirectory
    | .error e => .error e

theorem script_ofWorld (w : World) (queries : Bytes) :
    (Inputs.ofWorld w queries).script = contents w queries >>= World.decode := by
  by_cases hq : queries = inputPath
  · simp only [Inputs.ofWorld, contents, hq, beq_self_eq_true, if_true]
    rfl
  · simp only [Inputs.ofWorld, contents, beq_false_of_ne hq, hq, if_false, Bool.false_eq_true,
      World.read]
    cases w.find queries with
    | error e => rfl
    | ok node => cases node <;> rfl

/-- Why given inputs have no report: no settings, or no script. -/
inductive Inputs.Refused (inputs : Inputs) (queries : Bytes) : Fault → Prop
  | settings {e : Settings.Error} (h : Settings.load inputs.sources = .error e) :
      Refused inputs queries e.fault
  | script {s : Settings} {e : ReadError} (hs : Settings.load inputs.sources = .ok s)
      (h : inputs.script = .error e) :
      Refused inputs queries (.unreadable (scriptName queries) e.message)

/-- Why a run in a world has no report. -/
inductive Refused (w : World) (queries : Bytes) : Fault → Prop
  | settings {e : Settings.Error} (h : Settings.load (.ofWorld w) = .error e) :
      Refused w queries e.fault
  | unreadable {s : Settings} {e : ReadError} (hs : Settings.load (.ofWorld w) = .ok s)
      (h : contents w queries = .error e) :
      Refused w queries (.unreadable (scriptName queries) e.message)
  | notText {s : Settings} {bytes : Bytes} (hs : Settings.load (.ofWorld w) = .ok s)
      (h : contents w queries = .ok bytes) (ht : ∀ sql, bytes ≠ Bytes.ofString sql) :
      Refused w queries (.unreadable (scriptName queries) ReadError.notText.message)

variable {s : Settings} {e : Settings.Error} {inputs inputs' : Inputs}

theorem run_of_ok (hs : Settings.load inputs.sources = .ok s) (hsql : inputs.script = .ok sql) :
    run terminal options inputs =
      .ok (Report.render terminal ⟨options.format, !options.noColor⟩ (numbered sql)) := by
  simp only [run, settings, script, hs, hsql, records_eq]
  rfl

theorem run_of_settings_error (hs : Settings.load inputs.sources = .error e) :
    run terminal options inputs = .error e.fault := by
  simp only [run, settings, hs]
  rfl

theorem run_of_script_error {e : ReadError} (hs : Settings.load inputs.sources = .ok s)
    (hsql : inputs.script = .error e) :
    run terminal options inputs = .error (.unreadable (scriptName options.queries) e.message) := by
  simp only [run, settings, script, hs, hsql]
  rfl

/-- Capacities decide neither whether there is a report nor what it says. -/
theorem run_alike (h : inputs.sources.Alike inputs'.sources)
    (hsql : inputs'.script = inputs.script) :
    run terminal { options with capacity } inputs' = run terminal options inputs := by
  have hload := Settings.similar_load h
  generalize hs : Settings.load inputs.sources = x at hload
  generalize hs' : Settings.load inputs'.sources = x' at hload
  cases hload with
  | error e => rw [run_of_settings_error hs, run_of_settings_error hs']
  | ok s s' =>
    cases hscript : inputs.script with
    | ok sql => rw [run_of_ok hs hscript, run_of_ok hs' (hsql.trans hscript)]
    | error e => rw [run_of_script_error hs hscript, run_of_script_error hs' (hsql.trans hscript)]

/-- A run has its report, or a reason for having none, whatever it is that cannot be read. -/
theorem run_of_inputs (terminal : Bool) (options : Options) (inputs : Inputs) :
    (∃ s sql, Settings.load inputs.sources = .ok s ∧ inputs.script = .ok sql ∧
      run terminal options inputs =
        .ok (Report.render terminal ⟨options.format, !options.noColor⟩ (numbered sql))) ∨
    ∃ fault, inputs.Refused options.queries fault ∧
      run terminal options inputs = .error fault := by
  cases hs : Settings.load inputs.sources with
  | error e => exact .inr ⟨e.fault, .settings hs, run_of_settings_error hs⟩
  | ok s =>
    cases hscript : inputs.script with
    | ok sql => exact .inl ⟨s, sql, rfl, rfl, run_of_ok hs hscript⟩
    | error e => exact .inr ⟨_, .script hs hscript, run_of_script_error hs hscript⟩

/-- A script in a world is the text of what its source holds. -/
theorem script_ofWorld_eq_ok_iff :
    (Inputs.ofWorld w queries).script = .ok sql ↔
      contents w queries = .ok (Bytes.ofString sql) := by
  rw [script_ofWorld]
  cases contents w queries with
  | error e => exact ⟨nofun, nofun⟩
  | ok bytes =>
    rw [Except.ok.injEq]
    exact World.decode_eq_ok_iff

theorem Inputs.Refused.ofWorld (h : (Inputs.ofWorld w queries).Refused queries fault) :
    Program.Refused w queries fault := by
  cases h with
  | settings h => exact .settings h
  | script hs h =>
    rw [script_ofWorld] at h
    cases hc : contents w queries with
    | error e =>
      rw [hc] at h
      cases h
      exact .unreadable hs hc
    | ok bytes =>
      rw [hc] at h
      obtain ⟨rfl, hne⟩ := World.decode_eq_error h
      exact .notText hs hc hne

theorem execute_of_parse {inputs : Bytes → Inputs} (h : Arguments.parse words = .ok options) :
    execute terminal inputs words = .ofResult (run terminal options (inputs options.queries)) := by
  rw [execute, h]

/-- Whatever its inputs are, a run prints the whole report on them or nothing; and two runs whose
inputs differ only in accepted capacities end alike. -/
theorem execute_of_inputs (terminal : Bool) (inputs : Bytes → Inputs)
    (h : Arguments.parse words = .ok options) :
    let given := inputs options.queries
    ((∃ s sql, Settings.load given.sources = .ok s ∧ given.script = .ok sql ∧
        execute terminal inputs words =
          ⟨0, Report.render terminal ⟨options.format, !options.noColor⟩ (numbered sql) ++ "\n",
            ""⟩) ∨
      ∃ fault, given.Refused options.queries fault ∧
        execute terminal inputs words = ⟨1, "", "Error: " ++ fault.category.label ++ "\n"⟩) ∧
    ∀ words' capacity (inputs' : Bytes → Inputs),
      Arguments.parse words' = .ok { options with capacity } →
      given.sources.Alike (inputs' options.queries).sources →
      (inputs' options.queries).script = given.script →
      execute terminal inputs' words' = execute terminal inputs words := by
  intro given
  rw [execute_of_parse h]
  constructor
  · rcases run_of_inputs terminal options given with ⟨s, sql, hs, hsql, hrun⟩ | ⟨fault, hno, hrun⟩
    · refine .inl ⟨s, sql, hs, hsql, ?_⟩
      rw [hrun]
      rfl
    · refine .inr ⟨fault, hno, ?_⟩
      rw [hrun]
      rfl
  · intro words' capacity inputs' h' halike hscript
    rw [execute_of_parse h']
    exact congrArg Exit.ofResult (run_alike halike hscript)

/-- A run prints the whole report or nothing. The report shows the statements of the script with
their own summaries, in whatever order they were worked off; and two runs that differ only in
accepted capacities end alike. -/
theorem execute_ofWorld (terminal : Bool) (w : World) (h : Arguments.parse words = .ok options) :
    ((∃ s sql, Settings.load (.ofWorld w) = .ok s ∧
        contents w options.queries = .ok (Bytes.ofString sql) ∧
        execute terminal (.ofWorld w) words =
          ⟨0, Report.render terminal ⟨options.format, !options.noColor⟩ (numbered sql) ++ "\n",
            ""⟩) ∨
      ∃ fault, Refused w options.queries fault ∧
        execute terminal (.ofWorld w) words =
          ⟨1, "", "Error: " ++ fault.category.label ++ "\n"⟩) ∧
    (∀ n sql records, Recorded n sql records → records = numbered sql) ∧
    ∀ words' capacity w', Arguments.parse words' = .ok { options with capacity } →
      (Settings.Sources.ofWorld w).Alike (.ofWorld w') →
      contents w' options.queries = contents w options.queries →
      execute terminal (.ofWorld w') words' = execute terminal (.ofWorld w) words := by
  obtain ⟨hends, hsame⟩ := execute_of_inputs terminal (.ofWorld w) h
  refine ⟨?_, fun n sql records hr => hr.eq, ?_⟩
  · rcases hends with ⟨s, sql, hs, hsql, hreport⟩ | ⟨fault, hrefused, hnothing⟩
    · exact .inl ⟨s, sql, hs, script_ofWorld_eq_ok_iff.1 hsql, hreport⟩
    · exact .inr ⟨fault, hrefused.ofWorld, hnothing⟩
  · intro words' capacity w' h' halike hcontents
    apply hsame words' capacity (.ofWorld w') h' halike
    rw [script_ofWorld, script_ofWorld, hcontents]

/-- One script with a file that leaves room for one summary, and again without that file but with a
variable and an option that both ask for more. -/
theorem execute_ofWorld_capacities :
    let text := Bytes.ofString
    let script : Bytes × Node := (text "q", .file (text "FROM a;DROP b;;FROM a"))
    let file : Bytes × Node := (text ".sql-query-summary.toml", .file (text "cache = [1]"))
    let w : World := ⟨.directory [script, file], [], [], []⟩
    let w' : World := ⟨.directory [script], [], [(Settings.variableName, text " +7")], []⟩
    let words := ["summarize", "-q", "q"].map text
    let words' := ["summarize", "--cache-size=2", "-qq"].map text
    let options : Options := { queries := text "q" }
    Arguments.parse words = .ok options ∧
      Arguments.parse words' = .ok { options with capacity := some ⟨2, by decide⟩ } ∧
      (Settings.Sources.ofWorld w).Alike (.ofWorld w') ∧
      contents w' options.queries = contents w options.queries ∧
      execute false (.ofWorld w') words' = execute false (.ofWorld w) words ∧
      (execute false (.ofWorld w) words).output = "   1. a\n   2. DROP\n   3. a\n\n" := by
  intro text script file w w' words words' options
  have hparse : Arguments.parse words = .ok options := by decide +kernel
  have hparse' : Arguments.parse words' = .ok { options with capacity := some ⟨2, by decide⟩ } := by
    decide +kernel
  have halike : (Settings.Sources.ofWorld w).Alike (.ofWorld w') :=
    ⟨.inr ⟨by decide +kernel, by decide +kernel⟩, .inr ⟨by decide +kernel, by decide +kernel⟩,
      .inr ⟨by decide +kernel, by decide +kernel⟩⟩
  have hcontents : contents w' options.queries = contents w options.queries := by decide +kernel
  exact ⟨hparse, hparse', halike, hcontents,
    (execute_ofWorld false w hparse).2.2 words' _ w' hparse' halike hcontents, by decide +kernel⟩

end Program

end QueryLabel
