import Passcode.Command
import Passcode.Proofs.Searches

/-! # Runs of the command

The environment and the log level text choose what is logged; the tally that is
printed and the exit code do not depend on them. Of the two, the environment
decides if its text is set and can be read as a whole, and the log level text
decides in every other case.

- `Filter.Readable`: every directive of a text can be read.
- `Filter.choose_of_readable`, `Filter.choose_of_not_readable`: who decides.
- `Command.run_of_search`: what a run that searches leaves behind.
- `Command.run_of_usage_error`: no argument steers the terminal through the
  message about it.
- `environment_only_selects_log`: two runs compared.
-/

namespace Passcode

/-! ## Texts that can be read -/

theorem mapM_eq_filterMap {α β : Type} (f : α → Option β) (l : List α) :
    l.mapM f = if ∀ a ∈ l, (f a).isSome = true then some (l.filterMap f)
      else none := by
  induction l with
  | nil => rfl
  | cons a l ih =>
      rw [List.mapM_cons, ih]
      cases hfa : f a with
      | none => simp [hfa]
      | some b =>
          simp only [List.forall_mem_cons, List.filterMap_cons, hfa,
            Option.isSome_some, true_and]
          split
          · rfl
          · rfl

namespace Filter

/-- Every directive of the text can be read. -/
def Readable (text : String) : Prop :=
  ∀ piece ∈ pieces text, (Directive.read? piece).isSome = true

instance : DecidablePred Readable := fun text =>
  inferInstanceAs (Decidable (∀ piece ∈ pieces text, _))

theorem strict?_eq (text : String) :
    strict? text = if Readable text then some (lenient text).1 else none := by
  have hmap : (pieces text).mapM Directive.read? =
      if Readable text then some ((pieces text).filterMap Directive.read?)
      else none := mapM_eq_filterMap _ _
  rw [strict?, hmap]
  split
  · rfl
  · rfl

theorem choose_of_readable {environment : String} (h : Readable environment)
    (text : String) :
    choose (some environment) text = ((lenient environment).1, []) := by
  rw [choose, Option.bind_some, strict?_eq, if_pos h]

theorem choose_of_not_readable {environment : Option String}
    (h : ∀ e, environment = some e → ¬Readable e) (text : String) :
    choose environment text = lenient text := by
  cases environment with
  | none => rfl
  | some e => rw [choose, Option.bind_some, strict?_eq, if_neg (h e rfl)]

end Filter

/-! ## Runs that search -/

theorem Span.valid_standard : Span.standard.Valid := ⟨by decide, by decide⟩

namespace Command

/-- The tally of the standard search. -/
def standardTally : Tally :=
  Tally.ofStretch Span.standard.lower.toNat Span.standard.size

/-- The log lines of the standard search under a verbosity: of all its events
those that are admitted, in their order. -/
def logLines (verbosity : Verbosity) : List String :=
  ((search Span.standard (.upTo .trace)).events.filter
    fun e => verbosity.admits e.level).map Event.line

theorem ofReport_ok (warnings : List String) (events : List Event)
    (tally : Tally) :
    ofReport warnings ⟨events, .ok tally⟩ =
      { stdout := tally.text ++ "\n",
        stderr := warnings ++ events.map Event.line } := rfl

theorem searchOutcome_eq (filter : Filter) (warnings : List String) :
    searchOutcome filter warnings =
      { stdout := standardTally.text ++ "\n",
        stderr := warnings ++
          logLines (filter.verbosity Event.target.toList) } := by
  rw [searchOutcome, logLines, search_of_valid Span.valid_standard,
    search_of_valid Span.valid_standard, filter_admits_trace, ofReport_ok,
    standardTally]

/-- What a run that searches leaves behind. -/
theorem run_of_search {args : List String} {text : String}
    (hargs : Request.read args = .ok (.search text))
    (environment : Option String) :
    run args environment =
      { stdout := standardTally.text ++ "\n",
        stderr := (Filter.choose environment text).2 ++
          logLines ((Filter.choose environment text).1.verbosity
            Event.target.toList) } := by
  rw [run, hargs, ← searchOutcome_eq]

/-- Without a search the environment is not looked at. -/
theorem run_of_no_search {args : List String}
    (hargs : ∀ text, Request.read args ≠ .ok (.search text))
    (e₁ e₂ : Option String) : run args e₁ = run args e₂ := by
  rw [run, run]
  split
  · rfl
  · rfl
  · rfl
  · next text h => exact absurd h (hargs text)

end Command

/-! ## Runs that end with a usage error

Messages quote arguments, and only as plain text. The name of an option that
takes no value is not quoted; it is one of two. -/

/-- If there is no result, the message about it is plain. -/
def ReportsPlainly {α : Type} : Except UsageError α → Prop
  | .ok _ => True
  | .error e => IsPlain e.message

theorem isPlain_unexpected (arg : String) :
    IsPlain (UsageError.unexpected arg).message := by
  show IsPlain ("error: unexpected argument '" ++ plain arg ++ "' found")
  rw [isPlain_append, isPlain_append]
  exact ⟨⟨by decide, isPlain_plain arg⟩, by decide⟩

theorem isPlain_unexpectedValue (value : String) {option : String}
    (h : IsPlain option) :
    IsPlain (UsageError.unexpectedValue value option).message := by
  show IsPlain ("error: unexpected value '" ++ plain value ++ "' for '" ++ option ++
    "' found; no more were expected")
  rw [isPlain_append, isPlain_append, isPlain_append, isPlain_append]
  exact ⟨⟨⟨⟨by decide, isPlain_plain value⟩, by decide⟩, h⟩, by decide⟩

namespace ReportsPlainly

variable {α β : Type} {x : Except UsageError α}

theorem map (h : ReportsPlainly x) (f : α → β) : ReportsPlainly (x.map f) := by
  cases x with
  | ok a => trivial
  | error e => exact h

theorem bind (h : ReportsPlainly x) {f : α → Except UsageError β}
    (hf : ∀ a, ReportsPlainly (f a)) : ReportsPlainly (x.bind f) := by
  cases x with
  | ok a => exact hf a
  | error e => exact h

theorem isPlain {e : UsageError} (h : ReportsPlainly x) (hx : x = .error e) :
    IsPlain e.message := by
  subst hx
  exact h

end ReportsPlainly

namespace Request

theorem reportsPlainly_settle (filter : Option String) (use : Use) :
    ReportsPlainly (settle filter use) := by
  have hmissing : IsPlain UsageError.missingValue.message := by decide
  have hrepeated : IsPlain UsageError.repeated.message := by decide
  unfold settle
  split
  · trivial
  · exact hmissing
  · trivial
  · exact hrepeated

theorem reportsPlainly_readFrom (filter : Option String) (use : Use)
    (args : List String) : ReportsPlainly (readFrom filter use args) := by
  -- one case for each form of the next argument; an error is either about that
  -- argument or comes from settling a use before it
  fun_induction readFrom filter use args with
  | case1 filter use => exact (reportsPlainly_settle filter use).map _
  | case2 filter use => exact (reportsPlainly_settle filter use).map _
  | case3 => exact isPlain_unexpected _
  | case4 _ _ _ _ _ ih => exact ih
  | case5 => exact isPlain_unexpected _
  | case6 filter use => exact (reportsPlainly_settle filter use).map _
  | case7 filter use => exact (reportsPlainly_settle filter use).map _
  | case8 => exact isPlain_unexpected _
  | case9 filter use => exact (reportsPlainly_settle filter use).map _
  | case10 _ _ _ _ value => exact isPlain_unexpectedValue value (by decide)
  | case11 filter use => exact (reportsPlainly_settle filter use).map _
  | case12 _ _ _ _ value => exact isPlain_unexpectedValue value (by decide)
  | case13 filter use _ _ _ _ h => exact (reportsPlainly_settle filter use).isPlain h
  | case14 _ _ _ _ _ _ _ ih => exact ih
  | case15 filter use _ _ value _ _ h =>
      have hboth := (reportsPlainly_settle filter use).bind
        fun settled => reportsPlainly_settle settled (.valued value)
      exact hboth.isPlain h
  | case16 _ _ _ _ _ _ _ _ ih => exact ih
  | case17 => exact isPlain_unexpected _

end Request

namespace Command

/-- A run that ends with a usage error leaves one message. Whatever the arguments
hold, no character of it steers the terminal. -/
theorem run_of_usage_error {args : List String} {environment : Option String}
    (h : (run args environment).exit = 2) :
    ∃ message, run args environment = { exit := 2, stderr := [message] } ∧
      IsPlain message := by
  cases hargs : Request.read args with
  | error e =>
      refine ⟨e.message, by rw [run, hargs], ?_⟩
      exact (Request.reportsPlainly_readFrom none .absent args).isPlain hargs
  | ok request =>
      cases request with
      | help =>
          rw [run, hargs] at h
          cases h
      | version =>
          rw [run, hargs] at h
          cases h
      | search text =>
          rw [run_of_search hargs] at h
          cases h

/-- A plain argument where none is expected is quoted as it is. -/
theorem run_of_stray_argument {arg : String} (hdash : arg.toList.head? ≠ some '-')
    (hplain : IsPlain arg) (rest : List String) (environment : Option String) :
    run (arg :: rest) environment =
      { exit := 2, stderr := ["error: unexpected argument '" ++ arg ++ "' found"] } := by
  have hform : Argument.ofString arg = .plain arg := by
    unfold Argument.ofString
    split
    · next h => exact absurd (by rw [h]; rfl) hdash
    · next h => exact absurd (by rw [h]; rfl) hdash
    · next h => exact absurd (by rw [h]; rfl) hdash
    · rfl
  have hread : Request.read (arg :: rest) = .error (.unexpected arg) := by
    simp only [Request.read, Request.readFrom, hform]
  have hmessage : (UsageError.unexpected arg).message =
      "error: unexpected argument '" ++ arg ++ "' found" := by
    show "error: unexpected argument '" ++ plain arg ++ "' found" = _
    rw [plain_eq_self_iff.2 hplain]
  rw [run, hread, ← hmessage]

example : (run ["\x1b[31mred\x1b[0m"] none).stderr =
    ["error: unexpected argument 'red' found"] := by decide

end Command

/-! ## Two runs -/

/-- **The environment only selects what is logged.** Two runs with the same
arguments and any two environments have the same exit code and the same output,
and the same error stream unless they search. A run that searches succeeds and
prints the tally of the standard search. Its error stream is told by the
environment's text alone if this is set and can be read as a whole, and by the
log level text alone otherwise: warnings about the text, then the events of the
search up to the one verbosity that the text asks for. -/
theorem environment_only_selects_log :
    ∃ tally, (∀ verbosity, (search Span.standard verbosity).result = .ok tally) ∧
    ∀ args : List String,
      (∀ e₁ e₂ : Option String,
        (Command.run args e₁).exit = (Command.run args e₂).exit ∧
        (Command.run args e₁).stdout = (Command.run args e₂).stdout ∧
        ((∀ text, Request.read args ≠ .ok (.search text)) →
          (Command.run args e₁).stderr = (Command.run args e₂).stderr)) ∧
      ∀ text, Request.read args = .ok (.search text) → ∀ environment,
        let outcome := Command.run args environment
        outcome.exit = 0 ∧ outcome.stdout = tally.text ++ "\n" ∧
        (∀ e, environment = some e → Filter.Readable e →
          outcome.stderr = Command.logLines
            ((Filter.lenient e).1.verbosity Event.target.toList)) ∧
        (environment = some "" →
          outcome.stderr = Command.logLines (.upTo .error)) ∧
        ((∀ e, environment = some e → ¬Filter.Readable e) →
          outcome.stderr = (Filter.lenient text).2 ++ Command.logLines
            ((Filter.lenient text).1.verbosity Event.target.toList)) := by
  refine ⟨Command.standardTally, ?_, ?_⟩
  · intro verbosity
    rw [search_of_valid Span.valid_standard, Command.standardTally]
  intro args
  refine ⟨?_, ?_⟩
  · intro e₁ e₂
    by_cases hsearch : ∃ text, Request.read args = .ok (.search text)
    · obtain ⟨text, hargs⟩ := hsearch
      rw [Command.run_of_search hargs, Command.run_of_search hargs]
      exact ⟨rfl, rfl, fun hnone => absurd hargs (hnone text)⟩
    · rw [Command.run_of_no_search (not_exists.1 hsearch) e₁ e₂]
      exact ⟨rfl, rfl, fun _ => rfl⟩
  · intro text hargs environment
    rw [Command.run_of_search hargs]
    refine ⟨rfl, rfl, ?_, ?_, ?_⟩
    · rintro e rfl hreadable
      rw [Filter.choose_of_readable hreadable, List.nil_append]
    · -- an empty text has no directives, and so none that cannot be read
      rintro rfl
      have hempty : (Filter.lenient "").1.verbosity Event.target.toList =
          .upTo .error := by decide
      rw [Filter.choose_of_readable (by decide), hempty, List.nil_append]
    · intro hnot
      rw [Filter.choose_of_not_readable hnot]

/-- A readable environment overrides the log level text; one that cannot be read
counts as unset. -/
theorem environment_overrides_log_level :
    (Command.run ["--log-level=trace"] (some "info,password_count=off")).stderr =
      Command.logLines .off ∧
    (Command.run ["--log-level=trace"] (some "info,password_count=loud")).stderr =
      Command.logLines (.upTo .trace) := by
  obtain ⟨tally, -, hruns⟩ := environment_only_selects_log
  obtain ⟨-, hsearch⟩ := hruns ["--log-level=trace"]
  have hargs : Request.read ["--log-level=trace"] = .ok (.search "trace") := by
    decide
  refine ⟨?_, ?_⟩
  · obtain ⟨-, -, hreadable, -, -⟩ := hsearch "trace" hargs
      (some "info,password_count=off")
    have hoff : (Filter.lenient "info,password_count=off").1.verbosity
        Event.target.toList = .off := by decide
    rw [hreadable _ rfl (by decide), hoff]
  · obtain ⟨-, -, -, -, hnot⟩ := hsearch "trace" hargs
      (some "info,password_count=loud")
    have htrace : (Filter.lenient "trace").1.verbosity Event.target.toList =
        .upTo .trace := by decide
    have hwarnings : (Filter.lenient "trace").2 = [] := by decide
    have hunreadable : ∀ e, some "info,password_count=loud" = some e →
        ¬Filter.Readable e := by
      rintro e ⟨rfl⟩
      decide
    rw [hnot hunreadable, htrace, hwarnings, List.nil_append]

end Passcode
