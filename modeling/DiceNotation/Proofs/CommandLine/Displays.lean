import DiceNotation.CommandLine
import DiceNotation.Proofs.Batch.Composition
import DiceNotation.Proofs.Evaluation.Refusal
import DiceNotation.Proofs.Expression.Lines
import DiceNotation.Proofs.Tally.Chart

/-!
# Displayed batches

Every display rolls a batch and makes lines of its values, so the displays differ only in how many
turns there are by default, in what is told of too few of them, and in the lines.
-/

namespace DiceNotation

/-- Texts are written one by one, but there are none if one of them cannot be written. -/
theorem Numeral.mapM_checked {α : Type} (numbers : α → List Int) (shown : α → Text)
    (list : List α) :
    (list.mapM fun a => checked (numbers a) (shown a)) =
      if (list.flatMap numbers).all fits then .ok (list.map shown) else .error .unwritable := by
  induction list with
  | nil => rfl
  | cons a list ih =>
    rw [List.mapM_cons, ih, List.flatMap_cons, List.all_append, checked]
    by_cases hfirst : (numbers a).all fits = true
    · by_cases hrest : (list.flatMap numbers).all fits = true
      · simp only [hfirst, hrest]
        rfl
      · simp only [hfirst, hrest]
        rfl
    · simp only [hfirst]
      rfl

namespace CommandLine

namespace Display

/-- How many turns there are where no number is given. -/
def defaultTurns (settings : Settings) : Display → Int
  | .full | .value => settings.defaultCount
  | .chart => settings.chartSamples

def repetition : Display → Repetition
  | .full | .value => .run
  | .chart => .sample

/-- The numbers of the values that are shown. -/
def numbers (values : List Value) : Display → List Int
  | .full => values.flatMap Value.numbers
  | .value | .chart => values.map Value.score

/-- The lines, unless one of the numbers they show is too long to be written. -/
def written (numbers : List Int) (lines : List Text) : Except Fault (List Text) :=
  if numbers.all Numeral.fits then .ok lines else .error (.numeral .unwritable)

/-- A line for each value, or a row for each score from the least to the greatest. -/
def lines (settings : Settings) (expression : Expression) (values : List Value) :
    Display → Except Fault (List Text)
  | .full =>
    written (full.numbers values)
      (values.map fun value => expression.text ++ ':' :: ' ' :: value.text)
  | .value =>
    written (Display.value.numbers values) (values.map fun value => Numeral.text value.score)
  | .chart =>
    List.map (·.2) <$> (Tally.ofScores (values.map Value.score)).chartRows settings.chartBarWidth

theorem written_eq_ok_iff {numbers : List Int} {lines shown : List Text} :
    written numbers lines = .ok shown ↔ (∀ n ∈ numbers, Numeral.fits n = true) ∧ lines = shown := by
  unfold written
  split
  next h =>
    rw [Except.ok.injEq]
    exact ⟨fun hshown => ⟨List.all_eq_true.mp h, hshown⟩, And.right⟩
  next h =>
    constructor
    · intro hshown
      cases hshown
    · rintro ⟨hfits, -⟩
      exact absurd (List.all_eq_true.mpr hfits) h

theorem written_eq_error {numbers : List Int} {lines : List Text} {fault : Fault}
    (h : written numbers lines = .error fault) : fault = .numeral .unwritable := by
  unfold written at h
  split at h <;> cases h
  rfl

/-- Lines that show all of the values. -/
structure Shows (display : Display) (values : List Value) (shown : List Text) : Prop where
  isLine : ∀ line ∈ shown, line.IsLine
  fits : ∀ n ∈ display.numbers values, Numeral.fits n = true
  ne_nil : shown ≠ []
  each : display ≠ .chart → shown.length = values.length
  range : display = .chart → ∃ least greatest,
    (Tally.ofScores (values.map Value.score)).Spans least greatest ∧
      (shown.length : Int) = greatest - least + 1

variable {settings : Settings} {expression : Expression} {values : List Value}

theorem lines_full (h : ∀ n ∈ full.numbers values, Numeral.fits n = true) :
    full.lines settings expression values =
      .ok (values.map fun value => expression.text ++ ':' :: ' ' :: value.text) :=
  written_eq_ok_iff.mpr ⟨h, rfl⟩

theorem lines_value (h : ∀ n ∈ Display.value.numbers values, Numeral.fits n = true) :
    Display.value.lines settings expression values =
      .ok (values.map fun value => Numeral.text value.score) :=
  written_eq_ok_iff.mpr ⟨h, rfl⟩

theorem shows_of_written {display : Display} (hdisplay : display ≠ .chart) (hvalues : values ≠ [])
    {line : Value → Text} (hline : ∀ value, (line value).IsLine) {shown : List Text}
    (h : written (display.numbers values) (values.map line) = .ok shown) :
    display.Shows values shown := by
  obtain ⟨hfits, rfl⟩ := written_eq_ok_iff.mp h
  refine ⟨?_, hfits, by simpa using hvalues, fun _ => by simp, fun h => absurd h hdisplay⟩
  intro text htext
  obtain ⟨value, -, rfl⟩ := List.mem_map.mp htext
  exact hline value

theorem shows_of_lines (hcanonical : expression.IsCanonical) (hvalues : values ≠ [])
    {display : Display} {shown : List Text}
    (h : display.lines settings expression values = .ok shown) : display.Shows values shown := by
  cases display with
  | full =>
    refine shows_of_written (by decide) hvalues (fun value => ?_) h
    simp [hcanonical.isLine_text, Value.isLine_text]
  | value =>
    exact shows_of_written (by decide) hvalues (fun value => Numeral.isLine_text value.score) h
  | chart =>
    rw [lines] at h
    cases hrows : (Tally.ofScores (values.map Value.score)).chartRows settings.chartBarWidth with
    | error fault =>
      rw [hrows] at h
      cases h
    | ok rows =>
      rw [hrows] at h
      cases h
      obtain ⟨least, greatest, hspans, hrange, hlength, hline, hfits⟩ :=
        (Tally.tallies_ofScores _).of_chartRows (by simpa using hvalues) hrows
      refine ⟨?_, hfits, ?_, fun h => absurd rfl h, fun _ => ⟨least, greatest, hspans, ?_⟩⟩
      · intro line hmem
        obtain ⟨row, hrow, rfl⟩ := List.mem_map.mp hmem
        exact hline row hrow
      · rw [ne_eq, List.map_eq_nil_iff, ← List.length_eq_zero_iff]
        omega
      · rw [List.length_map, hlength]

/-- A bar of a chart has more stars than a number of 64 bits counts. It takes many turns and a wide
chart to come so far. -/
structure IsHuge (settings : Settings) (display : Display) (turns : Int) (fault : Fault) :
    Prop where
  display : display = .chart
  fault : fault = .tally .hugeBar
  turns : Tally.indexLimit ≤ turns + 1
  width : Tally.indexLimit ≤ 2 * settings.chartBarWidth

theorem lines_eq_error (hvalues : values ≠ []) {display : Display} {fault : Fault}
    (h : display.lines settings expression values = .error fault) :
    fault = .numeral .unwritable ∨ display.IsHuge settings values.length fault := by
  cases display with
  | full | value => exact .inl (written_eq_error h)
  | chart =>
    rw [lines] at h
    cases hrows : (Tally.ofScores (values.map Value.score)).chartRows settings.chartBarWidth with
    | ok rows =>
      rw [hrows] at h
      cases h
    | error other =>
      rw [hrows] at h
      cases h
      have htallies := Tally.tallies_ofScores (values.map Value.score)
      obtain hlong | ⟨rfl, hsamples, hwidth⟩ :=
        htallies.chartRows_eq_error (by simpa using hvalues) hrows
      · exact .inl hlong
      · refine .inr ⟨rfl, rfl, ?_, hwidth⟩
        rwa [htallies.samples, List.length_map] at hsamples

end Display

variable {settings : Settings} {expression : Expression} {values : List Value}

theorem writeFulls_eq (hfits : ∀ n ∈ expression.numbers, Numeral.fits n = true) :
    (values.mapM (Value.writeFull expression)).mapError Fault.numeral =
      Display.written (Display.full.numbers values)
        (values.map fun value => expression.text ++ ':' :: ' ' :: value.text) := by
  have hwrite : Value.writeFull expression = fun value : Value =>
      Numeral.checked value.numbers (expression.text ++ ':' :: ' ' :: value.text) := by
    funext value
    rw [Value.writeFull, Numeral.checked, Numeral.checked, List.all_append,
      List.all_eq_true.mpr hfits, Bool.true_and]
  rw [hwrite, Numeral.mapM_checked, Display.written, Display.numbers]
  split <;> rfl

theorem writeScores_eq (values : List Value) :
    (Value.writeScores values).mapError Fault.numeral =
      Text.lines <$> Display.written (Display.value.numbers values)
        (values.map fun value => Numeral.text value.score) := by
  have hscores : values.map (fun value => Numeral.text value.score) =
      (values.map Value.score).map Numeral.text := by
    rw [List.map_map]
    rfl
  rw [hscores, Display.written, Display.numbers, Value.writeScores, Numeral.checked]
  split <;> rfl

theorem ofExcept_ok {σ α : Type} (a : α) :
    (MonadExcept.ofExcept (.ok a : Except Fault α) : Rolling σ α) = pure a :=
  rfl

variable {σ : Type} [Source σ]

/-- A request rolls a batch of as many turns as it asks for, and shows it. -/
theorem rolled_eq (settings : Settings) (request : Request) (expression : Expression)
    (hfits : ∀ n ∈ expression.numbers, Numeral.fits n = true) {turns : Int}
    (hturns : request.count.orDefault (request.display.defaultTurns settings) = .ok turns) :
    (rolled settings request expression : Rolling σ Text) =
      if turns < 1 then Rolling.fail (.tooFew request.display.repetition turns)
      else
        expression.run settings.limits turns >>= fun values => MonadExcept.ofExcept
          (Text.lines <$> request.display.lines settings expression values) := by
  obtain ⟨text, display, count, seed⟩ := request
  cases display
  case full =>
    change count.orDefault settings.defaultCount = .ok turns at hturns
    have hfull : ∀ values, (Text.lines <$> values.mapM (Value.writeFull expression)).mapError
        Fault.numeral = Text.lines <$> Display.full.lines settings expression values := by
      intro values
      rw [Display.lines, ← writeFulls_eq hfits]
      cases values.mapM (Value.writeFull expression) <;> rfl
    simp only [rolled, hturns, ofExcept_ok, pure_bind, hfull]
    split
    next h =>
      rw [Expression.run, if_pos h]
      rfl
    next => rfl
  case value =>
    change count.orDefault settings.defaultCount = .ok turns at hturns
    simp only [rolled, hturns, ofExcept_ok, pure_bind, writeScores_eq]
    split
    next h =>
      rw [Expression.run, if_pos h]
      rfl
    next => rfl
  case chart =>
    change count.orDefault settings.chartSamples = .ok turns at hturns
    have hchart : ∀ values : List Value,
        (Tally.ofScores (values.map Value.score)).chart settings.chartBarWidth =
          Text.lines <$> Display.chart.lines settings expression values := by
      intro values
      rw [Tally.chart, Display.lines]
      cases (Tally.ofScores (values.map Value.score)).chartRows settings.chartBarWidth <;> rfl
    simp only [rolled, hturns, ofExcept_ok, pure_bind]
    split
    next h =>
      rw [Expression.sample, if_pos h]
      rfl
    next h => simp only [Expression.sample_of_pos (Int.not_lt.mp h), bind_map_left, hchart]

theorem rolled_eq_ok_iff {request : Request}
    (hfits : ∀ n ∈ expression.numbers, Numeral.fits n = true) {turns : Int}
    (hturns : request.count.orDefault (request.display.defaultTurns settings) = .ok turns)
    {source after : σ} {text : Text} :
    rolled settings request expression source = .ok text after ↔
      1 ≤ turns ∧ ∃ values shown, expression.run settings.limits turns source = .ok values after ∧
        request.display.lines settings expression values = .ok shown ∧ Text.lines shown = text := by
  rw [rolled_eq settings request expression hfits hturns]
  split
  next h =>
    constructor
    · intro htext
      cases htext
    · rintro ⟨hturns, -⟩
      omega
  next h =>
    rw [Rolling.bind_eq_ok]
    constructor
    · rintro ⟨values, middle, hvalues, htext⟩
      obtain ⟨htext, rfl⟩ := Rolling.ofExcept_eq_ok.mp htext
      cases hshown : request.display.lines settings expression values with
      | error fault =>
        rw [hshown] at htext
        cases htext
      | ok shown =>
        rw [hshown] at htext
        cases htext
        exact ⟨by omega, values, shown, hvalues, hshown, rfl⟩
    · rintro ⟨-, values, shown, hvalues, hshown, rfl⟩
      refine ⟨values, after, hvalues, Rolling.ofExcept_eq_ok.mpr ⟨?_, rfl⟩⟩
      rw [hshown]
      rfl

theorem rolled_eq_error_iff {request : Request}
    (hfits : ∀ n ∈ expression.numbers, Numeral.fits n = true) {turns : Int}
    (hturns : request.count.orDefault (request.display.defaultTurns settings) = .ok turns)
    {source after : σ} {fault : Fault} :
    rolled settings request expression source = .error fault after ↔
      (turns < 1 ∧ (Fault.tooFew request.display.repetition turns).raised = fault ∧
        source = after) ∨
      (1 ≤ turns ∧ expression.run settings.limits turns source = .error fault after) ∨
      1 ≤ turns ∧ ∃ values, expression.run settings.limits turns source = .ok values after ∧
        request.display.lines settings expression values = .error fault := by
  rw [rolled_eq settings request expression hfits hturns]
  split
  next h =>
    rw [Rolling.fail_eq_error]
    constructor
    · rintro ⟨rfl, rfl⟩
      exact .inl ⟨h, rfl, rfl⟩
    · rintro (⟨-, hfault⟩ | ⟨hpos, -⟩ | ⟨hpos, -⟩)
      · exact hfault
      · omega
      · omega
  next h =>
    have hpos : 1 ≤ turns := by omega
    rw [Rolling.bind_eq_error]
    constructor
    · rintro (hrun | ⟨values, middle, hvalues, hfault⟩)
      · exact .inr (.inl ⟨hpos, hrun⟩)
      · cases hshown : request.display.lines settings expression values with
        | error other =>
          rw [hshown] at hfault
          cases hfault
          exact .inr (.inr ⟨hpos, values, hvalues, hshown⟩)
        | ok shown =>
          rw [hshown] at hfault
          cases hfault
    · rintro (⟨hnot, -⟩ | ⟨-, hrun⟩ | ⟨-, values, hvalues, hshown⟩)
      · omega
      · exact .inl hrun
      · refine .inr ⟨values, after, hvalues, ?_⟩
        rw [hshown]
        rfl

end CommandLine

end DiceNotation
