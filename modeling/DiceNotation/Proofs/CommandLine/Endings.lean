import DiceNotation.Proofs.CommandLine.Displays
import DiceNotation.Proofs.Evaluation.Frame
import DiceNotation.Source.Replay

/-!
# How a run of the command line ends

Arguments that are accepted ask for a batch. With a log that shows no records of debugging, either
all that was asked for is printed, or nothing is printed but an error, or the program is stopped
without a word. The latter is left to a source that runs out of faces and to bars that are longer
than any text.
-/

namespace DiceNotation

variable {σ : Type} [Source σ]

/-! ### Faults of a batch -/

/-- Rolling pools fails at one that is refused, or where the source gives no face. -/
theorem Pool.fault_of_rolls {limits : Limits} {pools : List Pool} {source after : σ} {fault : Fault}
    (h : pools.mapM (roll limits) source = .error fault after) :
    (∃ cause, fault = (Fault.pool cause).raised) ∨
      ∃ sides cause, Source.draw sides after = .error cause ∧
        fault = (Fault.source cause).raised := by
  by_cases hpools : ∀ pool ∈ pools, pool.IsAdmissible limits
  · exact .inr (starved_of_rolls hpools h)
  · obtain ⟨before, bad, cause, hrefused⟩ := exists_firstRefused hpools
    obtain ⟨rest, rfl⟩ := hrefused.split
    rw [rolls_refused hrefused.fault?] at h
    obtain hbefore | ⟨_, _, _, hthrow⟩ := Rolling.bind_eq_error.mp h
    · exact .inr (starved_of_rolls hrefused.passed hbefore)
    · cases hthrow
      exact .inl ⟨cause, rfl⟩

theorem Expression.fault_of_run {limits : Limits} {tree : Expression} (hsteps : tree.HasSteps)
    {n : Int} (hn : 1 ≤ n) {source after : σ} {fault : Fault}
    (h : tree.run limits n source = .error fault after) :
    (∃ cause, fault = (Fault.pool cause).raised) ∨
      ∃ sides cause, Source.draw sides after = .error cause ∧
        fault = (Fault.source cause).raised := by
  rw [run_of_pos hn] at h
  have heval : ∃ turn, tree.evaluate limits turn = .error fault after := by
    obtain h | ⟨_, h⟩ := Rolling.times_eq_error h
    · exact ⟨source, h⟩
    · exact h
  obtain ⟨turn, heval⟩ := heval
  exact Pool.fault_of_rolls ((alike_evaluate limits hsteps).error_iff.mp heval)

omit [Source σ] in
/-- A batch fails with the fault of any of its turns. -/
theorem Rolling.times_of_error {α : Type} {action : Rolling σ α} {n m : Nat} (hnm : n < m)
    {source middle after : σ} {earlier : List α} {fault : Fault}
    (hearlier : times n action source = .ok earlier middle)
    (h : action middle = .error fault after) : times m action source = .error fault after := by
  obtain ⟨k, rfl⟩ : ∃ k, m = n + (k + 1) := ⟨m - n - 1, by omega⟩
  rw [times_add, times_succ]
  exact bind_eq_error.mpr (.inr ⟨earlier, middle, hearlier,
    bind_eq_error.mpr (.inl (bind_eq_error.mpr (.inl h)))⟩)

namespace CommandLine

theorem isTold_raised {fault : Fault} (h : isTold fault = true) : isTold fault.raised = true := by
  obtain hsame | hunwritable := fault.raised_cases
  · rwa [hsame]
  · rw [hunwritable]
    rfl

theorem isTold_raised_source (cause : SourceFault) :
    isTold (Fault.source cause).raised = true ∨
      ∃ supplied, (Fault.source cause).raised = .source (.exhausted supplied) := by
  cases cause with
  | exhausted supplied =>
    obtain hsame | hunwritable := (Fault.source (.exhausted supplied)).raised_cases
    · exact .inr ⟨supplied, hsame⟩
    · rw [hunwritable]
      exact .inl rfl
  | misfit | noFace => exact .inl (isTold_raised rfl)

theorem raised_ne_exhausted {fault : Fault}
    (h : ∀ supplied, fault ≠ .source (.exhausted supplied)) (supplied : Nat) :
    fault.raised ≠ .source (.exhausted supplied) := by
  intro heq
  obtain hsame | hunwritable := fault.raised_cases
  · exact h supplied (hsame.symm.trans heq)
  · cases hunwritable.symm.trans heq

/-- Opens a source of these faces, whatever the seed. -/
def replaying (faces : List Int) (_ : Given) : Except Fault Replay := .ok (Replay.ofList faces)

/-! ### Outcomes -/

namespace Outcome

/-- These lines are printed, and what was not read is told beside them. -/
structure Prints (remainder : Option Text) (shown : List Text) (outcome : Outcome σ) : Prop where
  ending : outcome.ending = .exit 0
  stdout : outcome.stdout = Text.closedLines shown
  quiet : outcome.stderr = [] ↔ remainder = none
  unparsed : ∀ rest, remainder = some rest → "unparsed: ".toList ++ rest <+: outcome.stderr

/-- Nothing is printed but an error. -/
structure Tells (outcome : Outcome σ) : Prop where
  ending : outcome.ending = .exit 1
  stdout : outcome.stdout = []
  stderr : "error: ".toList <+: outcome.stderr

/-- Nothing at all is printed. -/
structure Stops (fault : Fault) (outcome : Outcome σ) : Prop where
  ending : outcome.ending = .stopped fault
  stdout : outcome.stdout = []
  stderr : outcome.stderr = []

end Outcome

theorem unparsedLine_eq_nil_iff (reading : Reading) :
    unparsedLine reading = [] ↔ reading.remainder = none := by
  unfold unparsedLine
  cases reading.remainder <;> simp

theorem prefix_unparsedLine {reading : Reading} {rest : Text} (h : reading.remainder = some rest) :
    "unparsed: ".toList ++ rest <+: unparsedLine reading := by
  have hline : unparsedLine reading = "unparsed: ".toList ++ rest ++
      (reading.reason.map fun reason => ' ' :: '(' :: reason.message ++ [')']).getD [] ++
        ['\n'] := by
    rw [unparsedLine, h]
  rw [hline, List.append_assoc]
  exact List.prefix_append _ _

theorem prefix_errorLine (message : Text) : "error: ".toList <+: errorLine message :=
  ⟨message ++ ['\n'], (List.append_assoc _ _ _).symm⟩

variable {settings : Settings} {openSource : Given → Except Fault σ} {request : Request}
  {reading : Reading} {expression : Expression} {source after : σ}

theorem runReading_of_ok (hopen : openSource request.seed = .ok source) {shown : List Text}
    (hshown : shown ≠ [])
    (h : rolled settings request expression source = .ok (Text.lines shown) after) :
    (runReading settings openSource request reading expression).Prints reading.remainder shown ∧
      (runReading settings openSource request reading expression).opened =
        some (request.seed, after) := by
  simp only [runReading, hopen, h]
  exact ⟨⟨rfl, Text.lines_append_newline hshown, unparsedLine_eq_nil_iff reading,
    fun _ => prefix_unparsedLine⟩, trivial⟩

theorem runReading_of_told (hopen : openSource request.seed = .ok source) {fault : Fault}
    (htold : isTold fault = true)
    (h : rolled settings request expression source = .error fault after) :
    (runReading settings openSource request reading expression).Tells ∧
      (runReading settings openSource request reading expression).opened =
        some (request.seed, after) := by
  simp only [runReading, hopen, h, htold, if_true]
  exact ⟨⟨rfl, rfl, prefix_errorLine fault.message⟩, trivial⟩

theorem runReading_of_not_told (hopen : openSource request.seed = .ok source) {fault : Fault}
    (htold : isTold fault = false)
    (h : rolled settings request expression source = .error fault after) :
    (runReading settings openSource request reading expression).Stops fault := by
  simp only [runReading, hopen, h, htold]
  exact ⟨rfl, rfl, rfl⟩

/-! ### Requests that are accepted -/

/-- The level of the log is known, and no records of debugging are shown at it. -/
def IsQuiet (settings : Settings) : Prop :=
  ∃ rank, rank? settings.logLevel = some rank ∧ debugRank < rank

theorem isQuiet_of_warning (h : settings.logLevel = "WARNING".toList) : IsQuiet settings :=
  ⟨30, by rw [h]; rfl, by decide⟩

/-- Help can be prepared, the arguments ask for a roll, and the log can be set up. -/
structure Accepts (settings : Settings) (arguments : List Text) (request : Request) : Prop where
  fits : Numeral.fits settings.chartSamples = true
  request : readArguments settings arguments = .ok (.request request)
  level : ∃ rank, rank? settings.logLevel = some rank

variable (settings) in
theorem run_stops_of_unwritable (h : Numeral.fits settings.chartSamples = false)
    (arguments : List Text) :
    (run settings openSource arguments).Stops (.numeral .unwritable) := by
  simp only [run, h, Bool.not_false, if_true]
  exact ⟨rfl, rfl, rfl⟩

variable (settings) in
/-- The log is set up behind the arguments, which may already have ended the run. -/
theorem run_stops_of_unknown {arguments : List Text}
    (hfits : Numeral.fits settings.chartSamples = true)
    (hrequest : readArguments settings arguments = .ok (.request request))
    (hlevel : rank? settings.logLevel = none) :
    (run settings openSource arguments).Stops (.unknownLevel settings.logLevel) := by
  simp only [run, hfits, hrequest, hlevel, Bool.not_true, Bool.false_eq_true, if_false]
  exact ⟨rfl, rfl, rfl⟩

section Accepts

variable {arguments : List Text} (haccepts : Accepts settings arguments request)

include haccepts

theorem Accepts.run_eq {rank : Nat} (hrank : rank? settings.logLevel = some rank) :
    run settings openSource arguments = runRequest settings rank openSource request := by
  simp only [run, haccepts.fits, haccepts.request, hrank, Bool.not_true, Bool.false_eq_true,
    if_false]

theorem Accepts.run_of_error {fault : NumeralFault}
    (hread : read request.expression = .error fault) :
    (run settings openSource arguments).Stops (.numeral fault) := by
  obtain ⟨rank, hrank⟩ := haccepts.level
  simp only [haccepts.run_eq hrank, runRequest, hread]
  exact ⟨rfl, rfl, rfl⟩

/-- The records of what was read stand before all that is told of rolling it. -/
theorem Accepts.run_eq_behind {rank : Nat} (hrank : rank? settings.logLevel = some rank)
    (hread : read request.expression = .ok reading) (htree : reading.expression = some expression) :
    run settings openSource arguments =
      (runReading settings openSource request reading expression).behind
        (shownAt rank (readingRecords request.expression reading)) := by
  simp only [haccepts.run_eq hrank, runRequest, hread, htree]

theorem Accepts.run_of_some (hquiet : IsQuiet settings)
    (hread : read request.expression = .ok reading) (htree : reading.expression = some expression) :
    run settings openSource arguments =
      runReading settings openSource request reading expression := by
  obtain ⟨rank, hrank, hlt⟩ := hquiet
  rw [haccepts.run_eq_behind hrank hread htree, shownAt_of_lt hlt]
  rfl

theorem Accepts.run_of_none (hquiet : IsQuiet settings)
    (hread : read request.expression = .ok reading) (htree : reading.expression = none) :
    (run settings openSource arguments).Tells ∧
      (run settings openSource arguments).opened = none := by
  obtain ⟨rank, hrank, hlt⟩ := hquiet
  simp only [haccepts.run_eq hrank, runRequest, hread, htree, shownAt_of_lt hlt, Outcome.behind,
    List.nil_append]
  exact ⟨⟨rfl, rfl, prefix_errorLine _⟩, trivial⟩

theorem Accepts.stops (hquiet : IsQuiet settings) (hread : read request.expression = .ok reading)
    (htree : reading.expression = some expression) (hopen : openSource request.seed = .ok source)
    {fault : Fault} (h : rolled settings request expression source = .error fault after)
    (htold : isTold fault = false) : (run settings openSource arguments).Stops fault := by
  rw [haccepts.run_of_some hquiet hread htree]
  exact runReading_of_not_told hopen htold h

end Accepts

/-- The ways in which a run can end that has read an expression. -/
inductive Ends (settings : Settings) (request : Request) (reading : Reading)
    (expression : Expression) (turns : Int) (source : σ) (outcome : Outcome σ) : Prop where
  | complete {values : List Value} {after : σ} {shown : List Text} :
      1 ≤ turns → expression.run settings.limits turns source = .ok values after →
      request.display.lines settings expression values = .ok shown →
      request.display.Shows values shown → outcome.Prints reading.remainder shown →
      Ends settings request reading expression turns source outcome
  | told : outcome.Tells → Ends settings request reading expression turns source outcome
  | exhausted {supplied : Nat} {after : σ} :
      expression.run settings.limits turns source = .error (.source (.exhausted supplied)) after →
      outcome.Stops (.source (.exhausted supplied)) →
      Ends settings request reading expression turns source outcome
  | huge {values : List Value} {after : σ} {fault : Fault} :
      expression.run settings.limits turns source = .ok values after →
      request.display.IsHuge settings turns fault → outcome.Stops fault →
      Ends settings request reading expression turns source outcome

section Reading

variable (hcanonical : expression.IsCanonical) (hopen : openSource request.seed = .ok source)
  {turns : Int}
  (hturns : request.count.orDefault (request.display.defaultTurns settings) = .ok turns)

include hcanonical hopen hturns

theorem ends_runReading (reading : Reading) :
    Ends settings request reading expression turns source
      (runReading settings openSource request reading expression) := by
  have hordinary := hcanonical.isOrdinary
  have hfits : ∀ n ∈ expression.numbers, Numeral.fits n = true :=
    fun n hn => (hcanonical.isPlain n hn).fits
  cases hrolled : rolled settings request expression source with
  | ok text after =>
    obtain ⟨hpos, values, shown, hrun, hshown, rfl⟩ :=
      (rolled_eq_ok_iff hfits hturns).mp hrolled
    have hshows := Display.shows_of_lines hcanonical (Expression.ne_nil_of_run hpos hrun) hshown
    exact .complete hpos hrun hshown hshows (runReading_of_ok hopen hshows.ne_nil hrolled).1
  | error fault after =>
    obtain ⟨-, rfl, -⟩ | ⟨hpos, hrun⟩ | ⟨hpos, values, hrun, hshown⟩ :=
      (rolled_eq_error_iff hfits hturns).mp hrolled
    · exact .told (runReading_of_told hopen (isTold_raised rfl) hrolled).1
    · obtain ⟨cause, rfl⟩ | ⟨_, cause, _, rfl⟩ :=
        Expression.fault_of_run hordinary.hasSteps hpos hrun
      · exact .told (runReading_of_told hopen (isTold_raised rfl) hrolled).1
      · obtain htold | ⟨supplied, hexhausted⟩ := isTold_raised_source cause
        · exact .told (runReading_of_told hopen htold hrolled).1
        · rw [hexhausted] at hrun hrolled
          exact .exhausted hrun (runReading_of_not_told hopen rfl hrolled)
    · have hvalues := Expression.ne_nil_of_run hpos hrun
      obtain rfl | hhuge := Display.lines_eq_error hvalues hshown
      · exact .told (runReading_of_told hopen rfl hrolled).1
      · rw [Expression.length_of_run hpos hrun] at hhuge
        refine .huge hrun hhuge (runReading_of_not_told hopen ?_ hrolled)
        rw [hhuge.fault]
        rfl

/-- Whatever fault a batch ends in is told, but for a source that runs out. -/
theorem tells_of_run_eq_error {fault : Fault}
    (hrun : expression.run settings.limits turns source = .error fault after)
    (hfault : ∀ supplied, fault ≠ .source (.exhausted supplied)) :
    (runReading settings openSource request reading expression).Tells := by
  cases ends_runReading hcanonical hopen hturns reading with
  | complete _ hok => cases hok.symm.trans hrun
  | told htells => exact htells
  | exhausted hexhausted =>
    cases hexhausted.symm.trans hrun
    exact absurd rfl (hfault _)
  | huge hok => cases hok.symm.trans hrun

theorem tells_of_lt (h : turns < 1) :
    (runReading settings openSource request reading expression).Tells := by
  have hrun : expression.run settings.limits turns source =
      .error (Fault.tooFew .run turns).raised source := by
    rw [Expression.run, if_pos h]
    rfl
  exact tells_of_run_eq_error hcanonical hopen hturns hrun
    (raised_ne_exhausted fun supplied => Fault.noConfusion)

theorem tells_of_turn {n : Nat} {earlier : List Value} {middle : σ} {fault : Fault}
    (hn : (n : Int) < turns)
    (hearlier : Rolling.times n (expression.evaluate settings.limits) source = .ok earlier middle)
    (hturn : expression.evaluate settings.limits middle = .error fault after)
    (hfault : ∀ supplied, fault ≠ .source (.exhausted supplied)) :
    (runReading settings openSource request reading expression).Tells := by
  have hrun : expression.run settings.limits turns source = .error fault after := by
    rw [Expression.run_of_pos (by omega)]
    exact Rolling.times_of_error (by omega) hearlier hturn
  exact tells_of_run_eq_error hcanonical hopen hturns hrun hfault

theorem tells_or_stops_of_refused
    (hpools : ¬∀ pool ∈ expression.pools, pool.IsAdmissible settings.limits) :
    (runReading settings openSource request reading expression).Tells ∨
      ∃ supplied, (runReading settings openSource request reading expression).Stops
        (.source (.exhausted supplied)) := by
  obtain ⟨before, bad, cause, hrefused⟩ := Pool.exists_firstRefused hpools
  have hfails := Expression.failsBehind_of_refused hcanonical.isOrdinary.hasSteps hrefused
  have hnot : ∀ {values : List Value} {after : σ}, 1 ≤ turns →
      expression.run settings.limits turns source ≠ .ok values after := by
    intro values after hpos hrun
    rw [Expression.run_of_pos hpos, show turns.toNat = turns.toNat - 1 + 1 by omega,
      Rolling.times_succ] at hrun
    obtain ⟨value, _, hvalue, _⟩ := Rolling.bind_eq_ok.mp hrun
    exact hfails.ne_ok value hvalue
  cases ends_runReading hcanonical hopen hturns reading with
  | complete hpos hok => exact absurd hok (hnot hpos)
  | told htells => exact .inl htells
  | exhausted _ hstops => exact .inr ⟨_, hstops⟩
  | huge hok hhuge =>
    have hlimit : 1 < Tally.indexLimit := by decide
    have := hhuge.turns
    exact absurd hok (hnot (by omega))

theorem tells_of_refused {before : List Pool} {bad : Pool} {cause : PoolFault} {rolls : List Roll}
    (hrefused : Pool.FirstRefused settings.limits expression.pools before bad cause)
    (hrolls : before.mapM (Pool.roll settings.limits) source = .ok rolls after) :
    (runReading settings openSource request reading expression).Tells := by
  by_cases hpos : turns < 1
  · exact tells_of_lt hcanonical hopen hturns hpos
  have hfails := Expression.failsBehind_of_refused hcanonical.isOrdinary.hasSteps hrefused
  have hfirst : ((0 : Nat) : Int) < turns := by
    rw [Nat.cast_zero]
    omega
  exact tells_of_turn hcanonical hopen hturns hfirst rfl (hfails.eq_error hrolls)
    fun supplied => Fault.isOwn_raised_pool cause (.exhausted supplied)

theorem tells_or_stops_of_unwritable {values : List Value}
    (hrun : expression.run settings.limits turns source = .ok values after)
    (hnumbers : ¬∀ n ∈ request.display.numbers values, Numeral.fits n = true) :
    (runReading settings openSource request reading expression).Tells ∨
      ∃ fault, request.display.IsHuge settings turns fault ∧
        (runReading settings openSource request reading expression).Stops fault := by
  cases ends_runReading hcanonical hopen hturns reading with
  | complete _ hok _ hshows =>
    cases hok.symm.trans hrun
    exact absurd hshows.fits hnumbers
  | told htells => exact .inl htells
  | exhausted hexhausted => cases hexhausted.symm.trans hrun
  | huge _ hhuge hstops => exact .inr ⟨_, hhuge, hstops⟩

end Reading

/-- What is told as an error, however far the batch has come. -/
structure TellsErrors (settings : Settings) (request : Request) (expression : Expression)
    (turns : Int) (source : σ) (outcome : Outcome σ) : Prop where
  tooFew : turns < 1 → outcome.Tells
  turn {n : Nat} {earlier : List Value} {middle after : σ} {fault : Fault} : (n : Int) < turns →
    Rolling.times n (expression.evaluate settings.limits) source = .ok earlier middle →
    expression.evaluate settings.limits middle = .error fault after →
    (∀ supplied, fault ≠ .source (.exhausted supplied)) → outcome.Tells
  refused : (¬∀ pool ∈ expression.pools, pool.IsAdmissible settings.limits) →
    outcome.Tells ∨ ∃ supplied, outcome.Stops (.source (.exhausted supplied))
  refusedBehind {before : List Pool} {bad : Pool} {cause : PoolFault} {rolls : List Roll}
    {after : σ} : Pool.FirstRefused settings.limits expression.pools before bad cause →
    before.mapM (Pool.roll settings.limits) source = .ok rolls after → outcome.Tells
  unwritable {values : List Value} {after : σ} :
    expression.run settings.limits turns source = .ok values after →
    (¬∀ n ∈ request.display.numbers values, Numeral.fits n = true) →
    outcome.Tells ∨ ∃ fault, request.display.IsHuge settings turns fault ∧ outcome.Stops fault

theorem Given.exists_orDefault {given : Given} (h : given ≠ .blank) (default : Int) :
    ∃ n, given.orDefault default = .ok n := by
  cases given with
  | nothing => exact ⟨default, rfl⟩
  | blank => exact absurd rfl h
  | number n => exact ⟨n, rfl⟩

/-- A run on arguments that are accepted prints all lines or none. Without an expression there is
an error and no source, and with one there is an error wherever a turn or a number fails, unless
the source has run out before or a bar is longer than any text. -/
theorem run_all_or_nothing {arguments : List Text} (haccepts : Accepts settings arguments request)
    (hquiet : IsQuiet settings) (hcount : request.count ≠ .blank)
    (hruns : request.expression.HasShortRuns)
    (hopen : openSource request.seed = .ok source) :
    ∃ reading turns, read request.expression = .ok reading ∧
      request.count.orDefault (request.display.defaultTurns settings) = .ok turns ∧
      (reading.expression = none → (run settings openSource arguments).Tells ∧
        (run settings openSource arguments).opened = none) ∧
      ∀ expression, reading.expression = some expression →
        Ends settings request reading expression turns source
          (run settings openSource arguments) ∧
        TellsErrors settings request expression turns source
          (run settings openSource arguments) := by
  obtain ⟨reading, hread⟩ := read_total hruns
  obtain ⟨turns, hturns⟩ := Given.exists_orDefault hcount (request.display.defaultTurns settings)
  refine ⟨reading, turns, hread, hturns, ?_, ?_⟩
  · exact fun htree => haccepts.run_of_none hquiet hread htree
  · intro expression htree
    have hcanonical := Expression.isCanonical_of_read hread htree
    rw [haccepts.run_of_some hquiet hread htree]
    exact ⟨ends_runReading hcanonical hopen hturns reading,
      { tooFew := tells_of_lt hcanonical hopen hturns
        turn := tells_of_turn hcanonical hopen hturns
        refused := tells_or_stops_of_refused hcanonical hopen hturns
        refusedBehind := tells_of_refused hcanonical hopen hturns
        unwritable := tells_or_stops_of_unwritable hcanonical hopen hturns }⟩

/-- A turn that fails is told, here the second one, with the first one rolled. -/
theorem run_all_or_nothing_misfit :
    Accepts {} ["1d6".toList, "-c2".toList] ⟨"1d6".toList, .full, .number 2, .nothing⟩ ∧
      (run {} (replaying [3, 9]) ["1d6".toList, "-c2".toList]).Tells := by
  have haccepts : Accepts {} ["1d6".toList, "-c2".toList]
      ⟨"1d6".toList, .full, .number 2, .nothing⟩ :=
    ⟨Numeral.fits_of_lt 5 (by decide) (by decide), by cbv, 30, rfl⟩
  obtain ⟨reading, turns, hread, hturns, -, hsome⟩ := run_all_or_nothing haccepts
    (isQuiet_of_warning rfl) (by decide) (Text.hasShortRuns_of_length_le (by decide))
    (show replaying [3, 9] .nothing = .ok (Replay.ofList [3, 9]) from rfl)
  have htext : read "1d6".toList =
      .ok ⟨some (.pool ⟨1, 6, none, none⟩), "1d6".toList, none, none⟩ := by
    cbv
  cases hread.symm.trans htext
  cases hturns
  have hfirst : Rolling.times 1 (Expression.evaluate {} (.pool ⟨1, 6, none, none⟩))
      (Replay.ofList [3, 9]) = .ok [.plain ⟨[⟨3, .kept, false⟩], 3, 0, none⟩] ⟨2, [9]⟩ :=
    rfl
  have hsecond : Expression.evaluate {} (.pool ⟨1, 6, none, none⟩) (⟨2, [9]⟩ : Replay) =
      .error (Fault.source (.misfit 9 6)).raised ⟨2, [9]⟩ :=
    rfl
  have hmisfit : ∀ supplied, Fault.source (.misfit 9 6) ≠ .source (.exhausted supplied) := by
    simp
  exact ⟨haccepts,
    (hsome _ rfl).2.turn (by decide) hfirst hsecond (raised_ne_exhausted hmisfit)⟩

/-! ### Runs without a word -/

theorem rolled_of_blank (hblank : request.count = .blank) :
    rolled settings request expression source = .error .blankCount source := by
  obtain ⟨text, display, count, seed⟩ := request
  cases hblank
  cases display <;> rfl

/-- The chart of a number has one bar, which may be too long. -/
theorem rolled_chart_of_number {turns number : Int} (hdisplay : request.display = .chart)
    (hcount : request.count = .number turns) (hturns : 1 ≤ turns)
    (hnumber : Numeral.fits number = true) {cause : TallyFault}
    (hbar : Tally.bar (Tally.starSize settings.chartBarWidth turns) turns = .error cause) :
    rolled settings request (.number number) source = .error (.tally cause) source := by
  have hfits : ∀ n ∈ (Expression.number number).numbers, Numeral.fits n = true := by
    simpa [Expression.numbers] using hnumber
  have hgiven : request.count.orDefault (request.display.defaultTurns settings) = .ok turns := by
    rw [hcount]
    rfl
  obtain ⟨n, rfl⟩ := Int.eq_ofNat_of_zero_le (show 0 ≤ turns by omega)
  have htallies : (Tally.ofScores (List.replicate n number)).Tallies (List.replicate n number) :=
    Tally.tallies_ofScores _
  refine (rolled_eq_error_iff hfits hgiven).mpr (.inr (.inr ⟨hturns,
    List.replicate n (.plain { total := number, constant := number }), ?_, ?_⟩))
  · rw [Expression.run_number _ hturns]
    rfl
  · rw [hdisplay, Display.lines, List.map_replicate]
    change List.map (·.2) <$> (Tally.ofScores (List.replicate n number)).chartRows _ = _
    rw [htallies.chartRows_of_replicate (by omega) hnumber hbar]
    rfl

/-- Three runs that end without a word: the faces run out before a pool is reached that would be
refused, the count is left blank, and the bar of a chart is longer than any text. -/
theorem run_stopped_silently :
    (Accepts {} ["2d6+1d0".toList] ⟨"2d6+1d0".toList, .full, .nothing, .nothing⟩ ∧
      (∃ reading tree, read "2d6+1d0".toList = .ok reading ∧ reading.expression = some tree ∧
        ¬∀ pool ∈ tree.pools, pool.IsAdmissible {}) ∧
      (run {} (replaying []) ["2d6+1d0".toList]).Stops (.source (.exhausted 0))) ∧
    (Accepts {} ["5".toList, "-c--".toList] ⟨"5".toList, .full, .blank, .nothing⟩ ∧
      (run {} (replaying []) ["5".toList, "-c--".toList]).Stops .blankCount) ∧
    (Accepts { chartBarWidth := 2 ^ 63 } ["5".toList, "-dchart".toList, "-c9223372036854775808".toList]
        ⟨"5".toList, .chart, .number (2 ^ 63), .nothing⟩ ∧
      (run { chartBarWidth := 2 ^ 63 } (replaying [])
        ["5".toList, "-dchart".toList, "-c9223372036854775808".toList]).Stops
          (.tally .hugeBar)) := by
  have hfits : Numeral.fits 10000 = true := Numeral.fits_of_lt 5 (by decide) (by decide)
  have hpools : read "2d6+1d0".toList =
      .ok ⟨some (.sum (.pool ⟨2, 6, none, none⟩) (.pool ⟨1, 0, none, none⟩)),
        "2d6+1d0".toList, none, none⟩ := by
    cbv
  have hnumber : read "5".toList = .ok ⟨some (.number 5), "5".toList, none, none⟩ := by cbv
  have hplain : Accepts {} ["2d6+1d0".toList] ⟨"2d6+1d0".toList, .full, .nothing, .nothing⟩ :=
    ⟨hfits, by cbv, 30, rfl⟩
  have hblank : Accepts {} ["5".toList, "-c--".toList] ⟨"5".toList, .full, .blank, .nothing⟩ :=
    ⟨hfits, by cbv, 30, rfl⟩
  have hchart : Accepts { chartBarWidth := 2 ^ 63 }
      ["5".toList, "-dchart".toList, "-c9223372036854775808".toList]
      ⟨"5".toList, .chart, .number (2 ^ 63), .nothing⟩ :=
    ⟨hfits, by cbv, 30, rfl⟩
  have hquiet : ∀ width, IsQuiet { chartBarWidth := width } := fun width => isQuiet_of_warning rfl
  have hopen : replaying [] .nothing = .ok (Replay.ofList []) := rfl
  refine ⟨⟨hplain, ⟨_, _, hpools, rfl, fun hall => ?_⟩, ?_⟩, ⟨hblank, ?_⟩, hchart, ?_⟩
  · exact absurd (hall ⟨1, 0, none, none⟩ (by simp [Expression.pools])).sides_pos (by decide)
  · have hraised : (Fault.source (.exhausted 0)).raised = .source (.exhausted 0) :=
      Fault.raised_of_fits fun n hn => Numeral.fits_of_lt 1 (by decide)
        ((by decide : ∀ n ∈ (Fault.source (.exhausted 0)).numbers, n.natAbs < 10 ^ 1) n hn)
    have hrolled : rolled {} ⟨"2d6+1d0".toList, .full, .nothing, .nothing⟩
        (.sum (.pool ⟨2, 6, none, none⟩) (.pool ⟨1, 0, none, none⟩)) (Replay.ofList []) =
          .error (Fault.source (.exhausted 0)).raised (Replay.ofList []) :=
      rfl
    rw [hraised] at hrolled
    exact hplain.stops (hquiet 50) hpools rfl hopen hrolled rfl
  · exact hblank.stops (hquiet 50) hnumber rfl hopen (rolled_of_blank rfl) rfl
  · have hfive : Numeral.fits 5 = true := Numeral.fits_of_lt 1 (by decide) (by decide)
    have hbar : Tally.bar (Tally.starSize (2 ^ 63) (2 ^ 63)) (2 ^ 63) = .error .hugeBar := rfl
    exact hchart.stops (hquiet _) hnumber rfl hopen
      (rolled_chart_of_number rfl rfl (by decide) hfive hbar) rfl

end CommandLine

end DiceNotation
