import DiceNotation.Proofs.CommandLine.Endings
import DiceNotation.Proofs.CommandLine.Requests
import DiceNotation.Proofs.Evaluation.Balance
import DiceNotation.Service

/-!
# The service and the command line agree

The route for rolls and the command line read, roll and write the same: on the same source there
is a response with rolls just if the command line prints them. Two settings are left to the command
line alone: the level of its log, and the number of samples that its help shows.
-/

namespace DiceNotation

namespace Expression

theorem IsCanonicalSuccess.isComparisonFree {tree : Expression} (h : tree.IsCanonicalSuccess) :
    tree.IsComparisonFree := by
  have hterm : ∀ {tree : Expression}, tree.IsCanonicalTerm → tree.IsComparisonFree := by
    rintro _ (_ | _) <;> trivial
  have hsum : ∀ {tree : Expression}, tree.IsCanonicalSum → tree.IsComparisonFree := by
    intro tree h
    induction h with
    | term h => exact hterm h
    | sum _ hright ih | difference _ hright ih => exact ⟨ih, hterm hright⟩
  have htarget : ∀ {tree : Expression}, tree.IsCanonicalTarget → tree.IsComparisonFree := by
    rintro _ (⟨_, hinner, _⟩ | h)
    · have hfree := hsum hinner
      exact hfree
    · exact hsum h
  cases h with
  | success hinner =>
    have hfree := htarget hinner
    exact hfree
  | target h => exact htarget h

end Expression

theorem Roll.score_mem_numbers (roll : Roll) : roll.score ∈ roll.numbers := by
  unfold score numbers
  cases roll.level <;> simp

/-- The score of a value is one of the numbers that are shown of it. -/
theorem Evaluates.score_mem_numbers {σ : Type} [Source σ] {limits : Limits} {tree : Expression}
    (hcanonical : tree.IsCanonical) {source after : σ} {value : Value}
    (h : Evaluates limits tree source value after) : value.score ∈ value.numbers := by
  cases hcanonical with
  | success hsuccess =>
    have hagrees := h.agrees hsuccess.isComparisonFree
    cases value with
    | plain roll => exact roll.score_mem_numbers
    | versus => cases hagrees.operands
  | comparison relation _ _ =>
    cases h with
    | comparison _ _ _ => exact List.mem_append_right _ List.mem_cons_self

namespace Service

/-- A text that is long enough comes through a check as it is, and so does a number within the
bounds that is written out. -/
def LetsThrough (check : Check) : Prop :=
  ∀ (expression : TextParameter) (number : NumberParameter) (text : Text) (n : Int),
    expression.name ≠ number.name → expression.minLength ≤ text.length → Numeral.IsPlain n →
    number.least ≤ n → n ≤ number.greatest →
    check expression number [(expression.name, text), (number.name, Numeral.text n)] = .ok (text, n)

/-- A check that reads the number as a command line does, and does not tell what is wrong. -/
def plainCheck : Check := fun expression number parameters =>
  match parameters.lookup expression.name, parameters.lookup number.name with
  | some text, some given =>
    match Numeral.ofArgument? given with
    | some n =>
      if expression.minLength ≤ text.length ∧ number.least ≤ n ∧ n ≤ number.greatest then
        .ok (text, n)
      else .error []
    | none => .error []
  | _, _ => .error []

theorem letsThrough_plainCheck : LetsThrough plainCheck := by
  intro expression number text n hnames hlength hplain hleast hgreatest
  have hname : (number.name == expression.name) = false := by simpa using hnames.symm
  have htext : [(expression.name, text), (number.name, Numeral.text n)].lookup expression.name =
      some text := by
    rw [List.lookup_cons_self]
  have hnumber : [(expression.name, text), (number.name, Numeral.text n)].lookup number.name =
      some (Numeral.text n) := by
    rw [List.lookup_cons, hname, List.lookup_cons_self]
  simp only [plainCheck, htext, hnumber, Numeral.ofArgument?_text hplain.fits]
  exact if_pos ⟨hlength, hleast, hgreatest⟩

variable {σ : Type} [Source σ] {check : Check} {settings : Settings} {text : Text} {count : Int}
  {reading : Reading} {expression : Expression} {source after : σ}

/-- The parameters that ask for a number of rolls of an expression. -/
def rollParameters (text : Text) (count : Int) : Parameters :=
  [("expr".toList, text), ("count".toList, Numeral.text count)]

theorem check_rollParameters (hcheck : LetsThrough check) (htext : text ≠ [])
    (hplain : Numeral.IsPlain count) (hcount : 1 ≤ count ∧ count ≤ 1000) :
    check expressionParameter (Route.roll.countParameter settings) (rollParameters text count) =
      .ok (text, count) := by
  have hnames : "expr".toList ≠ "count".toList := by decide
  exact hcheck expressionParameter (Route.roll.countParameter settings) text count hnames
    (List.length_pos_iff.mpr htext) hplain hcount.1 hcount.2

open CommandLine

/-- Rolls are answered with all values, or not at all. -/
theorem rolls_eq (hcanonical : expression.IsCanonical) (remainder : Option Text) :
    (rolls settings expression remainder count : Rolling σ Response) =
      expression.run settings.limits count >>= fun values =>
        if (Display.full.numbers values).all Numeral.fits then
          pure (.rolls expression.text remainder (values.map fun value => (value, value.text)))
        else throw (.numeral .unwritable) := by
  have hwrite : Value.write = fun value => Numeral.checked value.numbers value.text := rfl
  unfold rolls
  congr
  funext values
  rw [hcanonical.write_eq, hwrite, Numeral.mapM_checked, List.map_prod_left_eq_zip,
    Display.numbers]
  split <;> rfl

theorem rolls_eq_ok_iff (hcanonical : expression.IsCanonical) {remainder : Option Text}
    {response : Response} :
    rolls settings expression remainder count source = .ok response after ↔
      ∃ values, expression.run settings.limits count source = .ok values after ∧
        (∀ n ∈ Display.full.numbers values, Numeral.fits n = true) ∧
        .rolls expression.text remainder (values.map fun value => (value, value.text)) =
          response := by
  rw [rolls_eq hcanonical, Rolling.bind_eq_ok]
  constructor
  · rintro ⟨values, middle, hvalues, hresponse⟩
    split at hresponse
    next hall =>
      obtain ⟨rfl, rfl⟩ := Rolling.pure_eq_ok.mp hresponse
      exact ⟨values, hvalues, List.all_eq_true.mp hall, rfl⟩
    next => cases hresponse
  · rintro ⟨values, hvalues, hfits, rfl⟩
    refine ⟨values, after, hvalues, ?_⟩
    rw [if_pos (List.all_eq_true.mpr hfits)]
    rfl

theorem run_of_rolls_eq_pool (hcanonical : expression.IsCanonical) {remainder : Option Text}
    {fault : PoolFault}
    (h : rolls settings expression remainder count source = .error (.pool fault) after) :
    expression.run settings.limits count source = .error (.pool fault) after := by
  rw [rolls_eq hcanonical] at h
  obtain h | ⟨values, middle, -, h⟩ := Rolling.bind_eq_error.mp h
  · exact h
  · split at h <;> cases h

/-- The answers to a request for rolls: the rolls, or what is wrong with the text or with a pool. -/
inductive Answers (settings : Settings) (text : Text) (count : Int) :
    σ → Response → σ → Prop where
  | unread {source : σ} {reading : Reading} : read text = .ok reading → reading.expression = none →
      Answers settings text count source (.refused (unreadableDetail text reading)) source
  | rolls {source after : σ} {reading : Reading} {expression : Expression} {values : List Value} :
      read text = .ok reading → reading.expression = some expression →
      expression.run settings.limits count source = .ok values after →
      (∀ n ∈ Display.full.numbers values, Numeral.fits n = true) →
      Answers settings text count source
        (.rolls expression.text reading.remainder (values.map fun value => (value, value.text)))
        after
  | refused {source after : σ} {reading : Reading} {expression : Expression} {fault : PoolFault} :
      read text = .ok reading → reading.expression = some expression →
      expression.run settings.limits count source = .error (.pool fault) after →
      Answers settings text count source (.refused fault.message) after

omit [Source σ] in
theorem tellingPools_eq_ok_iff {action : Rolling σ Response} {response : Response} :
    tellingPools action source = .ok response after ↔ action source = .ok response after ∨
      ∃ fault, action source = .error (.pool fault) after ∧ .refused fault.message = response := by
  unfold tellingPools
  cases haction : action source with
  | ok other middle => simp
  | error fault middle => cases fault <;> simp [and_comm]

theorem respond_eq (hcheck : LetsThrough check) (htext : text ≠ [])
    (hplain : Numeral.IsPlain count) (hcount : 1 ≤ count ∧ count ≤ 1000)
    (hread : read text = .ok reading) :
    (respond check settings .roll (rollParameters text count) : Rolling σ Response) =
      match reading.expression with
      | none => pure (.refused (unreadableDetail text reading))
      | some expression => tellingPools (rolls settings expression reading.remainder count) := by
  cases htree : reading.expression <;>
    simp only [respond, check_rollParameters hcheck htext hplain hcount, hread, htree,
      Except.mapError, ofExcept_ok, pure_bind]

theorem answers_of_respond (hcheck : LetsThrough check) (htext : text ≠ [])
    (hplain : Numeral.IsPlain count) (hcount : 1 ≤ count ∧ count ≤ 1000) {response : Response}
    (h : respond check settings .roll (rollParameters text count) source = .ok response after) :
    Answers settings text count source response after := by
  cases hread : read text with
  | error fault =>
    simp only [respond, check_rollParameters hcheck htext hplain hcount, hread,
      Except.mapError] at h
    cases h
  | ok reading =>
    rw [respond_eq hcheck htext hplain hcount hread] at h
    cases htree : reading.expression with
    | none =>
      rw [htree] at h
      obtain ⟨rfl, rfl⟩ := Rolling.pure_eq_ok.mp h
      exact .unread hread htree
    | some expression =>
      rw [htree] at h
      have hcanonical := Expression.isCanonical_of_read hread htree
      obtain hrolls | ⟨fault, hrefused, rfl⟩ := tellingPools_eq_ok_iff.mp h
      · obtain ⟨values, hvalues, hfits, rfl⟩ := (rolls_eq_ok_iff hcanonical).mp hrolls
        exact .rolls hread htree hvalues hfits
      · exact .refused hread htree (run_of_rolls_eq_pool hcanonical hrefused)

/-- Values that can be shown are answered. -/
theorem respond_of_values (hcheck : LetsThrough check) (htext : text ≠ [])
    (hplain : Numeral.IsPlain count) (hcount : 1 ≤ count ∧ count ≤ 1000)
    (hread : read text = .ok reading) (htree : reading.expression = some expression)
    {values : List Value}
    (hvalues : expression.run settings.limits count source = .ok values after)
    (hfits : ∀ n ∈ Display.full.numbers values, Numeral.fits n = true) :
    respond check settings .roll (rollParameters text count) source =
      .ok (.rolls expression.text reading.remainder (values.map fun value => (value, value.text)))
        after := by
  rw [respond_eq hcheck htext hplain hcount hread, htree]
  refine tellingPools_eq_ok_iff.mpr (.inl ?_)
  exact (rolls_eq_ok_iff (Expression.isCanonical_of_read hread htree)).mpr
    ⟨values, hvalues, hfits, rfl⟩

/-! ### The command line -/

variable {openSource : Given → Except Fault σ} {display : Display}

theorem scores_fit {values : List Value} (hcanonical : expression.IsCanonical)
    (hcount : 1 ≤ count)
    (hvalues : expression.run settings.limits count source = .ok values after)
    (hfits : ∀ n ∈ Display.full.numbers values, Numeral.fits n = true) :
    ∀ n ∈ Display.value.numbers values, Numeral.fits n = true := by
  intro n hn
  obtain ⟨value, hvalue, rfl⟩ := List.mem_map.mp hn
  rw [Expression.run_of_pos hcount] at hvalues
  obtain ⟨before, behind, hevaluate⟩ := Rolling.exists_of_times hvalues value hvalue
  have hscore := (evaluate_eq_ok_iff.mp hevaluate).score_mem_numbers hcanonical
  exact hfits _ (List.mem_flatMap.mpr ⟨value, hvalue, hscore⟩)

section WrittenOut

variable (hquiet : IsQuiet settings) (hsamples : Numeral.fits settings.chartSamples = true)
  (hplain : Numeral.IsPlain count)

include hquiet hsamples hplain

theorem accepts_writtenOut (display : Display) (text : Text) :
    Accepts settings (writtenOut display count text) (request settings display count text) :=
  ⟨hsamples, readArguments_writtenOut settings display hplain text, hquiet.imp fun _ => And.left⟩

/-- Lines that a display makes of the values are printed, from the same source. -/
theorem prints_of_lines (hcount : 1 ≤ count)
    (hopen : openSource (.ofOption settings.seed) = .ok source) (hread : read text = .ok reading)
    (htree : reading.expression = some expression) {values : List Value}
    (hvalues : expression.run settings.limits count source = .ok values after) {shown : List Text}
    (hshown : display.lines settings expression values = .ok shown) :
    (run settings openSource (writtenOut display count text)).Prints reading.remainder shown ∧
      (run settings openSource (writtenOut display count text)).opened =
        some (.ofOption settings.seed, after) := by
  have hcanonical := Expression.isCanonical_of_read hread htree
  have hne := Expression.ne_nil_of_run hcount hvalues
  have hshows := Display.shows_of_lines hcanonical hne hshown
  have hrolled : rolled settings (request settings display count text) expression
      source = .ok (Text.lines shown) after :=
    (rolled_eq_ok_iff (fun n hn => (hcanonical.isPlain n hn).fits) rfl).mpr
      ⟨hcount, values, shown, hvalues, hshown, rfl⟩
  rw [(accepts_writtenOut hquiet hsamples hplain display text).run_of_some hquiet hread htree]
  exact runReading_of_ok hopen hshows.ne_nil hrolled

theorem tells_of_refused (hcount : 1 ≤ count)
    (hopen : openSource (.ofOption settings.seed) = .ok source) (hread : read text = .ok reading)
    (htree : reading.expression = some expression) {fault : PoolFault}
    (hrun : expression.run settings.limits count source = .error (.pool fault) after)
    (display : Display) :
    (run settings openSource (writtenOut display count text)).Tells ∧
      (run settings openSource (writtenOut display count text)).opened =
        some (.ofOption settings.seed, after) := by
  have hcanonical := Expression.isCanonical_of_read hread htree
  have hrolled : rolled settings (request settings display count text) expression
      source = .error (.pool fault) after :=
    (rolled_eq_error_iff (fun n hn => (hcanonical.isPlain n hn).fits) rfl).mpr
      (.inr (.inl ⟨hcount, hrun⟩))
  rw [(accepts_writtenOut hquiet hsamples hplain display text).run_of_some hquiet hread htree]
  exact runReading_of_told hopen rfl hrolled

/-- What is printed in full is answered. -/
theorem exists_values_of_exit (hopen : openSource (.ofOption settings.seed) = .ok source)
    (h : (run settings openSource (writtenOut .full count text)).ending = .exit 0) :
    ∃ reading expression values after, read text = .ok reading ∧
      reading.expression = some expression ∧
      expression.run settings.limits count source = .ok values after ∧
      ∀ n ∈ Display.full.numbers values, Numeral.fits n = true := by
  have haccepts := accepts_writtenOut hquiet hsamples hplain .full text
  cases hread : read text with
  | error fault => cases (haccepts.run_of_error hread).ending.symm.trans h
  | ok reading =>
    cases htree : reading.expression with
    | none => cases (haccepts.run_of_none hquiet hread htree).1.ending.symm.trans h
    | some expression =>
      rw [haccepts.run_of_some hquiet hread htree] at h
      have hends : Ends settings (request settings .full count text) reading expression count source
          (runReading settings openSource (request settings .full count text) reading expression) :=
        ends_runReading (Expression.isCanonical_of_read hread htree) hopen rfl reading
      cases hends with
      | complete _ hvalues hshown =>
        exact ⟨reading, expression, _, _, rfl, htree, hvalues,
          (Display.written_eq_ok_iff.mp hshown).1⟩
      | told htells => cases htells.ending.symm.trans h
      | exhausted _ hstops => cases hstops.ending.symm.trans h
      | huge _ _ hstops => cases hstops.ending.symm.trans h

end WrittenOut

/-- With the same settings and on the same source there is an answer with rolls just if the command
line prints the values in full. The lines are then those of the answer, and so are the scores, and
the source is left in the same state. A request that is refused ends in an error, whatever the
display. For this the check of the parameters has to let the text and the count through, the log of
the command line to show no records of debugging, and the number of samples to fit into its help. -/
theorem respond_agrees_run (hcheck : LetsThrough check) (hquiet : IsQuiet settings)
    (hsamples : Numeral.fits settings.chartSamples = true) (htext : text ≠ [])
    (hcount : 1 ≤ count ∧ count ≤ 1000)
    (hopen : openSource (.ofOption settings.seed) = .ok source) :
    ((∃ response after, respond check settings .roll (rollParameters text count) source =
        .ok response after ∧ response.status = 200) ↔
      (run settings openSource (writtenOut .full count text)).ending = .exit 0) ∧
    (∀ shown remainder rolls after,
      respond check settings .roll (rollParameters text count) source =
        .ok (.rolls shown remainder rolls) after →
      (rolls.length : Int) = count ∧
      (run settings openSource (writtenOut .full count text)).Prints remainder
        (rolls.map fun roll => shown ++ ':' :: ' ' :: roll.2) ∧
      (run settings openSource (writtenOut .value count text)).Prints remainder
        (rolls.map fun roll => Numeral.text roll.1.score) ∧
      ∀ display, display ≠ .chart →
        (run settings openSource (writtenOut display count text)).opened =
          some (.ofOption settings.seed, after)) ∧
    ∀ response after, respond check settings .roll (rollParameters text count) source =
        .ok response after → response.status ≠ 200 →
      response.status = 400 ∧ ∀ display,
        (run settings openSource (writtenOut display count text)).Tells ∧
        (run settings openSource (writtenOut display count text)).opened.elim source (·.2) =
          after := by
  have hplain : Numeral.IsPlain count :=
    ⟨by omega, Numeral.fits_of_lt 4 (by decide) (by omega)⟩
  refine ⟨⟨?_, ?_⟩, ?_, ?_⟩
  · rintro ⟨response, after, hrespond, hstatus⟩
    cases answers_of_respond hcheck htext hplain hcount hrespond with
    | unread => cases hstatus
    | refused => cases hstatus
    | rolls hread htree hvalues hfits =>
      exact (prints_of_lines hquiet hsamples hplain hcount.1 hopen hread htree hvalues
        (Display.lines_full hfits)).1.ending
  · intro hexit
    obtain ⟨reading, expression, values, after, hread, htree, hvalues, hfits⟩ :=
      exists_values_of_exit hquiet hsamples hplain hopen hexit
    exact ⟨_, after, respond_of_values hcheck htext hplain hcount hread htree hvalues hfits, rfl⟩
  · intro shown remainder rolls after hrespond
    cases answers_of_respond hcheck htext hplain hcount hrespond with
    | @rolls _ reading expression values hread htree hvalues hfits =>
      have hscores := scores_fit (Expression.isCanonical_of_read hread htree) hcount.1 hvalues hfits
      have hfull := prints_of_lines hquiet hsamples hplain hcount.1 hopen hread htree hvalues
        (Display.lines_full hfits)
      have hvalue := prints_of_lines hquiet hsamples hplain hcount.1 hopen hread htree hvalues
        (Display.lines_value hscores)
      simp only [List.map_map, Function.comp_def, List.length_map]
      refine ⟨Expression.length_of_run hcount.1 hvalues, hfull.1, hvalue.1, ?_⟩
      rintro (_ | _ | _) hdisplay
      · exact hfull.2
      · exact hvalue.2
      · exact absurd rfl hdisplay
  · intro response after hrespond hstatus
    cases answers_of_respond hcheck htext hplain hcount hrespond with
    | rolls => exact absurd rfl hstatus
    | unread hread htree =>
      refine ⟨rfl, fun display => ?_⟩
      have haccepts := accepts_writtenOut hquiet hsamples hplain display text
      obtain ⟨htells, hopened⟩ :
          (run settings openSource (writtenOut display count text)).Tells ∧ _ :=
        haccepts.run_of_none hquiet hread htree
      exact ⟨htells, by rw [hopened]; rfl⟩
    | refused hread htree hrun =>
      refine ⟨rfl, fun display => ?_⟩
      obtain ⟨htells, hopened⟩ :=
        tells_of_refused hquiet hsamples hplain hcount.1 hopen hread htree hrun display
      exact ⟨htells, by rw [hopened]; rfl⟩

theorem respond_agrees_run_twice :
    LetsThrough plainCheck ∧ IsQuiet {} ∧ Numeral.fits ({} : Settings).chartSamples = true ∧
      (run {} (replaying [3, 5]) (writtenOut .full 2 "1d6 x".toList)).Prints (some ['x'])
        ["1d6: 3 = 3".toList, "1d6: 5 = 5".toList] ∧
      (run {} (replaying [3, 5]) (writtenOut .value 2 "1d6 x".toList)).Prints (some ['x'])
        [['3'], ['5']] ∧
      (run {} (replaying [3, 5]) (writtenOut .chart 2 "x".toList)).Tells := by
  have hcheck := letsThrough_plainCheck
  have hquiet : IsQuiet {} := isQuiet_of_warning rfl
  have hsamples : Numeral.fits ({} : Settings).chartSamples = true :=
    Numeral.fits_of_lt 5 (by decide) (by decide)
  have hplain : Numeral.IsPlain 2 := ⟨by decide, Numeral.fits_of_lt 1 (by decide) (by decide)⟩
  have hopen : replaying [3, 5] (.ofOption ({} : Settings).seed) = .ok (Replay.ofList [3, 5]) := rfl
  have hread : read "1d6 x".toList =
      .ok ⟨some (.pool ⟨1, 6, none, none⟩), "1d6".toList, some ['x'], none⟩ := by
    cbv
  have hunread : read "x".toList = .ok ⟨none, [], some ['x'], none⟩ := by cbv
  have hrun : Expression.run ({} : Settings).limits (.pool ⟨1, 6, none, none⟩) 2
      (Replay.ofList [3, 5]) =
      .ok [.plain ⟨[⟨3, .kept, false⟩], 3, 0, none⟩, .plain ⟨[⟨5, .kept, false⟩], 5, 0, none⟩]
        ⟨2, []⟩ := by
    cbv
  have hrolls : respond plainCheck {} .roll (rollParameters "1d6 x".toList 2)
      (Replay.ofList [3, 5]) =
      .ok (.rolls "1d6".toList (some ['x'])
        [(.plain ⟨[⟨3, .kept, false⟩], 3, 0, none⟩, "3 = 3".toList),
          (.plain ⟨[⟨5, .kept, false⟩], 5, 0, none⟩, "5 = 5".toList)]) ⟨2, []⟩ := by
    exact respond_of_values hcheck (by decide) hplain (by decide) hread rfl hrun
      (Numeral.fits_of_forall_lt (by decide))
  have hrefused : ∃ detail, respond plainCheck {} .roll (rollParameters "x".toList 2)
      (Replay.ofList [3, 5]) = .ok (.refused detail) (Replay.ofList [3, 5]) := by
    rw [respond_eq hcheck (by decide) hplain (by decide) hunread]
    exact ⟨_, rfl⟩
  obtain ⟨detail, hrefused⟩ := hrefused
  obtain ⟨-, hfull, hvalue, -⟩ :=
    (respond_agrees_run hcheck hquiet hsamples (by decide) (by decide) hopen).2.1 _ _ _ _ hrolls
  obtain ⟨-, htells⟩ :=
    (respond_agrees_run hcheck hquiet hsamples (by decide) (by decide) hopen).2.2 _ _ hrefused
      (by simp [Response.status])
  exact ⟨hcheck, hquiet, hsamples, hfull, hvalue, (htells .chart).1⟩

/-- The response is the same at every level of the log and for every number of samples, but the
command line shows a record, or it stops. -/
theorem run_differs :
    (respond plainCheck { logLevel := "DEBUG".toList } .roll (rollParameters ['5'] 1)
        (Replay.ofList []) = .ok (.rolls ['5'] none
          [(.plain ⟨[], 5, 5, none⟩, "+5 = 5".toList)]) (Replay.ofList []) ∧
      (run { logLevel := "DEBUG".toList } (replaying []) (writtenOut .full 1 ['5'])).stderr =
        "DEBUG:dicepool.cli:Parsed '5' as 5\n".toList) ∧
    (respond plainCheck { logLevel := "TRACE".toList } .roll (rollParameters ['5'] 1)
        (Replay.ofList []) = .ok (.rolls ['5'] none
          [(.plain ⟨[], 5, 5, none⟩, "+5 = 5".toList)]) (Replay.ofList []) ∧
      (run { logLevel := "TRACE".toList } (replaying []) (writtenOut .full 1 ['5'])).Stops
        (.unknownLevel "TRACE".toList)) ∧
    (respond plainCheck { chartSamples := Numeral.bound } .roll (rollParameters ['5'] 1)
        (Replay.ofList []) = .ok (.rolls ['5'] none
          [(.plain ⟨[], 5, 5, none⟩, "+5 = 5".toList)]) (Replay.ofList []) ∧
      (run { chartSamples := Numeral.bound } (replaying []) (writtenOut .full 1 ['5'])).Stops
        (.numeral .unwritable)) := by
  have hfits : Numeral.fits 10000 = true := Numeral.fits_of_lt 5 (by decide) (by decide)
  have hplain : Numeral.IsPlain 1 := ⟨by decide, Numeral.fits_of_lt 1 (by decide) (by decide)⟩
  have hread : read ['5'] = .ok ⟨some (.number 5), ['5'], none, none⟩ := by cbv
  have hrespond : ∀ settings : Settings,
      respond plainCheck settings .roll (rollParameters ['5'] 1) (Replay.ofList []) =
        .ok (.rolls ['5'] none [(.plain ⟨[], 5, 5, none⟩, "+5 = 5".toList)]) (Replay.ofList []) :=
    fun settings => respond_of_values letsThrough_plainCheck (by decide) hplain (by decide) hread
      rfl rfl (Numeral.fits_of_forall_lt (by decide))
  refine ⟨⟨hrespond _, ?_⟩, ⟨hrespond _, ?_⟩, hrespond _, ?_⟩
  · have haccepts : Accepts { logLevel := "DEBUG".toList } (writtenOut .full 1 ['5'])
        (request { logLevel := "DEBUG".toList } .full 1 ['5']) :=
      ⟨hfits, readArguments_writtenOut _ .full hplain _, 10, rfl⟩
    rw [haccepts.run_eq_behind rfl hread rfl]
    decide +kernel
  · exact run_stops_of_unknown { logLevel := "TRACE".toList } hfits
      (readArguments_writtenOut _ .full hplain _) rfl
  · have hlong : Numeral.fits (Numeral.bound : Int) = false := by
      rw [Numeral.fits, Int.natAbs_natCast]
      exact decide_eq_false (lt_irrefl _)
    exact run_stops_of_unwritable { chartSamples := Numeral.bound } hlong _

end Service

end DiceNotation
