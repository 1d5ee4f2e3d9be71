import DiceNotation.Proofs.Grammar.Derivation

/-!
# What a rule reads is derivable

Whenever a rule accepts, the lexemes that it took form a phrase of the grammar, the result is what
this phrase stands for, and the numbers in it are short enough to be read. Nothing is said here
about lexemes that a rule looked at without taking them.
-/

namespace DiceNotation.Grammar

/-- All numbers among the lexemes can be read. -/
def Readable (lexemes : List Lexeme) : Prop :=
  ∀ digits, .number digits ∈ lexemes → digits.length ≤ Numeral.digitLimit

@[simp] theorem readable_nil : Readable [] := nofun

@[simp] theorem readable_cons (lexeme : Lexeme) (lexemes : List Lexeme) :
    Readable (lexeme :: lexemes) ↔
      (∀ digits, lexeme = .number digits → digits.length ≤ Numeral.digitLimit) ∧
        Readable lexemes := by
  simp only [Readable, List.mem_cons]
  constructor
  · intro h
    exact ⟨fun digits heq => h digits (.inl heq.symm), fun digits hmem => h digits (.inr hmem)⟩
  · rintro ⟨hfirst, hrest⟩ digits (heq | hmem)
    · exact hfirst digits heq.symm
    · exact hrest digits hmem

@[simp] theorem readable_append (first second : List Lexeme) :
    Readable (first ++ second) ↔ Readable first ∧ Readable second := by
  induction first with
  | nil => simp
  | cons lexeme first ih => simp [ih, and_assoc]

theorem Readable.mono {lexemes part : List Lexeme} (h : Readable lexemes)
    (hpart : part ⊆ lexemes) : Readable part :=
  fun digits hmem => h digits (hpart hmem)

theorem number_eq_ok_iff {digits : Text} {n : Int} :
    number digits = .ok n ↔
      digits.length ≤ Numeral.digitLimit ∧ n = (Numeral.value digits : Int) := by
  unfold number Numeral.read
  split
  next h => simp [Except.map, h, eq_comm]
  next h => simp [Except.map, h]

/-- The phrase takes a derivable front of the lexemes and leaves the rest. -/
def Reads {α : Type} (derives : List Lexeme → α → Prop) (lexemes : List Lexeme)
    (phrase : Phrase α) : Prop :=
  ∃ used, lexemes = used ++ phrase.rest ∧ Readable used ∧ derives used phrase.value

theorem Reads.suffix {α : Type} {derives : List Lexeme → α → Prop} {lexemes : List Lexeme}
    {phrase : Phrase α} (h : Reads derives lexemes phrase) : phrase.rest <:+ lexemes := by
  obtain ⟨used, hused, _, _⟩ := h
  exact ⟨used, hused.symm⟩

theorem Reads.imp {α : Type} {derives derives' : List Lexeme → α → Prop} {lexemes : List Lexeme}
    {phrase : Phrase α} (h : Reads derives lexemes phrase)
    (himp : ∀ {used tree}, derives used tree → derives' used tree) :
    Reads derives' lexemes phrase := by
  obtain ⟨used, hused, hread, hderives⟩ := h
  exact ⟨used, hused, hread, himp hderives⟩

theorem modifier_reads {lexemes : List Lexeme} {phrase : Phrase (Option Modifier)}
    (h : modifier lexemes = .ok phrase) : Reads DerivesChange lexemes phrase := by
  revert h
  fun_cases modifier lexemes <;> intro h
  case case1 word rest =>
    cases h
    exact ⟨[.keyword word], rfl, by simp, .present (derivesModifier_of_keyword word)⟩
  case case2 sign build digits after hform =>
    obtain ⟨n, hn, ⟨⟩⟩ := bind_eq_ok.mp h
    obtain ⟨hlength, rfl⟩ := number_eq_ok_iff.mp hn
    exact ⟨[.symbol sign, .number digits], rfl, by simpa using hlength,
      .present (derivesModifier_of_optional hform (.present digits))⟩
  case case3 sign rest build hform _ =>
    cases h
    exact ⟨[.symbol sign], rfl, by simp, .present (derivesModifier_of_optional hform .absent)⟩
  case case4 sign build digits after hform =>
    obtain ⟨n, hn, ⟨⟩⟩ := bind_eq_ok.mp h
    obtain ⟨hlength, rfl⟩ := number_eq_ok_iff.mp hn
    exact ⟨[.symbol sign, .number digits], rfl, by simpa using hlength,
      .present (derivesModifier_of_required hform digits)⟩
  all_goals
    cases h
    exact ⟨[], rfl, readable_nil, .absent⟩

theorem pool_reads {count sides : Int} {label : Option Text} {lexemes : List Lexeme}
    {phrase : Phrase Expression} (h : pool count sides label lexemes = .ok phrase) :
    Reads (fun change tree => ∃ modifier, DerivesChange change modifier ∧
      tree = .pool ⟨count, sides, modifier, label⟩) lexemes phrase := by
  obtain ⟨change, hchange, ⟨⟩⟩ := bind_eq_ok.mp h
  obtain ⟨used, hused, hread, hderives⟩ := modifier_reads hchange
  exact ⟨used, hused, hread, change.value, hderives, rfl⟩

theorem term_reads {lexemes : List Lexeme} {phrase : Phrase Expression}
    (h : term lexemes = .ok (some phrase)) : Reads DerivesTerm lexemes phrase := by
  revert h
  fun_cases term lexemes <;> intro h
  case case1 count marker sides rest =>
    obtain ⟨c, hc, h⟩ := bind_eq_ok.mp h
    obtain ⟨s, hs, h⟩ := bind_eq_ok.mp h
    obtain ⟨dice, hdice, ⟨⟩⟩ := bind_eq_ok.mp h
    obtain ⟨hcount, rfl⟩ := number_eq_ok_iff.mp hc
    obtain ⟨hsides, rfl⟩ := number_eq_ok_iff.mp hs
    obtain ⟨change, rfl, hread, modifier, hchange, hvalue⟩ := pool_reads hdice
    refine ⟨.number count :: .die marker :: .number sides :: change, rfl, ?_, ?_⟩
    · simpa [hcount, hsides] using hread
    · rw [hvalue]
      exact .pool (.pool marker (.present count) (.number sides) hchange)
  case case2 count marker size rest =>
    obtain ⟨c, hc, h⟩ := bind_eq_ok.mp h
    obtain ⟨dice, hdice, ⟨⟩⟩ := bind_eq_ok.mp h
    obtain ⟨hcount, rfl⟩ := number_eq_ok_iff.mp hc
    obtain ⟨change, rfl, hread, modifier, hchange, hvalue⟩ := pool_reads hdice
    refine ⟨.number count :: .die marker :: .percent size :: change, rfl, ?_, ?_⟩
    · simpa [hcount] using hread
    · rw [hvalue]
      exact .pool (.pool marker (.present count) (.percent size) hchange)
  case case3 digits rest _ _ =>
    obtain ⟨n, hn, ⟨⟩⟩ := bind_eq_ok.mp h
    obtain ⟨hlength, rfl⟩ := number_eq_ok_iff.mp hn
    exact ⟨[.number digits], rfl, by simpa using hlength, .number digits⟩
  case case4 marker sides rest =>
    obtain ⟨s, hs, h⟩ := bind_eq_ok.mp h
    obtain ⟨dice, hdice, ⟨⟩⟩ := bind_eq_ok.mp h
    obtain ⟨hsides, rfl⟩ := number_eq_ok_iff.mp hs
    obtain ⟨change, rfl, hread, modifier, hchange, hvalue⟩ := pool_reads hdice
    refine ⟨.die marker :: .number sides :: change, rfl, ?_, ?_⟩
    · simpa [hsides] using hread
    · rw [hvalue]
      exact .pool (.pool marker .absent (.number sides) hchange)
  case case5 marker size rest =>
    obtain ⟨dice, hdice, ⟨⟩⟩ := bind_eq_ok.mp h
    obtain ⟨change, rfl, hread, modifier, hchange, hvalue⟩ := pool_reads hdice
    refine ⟨.die marker :: .percent size :: change, rfl, ?_, ?_⟩
    · simpa using hread
    · rw [hvalue]
      exact .pool (.pool marker .absent (.percent size) hchange)
  case case6 => cases h

theorem sumFrom_reads {lexemes : List Lexeme} {left phrase : Phrase Expression}
    (h : sumFrom left = .ok phrase) (hleft : Reads DerivesSum lexemes left) :
    Reads DerivesSum lexemes phrase := by
  fun_induction sumFrom left
  case case4 left sign rest hrest join hjoin right hterm _ ih =>
    obtain ⟨first, hfirst, hreadFirst, hderivesFirst⟩ := hleft
    obtain ⟨second, rfl, hreadSecond, hderivesSecond⟩ := term_reads hterm
    refine ih h ⟨first ++ .symbol sign :: second, ?_, ?_, ?_⟩
    · simp [hfirst, hrest]
    · simp [hreadFirst, hreadSecond]
    · exact hderivesFirst.join hjoin hderivesSecond
  all_goals
    cases h
    try exact hleft

theorem sum_reads {lexemes : List Lexeme} {phrase : Phrase Expression}
    (h : sum lexemes = .ok (some phrase)) : Reads DerivesSum lexemes phrase := by
  obtain ⟨first, hterm, h⟩ := bind_eq_ok.mp h
  cases first with
  | none => cases h
  | some left =>
    obtain ⟨whole, hsum, ⟨⟩⟩ := bind_eq_ok.mp h
    exact sumFrom_reads hsum ((term_reads hterm).imp .term)

theorem grouped_reads {lexemes : List Lexeme} {phrase : Phrase Expression}
    (h : grouped lexemes = .ok (some phrase)) : Reads DerivesGrouped lexemes phrase := by
  revert h
  fun_cases grouped lexemes <;> intro h
  case case1 rest =>
    obtain ⟨inner, hsum, h⟩ := bind_eq_ok.mp h
    split at h
    next value after _ =>
      cases h
      obtain ⟨used, rfl, hread, hderives⟩ := sum_reads hsum
      refine ⟨.symbol .openParen :: (used ++ [.symbol .closeParen]), ?_, ?_, ?_⟩
      · simp
      · simpa using hread
      · exact .parenthesized hderives
    next => cases h
  case case2 => exact (sum_reads h).imp .sum

theorem targetFrom_reads {lexemes : List Lexeme} {inner phrase : Phrase Expression}
    (h : targetFrom inner = .ok phrase) (hinner : Reads DerivesGrouped lexemes inner) :
    Reads DerivesTarget lexemes phrase := by
  obtain ⟨used, rfl, hread, hderives⟩ := hinner
  revert h
  fun_cases targetFrom inner <;> intro h
  case case1 digits rest hrest =>
    obtain ⟨n, hn, ⟨⟩⟩ := bind_eq_ok.mp h
    obtain ⟨hlength, rfl⟩ := number_eq_ok_iff.mp hn
    refine ⟨_, ?_, ?_, .high digits hderives⟩
    · simp [hrest]
    · simpa [hlength] using hread
  case case2 digits rest hrest =>
    obtain ⟨n, hn, ⟨⟩⟩ := bind_eq_ok.mp h
    obtain ⟨hlength, rfl⟩ := number_eq_ok_iff.mp hn
    refine ⟨_, ?_, ?_, .low digits hderives⟩
    · simp [hrest]
    · simpa [hlength] using hread
  all_goals
    cases h
    exact ⟨used, rfl, hread, .grouped hderives⟩

theorem target_reads {lexemes : List Lexeme} {phrase : Phrase Expression}
    (h : target lexemes = .ok (some phrase)) : Reads DerivesTarget lexemes phrase := by
  obtain ⟨first, hgrouped, h⟩ := bind_eq_ok.mp h
  cases first with
  | none => cases h
  | some inner =>
    obtain ⟨whole, htarget, ⟨⟩⟩ := bind_eq_ok.mp h
    exact targetFrom_reads htarget (grouped_reads hgrouped)

theorem successFrom_reads {lexemes : List Lexeme} {inner phrase : Phrase Expression}
    (h : successFrom inner = .ok phrase) (hinner : Reads DerivesTarget lexemes inner) :
    Reads DerivesSuccess lexemes phrase := by
  obtain ⟨used, rfl, hread, hderives⟩ := hinner
  have hplain : ∀ reason, Reads DerivesSuccess (used ++ inner.rest) { inner with reason } :=
    fun _ => ⟨used, rfl, hread, .target hderives⟩
  revert h
  fun_cases successFrom inner <;> intro h
  case case1 digits shape hrest =>
    obtain ⟨n, hn, h⟩ := bind_eq_ok.mp h
    obtain ⟨hlength, rfl⟩ := number_eq_ok_iff.mp hn
    split at h
    next rest =>
      cases h
      refine ⟨_, ?_, ?_, .single digits hderives⟩
      · simp [hrest]
      · simpa [hlength] using hread
    next stepDigits rest _ =>
      obtain ⟨step, hstep, h⟩ := bind_eq_ok.mp h
      obtain ⟨hstepLength, rfl⟩ := number_eq_ok_iff.mp hstep
      split at h
      next =>
        cases h
        exact hplain _
      next hpositive =>
        cases h
        refine ⟨_, ?_, ?_, .stepped digits stepDigits hderives (by omega)⟩
        · simp [hrest]
        · simpa [hlength, hstepLength] using hread
    next =>
      cases h
      exact hplain _
  all_goals
    cases h
    exact hplain _

theorem success_reads {lexemes : List Lexeme} {phrase : Phrase Expression}
    (h : success lexemes = .ok (some phrase)) : Reads DerivesSuccess lexemes phrase := by
  obtain ⟨first, htarget, h⟩ := bind_eq_ok.mp h
  cases first with
  | none => cases h
  | some inner =>
    obtain ⟨whole, hsuccess, ⟨⟩⟩ := bind_eq_ok.mp h
    exact successFrom_reads hsuccess (target_reads htarget)

theorem comparison_reads {lexemes : List Lexeme} {phrase : Phrase Expression}
    (h : comparison lexemes = .ok (some phrase)) : Reads DerivesComparison lexemes phrase := by
  obtain ⟨first, hsuccess, h⟩ := bind_eq_ok.mp h
  cases first with
  | none => cases h
  | some left =>
    have hleft := success_reads hsuccess
    dsimp only at h
    split at h
    next sign rest hrest =>
      cases hrelation : sign.relation? with
      | none =>
        simp only [hrelation] at h
        cases h
        exact hleft.imp .success
      | some relation =>
        simp only [hrelation] at h
        obtain ⟨second, hsecond, h⟩ := bind_eq_ok.mp h
        cases second with
        | none =>
          cases h
          exact hleft.imp .success
        | some right =>
          cases h
          obtain rfl := (Symbol.relation?_eq_some_iff sign relation).mp hrelation
          obtain ⟨used, rfl, hreadLeft, hderivesLeft⟩ := hleft
          obtain ⟨used', hused', hreadRight, hderivesRight⟩ := success_reads hsecond
          refine ⟨_, ?_, ?_, .related relation hderivesLeft hderivesRight⟩
          · simp [hrest, hused']
          · simp [hreadLeft, hreadRight]
    next =>
      cases h
      exact hleft.imp .success

end DiceNotation.Grammar
