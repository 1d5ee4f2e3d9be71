import DiceNotation.Proofs.Grammar.Completeness

/-!
# The numbers that a rule asks for

Where in a list of lexemes a rule reads a number, in terms of the grammar: what stands before the
number is the beginning of a phrase, and in some places what stands behind it counts too. A rule
fails just if it asks for a number that is too long, and with the fault of the first one.
-/

namespace DiceNotation.Grammar

/-! ### Places of numbers -/

inductive AsksTerm : List Lexeme → Prop where
  | first : AsksTerm []
  | size {number : List Lexeme} {count : Option Int} (marker : Char) :
      DerivesOptional number count → AsksTerm (number ++ [.die marker])
  | amount {number : List Lexeme} {count : Option Int} {size : Lexeme} {sides : Int}
      {label : Option Text} (marker : Char) {sign : Symbol} : DerivesOptional number count →
      DerivesSize size sides label → sign.modifierForm? ≠ none →
      AsksTerm (number ++ [.die marker, size, .symbol sign])

inductive AsksSum : List Lexeme → Prop where
  | term {front : List Lexeme} : AsksTerm front → AsksSum front
  | next {first second : List Lexeme} {left : Expression} {sign : Symbol} :
      DerivesSum first left → sign.join? ≠ none → AsksTerm second →
      AsksSum (first ++ .symbol sign :: second)

inductive AsksGrouped : List Lexeme → Prop where
  | parenthesized {front : List Lexeme} :
      AsksSum front → AsksGrouped (.symbol .openParen :: front)
  | sum {front : List Lexeme} : AsksSum front → AsksGrouped front

/-- The threshold of a target is read only with the bracket that closes it. -/
inductive AsksTarget : List Lexeme → List Lexeme → Prop where
  | grouped {front rest : List Lexeme} : AsksGrouped front → AsksTarget front rest
  | high {first rest : List Lexeme} {tree : Expression} : DerivesGrouped first tree →
      AsksTarget (first ++ [.symbol .openBracket]) (.symbol .closeBracket :: rest)
  | low {first rest : List Lexeme} {tree : Expression} : DerivesGrouped first tree →
      AsksTarget (first ++ [.symbol .openParen]) (.symbol .closeParen :: rest)

/-- The step of a success level is read only with the brace that closes it, the threshold in any
case. -/
inductive AsksSuccess : List Lexeme → List Lexeme → Prop where
  | target {front rest : List Lexeme} : AsksTarget front rest → AsksSuccess front rest
  | threshold {first rest : List Lexeme} {tree : Expression} : DerivesTarget first tree →
      AsksSuccess (first ++ [.symbol .openBrace]) rest
  | step {first rest : List Lexeme} {tree : Expression} (digits : Text) :
      DerivesTarget first tree →
      AsksSuccess (first ++ [.symbol .openBrace, .number digits, .symbol .comma])
        (.symbol .closeBrace :: rest)

inductive AsksComparison : List Lexeme → List Lexeme → Prop where
  | success {front rest : List Lexeme} : AsksSuccess front rest → AsksComparison front rest
  | right {first second rest : List Lexeme} {left : Expression} (relation : Relation) :
      DerivesSuccess first left → AsksSuccess second rest →
      AsksComparison (first ++ .symbol relation.symbol :: second) rest

/-- Behind the beginning of a sum a number is asked for at once, or the sum has begun. -/
theorem AsksSum.head {front : List Lexeme} (h : AsksSum front) :
    front = [] ∨ (∃ digits more, front = .number digits :: more) ∨
      ∃ marker more, front = .die marker :: more := by
  cases h with
  | term h =>
    cases h with
    | first => exact .inl rfl
    | size marker hcount | amount marker hcount =>
      cases hcount with
      | absent => exact .inr (.inr ⟨marker, _, rfl⟩)
      | present digits => exact .inr (.inl ⟨digits, _, rfl⟩)
  | next hleft =>
    obtain ⟨digits, rest, rfl⟩ | ⟨marker, rest, rfl⟩ := hleft.head
    · exact .inr (.inl ⟨digits, _, rfl⟩)
    · exact .inr (.inr ⟨marker, _, rfl⟩)

/-- The first number that is too long is one that is asked for, and the fault tells its length. -/
def Stuck (asks : List Lexeme → List Lexeme → Prop) (lexemes : List Lexeme)
    (fault : NumeralFault) : Prop :=
  ∃ front digits rest, lexemes = front ++ .number digits :: rest ∧ Readable front ∧
    Numeral.digitLimit < digits.length ∧ asks front rest ∧ fault = .unreadable digits.length

theorem Stuck.imp {asks asks' : List Lexeme → List Lexeme → Prop} {lexemes : List Lexeme}
    {fault : NumeralFault} (h : Stuck asks lexemes fault)
    (himp : ∀ {front rest}, asks front rest → asks' front rest) : Stuck asks' lexemes fault := by
  obtain ⟨front, digits, rest, hlexemes, hread, hlong, hasks, hfault⟩ := h
  exact ⟨front, digits, rest, hlexemes, hread, hlong, himp hasks, hfault⟩

theorem Stuck.prepend {asks asks' : List Lexeme → List Lexeme → Prop} {lexemes : List Lexeme}
    {fault : NumeralFault} (h : Stuck asks lexemes fault) {before : List Lexeme}
    (hbefore : Readable before)
    (himp : ∀ {front rest}, asks front rest → asks' (before ++ front) rest) :
    Stuck asks' (before ++ lexemes) fault := by
  obtain ⟨front, digits, rest, rfl, hread, hlong, hasks, hfault⟩ := h
  exact ⟨before ++ front, digits, rest, (List.append_assoc _ _ _).symm,
    (readable_append _ _).mpr ⟨hbefore, hread⟩, hlong, himp hasks, hfault⟩

theorem Stuck.behind_symbol {asks asks' : List Lexeme → List Lexeme → Prop}
    {lexemes before : List Lexeme} {sign : Symbol} {fault : NumeralFault}
    (h : Stuck asks lexemes fault) (hbefore : Readable before)
    (himp : ∀ {front rest}, asks front rest → asks' (before ++ .symbol sign :: front) rest) :
    Stuck asks' (before ++ .symbol sign :: lexemes) fault := by
  obtain ⟨front, digits, rest, rfl, hread, hlong, hasks, hfault⟩ := h
  exact ⟨before ++ .symbol sign :: front, digits, rest, by simp, by simp [hbefore, hread], hlong,
    himp hasks, hfault⟩

theorem number_eq_error_iff {digits : Text} {fault : NumeralFault} :
    number digits = .error fault ↔
      Numeral.digitLimit < digits.length ∧ fault = .unreadable digits.length := by
  unfold number Numeral.read
  split
  next h =>
    simp only [Except.map]
    constructor
    · intro hfault
      cases hfault
    · rintro ⟨hlong, -⟩
      omega
  next h =>
    simp only [Except.map, Except.error.injEq]
    exact ⟨fun hfault => ⟨by omega, hfault.symm⟩, fun hfault => hfault.2.symm⟩

/-- What a fault of results that are bound comes from. -/
theorem bind_eq_error {ε α β : Type} {first : Except ε α} {next : α → Except ε β} {fault : ε} :
    first >>= next = .error fault ↔
      first = .error fault ∨ ∃ a, first = .ok a ∧ next a = .error fault := by
  cases first <;> simp [bind, Except.bind]

/-- What a fault comes from where a phrase is read and then extended. -/
theorem extended_eq_error {first : Except NumeralFault (Option (Phrase Expression))}
    {extend : Phrase Expression → Except NumeralFault (Phrase Expression)} {fault : NumeralFault} :
    (do
      match ← first with
      | none => return none
      | some inner => return some (← extend inner)) = Except.error fault ↔
      first = .error fault ∨ ∃ inner, first = .ok (some inner) ∧ extend inner = .error fault := by
  cases first with
  | error other => simp [bind, Except.bind]
  | ok result =>
    cases result with
    | none => simp [bind, Except.bind, pure, Except.pure]
    | some inner =>
      cases hextend : extend inner <;> simp [bind, Except.bind, pure, Except.pure, hextend]

/-! ### A fault comes from a number that is asked for -/

/-- The rule has begun with a front of the lexemes and is stuck at the number behind it. -/
theorem stuck_of_number {asks : List Lexeme → List Lexeme → Prop} (front : List Lexeme)
    {rest : List Lexeme} {digits : Text} {fault : NumeralFault} (hread : Readable front)
    (h : number digits = .error fault) (hasks : asks front rest) :
    Stuck asks (front ++ .number digits :: rest) fault := by
  obtain ⟨hlong, hfault⟩ := number_eq_error_iff.mp h
  exact ⟨front, digits, rest, rfl, hread, hlong, hasks, hfault⟩

theorem modifier_stuck {lexemes : List Lexeme} {fault : NumeralFault}
    (h : modifier lexemes = .error fault) :
    Stuck (fun front _ => ∃ sign, Symbol.modifierForm? sign ≠ none ∧ front = [.symbol sign])
      lexemes fault := by
  revert h
  fun_cases modifier lexemes <;> intro h
  case case2 sign build digits after hform | case4 sign build digits after hform =>
    obtain h | ⟨_, _, h⟩ := bind_eq_error.mp h
    · have hsign : sign.modifierForm? ≠ none := by rw [hform]; exact Option.some_ne_none _
      exact stuck_of_number [.symbol sign] (by simp) h ⟨sign, hsign, rfl⟩
    · cases h
  all_goals cases h

theorem pool_stuck {number : List Lexeme} {count : Option Int} {size : Lexeme} {sides : Int}
    {label : Option Text} (marker : Char) (hcount : DerivesOptional number count)
    (hsize : DerivesSize size sides label) (hread : Readable (number ++ [.die marker, size]))
    {given sided : Int} {shown : Option Text} {lexemes : List Lexeme} {fault : NumeralFault}
    (h : pool given sided shown lexemes = .error fault) :
    Stuck (fun front _ => AsksTerm front) (number ++ [.die marker, size] ++ lexemes) fault := by
  obtain h | ⟨_, _, h⟩ := bind_eq_error.mp h
  · refine (modifier_stuck h).prepend hread ?_
    rintro _ _ ⟨sign, hsign, rfl⟩
    rw [List.append_assoc]
    exact .amount marker hcount hsize hsign
  · cases h

theorem term_stuck {lexemes : List Lexeme} {fault : NumeralFault}
    (h : term lexemes = .error fault) : Stuck (fun front _ => AsksTerm front) lexemes fault := by
  have hpool : ∀ {given sided : Int} {shown : Option Text} {rest : List Lexeme},
      (do return some (← pool given sided shown rest)) = Except.error fault →
        pool given sided shown rest = .error fault := by
    intro given sided shown rest h
    obtain h | ⟨_, _, h⟩ := bind_eq_error.mp h
    · exact h
    · cases h
  revert h
  fun_cases term lexemes <;> intro h
  case case1 count marker sides rest =>
    obtain h | ⟨c, hc, h⟩ := bind_eq_error.mp h
    · exact stuck_of_number [] readable_nil h .first
    obtain ⟨hcount, -⟩ := number_eq_ok_iff.mp hc
    obtain h | ⟨s, hs, h⟩ := bind_eq_error.mp h
    · exact stuck_of_number [.number count, .die marker] (by simpa using hcount) h
        (.size marker (.present count))
    obtain ⟨hsides, -⟩ := number_eq_ok_iff.mp hs
    exact pool_stuck marker (.present count) (.number sides) (by simp [hcount, hsides]) (hpool h)
  case case2 count marker size rest =>
    obtain h | ⟨c, hc, h⟩ := bind_eq_error.mp h
    · exact stuck_of_number [] readable_nil h .first
    obtain ⟨hcount, -⟩ := number_eq_ok_iff.mp hc
    exact pool_stuck marker (.present count) (.percent size) (by simp [hcount]) (hpool h)
  case case3 digits rest _ _ =>
    obtain h | ⟨_, _, h⟩ := bind_eq_error.mp h
    · exact stuck_of_number [] readable_nil h .first
    · cases h
  case case4 marker sides rest =>
    obtain h | ⟨s, hs, h⟩ := bind_eq_error.mp h
    · exact stuck_of_number [.die marker] (by simp) h (.size marker .absent)
    obtain ⟨hsides, -⟩ := number_eq_ok_iff.mp hs
    exact pool_stuck marker .absent (.number sides) (by simp [hsides]) (hpool h)
  case case5 marker size rest =>
    exact pool_stuck marker .absent (.percent size) (by simp) (hpool h)
  case case6 => cases h

theorem sumFrom_stuck {lexemes : List Lexeme} {left : Phrase Expression} {fault : NumeralFault}
    (h : sumFrom left = .error fault) (hleft : Reads DerivesSum lexemes left) :
    Stuck (fun front _ => AsksSum front) lexemes fault := by
  fun_induction sumFrom left
  case case2 left sign rest hrest join hjoin other hterm =>
    cases h
    obtain ⟨used, rfl, hread, hderives⟩ := hleft
    have hsign : sign.join? ≠ none := by rw [hjoin]; exact Option.some_ne_none _
    rw [hrest]
    exact (term_stuck hterm).behind_symbol hread fun hasks => .next hderives hsign hasks
  case case4 left sign rest hrest join hjoin right hterm _ ih =>
    obtain ⟨first, hfirst, hreadFirst, hderivesFirst⟩ := hleft
    obtain ⟨second, rfl, hreadSecond, hderivesSecond⟩ := term_reads hterm
    refine ih h ⟨first ++ .symbol sign :: second, ?_, ?_, ?_⟩
    · simp [hfirst, hrest]
    · simp [hreadFirst, hreadSecond]
    · exact hderivesFirst.join hjoin hderivesSecond
  all_goals cases h

theorem sum_stuck {lexemes : List Lexeme} {fault : NumeralFault}
    (h : sum lexemes = .error fault) : Stuck (fun front _ => AsksSum front) lexemes fault := by
  obtain hterm | ⟨left, hterm, hsum⟩ := extended_eq_error.mp h
  · exact (term_stuck hterm).imp .term
  · exact sumFrom_stuck hsum ((term_reads hterm).imp .term)

theorem grouped_stuck {lexemes : List Lexeme} {fault : NumeralFault}
    (h : grouped lexemes = .error fault) :
    Stuck (fun front _ => AsksGrouped front) lexemes fault := by
  revert h
  fun_cases grouped lexemes <;> intro h
  case case1 rest =>
    obtain hsum | ⟨inner, _, h⟩ := bind_eq_error.mp h
    · exact (sum_stuck hsum).behind_symbol readable_nil .parenthesized
    · split at h <;> cases h
  case case2 => exact (sum_stuck h).imp .sum

theorem targetFrom_stuck {lexemes : List Lexeme} {inner : Phrase Expression} {fault : NumeralFault}
    (h : targetFrom inner = .error fault) (hinner : Reads DerivesGrouped lexemes inner) :
    Stuck AsksTarget lexemes fault := by
  obtain ⟨used, rfl, hread, hderives⟩ := hinner
  revert h
  fun_cases targetFrom inner <;> intro h
  case case1 digits rest hrest =>
    obtain hnumber | ⟨_, _, h⟩ := bind_eq_error.mp h
    · have hstuck : Stuck AsksTarget ((used ++ [.symbol .openBracket]) ++
          .number digits :: .symbol .closeBracket :: rest) fault :=
        stuck_of_number _ (by simpa using hread) hnumber (.high hderives)
      simpa [hrest] using hstuck
    · cases h
  case case2 digits rest hrest =>
    obtain hnumber | ⟨_, _, h⟩ := bind_eq_error.mp h
    · have hstuck : Stuck AsksTarget ((used ++ [.symbol .openParen]) ++
          .number digits :: .symbol .closeParen :: rest) fault :=
        stuck_of_number _ (by simpa using hread) hnumber (.low hderives)
      simpa [hrest] using hstuck
    · cases h
  all_goals cases h

theorem target_stuck {lexemes : List Lexeme} {fault : NumeralFault}
    (h : target lexemes = .error fault) : Stuck AsksTarget lexemes fault := by
  obtain hgrouped | ⟨inner, hgrouped, htarget⟩ := extended_eq_error.mp h
  · exact (grouped_stuck hgrouped).imp .grouped
  · exact targetFrom_stuck htarget (grouped_reads hgrouped)

theorem successFrom_stuck {lexemes : List Lexeme} {inner : Phrase Expression}
    {fault : NumeralFault} (h : successFrom inner = .error fault)
    (hinner : Reads DerivesTarget lexemes inner) : Stuck AsksSuccess lexemes fault := by
  obtain ⟨used, rfl, hread, hderives⟩ := hinner
  revert h
  fun_cases successFrom inner <;> intro h
  case case1 digits shape hrest =>
    rw [hrest]
    obtain hnumber | ⟨n, hn, h⟩ := bind_eq_error.mp h
    · have hstuck : Stuck AsksSuccess ((used ++ [.symbol .openBrace]) ++
          .number digits :: shape) fault :=
        stuck_of_number _ (by simpa using hread) hnumber (.threshold hderives)
      simpa using hstuck
    obtain ⟨hlength, -⟩ := number_eq_ok_iff.mp hn
    split at h
    next => cases h
    next stepDigits rest _ =>
      obtain hstep | ⟨step, _, h⟩ := bind_eq_error.mp h
      · have hstuck : Stuck AsksSuccess
            ((used ++ [.symbol .openBrace, .number digits, .symbol .comma]) ++
              .number stepDigits :: .symbol .closeBrace :: rest) fault :=
          stuck_of_number _ (by simpa [hlength] using hread) hstep (.step digits hderives)
        simpa using hstuck
      · split at h <;> cases h
    next => cases h
  all_goals cases h

theorem success_stuck {lexemes : List Lexeme} {fault : NumeralFault}
    (h : success lexemes = .error fault) : Stuck AsksSuccess lexemes fault := by
  obtain htarget | ⟨inner, htarget, hsuccess⟩ := extended_eq_error.mp h
  · exact (target_stuck htarget).imp .target
  · exact successFrom_stuck hsuccess (target_reads htarget)

theorem comparison_stuck {lexemes : List Lexeme} {fault : NumeralFault}
    (h : comparison lexemes = .error fault) : Stuck AsksComparison lexemes fault := by
  obtain hsuccess | ⟨first, hsuccess, hnext⟩ := bind_eq_error.mp h
  · exact (success_stuck hsuccess).imp .success
  cases first with
  | none => cases hnext
  | some left =>
    obtain ⟨used, rfl, hread, hderives⟩ := success_reads hsuccess
    dsimp only at hnext
    split at hnext
    next sign rest hrest =>
      cases hrelation : sign.relation? with
      | none =>
        simp only [hrelation] at hnext
        cases hnext
      | some relation =>
        simp only [hrelation] at hnext
        obtain rfl := (Symbol.relation?_eq_some_iff sign relation).mp hrelation
        obtain hsecond | ⟨second, _, hnext⟩ := bind_eq_error.mp hnext
        · rw [hrest]
          exact (success_stuck hsecond).behind_symbol hread (.right relation hderives)
        · cases second <;> cases hnext
    next => cases hnext

/-! ### Phrases that end where a looser symbol stands

Nothing is said about the numbers behind the symbol, which may be too long. -/

theorem modifier_exact {change rest : List Lexeme} {value : Option Modifier}
    (h : DerivesChange change value) (hread : Readable change) (hends : Ends 1 rest) :
    modifier (change ++ rest) = .ok { value, rest } := by
  cases h with
  | absent => exact modifier_of_ends hends
  | present h =>
    obtain ⟨sign, build, amount, n, hform, hn, rfl, rfl⟩ | ⟨sign, build, digits, hform, rfl, rfl⟩ |
      ⟨word, rfl, rfl⟩ := h.form
    · cases hn with
      | present digits => exact modifier_of_optional hform (hread digits (by simp)) rest
      | absent =>
        cases rest with
        | nil => simp [modifier, hform]
        | cons next rest =>
          cases next with
          | symbol next => simp [modifier, hform]
          | _ => cases hends
    · exact modifier_of_required hform (hread digits (by simp)) rest
    · rfl

theorem term_exact {lexemes rest : List Lexeme} {tree : Expression}
    (h : DerivesTerm lexemes tree) (hread : Readable lexemes) (hends : Ends 1 rest) :
    term (lexemes ++ rest) = .ok (some { value := tree, rest }) := by
  cases h with
  | number digits => exact term_number_of_ends (hread digits (by simp)) hends
  | pool h =>
    obtain @⟨number, change, count, size, sides, label, modifier, marker, hcount, hsize, hchange⟩ :=
      h
    have hshort : Readable change := hread.mono fun lexeme hmem => by simp [hmem]
    have hpool : pool (count.getD 1) sides label (change ++ rest) =
        .ok { value := .pool ⟨count.getD 1, sides, modifier, label⟩, rest } := by
      rw [pool, modifier_exact hchange hshort hends]
      rfl
    rw [List.append_assoc, List.cons_append, List.cons_append]
    exact term_of_pool marker hcount hsize (hread.mono (by simp)) hpool

theorem sum_exact {lexemes rest : List Lexeme} {tree : Expression}
    (h : DerivesSum lexemes tree) (hread : Readable lexemes) (hends : Ends 1 rest) :
    sum (lexemes ++ rest) = some <$> sumFrom { value := tree, rest } := by
  induction h generalizing rest with
  | term h =>
    rw [sum, term_exact h hread hends]
    rfl
  | plus _ hright ih | minus _ hright ih =>
    obtain ⟨hfirst, hsecond⟩ := (readable_append _ _).mp hread
    refine sum_join_eq rfl (ih hfirst ?_)
      (term_exact hright ((readable_cons _ _).mp hsecond).2 hends)
    exact Nat.one_pos

theorem sum_exact_of_ends {lexemes rest : List Lexeme} {tree : Expression}
    (h : DerivesSum lexemes tree) (hread : Readable lexemes) (hends : Ends 2 rest) :
    sum (lexemes ++ rest) = .ok (some { value := tree, rest }) := by
  rw [sum_exact h hread (hends.mono (by omega)), sumFrom_of_ends hends]
  rfl

theorem grouped_exact {lexemes rest : List Lexeme} {tree : Expression}
    (h : DerivesGrouped lexemes tree) (hread : Readable lexemes) (hends : Ends 2 rest) :
    grouped (lexemes ++ rest) = .ok (some { value := tree, rest }) := by
  cases h with
  | @parenthesized inner _ h =>
    simp only [List.cons_append, List.append_assoc, List.nil_append] at hread ⊢
    have hinner : sum (inner ++ .symbol .closeParen :: rest) =
        .ok (some { value := tree, rest := .symbol .closeParen :: rest }) :=
      sum_exact_of_ends h (hread.mono (by simp)) (by simp [Ends, Symbol.looseness])
    exact bind_eq_ok.mpr ⟨_, hinner, rfl⟩
  | sum h =>
    have hsum := sum_exact_of_ends h hread hends
    obtain ⟨digits, front, rfl⟩ | ⟨marker, front, rfl⟩ := h.head
    · exact hsum
    · exact hsum

theorem target_exact {lexemes rest : List Lexeme} {tree : Expression}
    (h : DerivesTarget lexemes tree) (hread : Readable lexemes) (hends : Ends 3 rest) :
    target (lexemes ++ rest) = .ok (some { value := tree, rest }) := by
  cases h with
  | grouped h =>
    refine bind_eq_ok.mpr ⟨_, grouped_exact h hread (hends.mono (by omega)), ?_⟩
    exact bind_eq_ok.mpr ⟨_, targetFrom_of_ends hends, rfl⟩
  | high digits h | low digits h =>
    have hlength : digits.length ≤ Numeral.digitLimit := hread digits (by simp)
    rw [List.append_assoc]
    refine bind_eq_ok.mpr ⟨_, grouped_exact h (hread.mono (by simp)) (Nat.le_refl 2), ?_⟩
    exact bind_eq_ok.mpr ⟨_, bind_eq_ok.mpr ⟨_, number_of_length_le hlength, rfl⟩, rfl⟩

theorem success_exact {lexemes rest : List Lexeme} {tree : Expression}
    (h : DerivesSuccess lexemes tree) (hread : Readable lexemes) (hends : Ends 4 rest) :
    success (lexemes ++ rest) = .ok (some { value := tree, rest }) := by
  cases h with
  | target h =>
    refine bind_eq_ok.mpr ⟨_, target_exact h hread (hends.mono (by omega)), ?_⟩
    exact bind_eq_ok.mpr ⟨_, successFrom_of_ends hends, rfl⟩
  | single digits h =>
    have hlength : digits.length ≤ Numeral.digitLimit := hread digits (by simp)
    rw [List.append_assoc]
    refine bind_eq_ok.mpr ⟨_, target_exact h (hread.mono (by simp)) (Nat.le_refl 3), ?_⟩
    exact bind_eq_ok.mpr ⟨_, bind_eq_ok.mpr ⟨_, number_of_length_le hlength, rfl⟩, rfl⟩
  | stepped digits stepDigits h hstep =>
    have hlength : digits.length ≤ Numeral.digitLimit := hread digits (by simp)
    have hstepLength : stepDigits.length ≤ Numeral.digitLimit := hread stepDigits (by simp)
    have hpositive : ¬ (Numeral.value stepDigits : Int) < 1 := by omega
    rw [List.append_assoc]
    refine bind_eq_ok.mpr ⟨_, target_exact h (hread.mono (by simp)) (Nat.le_refl 3), ?_⟩
    exact bind_eq_ok.mpr ⟨_, bind_eq_ok.mpr ⟨_, number_of_length_le hlength,
      bind_eq_ok.mpr ⟨_, number_of_length_le hstepLength, if_neg hpositive⟩⟩, rfl⟩

/-! ### A number that is asked for is read -/

theorem term_eq_pool {number : List Lexeme} {count : Option Int} {size : Lexeme} {sides : Int}
    {label : Option Text} (marker : Char) (hcount : DerivesOptional number count)
    (hsize : DerivesSize size sides label) (hread : Readable (number ++ [size]))
    (rest : List Lexeme) :
    term (number ++ .die marker :: size :: rest) =
      (do return some (← pool (count.getD 1) sides label rest)) := by
  cases hcount with
  | absent =>
    cases hsize with
    | number digits =>
      change Grammar.number digits >>= _ = _
      rw [number_of_length_le (hread digits (by simp))]
      rfl
    | percent size => rfl
  | present given =>
    cases hsize with
    | number digits =>
      change Grammar.number given >>= _ = _
      rw [number_of_length_le (hread given (by simp))]
      change Grammar.number digits >>= _ = _
      rw [number_of_length_le (hread digits (by simp))]
      rfl
    | percent size =>
      change Grammar.number given >>= _ = _
      rw [number_of_length_le (hread given (by simp))]
      rfl

theorem sumFrom_of_error {left : Phrase Expression} {sign : Symbol} {rest : List Lexeme}
    {fault : NumeralFault} (hrest : left.rest = .symbol sign :: rest) (hsign : sign.join? ≠ none)
    (hterm : term rest = .error fault) : sumFrom left = .error fault := by
  rw [sumFrom]
  split
  next sign' rest' heq =>
    cases hrest.symm.trans heq
    split
    next hnone => exact absurd hnone hsign
    next join _ =>
      split
      next herror =>
        cases hterm.symm.trans herror
        rfl
      next hnone => cases hterm.symm.trans hnone
      next right hright => cases hterm.symm.trans hright
  next hnot => exact (hnot sign rest hrest).elim

section Reading

variable {digits : Text} {fault : NumeralFault} (hnumber : number digits = .error fault)

include hnumber

theorem modifier_of_asks {sign : Symbol} (hsign : sign.modifierForm? ≠ none) (rest : List Lexeme) :
    modifier (.symbol sign :: .number digits :: rest) = .error fault := by
  cases hform : sign.modifierForm? with
  | none => exact absurd hform hsign
  | some form =>
    cases form <;> simp only [modifier, hform]
    · exact bind_eq_error.mpr (.inl hnumber)
    · exact bind_eq_error.mpr (.inl hnumber)

theorem term_of_asks {front : List Lexeme} (h : AsksTerm front) (hread : Readable front)
    (rest : List Lexeme) : term (front ++ .number digits :: rest) = .error fault := by
  cases h with
  | first =>
    rw [List.nil_append]
    generalize hlexemes : Lexeme.number digits :: rest = lexemes
    fun_cases term lexemes
    case case1 | case2 | case3 =>
      cases hlexemes
      exact bind_eq_error.mpr (.inl hnumber)
    case case4 | case5 => cases hlexemes
    case case6 hnot _ _ => exact (hnot digits rest hlexemes.symm).elim
  | size marker hcount =>
    cases hcount with
    | absent => exact bind_eq_error.mpr (.inl hnumber)
    | present given =>
      exact bind_eq_error.mpr (.inr ⟨_, number_of_length_le (hread given (by simp)),
        bind_eq_error.mpr (.inl hnumber)⟩)
  | amount marker hcount hsize hsign =>
    rw [List.append_assoc]
    refine (term_eq_pool marker hcount hsize (hread.mono (by simp)) _).trans ?_
    have hmodifier := modifier_of_asks hnumber hsign rest
    exact bind_eq_error.mpr (.inl (bind_eq_error.mpr (.inl hmodifier)))

theorem sum_of_asks {front : List Lexeme} (h : AsksSum front) (hread : Readable front)
    (rest : List Lexeme) : sum (front ++ .number digits :: rest) = .error fault := by
  cases h with
  | term h => exact extended_eq_error.mpr (.inl (term_of_asks hnumber h hread rest))
  | @next first second left sign hleft hsign hsecond =>
    obtain ⟨hfirst, hrest⟩ := (readable_append _ _).mp hread
    have hterm := term_of_asks hnumber hsecond ((readable_cons _ _).mp hrest).2 rest
    have hends : Ends 1 (.symbol sign :: (second ++ .number digits :: rest)) := by
      obtain ⟨join, hjoin⟩ := Option.ne_none_iff_exists'.mp hsign
      exact Nat.le_of_eq (Symbol.looseness_of_join hjoin).symm
    rw [List.append_assoc, List.cons_append, sum_exact hleft hfirst hends,
      sumFrom_of_error rfl hsign hterm]
    rfl

theorem grouped_of_asks {front : List Lexeme} (h : AsksGrouped front) (hread : Readable front)
    (rest : List Lexeme) : grouped (front ++ .number digits :: rest) = .error fault := by
  cases h with
  | parenthesized h =>
    exact bind_eq_error.mpr (.inl (sum_of_asks hnumber h ((readable_cons _ _).mp hread).2 rest))
  | sum h =>
    have hsum := sum_of_asks hnumber h hread rest
    obtain rfl | ⟨given, more, rfl⟩ | ⟨marker, more, rfl⟩ := h.head
    · exact hsum
    · exact hsum
    · exact hsum

theorem target_of_asks {front rest : List Lexeme} (h : AsksTarget front rest)
    (hread : Readable front) : target (front ++ .number digits :: rest) = .error fault := by
  cases h with
  | grouped h => exact extended_eq_error.mpr (.inl (grouped_of_asks hnumber h hread rest))
  | high h | low h =>
    rw [List.append_assoc]
    refine extended_eq_error.mpr
      (.inr ⟨_, grouped_exact h (hread.mono (by simp)) (Nat.le_refl 2), ?_⟩)
    exact bind_eq_error.mpr (.inl hnumber)

theorem success_of_asks {front rest : List Lexeme} (h : AsksSuccess front rest)
    (hread : Readable front) : success (front ++ .number digits :: rest) = .error fault := by
  cases h with
  | target h => exact extended_eq_error.mpr (.inl (target_of_asks hnumber h hread))
  | threshold h =>
    rw [List.append_assoc]
    refine extended_eq_error.mpr
      (.inr ⟨_, target_exact h (hread.mono (by simp)) (Nat.le_refl 3), ?_⟩)
    exact bind_eq_error.mpr (.inl hnumber)
  | step threshold h =>
    have hlength : threshold.length ≤ Numeral.digitLimit := hread threshold (by simp)
    rw [List.append_assoc]
    refine extended_eq_error.mpr
      (.inr ⟨_, target_exact h (hread.mono (by simp)) (Nat.le_refl 3), ?_⟩)
    exact bind_eq_error.mpr (.inr ⟨_, number_of_length_le hlength,
      bind_eq_error.mpr (.inl hnumber)⟩)

theorem comparison_of_asks {front rest : List Lexeme} (h : AsksComparison front rest)
    (hread : Readable front) : comparison (front ++ .number digits :: rest) = .error fault := by
  cases h with
  | success h => exact bind_eq_error.mpr (.inl (success_of_asks hnumber h hread))
  | @right first second _ left relation hleft h =>
    obtain ⟨hfirst, hrest⟩ := (readable_append _ _).mp hread
    have hsecond := success_of_asks hnumber h ((readable_cons _ _).mp hrest).2
    have hrelation := (Symbol.relation?_eq_some_iff relation.symbol relation).mpr rfl
    rw [List.append_assoc, List.cons_append]
    refine bind_eq_error.mpr (.inr ⟨_, success_exact hleft hfirst
      (Nat.le_of_eq relation.looseness_symbol.symm), ?_⟩)
    simp only [hrelation]
    exact bind_eq_error.mpr (.inl hsecond)

end Reading

/-- A comparison fails just if it asks for a number that is too long. -/
theorem comparison_eq_error_iff {lexemes : List Lexeme} {fault : NumeralFault} :
    comparison lexemes = .error fault ↔ Stuck AsksComparison lexemes fault := by
  constructor
  · exact comparison_stuck
  · rintro ⟨front, digits, rest, rfl, hread, hlong, hasks, hfault⟩
    exact comparison_of_asks (number_eq_error_iff.mpr ⟨hlong, hfault⟩) hasks hread

end DiceNotation.Grammar
