import DiceNotation.Proofs.Grammar.Soundness

/-!
# Every derivable front is read

A rule that is given a phrase with more lexemes behind it takes at least the phrase, and exactly
the phrase where the next lexeme cannot go on with it. Symbols are ranked by the rules that they
can go on with, so that what ends a phrase of one rule ends those of all tighter rules too.
-/

namespace DiceNotation

/-- Symbols of modifiers come first, then those of sums, targets, success levels and relations,
and last those that go on with nothing. -/
def Symbol.looseness : Symbol → Nat
  | .bang | .twoBangs | .star | .twoStars | .twoPluses | .twoMinuses | .backquote | .caret
  | .tilde => 0
  | .plus | .minus => 1
  | .openBracket | .openParen => 2
  | .openBrace => 3
  | .less | .greater | .lessEqual | .greaterEqual | .equals | .spaceship => 4
  | .closeParen | .closeBracket | .closeBrace | .comma => 5

theorem Symbol.modifierForm?_eq_none {sign : Symbol} (h : 1 ≤ sign.looseness) :
    sign.modifierForm? = none := by
  cases sign <;> first | rfl | cases h

theorem Symbol.join?_eq_none {sign : Symbol} (h : 2 ≤ sign.looseness) : sign.join? = none := by
  cases sign <;> first | rfl | (simp only [looseness] at h; omega)

theorem Symbol.relation?_eq_none {sign : Symbol} (h : 5 ≤ sign.looseness) :
    sign.relation? = none := by
  cases sign <;> first | rfl | (simp only [looseness] at h; omega)

theorem Symbol.looseness_of_join {sign : Symbol} {join : Expression → Expression → Expression}
    (h : sign.join? = some join) : sign.looseness = 1 := by
  cases sign <;> first | rfl | cases h

theorem Relation.looseness_symbol (relation : Relation) : relation.symbol.looseness = 4 := by
  cases relation <;> rfl

namespace Grammar

/-- Nothing follows, or a symbol that binds at least as loosely as the level. -/
def Ends (level : Nat) : List Lexeme → Prop
  | [] => True
  | .symbol sign :: _ => level ≤ sign.looseness
  | _ => False

theorem Ends.mono {lower upper : Nat} {rest : List Lexeme} (h : Ends upper rest)
    (hle : lower ≤ upper) : Ends lower rest := by
  cases rest with
  | nil => trivial
  | cons lexeme rest =>
    cases lexeme with
    | symbol sign => exact Nat.le_trans hle h
    | _ => cases h

/-- The phrase leaves no more than `rest`, and is exactly the value if `rest` ends it. -/
structure Covers {α : Type} (level : Nat) (value : α) (rest : List Lexeme)
    (phrase : Phrase α) : Prop where
  suffix : phrase.rest <:+ rest
  exact : Ends level rest → phrase = { value, rest }

theorem Covers.self {α : Type} (level : Nat) (value : α) (rest : List Lexeme) :
    Covers level value rest { value, rest } :=
  ⟨List.suffix_refl rest, fun _ => rfl⟩

theorem Covers.readable {α : Type} {level : Nat} {value : α} {lexemes rest : List Lexeme}
    {phrase : Phrase α} (h : Covers level value rest phrase) (hread : Readable (lexemes ++ rest)) :
    Readable phrase.rest :=
  ((readable_append _ _).mp hread).2.mono h.suffix.subset

/-- A looser rule that goes on from an inner phrase covers what the inner phrase covers. -/
theorem Covers.loosen {α : Type} {lower upper : Nat} {value : α} {rest : List Lexeme}
    {inner phrase : Phrase α} (h : Covers lower value rest inner) (hle : lower ≤ upper)
    (hsuffix : phrase.rest <:+ inner.rest) (hexact : Ends upper inner.rest → phrase = inner) :
    Covers upper value rest phrase := by
  constructor
  · exact hsuffix.trans h.suffix
  · intro hends
    obtain rfl := h.exact (hends.mono hle)
    exact hexact hends

theorem number_of_length_le {digits : Text} (h : digits.length ≤ Numeral.digitLimit) :
    number digits = .ok (Numeral.value digits : Int) :=
  number_eq_ok_iff.mpr ⟨h, rfl⟩

/-! ### Modifiers and terms -/

theorem modifier_total {lexemes : List Lexeme} (hread : Readable lexemes) :
    ∃ phrase, modifier lexemes = .ok phrase := by
  fun_cases modifier lexemes
  case case2 sign build digits after _ =>
    have hlength : digits.length ≤ Numeral.digitLimit := hread digits (by simp)
    rw [number_of_length_le hlength]
    exact ⟨_, rfl⟩
  case case4 sign build digits after _ =>
    have hlength : digits.length ≤ Numeral.digitLimit := hread digits (by simp)
    rw [number_of_length_le hlength]
    exact ⟨_, rfl⟩
  all_goals exact ⟨_, rfl⟩

theorem modifier_of_ends {rest : List Lexeme} (h : Ends 1 rest) :
    modifier rest = .ok { value := none, rest } := by
  cases rest with
  | nil => rfl
  | cons lexeme rest =>
    cases lexeme with
    | symbol sign =>
      have hform := Symbol.modifierForm?_eq_none h
      simp [modifier, hform]
    | _ => cases h

theorem modifier_of_optional {sign : Symbol} {build : Option Int → Modifier}
    (hform : sign.modifierForm? = some (.optionalNumber build)) {digits : Text}
    (hlength : digits.length ≤ Numeral.digitLimit) (rest : List Lexeme) :
    modifier (.symbol sign :: .number digits :: rest) =
      .ok { value := some (build (some (Numeral.value digits))), rest } := by
  simp only [modifier, hform]
  exact bind_eq_ok.mpr ⟨_, number_of_length_le hlength, rfl⟩

theorem modifier_of_required {sign : Symbol} {build : Int → Modifier}
    (hform : sign.modifierForm? = some (.requiredNumber build)) {digits : Text}
    (hlength : digits.length ≤ Numeral.digitLimit) (rest : List Lexeme) :
    modifier (.symbol sign :: .number digits :: rest) =
      .ok { value := some (build (Numeral.value digits)), rest } := by
  simp only [modifier, hform]
  exact bind_eq_ok.mpr ⟨_, number_of_length_le hlength, rfl⟩

theorem modifier_append {change rest : List Lexeme} {value : Option Modifier}
    (h : DerivesChange change value) (hread : Readable (change ++ rest)) :
    ∃ phrase, modifier (change ++ rest) = .ok phrase ∧ Covers 1 value rest phrase := by
  cases h with
  | absent =>
    obtain ⟨phrase, hphrase⟩ := modifier_total hread
    refine ⟨phrase, hphrase, rest_modifier_suffix hphrase, ?_⟩
    intro hends
    have hexact := (modifier_of_ends hends).symm.trans hphrase
    cases hexact
    rfl
  | present h =>
    obtain ⟨sign, build, amount, n, hform, hn, rfl, rfl⟩ | ⟨sign, build, digits, hform, rfl, rfl⟩ |
      ⟨word, rfl, rfl⟩ := h.form
    · cases hn with
      | present digits =>
        have hlength : digits.length ≤ Numeral.digitLimit := hread digits (by simp)
        exact ⟨_, modifier_of_optional hform hlength rest, Covers.self 1 _ rest⟩
      | absent =>
        -- A number behind the symbol is taken with it, though the phrase has none.
        cases rest with
        | nil =>
          refine ⟨_, ?_, Covers.self 1 _ []⟩
          simp [modifier, hform]
        | cons next rest =>
          cases next with
          | number digits =>
            have hlength : digits.length ≤ Numeral.digitLimit := hread digits (by simp)
            exact ⟨_, modifier_of_optional hform hlength rest, List.suffix_cons _ _,
              fun hends => hends.elim⟩
          | _ =>
            refine ⟨_, ?_, Covers.self 1 _ _⟩
            simp [modifier, hform]
    · have hlength : digits.length ≤ Numeral.digitLimit := hread digits (by simp)
      exact ⟨_, modifier_of_required hform hlength rest, Covers.self 1 _ rest⟩
    · exact ⟨_, rfl, Covers.self 1 _ rest⟩

theorem pool_append {change rest : List Lexeme} {value : Option Modifier} (count sides : Int)
    (label : Option Text) (h : DerivesChange change value) (hread : Readable (change ++ rest)) :
    ∃ phrase, pool count sides label (change ++ rest) = .ok phrase ∧
      Covers 1 (.pool ⟨count, sides, value, label⟩) rest phrase := by
  obtain ⟨phrase, hphrase, hsuffix, hexact⟩ := modifier_append h hread
  refine ⟨{ phrase with value := .pool ⟨count, sides, phrase.value, label⟩ }, ?_, hsuffix,
    fun hends => ?_⟩
  · rw [pool, hphrase]
    rfl
  · rw [hexact hends]

theorem term_of_pool {number rest : List Lexeme} {count : Option Int} {size : Lexeme} {sides : Int}
    {label : Option Text} {phrase : Phrase Expression} (marker : Char)
    (hcount : DerivesOptional number count) (hsize : DerivesSize size sides label)
    (hread : Readable (number ++ [size]))
    (hpool : pool (count.getD 1) sides label rest = .ok phrase) :
    term (number ++ .die marker :: size :: rest) = .ok (some phrase) := by
  have hdice : (do return some (← pool (count.getD 1) sides label rest)) =
      (.ok (some phrase) : Except NumeralFault _) := bind_eq_ok.mpr ⟨phrase, hpool, rfl⟩
  cases hcount with
  | absent =>
    cases hsize with
    | number digits =>
      exact bind_eq_ok.mpr ⟨_, number_of_length_le (hread digits (by simp)), hdice⟩
    | percent size => exact hdice
  | present digits =>
    cases hsize with
    | number sideDigits =>
      exact bind_eq_ok.mpr ⟨_, number_of_length_le (hread digits (by simp)),
        bind_eq_ok.mpr ⟨_, number_of_length_le (hread sideDigits (by simp)), hdice⟩⟩
    | percent size =>
      exact bind_eq_ok.mpr ⟨_, number_of_length_le (hread digits (by simp)), hdice⟩

/-- Nothing is too long, and what begins with a number is a term. -/
theorem term_total {lexemes : List Lexeme} (hread : Readable lexemes) :
    (∃ phrase, term lexemes = .ok (some phrase)) ∨
      term lexemes = .ok none ∧ ∀ digits rest, lexemes ≠ .number digits :: rest := by
  have hpool : ∀ count sides label rest, rest ⊆ lexemes →
      ∃ phrase, pool count sides label rest = .ok phrase := by
    intro count sides label rest hrest
    obtain ⟨phrase, hphrase, _⟩ := pool_append count sides label .absent (hread.mono hrest)
    exact ⟨phrase, hphrase⟩
  fun_cases term lexemes
  case case1 count marker sides rest =>
    obtain ⟨phrase, hphrase⟩ := hpool (Numeral.value count) (Numeral.value sides) none rest
      fun lexeme hmem => by simp [hmem]
    exact .inl ⟨_, term_of_pool marker (.present count) (.number sides)
      (hread.mono (by simp)) hphrase⟩
  case case2 count marker size rest =>
    obtain ⟨phrase, hphrase⟩ := hpool (Numeral.value count) size.sides (some size.text) rest
      fun lexeme hmem => by simp [hmem]
    exact .inl ⟨_, term_of_pool marker (.present count) (.percent size)
      (hread.mono (by simp)) hphrase⟩
  case case3 digits rest _ _ =>
    exact .inl ⟨_, bind_eq_ok.mpr ⟨_, number_of_length_le (hread digits (by simp)), rfl⟩⟩
  case case4 marker sides rest =>
    obtain ⟨phrase, hphrase⟩ := hpool 1 (Numeral.value sides) none rest (by simp)
    exact .inl ⟨_, term_of_pool marker .absent (.number sides) (hread.mono (by simp)) hphrase⟩
  case case5 marker size rest =>
    obtain ⟨phrase, hphrase⟩ := hpool 1 size.sides (some size.text) rest (by simp)
    exact .inl ⟨_, term_of_pool marker .absent (.percent size) (hread.mono (by simp)) hphrase⟩
  case case6 _ _ hnumber _ _ => exact .inr ⟨rfl, hnumber⟩

theorem term_number_of_ends {digits : Text} {rest : List Lexeme}
    (hlength : digits.length ≤ Numeral.digitLimit) (hends : Ends 1 rest) :
    term (.number digits :: rest) =
      .ok (some { value := .number (Numeral.value digits), rest }) := by
  rw [term]
  · exact bind_eq_ok.mpr ⟨_, number_of_length_le hlength, rfl⟩
  · rintro marker sides after rfl
    exact hends
  · rintro marker size after rfl
    exact hends

theorem term_append {lexemes rest : List Lexeme} {tree : Expression}
    (h : DerivesTerm lexemes tree) (hread : Readable (lexemes ++ rest)) :
    ∃ phrase, term (lexemes ++ rest) = .ok (some phrase) ∧ Covers 1 tree rest phrase := by
  cases h with
  | number digits =>
    obtain ⟨phrase, hphrase⟩ | ⟨_, hnot⟩ := term_total hread
    · refine ⟨phrase, hphrase, rest_term_suffix hphrase, ?_⟩
      intro hends
      cases (term_number_of_ends (hread digits (by simp)) hends).symm.trans hphrase
      rfl
    · exact absurd rfl (hnot digits rest)
  | pool h =>
    obtain @⟨number, change, _, _, _, _, _, marker, hcount, hsize, hchange⟩ := h
    have hshort : Readable (change ++ rest) := hread.mono fun lexeme hmem => by
      rcases List.mem_append.mp hmem with hmem | hmem <;> simp [hmem]
    obtain ⟨phrase, hphrase, hcovers⟩ := pool_append _ _ _ hchange hshort
    refine ⟨phrase, ?_, hcovers⟩
    rw [List.append_assoc, List.cons_append, List.cons_append]
    exact term_of_pool marker hcount hsize (hread.mono (by simp)) hphrase

theorem term_append_of_ends {lexemes rest : List Lexeme} {tree : Expression}
    (h : DerivesTerm lexemes tree) (hread : Readable (lexemes ++ rest)) (hends : Ends 1 rest) :
    term (lexemes ++ rest) = .ok (some { value := tree, rest }) := by
  obtain ⟨phrase, hphrase, hcovers⟩ := term_append h hread
  rw [hphrase, hcovers.exact hends]

/-! ### Sums -/

theorem sumFrom_of_term {left right : Phrase Expression} {sign : Symbol}
    {join : Expression → Expression → Expression} {rest : List Lexeme}
    (hrest : left.rest = .symbol sign :: rest) (hjoin : sign.join? = some join)
    (hterm : term rest = .ok (some right)) :
    sumFrom left = sumFrom { right with value := join left.value right.value } := by
  rw [sumFrom]
  split
  next sign' rest' heq =>
    cases hrest.symm.trans heq
    split
    next hnone => cases hjoin.symm.trans hnone
    next join' hsome =>
      cases hjoin.symm.trans hsome
      split
      next herror => cases hterm.symm.trans herror
      next hnone => cases hterm.symm.trans hnone
      next right' hright =>
        cases hterm.symm.trans hright
        rfl
  next hnot => exact (hnot sign rest hrest).elim

theorem sumFrom_of_ends {left : Phrase Expression} (hends : Ends 2 left.rest) :
    sumFrom left = .ok left := by
  rw [sumFrom]
  split
  next sign rest heq =>
    rw [heq] at hends
    split
    next => rfl
    next join hjoin => cases (Symbol.join?_eq_none hends).symm.trans hjoin
  next => rfl

theorem sumFrom_total (left : Phrase Expression) (hread : Readable left.rest) :
    ∃ phrase, sumFrom left = .ok phrase ∧ phrase.rest <:+ left.rest := by
  fun_induction sumFrom left
  case case2 left sign rest hrest join hjoin fault hterm =>
    have hshort : Readable rest := hread.mono (by simp [hrest])
    obtain ⟨phrase, hphrase⟩ | ⟨hnone, _⟩ := term_total hshort
    · cases hterm.symm.trans hphrase
    · cases hterm.symm.trans hnone
  case case4 left sign rest hrest join hjoin right hterm _ ih =>
    have hright : right.rest <:+ left.rest := by
      rw [hrest]
      exact (rest_term_suffix hterm).trans ((List.tail_suffix rest).trans (List.suffix_cons _ _))
    obtain ⟨phrase, hphrase, hsuffix⟩ := ih (hread.mono hright.subset)
    exact ⟨phrase, hphrase, hsuffix.trans hright⟩
  all_goals exact ⟨_, rfl, List.suffix_refl _⟩

theorem sum_join_eq {sign : Symbol} {join : Expression → Expression → Expression}
    {first second rest : List Lexeme} {left : Expression} {right : Phrase Expression}
    (hjoin : sign.join? = some join)
    (hleft : sum (first ++ .symbol sign :: (second ++ rest)) =
      some <$> sumFrom { value := left, rest := .symbol sign :: (second ++ rest) })
    (hright : term (second ++ rest) = .ok (some right)) :
    sum (first ++ .symbol sign :: second ++ rest) =
      some <$> sumFrom { right with value := join left right.value } := by
  rw [List.append_assoc, List.cons_append, hleft]
  exact congrArg _ (sumFrom_of_term rfl hjoin hright)

/-- A sum behind which no modifier stands is read up to its end before it is extended. -/
theorem sum_append_eq {lexemes rest : List Lexeme} {tree : Expression}
    (h : DerivesSum lexemes tree) (hread : Readable (lexemes ++ rest)) (hends : Ends 1 rest) :
    sum (lexemes ++ rest) = some <$> sumFrom { value := tree, rest } := by
  induction h generalizing rest with
  | term h =>
    rw [sum, term_append_of_ends h hread hends]
    rfl
  | plus _ hright ih | minus _ hright ih =>
    simp only [List.append_assoc, List.cons_append] at hread
    have hshort := ((readable_append _ _).mp hread).2
    exact sum_join_eq rfl (ih hread Nat.one_pos)
      (term_append_of_ends hright ((readable_cons _ _).mp hshort).2 hends)

theorem sum_append {lexemes rest : List Lexeme} {tree : Expression}
    (h : DerivesSum lexemes tree) (hread : Readable (lexemes ++ rest)) :
    ∃ phrase, sum (lexemes ++ rest) = .ok (some phrase) ∧ Covers 2 tree rest phrase := by
  -- The last term is the one that may take more than the phrase has.
  have hlast : ∃ left, sum (lexemes ++ rest) = some <$> sumFrom left ∧ Covers 1 tree rest left := by
    obtain hterm | ⟨sign, join, first, second, left, right, hjoin, hleft, hright, rfl, rfl⟩ :=
      h.form
    · obtain ⟨left, hleft, hcovers⟩ := term_append hterm hread
      refine ⟨left, ?_, hcovers⟩
      rw [sum, hleft]
      rfl
    · simp only [List.append_assoc, List.cons_append] at hread
      have hshort := ((readable_append _ _).mp hread).2
      obtain ⟨phrase, hphrase, hcovers⟩ := term_append hright ((readable_cons _ _).mp hshort).2
      have hends : Ends 1 (.symbol sign :: (second ++ rest)) :=
        Nat.le_of_eq (Symbol.looseness_of_join hjoin).symm
      refine ⟨_, sum_join_eq hjoin (sum_append_eq hleft hread hends) hphrase, hcovers.suffix,
        ?_⟩
      intro hends
      rw [hcovers.exact hends]
  obtain ⟨left, hleft, hcovers⟩ := hlast
  obtain ⟨phrase, hphrase, hsuffix⟩ := sumFrom_total left (hcovers.readable hread)
  refine ⟨phrase, ?_, hcovers.loosen (by omega) hsuffix ?_⟩
  · rw [hleft, hphrase]
    rfl
  · intro hends
    cases (sumFrom_of_ends hends).symm.trans hphrase
    rfl

/-! ### Looser rules -/

theorem grouped_append {lexemes rest : List Lexeme} {tree : Expression}
    (h : DerivesGrouped lexemes tree) (hread : Readable (lexemes ++ rest)) :
    ∃ phrase, grouped (lexemes ++ rest) = .ok (some phrase) ∧ Covers 2 tree rest phrase := by
  cases h with
  | @parenthesized inner _ h =>
    simp only [List.cons_append, List.append_assoc, List.nil_append] at hread ⊢
    have hinner : sum (inner ++ .symbol .closeParen :: rest) =
        .ok (some { value := tree, rest := .symbol .closeParen :: rest }) := by
      have hends : ∀ level, level ≤ 5 → Ends level (.symbol .closeParen :: rest) :=
        fun _ hle => hle
      rw [sum_append_eq h ((readable_cons _ _).mp hread).2 (hends 1 (by omega)),
        sumFrom_of_ends (hends 2 (by omega))]
      rfl
    exact ⟨_, bind_eq_ok.mpr ⟨_, hinner, rfl⟩, Covers.self 2 tree rest⟩
  | sum h =>
    obtain ⟨phrase, hphrase, hcovers⟩ := sum_append h hread
    refine ⟨phrase, ?_, hcovers⟩
    obtain ⟨digits, front, rfl⟩ | ⟨marker, front, rfl⟩ := h.head
    · exact hphrase
    · exact hphrase

theorem targetFrom_of_ends {inner : Phrase Expression} (hends : Ends 3 inner.rest) :
    targetFrom inner = .ok inner := by
  fun_cases targetFrom inner
  case case5 => rfl
  all_goals
    rename_i hrest
    simp [hrest, Ends, Symbol.looseness] at hends

theorem targetFrom_total (inner : Phrase Expression) (hread : Readable inner.rest) :
    ∃ phrase, targetFrom inner = .ok phrase ∧ phrase.rest <:+ inner.rest := by
  fun_cases targetFrom inner
  case case1 digits rest hrest =>
    rw [hrest] at hread ⊢
    exact ⟨_, bind_eq_ok.mpr ⟨_, number_of_length_le (hread digits (by simp)), rfl⟩,
      ⟨[.symbol .openBracket, .number digits, .symbol .closeBracket], rfl⟩⟩
  case case2 digits rest hrest =>
    rw [hrest] at hread ⊢
    exact ⟨_, bind_eq_ok.mpr ⟨_, number_of_length_le (hread digits (by simp)), rfl⟩,
      ⟨[.symbol .openParen, .number digits, .symbol .closeParen], rfl⟩⟩
  all_goals exact ⟨_, rfl, List.suffix_refl _⟩

theorem target_append {lexemes rest : List Lexeme} {tree : Expression}
    (h : DerivesTarget lexemes tree) (hread : Readable (lexemes ++ rest)) :
    ∃ phrase, target (lexemes ++ rest) = .ok (some phrase) ∧ Covers 3 tree rest phrase := by
  cases h with
  | grouped h =>
    obtain ⟨inner, hinner, hcovers⟩ := grouped_append h hread
    obtain ⟨phrase, hphrase, hsuffix⟩ := targetFrom_total inner (hcovers.readable hread)
    refine ⟨phrase, bind_eq_ok.mpr ⟨_, hinner, bind_eq_ok.mpr ⟨_, hphrase, rfl⟩⟩,
      hcovers.loosen (by omega) hsuffix ?_⟩
    intro hends
    cases (targetFrom_of_ends hends).symm.trans hphrase
    rfl
  | high digits h | low digits h =>
    have hlength : digits.length ≤ Numeral.digitLimit := hread digits (by simp)
    rw [List.append_assoc] at hread ⊢
    obtain ⟨inner, hinner, hcovers⟩ := grouped_append h hread
    obtain rfl := hcovers.exact (Nat.le_refl 2)
    exact ⟨_, bind_eq_ok.mpr ⟨_, hinner, bind_eq_ok.mpr ⟨_,
      bind_eq_ok.mpr ⟨_, number_of_length_le hlength, rfl⟩, rfl⟩⟩, Covers.self 3 _ rest⟩

theorem successFrom_of_ends {inner : Phrase Expression} (hends : Ends 4 inner.rest) :
    successFrom inner = .ok inner := by
  fun_cases successFrom inner
  case case3 => rfl
  all_goals
    rename_i hrest
    simp [hrest, Ends, Symbol.looseness] at hends

theorem successFrom_total (inner : Phrase Expression) (hread : Readable inner.rest) :
    ∃ phrase, successFrom inner = .ok phrase ∧ phrase.rest <:+ inner.rest := by
  fun_cases successFrom inner
  case case1 digits shape hrest =>
    rw [hrest] at hread ⊢
    rw [number_of_length_le (hread digits (by simp))]
    simp only [bind, Except.bind]
    split
    next rest =>
      exact ⟨_, rfl, ⟨[.symbol .openBrace, .number digits, .symbol .closeBrace], rfl⟩⟩
    next stepDigits rest =>
      rw [number_of_length_le (hread stepDigits (by simp))]
      dsimp only
      split
      next => exact ⟨_, rfl, hrest ▸ List.suffix_refl _⟩
      next =>
        exact ⟨_, rfl, ⟨[.symbol .openBrace, .number digits, .symbol .comma, .number stepDigits,
          .symbol .closeBrace], rfl⟩⟩
    next => exact ⟨_, rfl, hrest ▸ List.suffix_refl _⟩
  all_goals exact ⟨_, rfl, List.suffix_refl _⟩

theorem success_append {lexemes rest : List Lexeme} {tree : Expression}
    (h : DerivesSuccess lexemes tree) (hread : Readable (lexemes ++ rest)) :
    ∃ phrase, success (lexemes ++ rest) = .ok (some phrase) ∧ Covers 4 tree rest phrase := by
  cases h with
  | target h =>
    obtain ⟨inner, hinner, hcovers⟩ := target_append h hread
    obtain ⟨phrase, hphrase, hsuffix⟩ := successFrom_total inner (hcovers.readable hread)
    refine ⟨phrase, bind_eq_ok.mpr ⟨_, hinner, bind_eq_ok.mpr ⟨_, hphrase, rfl⟩⟩,
      hcovers.loosen (by omega) hsuffix ?_⟩
    intro hends
    cases (successFrom_of_ends hends).symm.trans hphrase
    rfl
  | single digits h =>
    have hlength : digits.length ≤ Numeral.digitLimit := hread digits (by simp)
    rw [List.append_assoc] at hread ⊢
    obtain ⟨inner, hinner, hcovers⟩ := target_append h hread
    obtain rfl := hcovers.exact (Nat.le_refl 3)
    exact ⟨_, bind_eq_ok.mpr ⟨_, hinner, bind_eq_ok.mpr ⟨_,
      bind_eq_ok.mpr ⟨_, number_of_length_le hlength, rfl⟩, rfl⟩⟩, Covers.self 4 _ rest⟩
  | stepped digits stepDigits h hstep =>
    have hlength : digits.length ≤ Numeral.digitLimit := hread digits (by simp)
    have hstepLength : stepDigits.length ≤ Numeral.digitLimit := hread stepDigits (by simp)
    rw [List.append_assoc] at hread ⊢
    obtain ⟨inner, hinner, hcovers⟩ := target_append h hread
    obtain rfl := hcovers.exact (Nat.le_refl 3)
    have hpositive : ¬ (Numeral.value stepDigits : Int) < 1 := by omega
    refine ⟨_, bind_eq_ok.mpr ⟨_, hinner, bind_eq_ok.mpr ⟨_,
      bind_eq_ok.mpr ⟨_, number_of_length_le hlength,
        bind_eq_ok.mpr ⟨_, number_of_length_le hstepLength, if_neg hpositive⟩⟩, rfl⟩⟩,
      Covers.self 4 _ rest⟩

/-! ### No fault -/

theorem extended_total {first : Except NumeralFault (Option (Phrase Expression))}
    {extend : Phrase Expression → Except NumeralFault (Phrase Expression)}
    (hfirst : ∃ result, first = .ok result)
    (hextend : ∀ inner, first = .ok (some inner) → ∃ phrase, extend inner = .ok phrase) :
    ∃ result, (do
      match ← first with
      | none => return none
      | some inner => return some (← extend inner)) = Except.ok (ε := NumeralFault) result := by
  obtain ⟨result, rfl⟩ := hfirst
  cases result with
  | none => exact ⟨none, rfl⟩
  | some inner =>
    obtain ⟨phrase, hphrase⟩ := hextend inner rfl
    exact ⟨some phrase, bind_eq_ok.mpr ⟨_, rfl, bind_eq_ok.mpr ⟨phrase, hphrase, rfl⟩⟩⟩

theorem sum_total {lexemes : List Lexeme} (hread : Readable lexemes) :
    ∃ result, sum lexemes = .ok result := by
  apply extended_total
  · obtain ⟨phrase, hphrase⟩ | ⟨hnone, _⟩ := term_total hread
    · exact ⟨_, hphrase⟩
    · exact ⟨_, hnone⟩
  · intro inner hinner
    obtain ⟨phrase, hphrase, _⟩ :=
      sumFrom_total inner (hread.mono (term_reads hinner).suffix.subset)
    exact ⟨phrase, hphrase⟩

theorem grouped_total {lexemes : List Lexeme} (hread : Readable lexemes) :
    ∃ result, grouped lexemes = .ok result := by
  fun_cases grouped lexemes
  case case1 rest =>
    obtain ⟨result, hresult⟩ := sum_total ((readable_cons _ _).mp hread).2
    rw [hresult]
    simp only [bind, Except.bind]
    split <;> exact ⟨_, rfl⟩
  case case2 => exact sum_total hread

theorem target_total {lexemes : List Lexeme} (hread : Readable lexemes) :
    ∃ result, target lexemes = .ok result := by
  apply extended_total (grouped_total hread)
  intro inner hinner
  obtain ⟨phrase, hphrase, _⟩ :=
    targetFrom_total inner (hread.mono (grouped_reads hinner).suffix.subset)
  exact ⟨phrase, hphrase⟩

theorem success_total {lexemes : List Lexeme} (hread : Readable lexemes) :
    ∃ result, success lexemes = .ok result := by
  apply extended_total (target_total hread)
  intro inner hinner
  obtain ⟨phrase, hphrase, _⟩ :=
    successFrom_total inner (hread.mono (target_reads hinner).suffix.subset)
  exact ⟨phrase, hphrase⟩

/-! ### Comparisons -/

theorem comparison_of_success {lexemes : List Lexeme} {left : Phrase Expression}
    (hleft : success lexemes = .ok (some left)) (hread : Readable lexemes) :
    ∃ phrase, comparison lexemes = .ok (some phrase) ∧ phrase.rest <:+ left.rest := by
  have hshort := hread.mono (success_reads hleft).suffix.subset
  rw [comparison, hleft]
  simp only [bind, Except.bind]
  split
  next sign rest hrest =>
    split
    next => exact ⟨left, rfl, List.suffix_refl _⟩
    next relation _ =>
      rw [hrest] at hshort
      obtain ⟨result, hresult⟩ := success_total ((readable_cons _ _).mp hshort).2
      rw [hresult]
      cases result with
      | none => exact ⟨left, rfl, List.suffix_refl _⟩
      | some right =>
        refine ⟨_, rfl, ?_⟩
        rw [hrest]
        exact (success_reads hresult).suffix.trans (List.suffix_cons _ _)
  next => exact ⟨left, rfl, List.suffix_refl _⟩

theorem comparison_of_ends {lexemes : List Lexeme} {left : Phrase Expression}
    (hleft : success lexemes = .ok (some left)) (hends : Ends 5 left.rest) :
    comparison lexemes = .ok (some left) := by
  rw [comparison, hleft]
  simp only [bind, Except.bind]
  split
  next sign rest hrest =>
    rw [hrest] at hends
    rw [Symbol.relation?_eq_none hends]
    rfl
  next => rfl

theorem comparison_total {lexemes : List Lexeme} (hread : Readable lexemes) :
    ∃ result, comparison lexemes = .ok result := by
  obtain ⟨result, hresult⟩ := success_total hread
  cases result with
  | none => exact ⟨none, bind_eq_ok.mpr ⟨_, hresult, rfl⟩⟩
  | some left =>
    obtain ⟨phrase, hphrase, _⟩ := comparison_of_success hresult hread
    exact ⟨some phrase, hphrase⟩

/-- The lexemes of a comparison are read as this comparison, and with more behind them at least
as many are taken. -/
theorem comparison_append {lexemes rest : List Lexeme} {tree : Expression}
    (h : DerivesComparison lexemes tree) (hread : Readable (lexemes ++ rest)) :
    ∃ phrase, comparison (lexemes ++ rest) = .ok (some phrase) ∧ Covers 5 tree rest phrase := by
  cases h with
  | success h =>
    obtain ⟨left, hleft, hcovers⟩ := success_append h hread
    obtain ⟨phrase, hphrase, hsuffix⟩ := comparison_of_success hleft hread
    refine ⟨phrase, hphrase, hcovers.loosen (by omega) hsuffix ?_⟩
    intro hends
    cases (comparison_of_ends hleft hends).symm.trans hphrase
    rfl
  | @related first second tree other relation hleft hright =>
    rw [List.append_assoc, List.cons_append] at hread ⊢
    obtain ⟨left, hleft, hcovers⟩ := success_append hleft hread
    obtain rfl := hcovers.exact (Nat.le_of_eq relation.looseness_symbol.symm)
    have hshort := ((readable_append _ _).mp hread).2
    obtain ⟨right, hright, hcovers⟩ := success_append hright ((readable_cons _ _).mp hshort).2
    have hrelation := (Symbol.relation?_eq_some_iff relation.symbol relation).mpr rfl
    refine ⟨{ right with value := .comparison tree relation right.value }, ?_, hcovers.suffix,
      fun hends => ?_⟩
    · refine bind_eq_ok.mpr ⟨_, hleft, ?_⟩
      simp only [hrelation]
      exact bind_eq_ok.mpr ⟨_, hright, rfl⟩
    · rw [hcovers.exact (hends.mono (by omega))]

end Grammar

end DiceNotation
