import DiceNotation.Proofs.Expression.Forms
import DiceNotation.Proofs.Grammar.Soundness

/-!
# What a phrase tells about its end

A phrase tells a reason just if the symbol behind it is an opening that could have gone on with
it, and the reason is then about this symbol. Each rule is given what it needs to know of the
lexemes that it took and of the tree that they stand for; a reason from a branch that is given up
has no place in this.
-/

namespace DiceNotation

/-- The symbols that need a number of dice behind them. -/
def Symbol.IsKeeping (sign : Symbol) : Prop :=
  sign = .tilde ∨ sign = .caret ∨ sign = .backquote

theorem Symbol.isKeeping_of_modifierForm {sign : Symbol} {build : Int → Modifier}
    (h : sign.modifierForm? = some (.requiredNumber build)) : sign.IsKeeping := by
  cases sign <;> simp [modifierForm?, IsKeeping] at h ⊢

theorem Symbol.not_isKeeping {sign : Symbol} (h : sign.modifierForm? = none) :
    ¬sign.IsKeeping := by
  rintro (rfl | rfl | rfl) <;> cases h

/-- The symbol that the reason is about. -/
def Reason.opening : Reason → Symbol
  | .targetThreshold .high => .openBracket
  | .targetThreshold .low => .openParen
  | .successThreshold | .successShape | .successStep => .openBrace
  | .keepCount sign => sign

namespace Grammar

/-! ### Openings behind a phrase -/

/-- The last two of the lexemes are the marker of a die and its size. -/
def EndsInDie (lexemes : List Lexeme) : Prop :=
  ∃ (marker : Char) (size : Lexeme) (sides : Int) (label : Option Text),
    DerivesSize size sides label ∧ [.die marker, size] <:+ lexemes

theorem not_endsInDie_concat {last : Lexeme}
    (hlast : ∀ sides label, ¬DerivesSize last sides label) (front : List Lexeme) :
    ¬EndsInDie (front ++ [last]) := by
  rintro ⟨marker, size, sides, label, hsize, before, hbefore⟩
  rw [List.append_cons, List.append_singleton_inj] at hbefore
  obtain ⟨_, rfl⟩ := hbefore
  exact hlast sides label hsize

theorem not_endsInDie_symbol (front : List Lexeme) (sign : Symbol) :
    ¬EndsInDie (front ++ [.symbol sign]) :=
  not_endsInDie_concat (fun _ _ hsize => by cases hsize) front

/-- A symbol is neither a die nor a size, so what stands before it makes no difference. -/
theorem endsInDie_behind_symbol (front back : List Lexeme) (sign : Symbol) :
    EndsInDie (front ++ .symbol sign :: back) ↔ EndsInDie back := by
  constructor
  · rintro ⟨marker, size, sides, label, hsize, hsuffix⟩
    obtain hle | hle := List.suffix_or_suffix_of_suffix hsuffix (List.suffix_append _ _)
    · obtain heq | hle := List.suffix_cons_iff.mp hle
      · cases heq
      · exact ⟨marker, size, sides, label, hsize, hle⟩
    · have hmem := hle.subset (List.mem_cons_self (a := Lexeme.symbol sign))
      simp only [List.mem_cons, List.not_mem_nil, or_false, reduceCtorEq, false_or] at hmem
      rw [← hmem] at hsize
      cases hsize
  · rintro ⟨marker, size, sides, label, hsize, hsuffix⟩
    exact ⟨marker, size, sides, label, hsize,
      hsuffix.trans ((List.suffix_cons _ _).trans (List.suffix_append _ _))⟩

/-- A pool ends in its die just if it has no modifier. -/
theorem endsInDie_pool {size : Lexeme} {sides : Int} {label : Option Text} {change : List Lexeme}
    {modifier : Option Modifier} (before : List Lexeme) (marker : Char)
    (hsize : DerivesSize size sides label) (hchange : DerivesChange change modifier) :
    EndsInDie (before ++ .die marker :: size :: change) ↔ change = [] := by
  constructor
  · intro h
    cases hchange with
    | absent => rfl
    | present hmodifier =>
      exfalso
      rw [List.append_cons, List.append_cons] at h
      obtain ⟨sign, build, amount, n, _, hn, rfl, rfl⟩ | ⟨sign, build, digits, _, rfl, rfl⟩ |
        ⟨word, rfl, rfl⟩ := hmodifier.form
      · rw [endsInDie_behind_symbol] at h
        obtain ⟨_, _, _, _, _, hsuffix⟩ := h
        cases hn <;> simpa using hsuffix.length_le
      · rw [endsInDie_behind_symbol] at h
        obtain ⟨_, _, _, _, _, hsuffix⟩ := h
        simpa using hsuffix.length_le
      · exact not_endsInDie_concat (fun _ _ hword => by cases hword) _ h
  · rintro rfl
    exact ⟨marker, size, sides, label, hsize, List.suffix_append _ _⟩

/-- The symbol lacks the number of dice to keep, behind a pool that has no modifier yet. -/
def LacksCount (used : List Lexeme) (_ : Expression) (sign : Symbol) : Prop :=
  sign.IsKeeping ∧ EndsInDie used

/-- The symbol lacks its threshold, behind a tree that is no target yet, or it lacks the number. -/
def LacksTarget (used : List Lexeme) (tree : Expression) (sign : Symbol) : Prop :=
  (sign = .openBracket ∨ sign = .openParen) ∧ ¬tree.IsTarget ∨ LacksCount used tree sign

/-- The symbol is an opening that could have gone on with the tree. -/
inductive Unfinished (used : List Lexeme) (tree : Expression) : Symbol → Prop where
  | success : ¬tree.IsSuccess → Unfinished used tree .openBrace
  | target {sign : Symbol} : sign = .openBracket ∨ sign = .openParen → ¬tree.IsSuccess →
      ¬tree.IsTarget → Unfinished used tree sign
  | count {sign : Symbol} : sign.IsKeeping → EndsInDie used → Unfinished used tree sign

theorem Unfinished.imp {used used' : List Lexeme} {tree : Expression} {sign : Symbol}
    (h : Unfinished used tree sign) (himp : EndsInDie used → EndsInDie used') :
    Unfinished used' tree sign := by
  obtain hsuccess | ⟨hsign, hsuccess, htarget⟩ | ⟨hsign, hdie⟩ := h
  · exact .success hsuccess
  · exact .target hsign hsuccess htarget
  · exact .count hsign (himp hdie)

/-! ### Reasons -/

/-- The phrase tells a reason that is about a stopping symbol behind it, or there is none. -/
structure Tells {α : Type} (stops : Symbol → Prop) (phrase : Phrase α) : Prop where
  told : ∀ reason, phrase.reason = some reason →
    stops reason.opening ∧ ∃ more, phrase.rest = .symbol reason.opening :: more
  silent : phrase.reason = none → ∀ sign more, phrase.rest = .symbol sign :: more → ¬stops sign

theorem Tells.congr {α : Type} {stops stops' : Symbol → Prop} {phrase : Phrase α}
    (h : Tells stops phrase)
    (hiff : ∀ sign more, phrase.rest = .symbol sign :: more → (stops' sign ↔ stops sign)) :
    Tells stops' phrase := by
  constructor
  · intro reason hreason
    obtain ⟨hstops, more, hrest⟩ := h.told reason hreason
    exact ⟨(hiff _ more hrest).mpr hstops, more, hrest⟩
  · intro hnone sign more hrest hstops
    exact h.silent hnone sign more hrest ((hiff sign more hrest).mp hstops)

theorem tells_reason {α : Type} {stops : Symbol → Prop} {value : α} {rest more : List Lexeme}
    {reason : Reason} (hrest : rest = .symbol reason.opening :: more)
    (hstops : stops reason.opening) : Tells stops ⟨value, rest, some reason⟩ := by
  constructor
  · rintro _ ⟨⟩
    exact ⟨hstops, more, hrest⟩
  · rintro ⟨⟩

theorem tells_none {α : Type} {stops : Symbol → Prop} {value : α} {rest : List Lexeme}
    (h : ∀ sign more, rest = .symbol sign :: more → ¬stops sign) :
    Tells stops ⟨value, rest, none⟩ :=
  ⟨nofun, fun _ => h⟩

theorem Tells.reason_ne_none_iff {α : Type} {stops : Symbol → Prop} {phrase : Phrase α}
    (h : Tells stops phrase) :
    phrase.reason ≠ none ↔ ∃ sign more, phrase.rest = .symbol sign :: more ∧ stops sign := by
  cases hreason : phrase.reason with
  | none =>
    refine ⟨fun hne => absurd rfl hne, ?_⟩
    rintro ⟨sign, more, hrest, hstops⟩
    exact (h.silent hreason sign more hrest hstops).elim
  | some reason =>
    obtain ⟨hstops, more, hrest⟩ := h.told reason hreason
    exact ⟨fun _ => ⟨_, more, hrest, hstops⟩, fun _ => nofun⟩

/-- The phrase takes a front of the lexemes and tells where it stops. -/
def Halts {α : Type} (stops : List Lexeme → α → Symbol → Prop) (lexemes : List Lexeme)
    (phrase : Phrase α) : Prop :=
  ∃ used, lexemes = used ++ phrase.rest ∧ Tells (stops used phrase.value) phrase

/-! ### The rules -/

/-- Behind a modifier that was taken the pool is not without one. -/
theorem tells_taken {stops : Symbol → Prop} {value : Option Modifier} (first : Lexeme)
    (more rest : List Lexeme) :
    Tells (fun sign => stops sign ∧ rest = first :: (more ++ rest)) ⟨value, rest, none⟩ := by
  refine tells_none fun _ _ _ hstops => ?_
  rw [← List.cons_append, List.self_eq_append_left] at hstops
  exact List.cons_ne_nil _ _ hstops.2

theorem modifier_tells {lexemes : List Lexeme} {phrase : Phrase (Option Modifier)}
    (h : modifier lexemes = .ok phrase) :
    Tells (fun sign => sign.IsKeeping ∧ phrase.rest = lexemes) phrase := by
  revert h
  fun_cases modifier lexemes <;> intro h
  case case1 word rest =>
    cases h
    exact tells_taken (.keyword word) [] rest
  case case2 sign build digits after _ | case4 sign build digits after _ =>
    obtain ⟨n, _, ⟨⟩⟩ := bind_eq_ok.mp h
    exact tells_taken (.symbol sign) [.number digits] after
  case case3 sign rest build _ _ =>
    cases h
    exact tells_taken (.symbol sign) [] rest
  case case5 sign rest build hform _ =>
    cases h
    exact tells_reason rfl ⟨sign.isKeeping_of_modifierForm hform, rfl⟩
  case case6 sign rest hform =>
    cases h
    refine tells_none ?_
    rintro _ _ ⟨⟩ ⟨hkeeping, _⟩
    exact sign.not_isKeeping hform hkeeping
  case case7 hword hsign =>
    cases h
    exact tells_none fun sign more hrest => (hsign sign more hrest).elim

theorem pool_halts {size : Lexeme} {sides : Int} {label : Option Text} (before : List Lexeme)
    (marker : Char) (hsize : DerivesSize size sides label) {count sided : Int}
    {shown : Option Text} {rest : List Lexeme} {phrase : Phrase Expression}
    (h : pool count sided shown rest = .ok phrase) :
    Halts LacksCount (before ++ .die marker :: size :: rest) phrase := by
  obtain ⟨read, hread, ⟨⟩⟩ := bind_eq_ok.mp h
  obtain ⟨change, hrest, _, hchange⟩ := modifier_reads hread
  refine ⟨before ++ .die marker :: size :: change, by simp [hrest], ?_⟩
  have htells := modifier_tells hread
  refine Tells.congr ⟨htells.told, htells.silent⟩ fun sign more _ => ?_
  simp only [LacksCount, endsInDie_pool before marker hsize hchange, hrest,
    List.self_eq_append_left]

theorem term_halts {lexemes : List Lexeme} {phrase : Phrase Expression}
    (h : term lexemes = .ok (some phrase)) :
    Halts LacksCount lexemes phrase := by
  revert h
  fun_cases term lexemes <;> intro h
  case case1 count marker sides rest =>
    obtain ⟨c, _, h⟩ := bind_eq_ok.mp h
    obtain ⟨s, _, h⟩ := bind_eq_ok.mp h
    obtain ⟨dice, hdice, ⟨⟩⟩ := bind_eq_ok.mp h
    exact pool_halts [.number count] marker (.number sides) hdice
  case case2 count marker size rest =>
    obtain ⟨c, _, h⟩ := bind_eq_ok.mp h
    obtain ⟨dice, hdice, ⟨⟩⟩ := bind_eq_ok.mp h
    exact pool_halts [.number count] marker (.percent size) hdice
  case case3 digits rest _ _ =>
    obtain ⟨n, _, ⟨⟩⟩ := bind_eq_ok.mp h
    refine ⟨[.number digits], rfl, tells_none ?_⟩
    rintro _ _ _ ⟨_, _, _, _, _, _, hsuffix⟩
    simpa using hsuffix.length_le
  case case4 marker sides rest =>
    obtain ⟨s, _, h⟩ := bind_eq_ok.mp h
    obtain ⟨dice, hdice, ⟨⟩⟩ := bind_eq_ok.mp h
    exact pool_halts [] marker (.number sides) hdice
  case case5 marker size rest =>
    obtain ⟨dice, hdice, ⟨⟩⟩ := bind_eq_ok.mp h
    exact pool_halts [] marker (.percent size) hdice
  case case6 => cases h

/-- What stands before a term behind a sign does not change where the sum stops. -/
theorem sumFrom_halts {lexemes : List Lexeme} {left phrase : Phrase Expression}
    (h : sumFrom left = .ok phrase)
    (hleft : Halts LacksCount lexemes left) :
    Halts LacksCount lexemes phrase := by
  fun_induction sumFrom left
  case case4 left sign rest hrest join hjoin right hterm _ ih =>
    obtain ⟨first, hfirst, _⟩ := hleft
    obtain ⟨second, rfl, htells⟩ := term_halts hterm
    refine ih h ⟨first ++ .symbol sign :: second, by simp [hfirst, hrest], ?_⟩
    refine Tells.congr ⟨htells.told, htells.silent⟩ fun other more _ => ?_
    simp only [LacksCount, endsInDie_behind_symbol]
  all_goals
    cases h
    try exact hleft

theorem sum_halts {lexemes : List Lexeme} {phrase : Phrase Expression}
    (h : sum lexemes = .ok (some phrase)) :
    Halts LacksCount lexemes phrase := by
  obtain ⟨first, hterm, h⟩ := bind_eq_ok.mp h
  cases first with
  | none => cases h
  | some left =>
    obtain ⟨whole, hsum, ⟨⟩⟩ := bind_eq_ok.mp h
    exact sumFrom_halts hsum (term_halts hterm)

/-- Parentheses close all that is in them, so that nothing could go on with it. -/
theorem grouped_halts {lexemes : List Lexeme} {phrase : Phrase Expression}
    (h : grouped lexemes = .ok (some phrase)) :
    Halts LacksCount lexemes phrase := by
  revert h
  fun_cases grouped lexemes <;> intro h
  case case1 rest =>
    obtain ⟨inner, hsum, h⟩ := bind_eq_ok.mp h
    split at h
    next value after _ =>
      cases h
      obtain ⟨used, rfl, _, _⟩ := sum_reads hsum
      refine ⟨.symbol .openParen :: used ++ [.symbol .closeParen], by simp, tells_none ?_⟩
      rintro _ _ _ ⟨_, hdie⟩
      exact not_endsInDie_symbol _ _ hdie
    next => cases h
  case case2 => exact sum_halts h

theorem DerivesSum.isSum {lexemes : List Lexeme} {tree : Expression}
    (h : DerivesSum lexemes tree) : tree.IsSum := by
  cases h with
  | term h => cases h <;> trivial
  | plus | minus => trivial

theorem DerivesGrouped.isSum {lexemes : List Lexeme} {tree : Expression}
    (h : DerivesGrouped lexemes tree) : tree.IsSum := by
  cases h with
  | parenthesized h | sum h => exact h.isSum

theorem DerivesTarget.not_isSuccess {lexemes : List Lexeme} {tree : Expression}
    (h : DerivesTarget lexemes tree) : ¬tree.IsSuccess := by
  cases h with
  | high | low => exact Expression.IsTarget.not_isSuccess ⟨_, _, _, rfl⟩
  | grouped h => exact h.isSum.not_isSuccess

theorem DerivesSuccess.lastSide_eq {lexemes : List Lexeme} {tree : Expression}
    (h : DerivesSuccess lexemes tree) : tree.lastSide = tree := by
  cases h with
  | stepped | single => rfl
  | target h =>
    cases h with
    | high | low => rfl
    | grouped h => exact h.isSum.lastSide_eq

/-- Behind a target that was taken nothing is told. -/
theorem targetFrom_halts {lexemes : List Lexeme} {inner phrase : Phrase Expression}
    (h : targetFrom inner = .ok phrase) (hinner : Halts LacksCount lexemes inner)
    (hsum : inner.value.IsSum) : Halts LacksTarget lexemes phrase := by
  obtain ⟨used, hused, htells⟩ := hinner
  have htaken : ∀ {front : List Lexeme} {side : Side} {n : Int} {closing sign : Symbol},
      ¬LacksTarget (front ++ [.symbol closing]) (.target inner.value side n) sign := by
    rintro front side n closing sign (⟨_, htarget⟩ | ⟨_, hdie⟩)
    · exact htarget ⟨_, _, _, rfl⟩
    · exact not_endsInDie_symbol _ _ hdie
  revert h
  fun_cases targetFrom inner <;> intro h
  case case1 digits rest hrest =>
    obtain ⟨n, _, ⟨⟩⟩ := bind_eq_ok.mp h
    refine ⟨used ++ [.symbol .openBracket, .number digits] ++ [.symbol .closeBracket], ?_,
      tells_none fun _ _ _ => htaken⟩
    simp [hused, hrest]
  case case2 digits rest hrest =>
    obtain ⟨n, _, ⟨⟩⟩ := bind_eq_ok.mp h
    refine ⟨used ++ [.symbol .openParen, .number digits] ++ [.symbol .closeParen], ?_,
      tells_none fun _ _ _ => htaken⟩
    simp [hused, hrest]
  case case3 rest _ hrest =>
    cases h
    exact ⟨used, hused, tells_reason hrest (.inl ⟨.inl rfl, hsum.not_isTarget⟩)⟩
  case case4 rest _ hrest =>
    cases h
    exact ⟨used, hused, tells_reason hrest (.inl ⟨.inr rfl, hsum.not_isTarget⟩)⟩
  case case5 hbracket hparen =>
    cases h
    refine ⟨used, hused, htells.congr fun sign more hrest => or_iff_right ?_⟩
    rintro ⟨rfl | rfl, _⟩
    · exact hbracket more hrest
    · exact hparen more hrest

theorem target_halts {lexemes : List Lexeme} {phrase : Phrase Expression}
    (h : target lexemes = .ok (some phrase)) : Halts LacksTarget lexemes phrase := by
  obtain ⟨first, hgrouped, h⟩ := bind_eq_ok.mp h
  cases first with
  | none => cases h
  | some inner =>
    obtain ⟨whole, htarget, ⟨⟩⟩ := bind_eq_ok.mp h
    obtain ⟨_, _, _, hderives⟩ := grouped_reads hgrouped
    exact targetFrom_halts htarget (grouped_halts hgrouped) hderives.isSum

theorem successFrom_halts {lexemes : List Lexeme} {inner phrase : Phrase Expression}
    (h : successFrom inner = .ok phrase) (hinner : Halts LacksTarget lexemes inner)
    (hnot : ¬inner.value.IsSuccess) : Halts Unfinished lexemes phrase := by
  obtain ⟨used, hused, htells⟩ := hinner
  have htaken : ∀ {front : List Lexeme} {n step : Int} {closing sign : Symbol},
      ¬Unfinished (front ++ [.symbol closing]) (.success inner.value n step) sign := by
    rintro front n step closing sign (hsuccess | ⟨_, hsuccess, _⟩ | ⟨_, hdie⟩)
    · exact hsuccess ⟨_, _, _, rfl⟩
    · exact hsuccess ⟨_, _, _, rfl⟩
    · exact not_endsInDie_symbol _ _ hdie
  revert h
  fun_cases successFrom inner <;> intro h
  case case1 digits shape hrest =>
    obtain ⟨n, _, h⟩ := bind_eq_ok.mp h
    split at h
    next rest =>
      cases h
      refine ⟨used ++ [.symbol .openBrace, .number digits] ++ [.symbol .closeBrace], ?_,
        tells_none fun _ _ _ => htaken⟩
      simp [hused, hrest]
    next stepDigits rest _ =>
      obtain ⟨step, _, h⟩ := bind_eq_ok.mp h
      split at h
      next =>
        cases h
        exact ⟨used, hused, tells_reason hrest (.success hnot)⟩
      next =>
        cases h
        refine ⟨used ++ [.symbol .openBrace, .number digits, .symbol .comma, .number stepDigits] ++
          [.symbol .closeBrace], ?_, tells_none fun _ _ _ => htaken⟩
        simp [hused, hrest]
    next =>
      cases h
      exact ⟨used, hused, tells_reason hrest (.success hnot)⟩
  case case2 rest _ hrest =>
    cases h
    exact ⟨used, hused, tells_reason hrest (.success hnot)⟩
  case case3 hbrace =>
    cases h
    refine ⟨used, hused, htells.congr fun sign more hrest => ?_⟩
    constructor
    · rintro (_ | ⟨hsign, _, htarget⟩ | ⟨hsign, hdie⟩)
      · exact (hbrace more hrest).elim
      · exact .inl ⟨hsign, htarget⟩
      · exact .inr ⟨hsign, hdie⟩
    · rintro (⟨hsign, htarget⟩ | ⟨hsign, hdie⟩)
      · exact .target hsign hnot htarget
      · exact .count hsign hdie

theorem success_halts {lexemes : List Lexeme} {phrase : Phrase Expression}
    (h : success lexemes = .ok (some phrase)) : Halts Unfinished lexemes phrase := by
  obtain ⟨first, htarget, h⟩ := bind_eq_ok.mp h
  cases first with
  | none => cases h
  | some inner =>
    obtain ⟨whole, hsuccess, ⟨⟩⟩ := bind_eq_ok.mp h
    obtain ⟨_, _, _, hderives⟩ := target_reads htarget
    exact successFrom_halts hsuccess (target_halts htarget) hderives.not_isSuccess

/-- The right side of a comparison decides where it stops, and with no right side the left one. -/
theorem comparison_halts {lexemes : List Lexeme} {phrase : Phrase Expression}
    (h : comparison lexemes = .ok (some phrase)) :
    Halts (fun used tree => Unfinished used tree.lastSide) lexemes phrase := by
  obtain ⟨first, hsuccess, h⟩ := bind_eq_ok.mp h
  cases first with
  | none => cases h
  | some left =>
    obtain ⟨_, _, _, hderives⟩ := success_reads hsuccess
    obtain ⟨used, hused, htells⟩ := success_halts hsuccess
    have hleft : Halts (fun used tree => Unfinished used tree.lastSide) lexemes left := by
      refine ⟨used, hused, ?_⟩
      simp only [hderives.lastSide_eq]
      exact htells
    dsimp only at h
    split at h
    next sign rest hrest =>
      split at h
      next =>
        cases h
        exact hleft
      next relation hrelation =>
        obtain ⟨second, hsecond, h⟩ := bind_eq_ok.mp h
        cases second with
        | none =>
          cases h
          exact hleft
        | some right =>
          cases h
          obtain ⟨behind, hbehind, htells⟩ := success_halts hsecond
          refine ⟨used ++ .symbol sign :: behind, by simp [hused, hrest, hbehind], ?_⟩
          have hdie := endsInDie_behind_symbol used behind sign
          exact Tells.congr ⟨htells.told, htells.silent⟩ fun _ _ _ =>
            ⟨fun h => h.imp hdie.mp, fun h => h.imp hdie.mpr⟩
    next =>
      cases h
      exact hleft

end Grammar

end DiceNotation
