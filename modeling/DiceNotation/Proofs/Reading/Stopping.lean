import DiceNotation.Proofs.Grammar.Asking
import DiceNotation.Proofs.Expression.RoundTrip
import DiceNotation.Proofs.Grammar.Reasons
import DiceNotation.Proofs.Reading.Longest

/-!
# Why reading stops

A reading tells a reason just if the first lexeme that it leaves is an opening that could have
gone on with what it took. Where a branch of the grammar is given up, reading goes back to the
place before it, so a reason that came up inside is told by nothing.
-/

namespace DiceNotation

open Grammar

/-! ### Where the remainder begins -/

theorem strip_prefix_of_isWord {word : Lexeme} (hword : word.IsWord) {text : Text}
    (h : word.text <+: text) : word.text <+: Text.strip text := by
  have hself : Text.strip word.text = word.text := Text.trim_eq_self hword.isBlank
  rw [← hself]
  exact Text.strip_mono h

/-- The remainder begins with the first word that is left. -/
theorem exists_remainder {text : Text} {used rest : List Lexeme} {word : Lexeme}
    (h : lexemes text = used ++ word :: rest) (hword : word.IsWord) :
    ∃ remainder, Reading.remainderAfter text (Token.scan 0 text) used.length = some remainder ∧
      word.text <+: remainder := by
  rw [lexemes_eq text 0, List.map_eq_append_iff] at h
  obtain ⟨before, behind, hscan, hbefore, hbehind⟩ := h
  obtain ⟨token, more, rfl, htoken, -⟩ := List.map_eq_cons_iff.mp hbehind
  have hlength : before.length = used.length := by rw [← hbefore, List.length_map]
  have hmem : token ∈ Token.scan 0 text := by simp [hscan]
  obtain ⟨front, back, htext, hfront⟩ := Token.exists_place hmem
  have hstart : word.text <+: text.drop token.start := by
    rw [hfront, Nat.zero_add, htext, List.drop_left, htoken]
    exact List.prefix_append _ _
  refine ⟨Text.strip (text.drop token.start), ?_, strip_prefix_of_isWord hword hstart⟩
  rw [Reading.remainderAfter, hscan, ← hlength, List.drop_left]
  rfl

/-! ### What is told -/

/-- A reading with a tree takes a front of the lexemes, and the reason depends on this front, the
tree and the lexemes that are left. -/
theorem tells_of_read {text : Text} {reading : Reading} {tree : Expression}
    (hread : read text = .ok reading) (htree : reading.expression = some tree) :
    ∃ rest, lexemes text = lexemes reading.consumed ++ rest ∧
      reading.remainder = Reading.remainderAfter text (Token.scan 0 text)
        (lexemes reading.consumed).length ∧
      Tells (Unfinished (lexemes reading.consumed) tree.lastSide)
        { value := tree, rest, reason := reading.reason } := by
  obtain ⟨result, hresult, rfl⟩ := read_eq_ok_iff.mp hread
  cases result with
  | none => cases htree
  | some phrase =>
    cases htree
    obtain ⟨used, hused, htells⟩ := comparison_halts hresult
    rw [ofTokens_eq hused]
    dsimp only
    rw [lexemes_consumedBy hused]
    exact ⟨phrase.rest, hused, rfl, htells.told, htells.silent⟩

theorem nothing_of_read {text : Text} {reading : Reading} (hread : read text = .ok reading)
    (hnone : reading.expression = none) : reading.consumed = [] ∧ reading.reason = none := by
  obtain ⟨result, -, rfl⟩ := read_eq_ok_iff.mp hread
  cases result with
  | none => exact ⟨rfl, rfl⟩
  | some phrase => cases hnone

theorem exists_rest_of_read {text : Text} {reading : Reading} (hread : read text = .ok reading) :
    ∃ rest, lexemes text = lexemes reading.consumed ++ rest ∧
      (reading.reason ≠ none ↔ ∃ tree sign more, reading.expression = some tree ∧
        rest = .symbol sign :: more ∧
        Unfinished (lexemes reading.consumed) tree.lastSide sign) ∧
      ∀ reason, reading.reason = some reason → ∃ more remainder,
        rest = .symbol reason.opening :: more ∧ reading.remainder = some remainder ∧
        reason.opening.text <+: remainder := by
  cases htree : reading.expression with
  | none =>
    obtain ⟨hconsumed, hreason⟩ := nothing_of_read hread htree
    rw [hconsumed, hreason, lexemes_nil]
    refine ⟨lexemes text, rfl, ⟨fun h => absurd rfl h, ?_⟩, nofun⟩
    rintro ⟨_, _, _, ⟨⟩, _⟩
  | some tree =>
    obtain ⟨rest, hsplit, hremainder, htells⟩ := tells_of_read hread htree
    refine ⟨rest, hsplit, htells.reason_ne_none_iff.trans ?_, ?_⟩
    · constructor
      · rintro ⟨sign, more, hrest, hstops⟩
        exact ⟨tree, sign, more, rfl, hrest, hstops⟩
      · rintro ⟨_, sign, more, ⟨⟩, hrest, hstops⟩
        exact ⟨sign, more, hrest, hstops⟩
    · intro reason hreason
      obtain ⟨-, more, hrest⟩ := htells.told reason hreason
      change rest = .symbol reason.opening :: more at hrest
      rw [hrest] at hsplit
      obtain ⟨remainder, hsome, hstart⟩ := exists_remainder hsplit (Lexeme.isWord_symbol _)
      exact ⟨more, remainder, hrest, hremainder.trans hsome, hstart⟩

/-! ### Branches that are given up -/

/-- No beginning of the lexemes is a side of a comparison. -/
def HasNoSide (lexemes : List Lexeme) : Prop :=
  ∀ used rest tree, lexemes = used ++ rest → ¬DerivesSuccess used tree

/-- There is no side to read at all, or none behind the relation that follows the first one. -/
inductive GivesUp : List Lexeme → Prop where
  | left {lexemes : List Lexeme} : HasNoSide lexemes → GivesUp lexemes
  | right {first second : List Lexeme} {left : Expression} (relation : Relation) :
      DerivesSuccess first left → HasNoSide second →
      GivesUp (first ++ .symbol relation.symbol :: second)

theorem HasNoSide.success_eq {lexemes : List Lexeme} (h : HasNoSide lexemes)
    (hread : Readable lexemes) : success lexemes = .ok none := by
  obtain ⟨result, hresult⟩ := success_total hread
  cases result with
  | none => exact hresult
  | some phrase =>
    obtain ⟨used, hused, -, hderives⟩ := success_reads hresult
    exact (h used phrase.rest phrase.value hused hderives).elim

/-- Reading goes back to the place before the branch, and there nothing is told. -/
theorem GivesUp.comparison_eq {lexemes : List Lexeme} (h : GivesUp lexemes)
    (hread : Readable lexemes) :
    ∃ result, comparison lexemes = .ok result ∧ ∀ phrase ∈ result, phrase.reason = none := by
  cases h with
  | left hnone => exact ⟨none, bind_eq_ok.mpr ⟨none, hnone.success_eq hread, rfl⟩, nofun⟩
  | @right first second left relation hleft hnone =>
    obtain ⟨hfirst, hrest⟩ := (readable_append _ _).mp hread
    have hends : Ends 4 (.symbol relation.symbol :: second) :=
      Nat.le_of_eq relation.looseness_symbol.symm
    have hrelation := (Symbol.relation?_eq_some_iff relation.symbol relation).mpr rfl
    refine ⟨some { value := left, rest := .symbol relation.symbol :: second }, ?_, ?_⟩
    · refine bind_eq_ok.mpr ⟨_, success_exact hleft hfirst hends, ?_⟩
      simp only [hrelation]
      exact bind_eq_ok.mpr ⟨none, hnone.success_eq ((readable_cons _ _).mp hrest).2, rfl⟩
    · rintro _ ⟨⟩
      rfl

theorem GivesUp.reason_eq {text : Text} {reading : Reading} (h : GivesUp (lexemes text))
    (hruns : text.HasShortRuns) (hread : read text = .ok reading) : reading.reason = none := by
  obtain ⟨result, hresult, hsilent⟩ := h.comparison_eq (readable_lexemes hruns)
  obtain ⟨_, hresult', rfl⟩ := read_eq_ok_iff.mp hread
  cases hresult.symm.trans hresult'
  cases result with
  | none => rfl
  | some phrase => exact hsilent phrase rfl

/-- A reason is told just if there is a tree and the first lexeme that is left could have gone on
with it; the remainder begins with this lexeme, and the reason is about it. So no reason is told
where nothing or everything is read, and none that came up in a branch that is given up. -/
theorem reason_iff_unfinished {text : Text} (hruns : text.HasShortRuns) :
    ∃ reading rest, read text = .ok reading ∧ lexemes text = lexemes reading.consumed ++ rest ∧
      (reading.reason ≠ none ↔ ∃ tree sign more, reading.expression = some tree ∧
        rest = .symbol sign :: more ∧
        Unfinished (lexemes reading.consumed) tree.lastSide sign) ∧
      (∀ reason, reading.reason = some reason → ∃ more remainder,
        rest = .symbol reason.opening :: more ∧ reading.remainder = some remainder ∧
        reason.opening.text <+: remainder) ∧
      (reading.expression = none ∨ reading.remainder = none ∨ GivesUp (lexemes text) →
        reading.reason = none) := by
  obtain ⟨reading, hread⟩ := read_total hruns
  obtain ⟨rest, hsplit, htold, hopening⟩ := exists_rest_of_read hread
  refine ⟨reading, rest, hread, hsplit, htold, hopening, ?_⟩
  rintro (hnone | hwhole | hgives)
  · exact (nothing_of_read hread hnone).2
  · rw [Option.eq_none_iff_forall_ne_some]
    intro reason hreason
    obtain ⟨_, _, _, hremainder, _⟩ := hopening reason hreason
    cases hwhole.symm.trans hremainder
  · exact hgives.reason_eq hruns hread

theorem reason_iff_unfinished_keep :
    ∃ reading more, read "2d6\x7b4\x7d > 3d8~ x".toList = .ok reading ∧
      reading.reason = some (.keepCount .tilde) ∧
      lexemes "2d6\x7b4\x7d > 3d8~ x".toList =
        lexemes reading.consumed ++ .symbol .tilde :: more ∧
      Unfinished (lexemes reading.consumed) (.pool ⟨3, 8, none, none⟩) .tilde := by
  have hruns : Text.HasShortRuns "2d6\x7b4\x7d > 3d8~ x".toList :=
    Text.hasShortRuns_of_length_le (by decide)
  have hvalue : read "2d6\x7b4\x7d > 3d8~ x".toList =
      .ok ⟨some (.comparison (.success (.pool ⟨2, 6, none, none⟩) 4 1) .greater
        (.pool ⟨3, 8, none, none⟩)), "2d6\x7b4\x7d > 3d8".toList, some "~ x".toList,
        some (.keepCount .tilde)⟩ := by
    cbv
  obtain ⟨reading, rest, hread, hsplit, htold, hopening, -⟩ := reason_iff_unfinished hruns
  obtain rfl := Except.ok.inj (hread.symm.trans hvalue)
  obtain ⟨_, sign, more, ⟨⟩, rfl, hstops⟩ := htold.mp (Option.some_ne_none _)
  obtain ⟨_, _, ⟨⟩, -⟩ := hopening _ rfl
  exact ⟨_, more, hread, rfl, hsplit, hstops⟩

/-- The open group is given up, and with it what was told about the symbol in it. -/
example : (read "2d6 > (3d8~".toList).map Reading.reason = .ok none := by cbv

end DiceNotation
