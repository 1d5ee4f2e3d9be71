import DiceNotation.Proofs.Grammar.Ending
import DiceNotation.Proofs.Lexing.Places
import DiceNotation.Proofs.Reading.Acceptance

/-!
# The parts of a reading

A reading cuts the text between two tokens, or in front of all of them, and trims both parts. So
nothing but blanks is lost: the tokens that were taken are those of the first part, and the other
ones, if there are any, those of the remainder.
-/

namespace DiceNotation

open Grammar

theorem consumedBy_eq (text : Text) (tokens : List Token) (used : Nat) :
    Reading.consumedBy text tokens used =
      Text.strip (text.take (Token.reach 0 (tokens.take used))) := by
  unfold Reading.consumedBy Token.reach
  cases (tokens.take used).getLast? <;> rfl

/-- The remainder begins with its first token, and there is none if only blanks are left. -/
theorem remainder_eq (front back : Text) :
    ((Token.scan front.length back).head?.map fun next =>
        Text.strip ((front ++ back).drop next.start)) =
      if Text.strip back = [] then none else some (Text.strip back) := by
  cases hscan : Token.scan front.length back with
  | nil => rw [if_pos (scan_eq_nil_iff.mp hscan), List.head?_nil, Option.map_none]
  | cons next more =>
    have hne : Text.strip back ≠ [] := by
      rw [ne_eq, ← scan_eq_nil_iff, hscan]
      apply List.cons_ne_nil
    obtain ⟨gap, rest, rfl, hgap, hstart⟩ := Token.exists_gap hscan
    have hdrop : (front ++ (gap ++ rest)).drop next.start = rest := by
      rw [hstart, ← List.append_assoc, ← List.length_append, List.drop_left]
    rw [if_neg hne, List.head?_cons, Option.map_some, hdrop, Text.strip_blanks_append hgap]

/-- The two parts come from a cut of the text. -/
theorem exists_cut_of_used {text : Text} {n : Nat} (hn : n ≤ (Token.scan 0 text).length) :
    ∃ front back, text = front ++ back ∧
      Token.scan 0 front = (Token.scan 0 text).take n ∧
      Token.scan front.length back = (Token.scan 0 text).drop n ∧
      Reading.consumedBy text (Token.scan 0 text) n = Text.strip front ∧
      Reading.remainderAfter text (Token.scan 0 text) n =
        if Text.strip back = [] then none else some (Text.strip back) := by
  obtain ⟨front, back, htext, hfront, hback, hreach⟩ := Token.exists_split hn
  rw [Nat.zero_add] at hback hreach
  refine ⟨front, back, htext, hfront, hback, ?_, ?_⟩
  · rw [consumedBy_eq, hreach, htext, List.take_left]
  · rw [Reading.remainderAfter, ← hback, ← remainder_eq front, htext]

theorem lexemes_consumedBy {text : Text} {used rest : List Lexeme}
    (h : lexemes text = used ++ rest) :
    lexemes (Reading.consumedBy text (Token.scan 0 text) used.length) = used := by
  have hlength : used.length ≤ (Token.scan 0 text).length := by
    rw [length_scan h]
    apply Nat.le_add_right
  obtain ⟨front, back, -, hfront, -, hconsumed, -⟩ := exists_cut_of_used hlength
  rw [hconsumed, lexemes_strip, lexemes_eq front 0, hfront, List.map_take, ← lexemes_eq, h,
    List.take_left]

/-- A reading goes by the number of tokens it takes, and it takes none just if it has no tree. -/
theorem exists_used_of_read {text : Text} {reading : Reading} (hread : read text = .ok reading) :
    ∃ n ≤ (Token.scan 0 text).length,
      reading.consumed = Reading.consumedBy text (Token.scan 0 text) n ∧
      reading.remainder = Reading.remainderAfter text (Token.scan 0 text) n ∧
      (n = 0 ↔ reading.expression = none) := by
  cases htree : reading.expression with
  | none =>
    obtain ⟨result, -, rfl⟩ := read_eq_ok_iff.mp hread
    cases result with
    | none => exact ⟨0, Nat.zero_le _, rfl, rfl, by simp⟩
    | some phrase => cases htree
  | some tree =>
    obtain ⟨used, phrase, -, hused, -, hderives, hconsumed, hremainder⟩ :=
      exists_phrase_of_read hread htree
    refine ⟨used.length, ?_, hconsumed, hremainder, ?_⟩
    · rw [length_scan hused]
      apply Nat.le_add_right
    · simp [hderives.ne_nil]

theorem exists_cut_of_read {text : Text} {reading : Reading} (hread : read text = .ok reading) :
    ∃ front back, text = front ++ back ∧
      Token.scan 0 text = Token.scan 0 front ++ Token.scan front.length back ∧
      reading.consumed = Text.strip front ∧
      reading.remainder = (if Text.strip back = [] then none else some (Text.strip back)) ∧
      (Text.strip front = [] ↔ reading.expression = none) := by
  obtain ⟨n, hn, hconsumed, hremainder, hnone⟩ := exists_used_of_read hread
  obtain ⟨front, back, htext, hfront, hback, hfirst, hsecond⟩ := exists_cut_of_used hn
  refine ⟨front, back, htext, ?_, hconsumed.trans hfirst, hremainder.trans hsecond, ?_⟩
  · rw [hfront, hback, List.take_append_drop]
  · rw [← hnone, ← @scan_eq_nil_iff 0, hfront, ← List.length_eq_zero_iff, List.length_take,
      Nat.min_eq_left hn]

/-- The two parts of the reading and blanks around them make up the text, and its tokens are those
of the two parts. -/
structure Reading.Splits (text : Text) (reading : Reading) : Prop where
  text_eq : ∃ before between behind,
    text = before ++ reading.consumed ++ between ++ reading.remainder.getD [] ++ behind ∧
      ∀ c ∈ before ++ between ++ behind, Text.isBlank c = true
  consumed_trimmed : reading.consumed.IsTrimmed
  remainder_trimmed : ∀ remainder ∈ reading.remainder, remainder.IsTrimmed ∧ remainder ≠ []
  consumed_eq_nil_iff : reading.consumed = [] ↔ reading.expression = none
  lexemes_eq : lexemes text =
    lexemes reading.consumed ++ lexemes (reading.remainder.getD [])
  tokens : ∃ taken left, Token.scan 0 text = taken ++ left ∧
    taken.map Token.lexeme = lexemes reading.consumed ∧
    left.map Token.lexeme = lexemes (reading.remainder.getD []) ∧
    (reading.remainder = none ↔ left = [])

theorem read_splits {text : Text} {reading : Reading} (hread : read text = .ok reading) :
    reading.Splits text := by
  obtain ⟨front, back, htext, hscan, hconsumed, hremainder, hnone⟩ := exists_cut_of_read hread
  have hleft : reading.remainder.getD [] = Text.strip back := by
    rw [hremainder]
    split
    next hnil => exact hnil.symm
    next => rfl
  have hfront : (Token.scan 0 front).map Token.lexeme = lexemes reading.consumed := by
    rw [← lexemes_eq, hconsumed, lexemes_strip]
  have hback : (Token.scan front.length back).map Token.lexeme =
      lexemes (reading.remainder.getD []) := by
    rw [← lexemes_eq, hleft, lexemes_strip]
  constructor
  case text_eq =>
    rw [hconsumed, hleft, htext]
    exact Text.exists_margins_append front back
  case consumed_trimmed =>
    rw [hconsumed]
    exact Text.isTrimmed_strip front
  case remainder_trimmed =>
    intro remainder hmem
    rw [hremainder] at hmem
    split at hmem
    next => cases hmem
    next hne =>
      cases hmem
      exact ⟨Text.isTrimmed_strip back, hne⟩
  case consumed_eq_nil_iff => rw [hconsumed, hnone]
  case lexemes_eq => rw [← hfront, ← hback, ← List.map_append, ← hscan, ← lexemes_eq]
  case tokens =>
    refine ⟨_, _, hscan, hfront, hback, ?_⟩
    rw [scan_eq_nil_iff, hremainder]
    simp

/-- The relation is given up with what is behind it, so it is the first token of the remainder. -/
theorem read_splits_relation :
    ∃ reading, read " 2d6 \n> (3 ".toList = .ok reading ∧
      reading.Splits " 2d6 \n> (3 ".toList ∧
      reading.consumed = "2d6".toList ∧ reading.remainder = some "> (3".toList := by
  have hread : read " 2d6 \n> (3 ".toList =
      .ok ⟨some (.pool ⟨2, 6, none, none⟩), "2d6".toList, some "> (3".toList, none⟩ := by
    cbv
  exact ⟨_, hread, read_splits hread, rfl, rfl⟩

end DiceNotation
