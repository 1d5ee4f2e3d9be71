import DiceNotation.Fault
import DiceNotation.Proofs.Grammar.Completeness
import DiceNotation.Proofs.Lexing.Scan
import Mathlib

/-!
# Which texts are read as a whole

Reading in terms of the lexemes of the text: what it consumes is a derivable front of them, and a
text whose lexemes are derivable is read up to its end. With this the grammar decides which texts
stand for an expression, and for which one; that a text stands for one only is a consequence of
reading being a function.
-/

namespace DiceNotation

open Grammar

/-- No run of digits in the text is too long to be read. -/
def Text.HasShortRuns (text : Text) : Prop :=
  ∀ run, run <:+: text → (∀ c ∈ run, Text.isDigit c = true) → run.length ≤ Numeral.digitLimit

theorem Text.HasShortRuns.of_infix {text part : Text} (h : text.HasShortRuns)
    (hpart : part <:+: text) : part.HasShortRuns :=
  fun run hrun hdigits => h run (hrun.trans hpart) hdigits

theorem Text.hasShortRuns_of_length_le {text : Text} (h : text.length ≤ Numeral.digitLimit) :
    text.HasShortRuns :=
  fun _ hrun _ => Nat.le_trans hrun.length_le h

theorem readable_lexemes {text : Text} (h : text.HasShortRuns) : Readable (lexemes text) := by
  intro digits hmem
  obtain hword | ⟨c, hc⟩ := isWord_of_mem_lexemes hmem
  · exact h digits (text_infix_of_mem_lexemes hmem) hword.2
  · cases hc

theorem read_eq (text : Text) :
    read text =
      (comparison (lexemes text)).map (Reading.ofTokens text (Token.scan 0 text)) := by
  rw [lexemes_eq text 0]
  rfl

theorem read_eq_ok_iff {text : Text} {reading : Reading} :
    read text = .ok reading ↔ ∃ result, comparison (lexemes text) = .ok result ∧
      reading = Reading.ofTokens text (Token.scan 0 text) result := by
  rw [read_eq]
  cases comparison (lexemes text) <;> simp [Except.map, eq_comm]

theorem read_total {text : Text} (h : text.HasShortRuns) : ∃ reading, read text = .ok reading := by
  obtain ⟨result, hresult⟩ := comparison_total (readable_lexemes h)
  exact ⟨_, read_eq_ok_iff.mpr ⟨result, hresult, rfl⟩⟩

theorem remainderAfter_eq_none_iff {text : Text} {used rest : List Lexeme}
    (h : lexemes text = used ++ rest) :
    Reading.remainderAfter text (Token.scan 0 text) used.length = none ↔ rest = [] := by
  rw [lexemes_eq text 0] at h
  have hrest : ((Token.scan 0 text).drop used.length).map Token.lexeme = rest := by
    rw [List.map_drop, h, List.drop_left]
  rw [← hrest, Reading.remainderAfter, Option.map_eq_none_iff, List.head?_eq_none_iff,
    List.map_eq_nil_iff]

theorem length_scan {text : Text} {used rest : List Lexeme} (h : lexemes text = used ++ rest) :
    (Token.scan 0 text).length = used.length + rest.length := by
  rw [← List.length_append, ← h, lexemes_eq text 0, List.length_map]

theorem ofTokens_eq {text : Text} {used : List Lexeme} {phrase : Phrase Expression}
    (h : lexemes text = used ++ phrase.rest) :
    Reading.ofTokens text (Token.scan 0 text) (some phrase) =
      { expression := some phrase.value
        consumed := Reading.consumedBy text (Token.scan 0 text) used.length
        remainder := Reading.remainderAfter text (Token.scan 0 text) used.length
        reason := phrase.reason } := by
  have hcount : (Token.scan 0 text).length - phrase.rest.length = used.length := by
    rw [length_scan h, Nat.add_sub_cancel]
  simp only [Reading.ofTokens, hcount]

/-- A tree comes from a derivable front of the lexemes, and the rest of the reading is told by how
many lexemes this front has. -/
theorem exists_phrase_of_read {text : Text} {reading : Reading} {tree : Expression}
    (hread : read text = .ok reading) (htree : reading.expression = some tree) :
    ∃ used phrase, comparison (lexemes text) = .ok (some phrase) ∧
      lexemes text = used ++ phrase.rest ∧ Readable used ∧ DerivesComparison used tree ∧
      reading.consumed = Reading.consumedBy text (Token.scan 0 text) used.length ∧
      reading.remainder = Reading.remainderAfter text (Token.scan 0 text) used.length := by
  obtain ⟨result, hresult, rfl⟩ := read_eq_ok_iff.mp hread
  cases result with
  | none => cases htree
  | some phrase =>
    cases htree
    obtain ⟨used, hused, hshort, hderives⟩ := comparison_reads hresult
    refine ⟨used, phrase, hresult, hused, hshort, hderives, ?_, ?_⟩ <;> rw [ofTokens_eq hused]

theorem read_of_derives {text : Text} {tree : Expression}
    (h : DerivesComparison (lexemes text) tree) (hshort : Readable (lexemes text)) :
    ∃ reading, read text = .ok reading ∧ reading.expression = some tree ∧
      reading.remainder = none ∧ reading.reason = none := by
  rw [← List.append_nil (lexemes text)] at hshort
  obtain ⟨phrase, hphrase, hcovers⟩ := comparison_append h hshort
  obtain rfl := hcovers.exact trivial
  rw [List.append_nil] at hphrase
  have hused : lexemes text = lexemes text ++ [] := (List.append_nil _).symm
  exact ⟨_, read_eq_ok_iff.mpr ⟨_, hphrase, (ofTokens_eq hused).symm⟩, rfl,
    (remainderAfter_eq_none_iff hused).mpr rfl, rfl⟩

theorem derives_of_read {text : Text} {reading : Reading} {tree : Expression}
    (hread : read text = .ok reading) (htree : reading.expression = some tree)
    (hwhole : reading.remainder = none) : DerivesComparison (lexemes text) tree := by
  obtain ⟨used, phrase, _, hused, _, hderives, _, hremainder⟩ := exists_phrase_of_read hread htree
  rw [hremainder, remainderAfter_eq_none_iff hused] at hwhole
  rwa [hused, hwhole, List.append_nil]

theorem readWhole_eq_ok_iff {text : Text} {tree : Expression} :
    readWhole text = .ok tree ↔ ∃ reading, read text = .ok reading ∧
      reading.expression = some tree ∧ reading.remainder = none := by
  unfold readWhole
  cases hread : read text with
  | error fault => simp [Except.mapError, bind, Except.bind]
  | ok reading =>
    obtain ⟨expression, consumed, remainder, reason⟩ := reading
    cases expression <;> cases remainder <;>
      simp [Except.mapError, bind, Except.bind, pure, Except.pure]

theorem readWhole_eq_incomplete {text : Text} {reading : Reading} (hread : read text = .ok reading)
    (h : reading.expression = none ∨ reading.remainder ≠ none) :
    readWhole text = .error (.incomplete reading) := by
  obtain ⟨expression, consumed, remainder, reason⟩ := reading
  unfold readWhole
  rw [hread]
  cases expression <;> cases remainder <;> first | rfl | simp at h

/-- Reading a whole text succeeds just on the texts of the grammar, with the one tree that the
grammar has for them. -/
theorem readWhole_iff_derives {text : Text} (hruns : text.HasShortRuns) :
    (∀ tree, readWhole text = .ok tree ↔ DerivesComparison (lexemes text) tree) ∧
    (∀ tree other, DerivesComparison (lexemes text) tree →
      DerivesComparison (lexemes text) other → tree = other) ∧
    ((¬ ∃ tree, DerivesComparison (lexemes text) tree) →
      ∃ reading, read text = .ok reading ∧ readWhole text = .error (.incomplete reading)) := by
  have hiff : ∀ tree, readWhole text = .ok tree ↔ DerivesComparison (lexemes text) tree := by
    intro tree
    rw [readWhole_eq_ok_iff]
    constructor
    · rintro ⟨reading, hread, htree, hwhole⟩
      exact derives_of_read hread htree hwhole
    · intro hderives
      obtain ⟨reading, hread, htree, hwhole, _⟩ :=
        read_of_derives hderives (readable_lexemes hruns)
      exact ⟨reading, hread, htree, hwhole⟩
  refine ⟨hiff, ?_, ?_⟩
  · intro tree other htree hother
    have heq := ((hiff tree).mpr htree).symm.trans ((hiff other).mpr hother)
    exact Except.ok.inj heq
  · intro hnone
    obtain ⟨reading, hread⟩ := read_total hruns
    refine ⟨reading, hread, readWhole_eq_incomplete hread ?_⟩
    cases htree : reading.expression with
    | none => exact .inl rfl
    | some tree =>
      right
      intro hwhole
      exact hnone ⟨tree, derives_of_read hread htree hwhole⟩

theorem readWhole_iff_derives_target :
    Text.HasShortRuns "(2d6 + 3)[4]".toList ∧
      DerivesComparison (lexemes "(2d6 + 3)[4]".toList)
        (.target (.sum (.pool ⟨2, 6, none, none⟩) (.number 3)) .high 4) := by
  have hruns : Text.HasShortRuns "(2d6 + 3)[4]".toList :=
    Text.hasShortRuns_of_length_le (by decide)
  exact ⟨hruns, ((readWhole_iff_derives hruns).1 _).mp (by cbv)⟩

end DiceNotation
