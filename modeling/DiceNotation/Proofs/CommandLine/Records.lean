import DiceNotation.Proofs.CommandLine.Endings
import DiceNotation.Proofs.Reading.Parts

/-!
# What the log changes

Any level that is known gives the same run as a quiet one but for the records that it shows, which
stand before all that is told beside the output. The record of where reading stopped names the
place of the first token that was not read.
-/

namespace DiceNotation.CommandLine

theorem restStart_append {front rest : Text} {c : Char} (hc : Text.isBlank c = false) :
    restStart (front ++ c :: rest) (Text.strip (c :: rest)) = front.length := by
  have hstart : (c :: rest).dropWhile Text.isBlank = c :: rest :=
    List.dropWhile_cons_of_neg (by simp [hc])
  have hsome : ((c :: rest).reverse.dropWhile Text.isBlank).isEmpty = false := by
    rw [List.isEmpty_eq_false_iff, ne_eq, List.dropWhile_eq_nil_iff]
    exact fun hall => absurd (hall c (by simp)) (by simp [hc])
  rw [restStart, List.reverse_append, List.dropWhile_append, hsome, Text.strip, Text.trim, hstart,
    List.length_reverse]
  simp

/-- The remainder of a reading begins where its first token stands. -/
theorem restStart_of_read {text rest : Text} {reading : Reading} (hread : read text = .ok reading)
    (hrest : reading.remainder = some rest) :
    ∃ used next, reading.consumed = Reading.consumedBy text (Token.scan 0 text) used ∧
      ((Token.scan 0 text).drop used).head? = some next ∧ restStart text rest = next.start := by
  obtain ⟨used, -, hconsumed, hremainder, -⟩ := exists_used_of_read hread
  rw [hrest, Reading.remainderAfter, eq_comm, Option.map_eq_some_iff] at hremainder
  obtain ⟨next, hnext, rfl⟩ := hremainder
  refine ⟨used, next, hconsumed, hnext, ?_⟩
  have hmem : next ∈ Token.scan 0 text := List.mem_of_mem_drop (List.mem_of_head? hnext)
  obtain ⟨front, c, behind, rfl, hc, rfl⟩ := Token.exists_first hmem
  simp only [Nat.zero_add, List.drop_left]
  exact restStart_append hc

variable {σ : Type} [Source σ]

/-- A run at any level is the one at a quiet level, behind the records that are shown. -/
theorem run_of_level {settings : Settings} {rank : Nat}
    (hrank : rank? settings.logLevel = some rank) {level : Text}
    (hquiet : IsQuiet { settings with logLevel := level }) (openSource : Given → Except Fault σ)
    (arguments : List Text) :
    ∃ records, (debugRank < rank → records = []) ∧
      run settings openSource arguments =
        (run { settings with logLevel := level } openSource arguments).behind records := by
  obtain ⟨quiet, hlevel, hlt⟩ := hquiet
  have hsame : readArguments { settings with logLevel := level } arguments =
      readArguments settings arguments := rfl
  cases hfits : Numeral.fits settings.chartSamples with
  | false =>
    refine ⟨[], fun _ => rfl, ?_⟩
    simp only [run, hfits]
    rfl
  | true =>
    cases harguments : readArguments settings arguments with
    | error fault =>
      refine ⟨[], fun _ => rfl, ?_⟩
      simp only [run, hfits, hsame, harguments]
      rfl
    | ok asked =>
      cases asked with
      | help =>
        refine ⟨[], fun _ => rfl, ?_⟩
        simp only [run, hfits, hsame, harguments]
        rfl
      | request request =>
        simp only [run, hfits, hsame, harguments, hrank, hlevel, Bool.not_true,
          Bool.false_eq_true, if_false, runRequest]
        cases read request.expression with
        | error fault => exact ⟨[], fun _ => rfl, rfl⟩
        | ok reading =>
          refine ⟨shownAt rank (readingRecords request.expression reading),
            fun hshown => shownAt_of_lt hshown _, ?_⟩
          simp only [shownAt_of_lt hlt]
          cases reading.expression <;> rfl

end DiceNotation.CommandLine
