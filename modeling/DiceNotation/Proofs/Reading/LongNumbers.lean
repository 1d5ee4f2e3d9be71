import DiceNotation.Proofs.CommandLine.Requests
import DiceNotation.Proofs.Grammar.Asking
import DiceNotation.Proofs.Service.Agreement

/-!
# Texts that cannot be read

Reading fails on a number that is too long, but only where the grammar asks for it: a long number
that is left in the remainder does no harm, while one in a branch that is given up afterwards
does. Neither the command line nor the service tells of the failure.
-/

namespace DiceNotation

open Grammar CommandLine Service

theorem read_eq_error_iff {text : Text} {fault : NumeralFault} :
    read text = .error fault ↔ Stuck AsksComparison (lexemes text) fault := by
  rw [read_eq, ← comparison_eq_error_iff]
  cases comparison (lexemes text) <;> simp [Except.map]

theorem stuck_of_run {run : Text} (hne : run ≠ []) (hdigits : ∀ c ∈ run, Text.isDigit c = true)
    (hlong : Numeral.digitLimit < run.length) :
    Stuck AsksComparison (lexemes run) (.unreadable run.length) := by
  have hword : (Lexeme.number run).IsWord := ⟨hne, hdigits⟩
  have hfirst : AsksComparison [] [] := .success (.target (.grouped (.sum (.term .first))))
  exact ⟨[], run, [], lexemes_text hword, readable_nil, hlong, hfirst, rfl⟩

/-- A text is read unless the grammar asks for a number in it that is too long. Such a text stops
a run of the command line without a word, and leaves the service without a response. -/
theorem read_fails_where_asked (text : Text) :
    (∀ fault, read text = .error fault ↔ Stuck AsksComparison (lexemes text) fault) ∧
    (text.HasShortRuns → ∃ reading, read text = .ok reading) ∧
    ∀ fault, read text = .error fault →
      (∀ (σ : Type) [Source σ] (settings : Settings) (openSource : Given → Except Fault σ)
        (arguments : List Text) (request : Request), Accepts settings arguments request →
        request.expression = text →
        (run settings openSource arguments).Stops (.numeral fault)) ∧
      ∀ (σ : Type) [Source σ] (check : Check) (settings : Settings) (route : Route)
        (parameters : Parameters) (count : Int) (source : σ),
        check expressionParameter (route.countParameter settings) parameters = .ok (text, count) →
        respond check settings route parameters source = .error (.numeral fault) source := by
  refine ⟨fun fault => read_eq_error_iff, read_total, fun fault hread => ⟨?_, ?_⟩⟩
  · intro σ _ settings openSource arguments request haccepts htext
    exact haccepts.run_of_error (htext ▸ hread)
  · intro σ _ check settings route parameters count source hchecked
    simp only [respond, hchecked, hread, Except.mapError]
    rfl

/-- A run of zeros is asked for at once, however small the number is. -/
theorem read_fails_where_asked_zeros :
    read (List.replicate 4301 '0') = .error (.unreadable 4301) ∧
      (run {} (replaying []) (writtenOut .full 1 (List.replicate 4301 '0'))).Stops
        (.numeral (.unreadable 4301)) ∧
      respond plainCheck {} .roll (rollParameters (List.replicate 4301 '0') 1) (Replay.ofList []) =
        .error (.numeral (.unreadable 4301)) (Replay.ofList []) := by
  have hlength : (List.replicate 4301 '0').length = 4301 := List.length_replicate
  have hdigits : ∀ c ∈ List.replicate 4301 '0', Text.isDigit c = true := by
    intro c hc
    rw [List.eq_of_mem_replicate hc]
    decide
  generalize List.replicate 4301 '0' = zeros at hlength hdigits ⊢
  have hne : zeros ≠ [] := List.ne_nil_of_length_pos (by omega)
  have hplain : Numeral.IsPlain 1 := ⟨by decide, Numeral.fits_of_lt 1 (by decide) (by decide)⟩
  have hsamples : Numeral.fits ({} : Settings).chartSamples = true :=
    Numeral.fits_of_lt 5 (by decide) (by decide)
  obtain ⟨hiff, -, hshells⟩ := read_fails_where_asked zeros
  have hread : read zeros = .error (.unreadable 4301) :=
    (hiff _).mpr (hlength ▸ stuck_of_run hne hdigits (by rw [hlength]; decide))
  obtain ⟨hrun, hrespond⟩ := hshells _ hread
  have haccepts : Accepts {} (writtenOut .full 1 zeros) (request {} .full 1 zeros) :=
    accepts_writtenOut (isQuiet_of_warning rfl) hsamples hplain .full zeros
  refine ⟨hread, hrun _ _ _ _ _ haccepts rfl, ?_⟩
  exact hrespond _ _ _ _ _ _ _
    (check_rollParameters letsThrough_plainCheck hne hplain (by decide))

end DiceNotation
