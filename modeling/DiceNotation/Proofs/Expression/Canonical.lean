import DiceNotation.Expression.Printer
import DiceNotation.Proofs.Grammar.Soundness
import DiceNotation.Proofs.Numeral.Plain

/-!
# Canonical trees

The trees that have notation of their own, level by level as the notation nests. Whatever the
grammar derives from readable lexemes is one of them.
-/

namespace DiceNotation

open Grammar Numeral

/-- All numbers of the pool are plain, also the size behind a label, and the label is the marker
of just this size. -/
structure Pool.IsCanonical (dice : Pool) : Prop where
  count : IsPlain dice.count
  sides : IsPlain dice.sides
  modifier : ∀ modifier ∈ dice.modifier, ∀ n ∈ modifier.numbers, IsPlain n
  label : ∀ label ∈ dice.label, ∃ size : Percentile, label = size.text ∧ dice.sides = size.sides

namespace Expression

inductive IsCanonicalTerm : Expression → Prop where
  | number {n : Int} : IsPlain n → IsCanonicalTerm (.number n)
  | pool {dice : Pool} : dice.IsCanonical → IsCanonicalTerm (.pool dice)

inductive IsCanonicalSum : Expression → Prop where
  | term {tree : Expression} : IsCanonicalTerm tree → IsCanonicalSum tree
  | sum {left right : Expression} :
      IsCanonicalSum left → IsCanonicalTerm right → IsCanonicalSum (.sum left right)
  | difference {left right : Expression} :
      IsCanonicalSum left → IsCanonicalTerm right → IsCanonicalSum (.difference left right)

inductive IsCanonicalTarget : Expression → Prop where
  | target {inner : Expression} {threshold : Int} (side : Side) :
      IsCanonicalSum inner → IsPlain threshold →
      IsCanonicalTarget (.target inner side threshold)
  | sum {tree : Expression} : IsCanonicalSum tree → IsCanonicalTarget tree

inductive IsCanonicalSuccess : Expression → Prop where
  | success {inner : Expression} {threshold step : Int} :
      IsCanonicalTarget inner → IsPlain threshold → IsPlain step → 1 ≤ step →
      IsCanonicalSuccess (.success inner threshold step)
  | target {tree : Expression} : IsCanonicalTarget tree → IsCanonicalSuccess tree

inductive IsCanonical : Expression → Prop where
  | comparison {left right : Expression} (relation : Relation) :
      IsCanonicalSuccess left → IsCanonicalSuccess right →
      IsCanonical (.comparison left relation right)
  | success {tree : Expression} : IsCanonicalSuccess tree → IsCanonical tree

/-- What holds of plain numbers and canonical pools and is kept by the operations holds of all
canonical trees. -/
theorem IsCanonical.induction {tree : Expression} (h : tree.IsCanonical)
    {motive : Expression → Prop} (number : ∀ n, IsPlain n → motive (.number n))
    (pool : ∀ dice : Pool, dice.IsCanonical → motive (.pool dice))
    (sum : ∀ left right, motive left → motive right → motive (.sum left right))
    (difference : ∀ left right, motive left → motive right → motive (.difference left right))
    (target : ∀ inner side threshold, motive inner → IsPlain threshold →
      motive (.target inner side threshold))
    (success : ∀ inner threshold step, motive inner → IsPlain threshold → IsPlain step →
      1 ≤ step → motive (.success inner threshold step))
    (comparison : ∀ left relation right, motive left → motive right →
      motive (.comparison left relation right)) : motive tree := by
  have hterm : ∀ tree, IsCanonicalTerm tree → motive tree := by
    rintro _ (hn | hdice)
    · exact number _ hn
    · exact pool _ hdice
  have hsum : ∀ tree, IsCanonicalSum tree → motive tree := by
    intro tree h
    induction h with
    | term h => exact hterm _ h
    | sum _ hright ih => exact sum _ _ ih (hterm _ hright)
    | difference _ hright ih => exact difference _ _ ih (hterm _ hright)
  have htarget : ∀ tree, IsCanonicalTarget tree → motive tree := by
    rintro _ (⟨side, hinner, hthreshold⟩ | h)
    · exact target _ side _ (hsum _ hinner) hthreshold
    · exact hsum _ h
  have hsuccess : ∀ tree, IsCanonicalSuccess tree → motive tree := by
    rintro _ (⟨hinner, hthreshold, hstep, hpos⟩ | h)
    · exact success _ _ _ (htarget _ hinner) hthreshold hstep hpos
    · exact htarget _ h
  cases h with
  | comparison relation hleft hright =>
    exact comparison _ relation _ (hsuccess _ hleft) (hsuccess _ hright)
  | success h => exact hsuccess _ h

end Expression

namespace Grammar

theorem isPlain_of_readable {lexemes : List Lexeme} (h : Readable lexemes) (digits : Text)
    (hmem : .number digits ∈ lexemes) : IsPlain (value digits) :=
  isPlain_value (h digits hmem)

theorem DerivesOptional.isPlain {lexemes : List Lexeme} {n : Option Int}
    (h : DerivesOptional lexemes n) (hread : Readable lexemes) : ∀ m ∈ n, IsPlain m := by
  cases h with
  | absent => simp
  | present digits => simpa using isPlain_of_readable hread digits List.mem_cons_self

theorem isPlain_one : IsPlain 1 :=
  isPlain_value (show "1".toList.length ≤ digitLimit by decide)

theorem isPlain_sides (size : Percentile) : IsPlain size.sides := by
  cases size
  · exact isPlain_value (show "100".toList.length ≤ digitLimit by decide)
  · exact isPlain_value (show "1000".toList.length ≤ digitLimit by decide)
  · exact isPlain_value (show "10000".toList.length ≤ digitLimit by decide)

theorem isPlain_getD {n : Option Int} (h : ∀ m ∈ n, IsPlain m) : IsPlain (n.getD 1) := by
  cases n with
  | none => exact isPlain_one
  | some m => exact h m rfl

theorem DerivesModifier.isPlain {lexemes : List Lexeme} {modifier : Modifier}
    (h : DerivesModifier lexemes modifier) (hread : Readable lexemes) :
    ∀ n ∈ modifier.numbers, IsPlain n := by
  cases h with
  | explode hn | explodeAgain hn | explodeEach hn | explodeEachAgain hn =>
    simpa [Modifier.numbers] using hn.isPlain (readable_cons _ _ |>.mp hread).2
  | addEach hn | subtractEach hn =>
    simpa [Modifier.numbers] using isPlain_getD (hn.isPlain (readable_cons _ _ |>.mp hread).2)
  | takeLow digits | takeHigh digits | takeMiddle digits =>
    simpa [Modifier.numbers] using isPlain_of_readable hread digits (by simp)
  | advantage | disadvantage | bestGroup => simp [Modifier.numbers]

theorem DerivesPool.isCanonical {lexemes : List Lexeme} {dice : Pool}
    (h : DerivesPool lexemes dice) (hread : Readable lexemes) : dice.IsCanonical := by
  obtain ⟨marker, hcount, hsize, hchange⟩ := h
  rename_i number change count size sides label modifier
  obtain ⟨hnumber, hread⟩ := (readable_append _ _).mp hread
  obtain ⟨-, hread⟩ := (readable_cons _ _).mp hread
  obtain ⟨hsides, hlabel⟩ : IsPlain sides ∧
      ∀ text ∈ label, ∃ size : Percentile, text = size.text ∧ sides = size.sides := by
    cases hsize with
    | number digits => exact ⟨isPlain_of_readable hread digits List.mem_cons_self, by simp⟩
    | percent size =>
      refine ⟨?_, fun text htext => ⟨size, (Option.mem_some.mp htext).symm, rfl⟩⟩
      exact isPlain_sides size
  refine ⟨isPlain_getD (hcount.isPlain hnumber), hsides, ?_, hlabel⟩
  cases hchange with
  | absent => simp
  | present hmodifier =>
    simpa using hmodifier.isPlain ((readable_cons _ _).mp hread).2

theorem DerivesTerm.isCanonical {lexemes : List Lexeme} {tree : Expression}
    (h : DerivesTerm lexemes tree) (hread : Readable lexemes) : tree.IsCanonicalTerm := by
  cases h with
  | pool h => exact .pool (h.isCanonical hread)
  | number digits => exact .number (isPlain_of_readable hread digits List.mem_cons_self)

theorem DerivesSum.isCanonical {lexemes : List Lexeme} {tree : Expression}
    (h : DerivesSum lexemes tree) (hread : Readable lexemes) : tree.IsCanonicalSum := by
  induction h with
  | term h => exact .term (h.isCanonical hread)
  | plus _ hright ih =>
    rw [readable_append, readable_cons] at hread
    exact .sum (ih hread.1) (hright.isCanonical hread.2.2)
  | minus _ hright ih =>
    rw [readable_append, readable_cons] at hread
    exact .difference (ih hread.1) (hright.isCanonical hread.2.2)

theorem DerivesGrouped.isCanonical {lexemes : List Lexeme} {tree : Expression}
    (h : DerivesGrouped lexemes tree) (hread : Readable lexemes) : tree.IsCanonicalSum := by
  cases h with
  | parenthesized h =>
    rw [readable_cons, readable_append] at hread
    exact h.isCanonical hread.2.1
  | sum h => exact h.isCanonical hread

theorem DerivesTarget.isCanonical {lexemes : List Lexeme} {tree : Expression}
    (h : DerivesTarget lexemes tree) (hread : Readable lexemes) : tree.IsCanonicalTarget := by
  cases h with
  | high digits h | low digits h =>
    have hthreshold := isPlain_of_readable hread digits (by simp)
    exact .target _ (h.isCanonical ((readable_append _ _).mp hread).1) hthreshold
  | grouped h => exact .sum (h.isCanonical hread)

theorem DerivesSuccess.isCanonical {lexemes : List Lexeme} {tree : Expression}
    (h : DerivesSuccess lexemes tree) (hread : Readable lexemes) : tree.IsCanonicalSuccess := by
  cases h with
  | stepped digits stepDigits h hstep =>
    have hthreshold := isPlain_of_readable hread digits (by simp)
    have hplain := isPlain_of_readable hread stepDigits (by simp)
    have hinner := h.isCanonical ((readable_append _ _).mp hread).1
    exact .success hinner hthreshold hplain (by omega)
  | single digits h =>
    have hthreshold := isPlain_of_readable hread digits (by simp)
    have hinner := h.isCanonical ((readable_append _ _).mp hread).1
    exact .success hinner hthreshold isPlain_one (by decide)
  | target h => exact .target (h.isCanonical hread)

theorem DerivesComparison.isCanonical {lexemes : List Lexeme} {tree : Expression}
    (h : DerivesComparison lexemes tree) (hread : Readable lexemes) : tree.IsCanonical := by
  cases h with
  | related relation hleft hright =>
    rw [readable_append, readable_cons] at hread
    exact .comparison relation (hleft.isCanonical hread.1) (hright.isCanonical hread.2.2)
  | success h => exact .success (h.isCanonical hread)

end Grammar

end DiceNotation
