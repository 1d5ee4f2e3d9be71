import DiceNotation.Evaluation
import DiceNotation.Proofs.Rolling.Outcomes

/-!
# Successful evaluations

An evaluation that gives a value, as a relation between the tree, the source before, the value and
the source after. It has one rule for each node, and the rules for two operands pass the source
on from the left one to the right one.
-/

namespace DiceNotation

variable {σ : Type} [Source σ]

inductive Evaluates (limits : Limits) : Expression → σ → Value → σ → Prop where
  | number (n : Int) (source : σ) :
      Evaluates limits (.number n) source (.plain { total := n, constant := n }) source
  | pool {dice : Pool} {source after : σ} {roll : Roll} :
      dice.roll limits source = .ok roll after →
      Evaluates limits (.pool dice) source (.plain roll) after
  | sum {left right : Expression} {source middle after : σ} {first second : Value} :
      Evaluates limits left source first middle → Evaluates limits right middle second after →
      Evaluates limits (.sum left right) source (first.sum second) after
  | difference {left right : Expression} {source middle after : σ} {first second : Value} :
      Evaluates limits left source first middle → Evaluates limits right middle second after →
      Evaluates limits (.difference left right) source (first.difference second) after
  | target {inner : Expression} {source after : σ} {value : Value} (side : Side)
      (threshold : Int) :
      Evaluates limits inner source value after →
      Evaluates limits (.target inner side threshold) source (value.target side threshold) after
  | success {inner : Expression} {source after : σ} {value : Value} {threshold step level : Int} :
      Evaluates limits inner source value after →
      successLevel value.roll.total threshold step = .ok level →
      Evaluates limits (.success inner threshold step) source (value.withLevel level) after
  | comparison {left right : Expression} {source middle after : σ} {first second : Value}
      (relation : Relation) :
      Evaluates limits left source first middle → Evaluates limits right middle second after →
      Evaluates limits (.comparison left relation right) source
        (first.comparison relation second) after

theorem evaluates_of_eq_ok {limits : Limits} {tree : Expression} {source after : σ} {value : Value}
    (h : tree.evaluate limits source = .ok value after) :
    Evaluates limits tree source value after := by
  induction tree generalizing source value after with
  | number n =>
    obtain ⟨rfl, rfl⟩ := Rolling.pure_eq_ok.mp h
    exact .number n source
  | pool dice =>
    obtain ⟨roll, hroll, rfl⟩ := Rolling.map_eq_ok.mp h
    exact .pool hroll
  | sum left right ihleft ihright =>
    obtain ⟨first, middle, second, hfirst, hsecond, rfl⟩ := Rolling.both_eq_ok.mp h
    exact .sum (ihleft hfirst) (ihright hsecond)
  | difference left right ihleft ihright =>
    obtain ⟨first, middle, second, hfirst, hsecond, rfl⟩ := Rolling.both_eq_ok.mp h
    exact .difference (ihleft hfirst) (ihright hsecond)
  | target inner side threshold ih =>
    obtain ⟨value, hvalue, rfl⟩ := Rolling.map_eq_ok.mp h
    exact .target side threshold (ih hvalue)
  | success inner threshold step ih =>
    obtain ⟨value, middle, hvalue, h⟩ := Rolling.bind_eq_ok.mp h
    obtain ⟨hlevel, rfl⟩ := Rolling.ofExcept_eq_ok.mp h
    rw [Value.success] at hlevel
    cases hsuccess : successLevel value.roll.total threshold step with
    | error fault =>
      rw [hsuccess] at hlevel
      cases hlevel
    | ok level =>
      rw [hsuccess] at hlevel
      cases hlevel
      exact .success (ih hvalue) hsuccess
  | comparison left relation right ihleft ihright =>
    obtain ⟨first, middle, second, hfirst, hsecond, rfl⟩ := Rolling.both_eq_ok.mp h
    exact .comparison relation (ihleft hfirst) (ihright hsecond)

theorem evaluate_of_evaluates {limits : Limits} {tree : Expression} {source after : σ}
    {value : Value} (h : Evaluates limits tree source value after) :
    tree.evaluate limits source = .ok value after := by
  induction h with
  | number n source => rfl
  | pool hroll => exact Rolling.map_eq_ok.mpr ⟨_, hroll, rfl⟩
  | target side threshold _ ih => exact Rolling.map_eq_ok.mpr ⟨_, ih, rfl⟩
  | success _ hlevel ih =>
    refine Rolling.bind_eq_ok.mpr ⟨_, _, ih, Rolling.ofExcept_eq_ok.mpr ⟨?_, rfl⟩⟩
    rw [Value.success, hlevel]
    rfl
  | sum _ _ ihleft ihright | difference _ _ ihleft ihright | comparison _ _ _ ihleft ihright =>
    exact Rolling.both_eq_ok.mpr ⟨_, _, _, ihleft, ihright, rfl⟩

theorem evaluate_eq_ok_iff {limits : Limits} {tree : Expression} {source after : σ}
    {value : Value} :
    tree.evaluate limits source = .ok value after ↔ Evaluates limits tree source value after :=
  ⟨evaluates_of_eq_ok, evaluate_of_evaluates⟩

end DiceNotation
