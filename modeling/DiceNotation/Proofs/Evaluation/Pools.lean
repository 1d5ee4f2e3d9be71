import DiceNotation.Evaluation
import DiceNotation.Proofs.Pool.Admission
import DiceNotation.Proofs.Pool.Faces

/-!
# The pools of a tree

As far as the source and the faults go, an evaluation rolls the pools of the tree one after the
other. What is done with their values in between can only fail at a success level without a step.
-/

namespace DiceNotation

namespace Expression

/-- The pools of the tree, from left to right. -/
def pools : Expression → List Pool
  | .number _ => []
  | .pool dice => [dice]
  | .sum left right | .difference left right | .comparison left _ right =>
    left.pools ++ right.pools
  | .target inner _ _ | .success inner _ _ => inner.pools

/-- No success level has a step of zero. -/
def HasSteps : Expression → Prop
  | .number _ | .pool _ => True
  | .sum left right | .difference left right | .comparison left _ right =>
    left.HasSteps ∧ right.HasSteps
  | .target inner _ _ => inner.HasSteps
  | .success inner _ step => inner.HasSteps ∧ step ≠ 0

end Expression

namespace Rolling

variable {σ α β γ δ ε ζ : Type}

/-- Two actions that differ in their results alone. -/
def Alike (first : Rolling σ α) (second : Rolling σ β) : Prop :=
  (fun _ => ()) <$> first = (fun _ => ()) <$> second

theorem alike_map (f : α → β) (action : Rolling σ α) : Alike (f <$> action) action := by
  simp [Alike]

theorem discard_both (f : α → β → ε) (left : Rolling σ α) (right : Rolling σ β) :
    (fun _ => ()) <$> (do return f (← left) (← right) : Rolling σ ε) =
      ((fun _ => ()) <$> left) >>= fun _ => (fun _ => ()) <$> right := by
  simp only [map_bind, map_pure, bind_map_left]
  simp only [map_eq_pure_bind]

theorem Alike.both {left : Rolling σ α} {right : Rolling σ β} {left' : Rolling σ γ}
    {right' : Rolling σ δ} (f : α → β → ε) (g : γ → δ → ζ) (hleft : Alike left left')
    (hright : Alike right right') :
    Alike (do return f (← left) (← right)) (do return g (← left') (← right')) := by
  rw [Alike, discard_both, discard_both, hleft, hright]

theorem Alike.exists_ok {first : Rolling σ α} {second : Rolling σ β} (h : Alike first second)
    {source after : σ} {value : α} (hfirst : first source = .ok value after) :
    ∃ result, second source = .ok result after := by
  have hdiscard : ((fun _ => ()) <$> first) source = .ok () after :=
    map_eq_ok.mpr ⟨value, hfirst, rfl⟩
  rw [h] at hdiscard
  obtain ⟨result, hresult, _⟩ := map_eq_ok.mp hdiscard
  exact ⟨result, hresult⟩

theorem Alike.error_iff {first : Rolling σ α} {second : Rolling σ β} (h : Alike first second)
    {source after : σ} {fault : Fault} :
    first source = .error fault after ↔ second source = .error fault after := by
  rw [← map_eq_error, h, map_eq_error]

end Rolling

theorem Value.exists_success (value : Value) {step : Int} (threshold : Int) (hstep : step ≠ 0) :
    ∃ level, value.success threshold step = .ok (value.withLevel level) := by
  unfold success successLevel
  split
  · exact ⟨_, rfl⟩
  · exact ⟨_, rfl⟩

namespace Expression

variable {σ : Type} [Source σ]

theorem evaluate_success_eq {limits : Limits} {threshold step : Int} {level : Value → Int}
    (h : ∀ value : Value, value.success threshold step = .ok (value.withLevel (level value)))
    (inner : Expression) :
    ((Expression.success inner threshold step).evaluate limits : Rolling σ Value) =
      (fun value => value.withLevel (level value)) <$> inner.evaluate limits := by
  rw [map_eq_pure_bind]
  simp only [evaluate, h]
  rfl

/-- An evaluation rolls the pools in turn. -/
theorem alike_evaluate (limits : Limits) {tree : Expression} (h : tree.HasSteps) :
    Rolling.Alike (tree.evaluate limits : Rolling σ Value)
      (tree.pools.mapM (Pool.roll limits)) := by
  induction tree with
  | number n => rfl
  | pool dice =>
    refine (Rolling.alike_map Value.plain _).trans ?_
    rw [pools, List.mapM_cons, List.mapM_nil]
    simp
  | sum left right ihleft ihright | difference left right ihleft ihright
  | comparison left relation right ihleft ihright =>
    rw [pools, List.mapM_append]
    exact (ihleft h.1).both _ _ (ihright h.2)
  | target inner side threshold ih => exact (Rolling.alike_map _ _).trans (ih h)
  | success inner threshold step ih =>
    choose level hlevel using fun value => Value.exists_success value threshold h.2
    rw [evaluate_success_eq hlevel]
    exact (Rolling.alike_map _ _).trans (ih h.1)

end Expression

end DiceNotation
