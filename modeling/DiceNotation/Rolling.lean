import DiceNotation.Source
import DiceNotation.Value

/-!
# Rolling

Actions that draw faces from a source. An action that ends in a fault leaves the source where
the fault arose.
-/

namespace DiceNotation

abbrev Rolling (σ : Type) := EStateM Fault σ

namespace Rolling

variable {σ α : Type}

def face [Source σ] (sides : Int) : Rolling σ Int := fun source =>
  match Source.draw sides source with
  | .ok (face, after) => .ok face after
  | .error fault => .error (Fault.source fault).raised source

theorem left_face [Source σ] {sides n : Int} {source after : σ}
    (h : face sides source = .ok n after) : Source.left after < Source.left source := by
  unfold face at h
  split at h
  next hdraw =>
    cases h
    exact Source.left_draw hdraw
  next => cases h

/-- Ends in the fault that the cause amounts to. -/
def fail (cause : Fault) : Rolling σ α := throw cause.raised

/-- The results of `done`, last first, and of `n` more times the action. -/
def timesFrom (action : Rolling σ α) : Nat → List α → Rolling σ (List α)
  | 0, done => pure done.reverse
  | n + 1, done => do
    let result ← action
    timesFrom action n (result :: done)

def times (n : Nat) (action : Rolling σ α) : Rolling σ (List α) := timesFrom action n []

theorem timesFrom_eq (action : Rolling σ α) (n : Nat) (done : List α) :
    timesFrom action n done = (done.reverse ++ ·) <$> times n action := by
  unfold times
  induction n generalizing done with
  | zero => simp [timesFrom]
  | succ n ih =>
    simp only [timesFrom, map_bind]
    congr
    funext result
    rw [ih (result :: done), ih [result]]
    simp

@[simp] theorem times_zero (action : Rolling σ α) : times 0 action = pure [] := rfl

theorem times_succ (action : Rolling σ α) (n : Nat) :
    times (n + 1) action =
      (do let result ← action
          let results ← times n action
          pure (result :: results)) := by
  rw [times, timesFrom]
  congr
  funext result
  rw [timesFrom_eq, map_eq_pure_bind]
  rfl

/-- A repeated action uses up at least as much of the source as it has turns. -/
theorem left_times [Source σ] {action : Rolling σ α}
    (haction : ∀ {source after result}, action source = .ok result after →
      Source.left after < Source.left source)
    {n : Nat} {source after : σ} {results : List α}
    (h : times n action source = .ok results after) :
    results.length = n ∧ Source.left after + n ≤ Source.left source := by
  induction n generalizing source results with
  | zero =>
    cases h
    simp
  | succ n ih =>
    rw [times_succ] at h
    simp only [bind, EStateM.bind] at h
    split at h
    next result next hnext =>
      split at h
      next rest last hlast =>
        cases h
        have := haction hnext
        have := ih hlast
        simp only [List.length_cons]
        omega
      next => cases h
    next => cases h

def dice [Source σ] (count : Nat) (sides : Int) (status : Status) : Rolling σ (List Die) :=
  times count (({ value := ·, status }) <$> face sides)

theorem left_dice [Source σ] {count : Nat} {sides : Int} {status : Status} {source after : σ}
    {rolled : List Die} (h : dice count sides status source = .ok rolled after) :
    rolled.length = count ∧ Source.left after + count ≤ Source.left source := by
  refine left_times (fun {source after die} hdie => ?_) h
  simp only [Functor.map, EStateM.map] at hdie
  split at hdie
  next hface =>
    cases hdie
    exact left_face hface
  next => cases hdie

end Rolling

end DiceNotation
