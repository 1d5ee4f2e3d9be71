import DiceNotation.Rolling
import Mathlib.Logic.Basic

/-!
# Outcomes of actions

When an action that is made of others has a result, and when it ends in a fault.
-/

namespace DiceNotation

/-- The fault is one of the notation or of a pool, and not of a source, a number or a count. -/
def Fault.IsDice : Fault → Prop
  | .pool _ | .incomplete _ => True
  | _ => False

theorem Fault.raised_cases (fault : Fault) :
    fault.raised = fault ∨ fault.raised = .numeral .unwritable :=
  ite_eq_or_eq _ _ _

theorem Fault.raised_eq_of_isDice {fault : Fault} (h : fault.raised.IsDice) :
    fault.raised = fault := by
  obtain hsame | hunwritable := fault.raised_cases
  · exact hsame
  · rw [hunwritable] at h
    exact h.elim

theorem Fault.isDice_of_raised {fault : Fault} (h : fault.raised.IsDice) : fault.IsDice := by
  rwa [raised_eq_of_isDice h] at h

namespace Rolling

variable {σ α β : Type}

theorem pure_eq_ok {result result' : α} {source after : σ} :
    (pure result : Rolling σ α) source = .ok result' after ↔ result = result' ∧ source = after := by
  simp [pure, EStateM.pure]

theorem bind_eq_ok {action : Rolling σ α} {next : α → Rolling σ β} {source after : σ}
    {result : β} :
    (action >>= next) source = .ok result after ↔
      ∃ first middle, action source = .ok first middle ∧ next first middle = .ok result after := by
  simp only [bind, EStateM.bind]
  cases action source <;> simp [and_assoc]

theorem bind_of_eq_ok {action : Rolling σ α} {next : α → Rolling σ β} {source middle : σ}
    {first : α} (h : action source = .ok first middle) :
    (action >>= next) source = next first middle := by
  simp only [bind, EStateM.bind, h]

theorem map_eq_ok {f : α → β} {action : Rolling σ α} {source after : σ} {result : β} :
    (f <$> action) source = .ok result after ↔
      ∃ first, action source = .ok first after ∧ f first = result := by
  simp only [Functor.map, EStateM.map]
  cases action source with
  | error fault stopped => simp
  | ok first stopped =>
    constructor
    · rintro ⟨⟩
      exact ⟨first, rfl, rfl⟩
    · rintro ⟨_, ⟨⟩, rfl⟩
      rfl

theorem bind_eq_error {action : Rolling σ α} {next : α → Rolling σ β} {source after : σ}
    {fault : Fault} :
    (action >>= next) source = .error fault after ↔
      action source = .error fault after ∨
        ∃ first middle, action source = .ok first middle ∧
          next first middle = .error fault after := by
  simp only [bind, EStateM.bind]
  cases action source <;> simp [and_assoc]

theorem map_eq_error {f : α → β} {action : Rolling σ α} {source after : σ} {fault : Fault} :
    (f <$> action) source = .error fault after ↔ action source = .error fault after := by
  simp only [Functor.map, EStateM.map]
  cases action source <;> simp

theorem both_eq_ok {γ : Type} {f : α → β → γ} {left : Rolling σ α} {right : Rolling σ β}
    {source after : σ} {result : γ} :
    (do return f (← left) (← right) : Rolling σ γ) source = .ok result after ↔
      ∃ first middle second, left source = .ok first middle ∧
        right middle = .ok second after ∧ f first second = result := by
  constructor
  · intro h
    obtain ⟨first, middle, hfirst, h⟩ := bind_eq_ok.mp h
    obtain ⟨second, last, hsecond, h⟩ := bind_eq_ok.mp h
    obtain ⟨rfl, rfl⟩ := pure_eq_ok.mp h
    exact ⟨first, middle, second, hfirst, hsecond, rfl⟩
  · rintro ⟨first, middle, second, hfirst, hsecond, rfl⟩
    exact bind_eq_ok.mpr ⟨first, middle, hfirst, bind_eq_ok.mpr ⟨second, after, hsecond, rfl⟩⟩

/-- What is done with the result of two actions may as well be done with their own results. -/
theorem map_both {γ δ ε ζ : Type} {left : Rolling σ α} {right : Rolling σ β} {f : α → β → γ}
    {g : δ → ε → ζ} {last : γ → ζ} {first : α → δ} {second : β → ε}
    (h : ∀ a b, last (f a b) = g (first a) (second b)) :
    (last <$> do return f (← left) (← right)) =
      (do return g (← first <$> left) (← second <$> right) : Rolling σ ζ) := by
  simp only [map_bind, map_pure, bind_map_left, h]

theorem fail_eq_error {cause fault : Fault} {source after : σ} :
    (fail cause : Rolling σ α) source = .error fault after ↔
      cause.raised = fault ∧ source = after := by
  have hfail : (fail cause : Rolling σ α) source = .error cause.raised source := rfl
  rw [hfail]
  simp

/-- A repetition that fails does so at its first turn, or at a later one behind a success. -/
theorem times_eq_error {action : Rolling σ α} {n : Nat} {source after : σ} {fault : Fault}
    (h : times n action source = .error fault after) :
    action source = .error fault after ∨
      (∃ result middle, action source = .ok result middle) ∧
        ∃ later, action later = .error fault after := by
  induction n generalizing source with
  | zero => cases h
  | succ n ih =>
    rw [times_succ] at h
    obtain h | ⟨result, middle, hresult, h⟩ := bind_eq_error.mp h
    · exact .inl h
    · refine .inr ⟨⟨result, middle, hresult⟩, ?_⟩
      obtain h | ⟨_, _, _, h⟩ := bind_eq_error.mp h
      · obtain h | ⟨_, h⟩ := ih h
        · exact ⟨middle, h⟩
        · exact h
      · cases h

theorem ofExcept_eq_ok {outcome : Except Fault α} {source after : σ} {result : α} :
    (MonadExcept.ofExcept outcome : Rolling σ α) source = .ok result after ↔
      outcome = .ok result ∧ source = after := by
  cases outcome with
  | error fault =>
    have hfault : (MonadExcept.ofExcept (.error fault) : Rolling σ α) source =
        .error fault source := rfl
    rw [hfault]
    simp
  | ok first =>
    have hfirst : (MonadExcept.ofExcept (.ok first) : Rolling σ α) source = .ok first source := rfl
    rw [hfirst]
    simp

end Rolling

theorem Fault.isDice_of_fail {σ α : Type} {cause fault : Fault} {source after : σ}
    (h : (Rolling.fail cause : Rolling σ α) source = .error fault after) (hdice : fault.IsDice) :
    cause.IsDice := by
  obtain ⟨rfl, -⟩ := Rolling.fail_eq_error.mp h
  exact isDice_of_raised hdice

end DiceNotation
