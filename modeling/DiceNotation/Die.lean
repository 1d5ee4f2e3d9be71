/-!
# Dice

A die that was rolled: what it shows, how it takes part in a total, and on which side of the
total it stands.
-/

namespace DiceNotation

inductive Status where
  | kept
  | discarded
  /-- Rolled on top of the dice asked for. It counts as a kept one does. -/
  | bonus
deriving DecidableEq

structure Die where
  value : Int
  status : Status := .kept
  negative : Bool := false
deriving DecidableEq

namespace Die

def flip (die : Die) : Die := { die with negative := !die.negative }

def signed (die : Die) : Int := if die.negative then -die.value else die.value

def contribution (die : Die) : Int := if die.status = .discarded then 0 else die.signed

@[simp] theorem contribution_flip (die : Die) : die.flip.contribution = -die.contribution := by
  obtain ⟨value, status, negative⟩ := die
  cases status <;> cases negative <;> simp [flip, contribution, signed]

def total (dice : List Die) : Int := dice.foldr (fun die sum => die.contribution + sum) 0

@[simp] theorem total_nil : total [] = 0 := rfl

@[simp] theorem total_cons (die : Die) (dice : List Die) :
    total (die :: dice) = die.contribution + total dice := rfl

@[simp] theorem total_append (first second : List Die) :
    total (first ++ second) = total first + total second := by
  induction first with
  | nil => simp
  | cons die dice ih => simp [ih, Int.add_assoc]

end Die

end DiceNotation
