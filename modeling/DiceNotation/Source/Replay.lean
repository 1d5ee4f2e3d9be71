import DiceNotation.Source

/-!
# Replayed faces

A source that gives the faces of a list, in order. A face that the die does not have is not
given, and stays the next one.
-/

namespace DiceNotation

structure Replay where
  supplied : Nat
  rest : List Int
deriving DecidableEq

namespace Replay

def ofList (faces : List Int) : Replay := ⟨faces.length, faces⟩

def draw (sides : Int) : Replay → Except SourceFault (Int × Replay)
  | ⟨supplied, []⟩ => .error (.exhausted supplied)
  | ⟨supplied, face :: rest⟩ =>
    if 1 ≤ face ∧ face ≤ sides then .ok (face, ⟨supplied, rest⟩)
    else .error (.misfit face sides)

theorem draw_eq_ok_iff {sides face : Int} {source after : Replay} :
    draw sides source = .ok (face, after) ↔
      (1 ≤ face ∧ face ≤ sides) ∧ source = ⟨after.supplied, face :: after.rest⟩ := by
  fun_cases draw sides source
  case case1 => simp
  case case2 supplied first rest h =>
    cases after
    constructor
    · rintro ⟨⟩
      exact ⟨h, rfl⟩
    · rintro ⟨_, ⟨⟩⟩
      rfl
  case case3 supplied first rest h =>
    constructor
    · rintro ⟨⟩
    · rintro ⟨hface, ⟨⟩⟩
      exact absurd hface h

instance : Source Replay where
  draw := draw
  left source := source.rest.length
  left_draw h := by
    obtain ⟨_, rfl⟩ := draw_eq_ok_iff.mp h
    simp
  face_draw h := (draw_eq_ok_iff.mp h).1

end Replay

end DiceNotation
