import DiceNotation.Fault

/-!
# Sources of faces

A source gives the faces that dice show, one at a time. A draw that succeeds gives a face of the
die and uses up some of what is left, so whatever rolls until a face stops it ends.
-/

namespace DiceNotation

class Source (σ : Type) where
  /-- A face of a die with the given number of sides, and the source after it. -/
  draw (sides : Int) (source : σ) : Except SourceFault (Int × σ)
  /-- A bound on the draws that can still succeed. -/
  left (source : σ) : Nat
  left_draw {sides : Int} {source after : σ} {face : Int} :
    draw sides source = .ok (face, after) → left after < left source
  face_draw {sides : Int} {source after : σ} {face : Int} :
    draw sides source = .ok (face, after) → 1 ≤ face ∧ face ≤ sides

end DiceNotation
