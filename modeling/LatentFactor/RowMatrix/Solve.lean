import LatentFactor.RowMatrix
import LatentFactor.Block.Solve

set_option autoImplicit false

namespace LatentFactor.RowMatrix

variable {α : Type} [Scalar α]

def solve (m : RowMatrix α) (b : Row α) (passes : Nat) : Except (Error α) (Row α) :=
  if m.size = m.cols ∧ m.size = b.length then Block.solve m.rows.toList b passes
  else .error (.mismatch (.system m.size m.cols b.length))

def invert (m : RowMatrix α) : Except (Failure α) (RowMatrix α) := do
  if m.size = m.cols then ofRows m.cols (← Block.invert m.rows.toList)
  else throw (.error (.mismatch (.inverse m.size m.cols)))

end LatentFactor.RowMatrix
