import LatentFactor.Block.Cholesky
import LatentFactor.Block.Elimination

set_option autoImplicit false

namespace LatentFactor.Block

variable {α : Type} [Scalar α]

def refine (block : Block α) (factor : List (Row α)) (b x : Row α) : Row α :=
  x.add (Cholesky.solve factor (b.sub (block.map fun row => row.dot x)))

-- The solution of a system. The factor reads the lower triangle only, a residual reads every
-- entry.
def solve (block : Block α) (b : Row α) (passes : Nat) : Except (Error α) (Row α) :=
  match Cholesky.factor (Cholesky.lowerColumns block) with
  | none => .error (.singular (.notPositiveDefinite block.length block.length))
  | some factor =>
      let x := Nat.repeat (refine block factor b) passes (Cholesky.solve factor b)
      if x.isFinite then .ok x else .error (.singular .solutionNotFinite)

def invert (block : Block α) : Except (Error α) (Block α) :=
  match Elimination.inverse? block with
  | none => .error (.singular (.zeroPivot block.length block.length))
  | some inverse =>
      if inverse.all Row.isFinite then .ok inverse else .error (.singular .inverseNotFinite)

end LatentFactor.Block
