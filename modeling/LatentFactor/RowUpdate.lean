import LatentFactor.Block.Solve
import LatentFactor.Memory
import LatentFactor.RowMatrix
import LatentFactor.Ratings.Resolved

/-!
The least-squares update of one feature row while the other side is held fixed.

With explicit feedback the row minimises the squared error over its `n` ratings plus
`λ · max n 1` times its squared length. With implicit feedback every row of the other side counts:
a rated one has confidence `1 + α · r` and preference one, any other has confidence one and
preference zero. The part of the system that all rows share is computed once.
-/

set_option autoImplicit false

namespace LatentFactor

inductive Feedback (α : Type) where
  | explicit
  | implicit (alpha : α)

def Feedback.isImplicit {α : Type} : Feedback α → Bool
  | explicit => false
  | implicit _ => true

def RowMatrix.reserveSystem {α : Type} (fixed : RowMatrix α) (count : Nat) : Except Fault Unit := do
  Memory.reserveCopies count fixed.size fixed.cols
  Memory.reserve (fixed.cols * fixed.cols)

structure RowUpdate (α : Type) where
  feedback : Feedback α
  fixed : RowMatrix α
  shared : Block α
  lambda : α
  passes : Nat

namespace RowUpdate

variable {α : Type} [Scalar α]

def sharedGram (fixed : RowMatrix α) : Feedback α → Except Fault (Block α)
  | .explicit => .ok []
  | .implicit _ => do
      Memory.reserve (fixed.cols * fixed.cols)
      return Block.gram fixed.cols (fixed.rows.toList.map fun row => (row, row))

def create (feedback : Feedback α) (fixed : RowMatrix α) (lambda : α) (passes : Nat) :
    Except Fault (RowUpdate α) := do
  return { feedback, fixed, shared := ← sharedGram fixed feedback, lambda, passes }

def ratedRows (update : RowUpdate α) (observations : Observations α) :
    Except Fault (List (Row α × α)) :=
  observations.mapM fun entry => do return (← update.fixed.row entry.1, entry.2)

def system (update : RowUpdate α) (rated : List (Row α × α)) : Block α × Row α :=
  let cols := update.fixed.cols
  let rows := rated.map Prod.fst
  match update.feedback with
  | .explicit =>
      let weight := update.lambda * ((max rated.length 1 : Nat) : α)
      (Block.addDiagonal weight (Block.gram cols (rows.map fun row => (row, row))),
        Row.combine cols (rated.map Prod.snd) rows)
  | .implicit alpha =>
      let confidences := rated.map fun entry => 1 + alpha * entry.2
      let extra := Block.gram cols
        ((confidences.zip rows).map fun entry => (entry.2.scale (entry.1 - 1), entry.2))
      (Block.addDiagonal update.lambda (update.shared.add extra),
        Row.combine cols confidences rows)

def solve (update : RowUpdate α) (observations : Observations α) :
    Except (Failure α) (Row α) := do
  let rated ← update.ratedRows observations
  update.fixed.reserveSystem rated.length
  let (block, right) := update.system rated
  Block.solve block right update.passes

end RowUpdate
end LatentFactor
