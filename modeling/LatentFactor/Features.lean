import LatentFactor.Memory
import LatentFactor.RowMatrix
import LatentFactor.Random.Generator
import LatentFactor.Ratings.Resolved

set_option autoImplicit false

namespace LatentFactor

structure Features (α : Type) where
  users : RowMatrix α
  items : RowMatrix α

namespace Features

variable {α : Type}

def bySide (features : Features α) : Side → RowMatrix α
  | .user => features.users
  | .item => features.items

def replace (features : Features α) (side : Side) (m : RowMatrix α) : Features α :=
  match side with
  | .user => { features with users := m }
  | .item => { features with items := m }

@[simp]
theorem by_side_replace (features : Features α) (side : Side) (m : RowMatrix α) :
    (features.replace side m).bySide side = m := by
  cases side <;> rfl

@[simp]
theorem by_side_replace_other (features : Features α) (side : Side) (m : RowMatrix α) :
    (features.replace side m).bySide side.other = features.bySide side.other := by
  cases side <;> rfl

theorem replace_by_side (features : Features α) (side : Side) :
    features.replace side (features.bySide side) = features := by
  cases side <;> rfl

variable [Scalar α]

-- The arithmetic mean; an item without ratings gets a tenth.
def mean (observations : Observations α) : α :=
  if observations.isEmpty then Scalar.tenth
  else Scalar.sum (observations.map Prod.snd) / ((observations.length : Nat) : α)

-- Each item takes its mean and the next `noisy` words of the stream.
def itemRows (noisy : Nat) : List (Observations α) → List UInt64 → List (Row α)
  | [], _ => []
  | observations :: rest, words =>
      (mean observations :: (words.take noisy).map Scalar.noise)
        :: itemRows noisy rest (words.drop noisy)

def initial (userCount : Nat) (byItem : List (Observations α)) (rank : Nat)
    (seed : UInt64) : Except Fault (Features α) := do
  Memory.reserveMatrix byItem.length rank
  Memory.reserveMatrix userCount rank
  if rank = 0 ∧ !byItem.isEmpty then throw .missingColumn
  let noisy := rank - 1
  let words := Generator.draws (byItem.length * noisy) (Generator.ofSeed seed)
  let items ← RowMatrix.ofRows rank (itemRows noisy byItem words)
  return ⟨RowMatrix.zeros userCount rank, items⟩

end Features
end LatentFactor
