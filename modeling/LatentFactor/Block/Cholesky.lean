import LatentFactor.Row

/-!
Cholesky factors of symmetric blocks. A block is given by the columns of its lower triangle, each
from the diagonal down; so is its factor. Removing the first column leaves the same problem for the
rest, with the products of the first column's entries taken off.
-/

set_option autoImplicit false

namespace LatentFactor.Cholesky

variable {α : Type} [Scalar α]

def lowerColumns : Block α → List (Row α)
  | [] => []
  | row :: rows =>
      (row :: rows).filterMap List.head? :: lowerColumns (rows.map List.tail)
termination_by rows => rows.length

def reduce : Row α → List (Row α) → List (Row α)
  | x :: xs, column :: columns =>
      List.zipWith (fun y c => -x * y + c) (x :: xs) column :: reduce xs columns
  | _, _ => []

theorem length_reduce_le (factor : Row α) (columns : List (Row α)) :
    (reduce factor columns).length ≤ columns.length := by
  induction columns generalizing factor with
  | nil => cases factor <;> simp [reduce]
  | cons column columns ih =>
      cases factor with
      | nil => simp [reduce]
      | cons x xs => simpa [reduce] using ih xs

-- The factor's columns, unless a pivot fails to be positive.
def factor : List (Row α) → Option (List (Row α))
  | [] => some []
  | [] :: _ => none
  | (pivot :: below) :: columns =>
      if 0 < pivot then
        let root := Scalar.sqrt pivot
        let scaled := below.map (· / root)
        (factor (reduce scaled columns)).map ((root :: scaled) :: ·)
      else none
termination_by columns => columns.length
decreasing_by exact Nat.lt_succ_of_le (length_reduce_le _ _)

def forward : List (Row α) → Row α → Row α
  | (root :: below) :: columns, b :: bs =>
      let y := b / root
      y :: forward columns (List.zipWith (fun l c => -y * l + c) below bs)
  | _, _ => []

def backward : List (Row α) → Row α → Row α
  | (root :: below) :: columns, y :: ys =>
      let xs := backward columns ys
      (y - Row.dot below xs) / root :: xs
  | _, _ => []

def solve (columns : List (Row α)) (b : Row α) : Row α := backward columns (forward columns b)

end LatentFactor.Cholesky
