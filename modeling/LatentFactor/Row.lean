import LatentFactor.Error
import LatentFactor.Scalar

set_option autoImplicit false

namespace LatentFactor

abbrev Row (α : Type) := List α

namespace Row

variable {α : Type} [Scalar α]

def zeros (length : Nat) : Row α := List.replicate length 0

def add (x y : Row α) : Row α := List.zipWith (· + ·) x y

def sub (x y : Row α) : Row α := List.zipWith (· - ·) x y

def scale (factor : α) (x : Row α) : Row α := x.map (factor * ·)

def addScaled (x : Row α) (factor : α) (y : Row α) : Row α :=
  List.zipWith (fun a b => a + factor * b) x y

def dot (x y : Row α) : α := (List.zipWith (· * ·) x y).foldl (· + ·) 0

def dot? (x y : Row α) : Except Fault α :=
  if x.length = y.length then .ok (dot x y) else .error (.lengthMismatch x.length y.length)

def combine (length : Nat) (factors : List α) (rows : List (Row α)) : Row α :=
  (factors.zip rows).foldl (fun sum entry => sum.addScaled entry.1 entry.2) (zeros length)

def isFinite (x : Row α) : Bool := x.all Scalar.isFinite

end Row

abbrev Block (α : Type) := List (Row α)

namespace Block

variable {α : Type} [Scalar α]

def gram (length : Nat) (pairs : List (Row α × Row α)) : Block α :=
  pairs.foldl (fun sum pair => List.zipWith (fun row x => row.addScaled x pair.2) sum pair.1)
    (List.replicate length (Row.zeros length))

def addDiagonal (value : α) (block : Block α) : Block α :=
  block.mapIdx fun i row => row.modify i (· + value)

def add (a b : Block α) : Block α := List.zipWith Row.add a b

end Block

end LatentFactor
