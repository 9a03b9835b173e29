set_option autoImplicit false

namespace LatentFactor

class Scalar (α : Type) extends
    Add α, Sub α, Mul α, Div α, Neg α, Zero α, One α, NatCast α, LT α, LE α where
  decLT : DecidableRel (α := α) (· < ·)
  decLE : DecidableRel (α := α) (· ≤ ·)
  sqrt : α → α
  abs : α → α
  isFinite : α → Bool

instance decidableLT {α : Type} [Scalar α] (x y : α) : Decidable (x < y) := Scalar.decLT x y
instance decidableLE {α : Type} [Scalar α] (x y : α) : Decidable (x ≤ y) := Scalar.decLE x y

instance : Scalar Float where
  natCast := Float.ofNat
  decLT := fun a b => inferInstanceAs (Decidable (a < b))
  decLE := fun a b => inferInstanceAs (Decidable (a ≤ b))
  sqrt := Float.sqrt
  abs := Float.abs
  isFinite := Float.isFinite

namespace Scalar

variable {α : Type} [Scalar α]

/-- A sum starts from minus zero, which rounded addition leaves every value unchanged by: the sum
of minus zeros is minus zero. -/
def sum (values : List α) : α := values.foldl (· + ·) (-0)

def tenth : α := 1 / ((10 : Nat) : α)

end Scalar
end LatentFactor
