set_option autoImplicit false

namespace LatentFactor

structure Ratio where
  num : Nat
  den : Nat

namespace Ratio

def scaled (value base : Nat) : Int → Ratio
  | .ofNat exponent => ⟨value * base.pow exponent, 1⟩
  | .negSucc exponent => ⟨value, base.pow (exponent + 1)⟩

def shift (ratio : Ratio) (base : Nat) : Int → Ratio
  | .ofNat exponent => ⟨ratio.num, ratio.den * base.pow exponent⟩
  | .negSucc exponent => ⟨ratio.num * base.pow (exponent + 1), ratio.den⟩

def round (ratio : Ratio) : Nat :=
  let quotient := ratio.num / ratio.den
  let twice := 2 * (ratio.num % ratio.den)
  if twice < ratio.den then quotient
  else if ratio.den < twice then quotient + 1
  else quotient + quotient % 2

def log2 (ratio : Ratio) : Int :=
  let guess : Int := ratio.num.log2 - ratio.den.log2
  let shifted := ratio.shift 2 guess
  if shifted.den ≤ shifted.num then guess else guess - 1

end Ratio

namespace Binary64

inductive Value where
  | nan
  | infinite (negative : Bool)
  | finite (negative : Bool) (mantissa : Nat) (exponent : Int)
deriving DecidableEq, Repr

-- The leading bit of a mantissa, which is not stored; below it lie 52 bits that are.
def hidden : Nat := Nat.pow 2 52

def signBit : Nat := Nat.pow 2 63

def special : Nat := 2047

def value (x : Float) : Value :=
  let bits := x.toBits.toNat
  let negative := decide (signBit ≤ bits)
  let field : Nat := bits / hidden % (special + 1)
  let fraction : Nat := bits % hidden
  if field = special then if fraction = 0 then .infinite negative else .nan
  else if field = 0 then .finite negative fraction (-1074)
  else .finite negative (hidden + fraction) ((field : Int) - 1075)

-- The bits of the number nearest to a ratio, without its sign; too large a ratio is infinite.
-- A mantissa that rounds up to the next power of two carries into the exponent field.
def nearestBits (ratio : Ratio) : Nat :=
  if ratio.num = 0 then 0
  else
    let exponent := max (ratio.log2 - 52) (-1074)
    min ((exponent + 1074).toNat * hidden + (ratio.shift 2 exponent).round) (special * hidden)

def nearest (negative : Bool) (ratio : Ratio) : Float :=
  Float.ofBits (UInt64.ofNat ((if negative then signBit else 0) + nearestBits ratio))

end Binary64
end LatentFactor
