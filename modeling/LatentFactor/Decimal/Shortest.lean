import LatentFactor.Decimal.Binary64
import LatentFactor.Decimal.Digits

/-!
The shortest decimal that reads back to a given binary64 number. The reals that round to
`mantissa · 2 ^ exponent` form an interval; for one digit, two digits and so on the two decimals
next to the value are tried, and the first count of digits with a decimal in the interval wins.
Of two decimals the nearer one is taken, of two equally near ones the larger.
-/

set_option autoImplicit false

namespace LatentFactor.Shortest

def decade (ratio : Ratio) : Int :=
  if ratio.den ≤ ratio.num then (Digits.ofNat (ratio.num / ratio.den)).length - 1
  else -((Digits.ofNat ((ratio.den + ratio.num - 1) / ratio.num - 1)).length : Int)

-- The ends of the interval, in quarters of the last place of the mantissa. Below a power of two
-- numbers lie twice as dense.
def lower (mantissa : Nat) (exponent : Int) : Nat :=
  if mantissa = Binary64.hidden ∧ -1074 < exponent then 4 * mantissa - 1 else 4 * mantissa - 2

def upper (mantissa : Nat) : Nat := 4 * mantissa + 2

def pick (mantissa : Nat) (exponent place : Int) : Option Nat :=
  let step := (Ratio.scaled 1 10 place).shift 2 (exponent - 2)
  let at4 := fun quarters => quarters * step.den
  let value := at4 (4 * mantissa)
  let below := value / step.num
  let inside := fun n =>
    if mantissa % 2 = 0 then
      decide (at4 (lower mantissa exponent) ≤ n * step.num ∧
        n * step.num ≤ at4 (upper mantissa))
    else
      decide (at4 (lower mantissa exponent) < n * step.num ∧
        n * step.num < at4 (upper mantissa))
  match inside below, inside (below + 1) with
  | false, false => none
  | true, false => some below
  | false, true => some (below + 1)
  | true, true =>
      if value - below * step.num < (below + 1) * step.num - value then some below
      else some (below + 1)

-- Digits and place of the shortest decimal. Seventeen digits always suffice.
def find (mantissa : Nat) (exponent : Int) : Nat × Int :=
  let top := decade (Ratio.scaled mantissa 2 exponent)
  let tries := (List.range 17).findSome? fun (count : Nat) =>
    (pick mantissa exponent (top - count)).map fun n => (n, top - (count : Int))
  tries.getD (mantissa, 0)

end LatentFactor.Shortest
