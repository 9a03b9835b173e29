import LatentFactor.Decimal.Numeral

set_option autoImplicit false

namespace LatentFactor.Numeral

def fixedPoint (negative : Bool) (places scaled : Nat) : Numeral :=
  let digits := Digits.pad (places + 1) (Digits.ofNat scaled)
  { negative
    whole := digits.take (digits.length - places)
    fraction := digits.drop (digits.length - places)
    exponent := none }

def fixedText (places : Nat) (x : Float) : String :=
  match Binary64.value x with
  | .finite negative mantissa exponent =>
      let scaled := ((Ratio.scaled mantissa 2 exponent).shift 10 (-(places : Int))).round
      String.ofList (fixedPoint negative places scaled).text
  | _ => specialText x

-- The `places + 1` leading digits of a positive value and the exponent of the first. Rounding up
-- to the next power of ten moves the point.
def leadingDigits (places : Nat) (ratio : Ratio) : List Nat × Int :=
  let top := Shortest.decade ratio
  let rounded := (ratio.shift 10 (top - places)).round
  if rounded = Nat.pow 10 (places + 1) then (Digits.ofNat (rounded / 10), top + 1)
  else (Digits.ofNat rounded, top)

def scientificText (places : Nat) (x : Float) : String :=
  match Binary64.value x with
  | .finite negative mantissa exponent =>
      let leading :=
        if mantissa = 0 then (List.replicate (places + 1) 0, 0)
        else leadingDigits places (Ratio.scaled mantissa 2 exponent)
      String.ofList (scientific negative leading.1 (leading.2 + 1)).text
  | _ => specialText x

end LatentFactor.Numeral
