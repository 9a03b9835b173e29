import LatentFactor.Decimal.Shortest

set_option autoImplicit false

namespace LatentFactor

-- No fraction digits: no point is written. No exponent: none is written.
structure Numeral where
  negative : Bool
  whole : List Nat
  fraction : List Nat
  exponent : Option Int
deriving DecidableEq, Repr

namespace Numeral

def signText (negative : Bool) : List Char := if negative then ['-'] else []

def exponentText : Option Int → List Char
  | none => []
  | some (.ofNat n) => 'e' :: Digits.text (Digits.ofNat n)
  | some (.negSucc n) => 'e' :: '-' :: Digits.text (Digits.ofNat (n + 1))

def text (numeral : Numeral) : List Char :=
  signText numeral.negative ++ Digits.text numeral.whole
    ++ (if numeral.fraction.isEmpty then [] else '.' :: Digits.text numeral.fraction)
    ++ exponentText numeral.exponent

-- Beyond these powers of ten every number is infinite, or rounds to zero.
def largestPoint : Int := 310
def smallestPoint : Int := -330

def toFloat (numeral : Numeral) : Float :=
  let digits := (numeral.whole ++ numeral.fraction).dropWhile (· == 0)
  let place := numeral.exponent.getD 0 - numeral.fraction.length
  let point := place + digits.length
  if digits.isEmpty ∨ point < smallestPoint then Binary64.nearest numeral.negative ⟨0, 1⟩
  else if largestPoint < point then Binary64.nearest numeral.negative ⟨Nat.pow 2 1024, 1⟩
  else Binary64.nearest numeral.negative (Ratio.scaled (Digits.toNat digits) 10 place)

def positional (negative : Bool) (digits : List Nat) (point : Int) : Numeral :=
  let filled := digits ++ List.replicate (point - digits.length).toNat 0
  { negative
    whole := if point ≤ 0 then [0] else filled.take point.toNat
    fraction := List.replicate (-point).toNat 0 ++ filled.drop point.toNat
    exponent := none }

def scientific (negative : Bool) (digits : List Nat) (point : Int) : Numeral :=
  { negative, whole := digits.take 1, fraction := digits.drop 1, exponent := some (point - 1) }

-- Where a format changes from positional to scientific layout, by the exponent of the leading
-- digit, and whether it marks whole numbers with a zero after the point.
structure Layout where
  lowest : Option Int
  highest : Option Int
  pointZero : Bool

def Layout.admits (layout : Layout) (exponent : Int) : Bool :=
  layout.lowest.all (· ≤ exponent) && layout.highest.all (exponent ≤ ·)

def plain : Layout := ⟨none, none, false⟩

-- Shows that the number is no integer; long runs of zeros are avoided.
def detailed : Layout := ⟨some (-4), some 15, true⟩

def interchange : Layout := ⟨some (-5), some 15, true⟩

def ofBinary (layout : Layout) (negative : Bool) (mantissa : Nat) (exponent : Int) : Numeral :=
  let shortest := if mantissa = 0 then (0, 0) else Shortest.find mantissa exponent
  let written := Digits.ofNat shortest.1
  let digits := if mantissa = 0 then [0] else Digits.dropTrailingZeros written
  let point := written.length + shortest.2
  if layout.admits (point - 1) then
    let numeral := positional negative digits point
    if layout.pointZero && numeral.fraction.isEmpty then { numeral with fraction := [0] }
    else numeral
  else scientific negative digits point

def ofFloat? (layout : Layout) (x : Float) : Option Numeral :=
  match Binary64.value x with
  | .finite negative mantissa exponent => some (ofBinary layout negative mantissa exponent)
  | _ => none

def specialText (x : Float) : String :=
  match Binary64.value x with
  | .infinite true => "-inf"
  | .infinite false => "inf"
  | _ => "NaN"

def write (layout : Layout) (x : Float) : String :=
  match ofFloat? layout x with
  | some numeral => String.ofList numeral.text
  | none => specialText x

def shortText (x : Float) : String := write plain x

end Numeral
end LatentFactor
