import LatentFactor.Decimal.Numeral

set_option autoImplicit false

namespace LatentFactor

inductive NumberFault where
  | emptyInteger
  | invalidDigit
  | integerTooLarge
  | emptyFloat
  | invalidFloat
deriving DecidableEq, Repr

def NumberFault.message : NumberFault → String
  | emptyInteger => "cannot parse integer from empty string"
  | invalidDigit => "invalid digit found in string"
  | integerTooLarge => "number too large to fit in target type"
  | emptyFloat => "cannot parse float from empty string"
  | invalidFloat => "invalid float literal"

abbrev NumberReader (α : Type) := List Char → Except NumberFault α

namespace Numeral

def readDigits (radix : Nat) : Nat → List Char → Except NumberFault Nat
  | value, [] => .ok value
  | value, c :: rest =>
      match Digits.value? radix c with
      | none => .error .invalidDigit
      | some digit =>
          if radix * value + digit < UInt64.size then readDigits radix (radix * value + digit) rest
          else .error .integerTooLarge

-- A plus sign and leading zeros are allowed, a minus sign is not.
def readWord (radix : Nat) : List Char → Except NumberFault Nat
  | [] => .error .emptyInteger
  | ['+'] => .error .invalidDigit
  | '+' :: rest => readDigits radix 0 rest
  | text => readDigits radix 0 text

def splitSign : List Char → Bool × List Char
  | '-' :: rest => (true, rest)
  | '+' :: rest => (false, rest)
  | text => (false, text)

def splitFraction : List Char → List Nat × List Char
  | '.' :: rest => Digits.span rest
  | text => ([], text)

def readExponent : List Char → Option (Option Int)
  | [] => some none
  | c :: rest =>
      if c = 'e' ∨ c = 'E' then
        let signed := splitSign rest
        match Digits.span signed.2 with
        | (digit :: digits, []) =>
            let size : Int := Digits.toNat (digit :: digits)
            some (some (if signed.1 then -size else size))
        | _ => none
      else none

def readUnsigned (negative : Bool) (text : List Char) : Option Numeral :=
  let whole := Digits.span text
  let fraction := splitFraction whole.2
  if whole.1.isEmpty ∧ fraction.1.isEmpty then none
  else (readExponent fraction.2).map fun exponent => ⟨negative, whole.1, fraction.1, exponent⟩

def readSpecial (negative : Bool) (text : List Char) : Option Float :=
  match String.ofList (text.map Char.toLower) with
  | "inf" | "infinity" => some (if negative then -(1 / 0) else 1 / 0)
  | "nan" => some (0 / 0)
  | _ => none

def readFloat (text : List Char) : Except NumberFault Float :=
  if text.isEmpty then .error .emptyFloat
  else
    let signed := splitSign text
    match readUnsigned signed.1 signed.2 with
    | some numeral => .ok numeral.toFloat
    | none =>
        match readSpecial signed.1 signed.2 with
        | some special => .ok special
        | none => .error .invalidFloat

end Numeral
end LatentFactor
