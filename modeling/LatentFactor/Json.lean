import LatentFactor.Decimal.Numeral

set_option autoImplicit false

namespace LatentFactor

-- Part of a string: a character, or a 16-bit code unit given by its number.
inductive Piece where
  | plain (c : Char)
  | unit (code : Nat)
deriving DecidableEq, Repr

abbrev Pieces := List Piece

namespace Piece

def ofText (text : String) : Pieces := text.toList.map plain

def isHigh (code : Nat) : Bool := 0xD800 ≤ code && code < 0xDC00
def isLow (code : Nat) : Bool := 0xDC00 ≤ code && code < 0xE000

def ofPair (high low : Nat) : Nat := 0x10000 + (high - 0xD800) * 0x400 + (low - 0xDC00)

-- Two code units of a pair make one character; a half without the other is no text.
def decode : Pieces → Option (List Char)
  | [] => some []
  | plain c :: rest => (decode rest).map (c :: ·)
  | unit code :: rest =>
      if isHigh code then
        match rest with
        | unit next :: rest =>
            if isLow next then
              (decode rest).map (Char.ofNat (ofPair code next) :: ·)
            else none
        | _ => none
      else if isLow code then none
      else (decode rest).map (Char.ofNat code :: ·)

theorem decode_of_text (text : String) : decode (ofText text) = some text.toList := by
  unfold ofText
  induction text.toList with
  | nil => rfl
  | cons c rest ih => simp [decode, ih]

end Piece

inductive Json where
  | null
  | bool (value : Bool)
  | number (numeral : Numeral)
  | string (pieces : Pieces)
  | array (items : List Json)
  | object (members : List (Pieces × Json))

namespace Json

def text (text : String) : Json := .string (Piece.ofText text)

def nat (n : Nat) : Json := .number ⟨false, Digits.ofNat n, [], none⟩

def record (members : List (String × Json)) : Json :=
  .object (members.map fun member => (Piece.ofText member.1, member.2))

def toNat? : Json → Option Nat
  | .number ⟨false, whole, [], none⟩ => some (Digits.toNat whole)
  | _ => none

def toWord? (limit : Nat) (value : Json) : Option Nat :=
  value.toNat?.filter (· < limit)

def toBool? : Json → Option Bool
  | .bool value => some value
  | _ => none

def toText? : Json → Option String
  | .string pieces => (Piece.decode pieces).map String.ofList
  | _ => none

end Json
end LatentFactor
