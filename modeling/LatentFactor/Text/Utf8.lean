set_option autoImplicit false

namespace LatentFactor.Utf8

def isContinuation (b : UInt8) : Bool := 0x80 ≤ b && b < 0xC0

def isPair (a b : UInt8) : Bool := 0xC2 ≤ a && a < 0xE0 && isContinuation b

def isTriple (a b c : UInt8) : Bool :=
  0xE0 ≤ a && a < 0xF0 && isContinuation b && isContinuation c
    && (a != 0xE0 || 0xA0 ≤ b) && (a != 0xED || b < 0xA0)

def isQuadruple (a b c d : UInt8) : Bool :=
  0xF0 ≤ a && a < 0xF5 && isContinuation b && isContinuation c && isContinuation d
    && (a != 0xF0 || 0x90 ≤ b) && (a != 0xF4 || b < 0x90)

def bits (b : UInt8) (count : Nat) : Nat := b.toNat % Nat.pow 2 count

def prepend (size value : Nat) : Except Nat (List Char) → Except Nat (List Char)
  | .ok rest => .ok (Char.ofNat value :: rest)
  | .error valid => .error (size + valid)

-- The characters, or the count of valid bytes before the first fault.
def decode : List UInt8 → Except Nat (List Char)
  | [] => .ok []
  | a :: rest =>
      if a < 0x80 then prepend 1 a.toNat (decode rest)
      else match rest with
      | [] => .error 0
      | b :: rest =>
          if isPair a b then prepend 2 (bits a 5 * 64 + bits b 6) (decode rest)
          else match rest with
          | [] => .error 0
          | c :: rest =>
              if isTriple a b c then
                prepend 3 ((bits a 4 * 64 + bits b 6) * 64 + bits c 6) (decode rest)
              else match rest with
              | [] => .error 0
              | d :: rest =>
                  if isQuadruple a b c d then
                    prepend 4 (((bits a 3 * 64 + bits b 6) * 64 + bits c 6) * 64 + bits d 6)
                      (decode rest)
                  else .error 0

end LatentFactor.Utf8
