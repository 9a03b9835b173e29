import LatentFactor.Decimal.Reader
import LatentFactor.Json

set_option autoImplicit false

namespace LatentFactor.Json

inductive Token where
  | openArray
  | closeArray
  | openObject
  | closeObject
  | comma
  | colon
  | null
  | bool (value : Bool)
  | number (numeral : Numeral)
  | string (pieces : Pieces)
deriving DecidableEq, Repr

def isBlank (c : Char) : Bool := c = ' ' || c = '\t' || c = '\n' || c = '\r'

namespace Token

def hexDigit (n : Nat) : Char := if n < 10 then Char.ofNat (48 + n) else Char.ofNat (87 + n)

def writeUnit (code : Nat) : List Char :=
  ['\\', 'u', hexDigit (code / 4096 % 16), hexDigit (code / 256 % 16), hexDigit (code / 16 % 16),
    hexDigit (code % 16)]

def writePiece : Piece → List Char
  | .plain c =>
      if c = '\x22' ∨ c = '\\' then ['\\', c]
      else if c < ' ' then writeUnit c.toNat
      else [c]
  | .unit code => writeUnit code

def write : Token → List Char
  | openArray => ['[']
  | closeArray => [']']
  | openObject => ['\x7b']
  | closeObject => ['\x7d']
  | comma => [',']
  | colon => [':']
  | null => ['n', 'u', 'l', 'l']
  | bool true => ['t', 'r', 'u', 'e']
  | bool false => ['f', 'a', 'l', 's', 'e']
  | number numeral => numeral.text
  | string pieces => '\x22' :: pieces.flatMap writePiece ++ ['\x22']

def hex4? (a b c d : Char) : Option Nat := do
  let a ← Digits.value? 16 a
  let b ← Digits.value? 16 b
  let c ← Digits.value? 16 c
  let d ← Digits.value? 16 d
  return ((a * 16 + b) * 16 + c) * 16 + d

def escaped? : Char → Option Char
  | '\x22' => some '\x22'
  | '\\' => some '\\'
  | '/' => some '/'
  | 'b' => some '\x08'
  | 'f' => some '\x0c'
  | 'n' => some '\n'
  | 'r' => some '\r'
  | 't' => some '\t'
  | _ => none

def readString : List Char → Option (Pieces × List Char)
  | [] => none
  | '\x22' :: rest => some ([], rest)
  | '\\' :: 'u' :: a :: b :: c :: d :: rest => do
      let code ← hex4? a b c d
      let (pieces, rest) ← readString rest
      return (.unit code :: pieces, rest)
  | '\\' :: c :: rest => do
      let c ← escaped? c
      let (pieces, rest) ← readString rest
      return (.plain c :: pieces, rest)
  | c :: rest =>
      if c < ' ' ∨ c = '\\' then none
      else do
        let (pieces, rest) ← readString rest
        return (.plain c :: pieces, rest)

def readFraction : List Char → Option (List Nat × List Char)
  | '.' :: rest =>
      let digits := Digits.span rest
      if digits.1.isEmpty then none else some digits
  | text => some ([], text)

def readExponent : List Char → Option (Option Int × List Char)
  | [] => some (none, [])
  | c :: rest =>
      if c = 'e' ∨ c = 'E' then
        let signed := Numeral.splitSign rest
        let size := Digits.span signed.2
        if size.1.isEmpty then none
        else
          let value : Int := Digits.toNat size.1
          some (some (if signed.1 then -value else value), size.2)
      else some (none, c :: rest)

-- A number without its sign. The whole part has no leading zero unless it is zero.
def readNumber (negative : Bool) (text : List Char) : Option (Numeral × List Char) := do
  let whole := Digits.span text
  if whole.1.isEmpty ∨ (whole.1.head? = some 0 ∧ whole.1.length ≠ 1) then none
  else
    let (fraction, rest) ← readFraction whole.2
    let (exponent, rest) ← readExponent rest
    return (⟨negative, whole.1, fraction, exponent⟩, rest)

def next? : List Char → Option (Token × List Char)
  | '[' :: rest => some (openArray, rest)
  | ']' :: rest => some (closeArray, rest)
  | '\x7b' :: rest => some (openObject, rest)
  | '\x7d' :: rest => some (closeObject, rest)
  | ',' :: rest => some (comma, rest)
  | ':' :: rest => some (colon, rest)
  | 'n' :: 'u' :: 'l' :: 'l' :: rest => some (null, rest)
  | 't' :: 'r' :: 'u' :: 'e' :: rest => some (bool true, rest)
  | 'f' :: 'a' :: 'l' :: 's' :: 'e' :: rest => some (bool false, rest)
  | '\x22' :: rest => (readString rest).map fun found => (string found.1, found.2)
  | '-' :: rest => (readNumber true rest).map fun found => (number found.1, found.2)
  | text => (readNumber false text).map fun found => (number found.1, found.2)

theorem length_read_string {text rest : List Char} {pieces : Pieces}
    (found : readString text = some (pieces, rest)) : rest.length < text.length := by
  fun_induction readString text generalizing pieces rest with
  | case1 => simp at found
  | case2 rest' =>
      simp only [Option.some.injEq, Prod.mk.injEq] at found
      simp [← found.2]
  | case3 a b c d rest' ih =>
      simp only [bind, Option.bind_eq_some_iff] at found
      obtain ⟨code, _, inner, read, equal⟩ := found
      have shorter := ih read
      simp only [pure, Option.some.injEq, Prod.mk.injEq] at equal
      simp only [← equal.2, List.length_cons]
      omega
  | case4 c rest' _ ih =>
      simp only [bind, Option.bind_eq_some_iff] at found
      obtain ⟨code, _, inner, read, equal⟩ := found
      have shorter := ih read
      simp only [pure, Option.some.injEq, Prod.mk.injEq] at equal
      simp only [← equal.2, List.length_cons]
      omega
  | case5 => simp at found
  | case6 c rest' _ _ _ _ ih =>
      simp only [bind, Option.bind_eq_some_iff] at found
      obtain ⟨inner, read, equal⟩ := found
      have shorter := ih read
      simp only [pure, Option.some.injEq, Prod.mk.injEq] at equal
      simp only [← equal.2, List.length_cons]
      omega

theorem length_read_fraction {text rest : List Char} {digits : List Nat}
    (found : readFraction text = some (digits, rest)) : rest.length ≤ text.length := by
  unfold readFraction at found
  split at found
  · rename_i after
    have parts := Digits.length_span after
    dsimp only at found
    split at found
    · simp at found
    · simp only [Option.some.injEq] at found
      simp only [found, List.length_cons] at parts ⊢
      omega
  · simp_all

theorem length_split_sign (text : List Char) : (Numeral.splitSign text).2.length ≤ text.length := by
  unfold Numeral.splitSign
  split <;> simp

theorem length_read_exponent {text rest : List Char} {exponent : Option Int}
    (found : readExponent text = some (exponent, rest)) : rest.length ≤ text.length := by
  unfold readExponent at found
  split at found
  · simp_all
  · rename_i c after
    have signed := length_split_sign after
    have parts := Digits.length_span (Numeral.splitSign after).2
    split at found
    · dsimp only at found
      split at found
      · simp at found
      · simp only [Option.some.injEq, Prod.mk.injEq] at found
        simp only [← found.2, List.length_cons]
        omega
    · simp only [Option.some.injEq, Prod.mk.injEq] at found
      simp [← found.2]

theorem length_read_number {negative : Bool} {text rest : List Char} {numeral : Numeral}
    (found : readNumber negative text = some (numeral, rest)) : rest.length < text.length := by
  unfold readNumber at found
  have parts := Digits.length_span text
  dsimp only at found
  split at found
  · simp at found
  · rename_i wellFormed
    simp only [bind, Option.bind_eq_some_iff, Prod.exists] at found
    obtain ⟨fraction, middle, fractionRead, exponent, last, exponentRead, equal⟩ := found
    simp only [pure, Option.some.injEq, Prod.mk.injEq] at equal
    have first := length_read_fraction fractionRead
    have second := length_read_exponent exponentRead
    have some_digit : (Digits.span text).1.length ≠ 0 := by
      intro none_there
      apply wellFormed
      simp [List.eq_nil_of_length_eq_zero none_there]
    rw [← equal.2]
    omega

theorem length_next {text rest : List Char} {token : Token}
    (found : next? text = some (token, rest)) : rest.length < text.length := by
  unfold next? at found
  split at found
  case h_10 =>
    simp only [Option.map_eq_some_iff] at found
    obtain ⟨⟨pieces, after⟩, read, equal⟩ := found
    have shorter := length_read_string read
    simp only [Prod.mk.injEq] at equal
    simp only [← equal.2, List.length_cons]
    omega
  case h_11 =>
    simp only [Option.map_eq_some_iff] at found
    obtain ⟨⟨numeral, after⟩, read, equal⟩ := found
    have shorter := length_read_number read
    simp only [Prod.mk.injEq] at equal
    simp only [← equal.2, List.length_cons]
    omega
  case h_12 =>
    simp only [Option.map_eq_some_iff] at found
    obtain ⟨⟨numeral, after⟩, read, equal⟩ := found
    have shorter := length_read_number read
    simp only [Prod.mk.injEq] at equal
    simp only [← equal.2]
    exact shorter
  all_goals
    simp only [Option.some.injEq, Prod.mk.injEq] at found
    simp only [← found.2, List.length_cons]
    omega

end Token

def tokens (text : List Char) : Option (List Token) :=
  match text with
  | [] => some []
  | c :: rest =>
      if isBlank c then tokens rest
      else
        match found : Token.next? (c :: rest) with
        | none => none
        | some (token, after) =>
            have := Token.length_next found
            (tokens after).map (token :: ·)
termination_by text.length
decreasing_by
  · simp
  · exact this

end LatentFactor.Json
