import LatentFactor.Proofs.Json.Number

set_option autoImplicit false

namespace LatentFactor

-- A character that needs no number, or a code unit of 16 bits.
def Piece.Proper : Piece → Prop
  | plain c => ' ' ≤ c
  | unit code => code < 65536

namespace Json

namespace Token

def Proper : Token → Prop
  | number numeral => numeral.Proper
  | string pieces => ∀ piece ∈ pieces, piece.Proper
  | _ => True

section

variable {rest : List Char}

theorem hex_digit_value : ∀ n < 16, Digits.value? 16 (hexDigit n) = some n := by decide

theorem hex4_unit {code : ℕ} (small : code < 65536) :
    hex4? (hexDigit (code / 4096 % 16)) (hexDigit (code / 256 % 16)) (hexDigit (code / 16 % 16))
      (hexDigit (code % 16)) = some code := by
  have digit := fun n : ℕ => hex_digit_value (n % 16) (Nat.mod_lt n (by decide))
  simp only [hex4?, digit, Option.bind_eq_bind, Option.bind_some, Option.pure_def,
    Option.some.injEq]
  omega

theorem read_string_piece {piece : Piece} {pieces : Pieces} {after : List Char}
    (proper : piece.Proper) (others : readString rest = some (pieces, after)) :
    readString (writePiece piece ++ rest) = some (piece :: pieces, after) := by
  cases piece with
  | plain c =>
      have visible : ¬c < ' ' := not_lt.mpr proper
      by_cases quote : c = '\x22'
      · subst quote
        simp [writePiece, readString, escaped?, others]
      · by_cases slash : c = '\\'
        · subst slash
          simp [writePiece, readString, escaped?, others]
        · simp [writePiece, quote, slash, visible, readString, others]
  | unit code =>
      simp [writePiece, writeUnit, readString, hex4_unit proper, others]

theorem read_string_text {pieces : Pieces} (proper : ∀ piece ∈ pieces, piece.Proper) :
    readString (pieces.flatMap writePiece ++ '\x22' :: rest) = some (pieces, rest) := by
  induction pieces with
  | nil => rw [List.flatMap_nil, List.nil_append, readString]
  | cons piece pieces ih =>
      obtain ⟨own, others⟩ := List.forall_mem_cons.mp proper
      rw [List.flatMap_cons, List.append_assoc]
      exact read_string_piece own (ih others)

-- Only a number may run on into what follows.
def Delimited (rest : List Char) : Token → Prop
  | number _ => Ends rest
  | _ => True

theorem next_write {token : Token} (proper : token.Proper) (delimited : token.Delimited rest) :
    next? (token.write ++ rest) = some (token, rest) := by
  cases token with
  | number numeral => exact next_number proper delimited
  | string pieces =>
      have read : readString (pieces.flatMap writePiece ++ '\x22' :: rest) = some (pieces, rest) :=
        read_string_text proper
      simp [write, next?, read]
  | bool value => cases value <;> rfl
  | _ => rfl

theorem not_blank_of_next {c : Char} {found : Token × List Char}
    (read : next? (c :: rest) = some found) : isBlank c = false := by
  by_contra blank
  rw [Bool.not_eq_false] at blank
  have cases : c = ' ' ∨ c = '\t' ∨ c = '\n' ∨ c = '\r' := by
    simpa [isBlank, or_assoc] using blank
  rcases cases with rfl | rfl | rfl | rfl <;> cases read

end

end Token

theorem tokens_of_next {text after : List Char} {token : Token}
    (read : Token.next? text = some (token, after)) :
    tokens text = (tokens after).map (token :: ·) := by
  cases text with
  | nil => cases read
  | cons c rest =>
      have visible := Token.not_blank_of_next read
      rw [tokens]
      simp only [visible, Bool.false_eq_true, if_false]
      split
      · rename_i failed
        rw [failed] at read
        cases read
      · rename_i found
        rw [found] at read
        obtain ⟨rfl, rfl⟩ := Prod.mk.inj (Option.some.inj read)
        rfl

end Json
end LatentFactor
