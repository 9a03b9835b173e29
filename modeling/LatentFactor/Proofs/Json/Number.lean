import LatentFactor.Json.Token
import LatentFactor.Proofs.Decimal.Numeral

set_option autoImplicit false

namespace LatentFactor

theorem Digits.eq_zero_of_head {n : ℕ} (front : (ofNat n).head? = some 0) : n = 0 := by
  induction n using Nat.strongRecOn with
  | _ n ih =>
      rw [ofNat] at front
      split at front
      · simpa using front
      · obtain ⟨digit, digits, same⟩ := List.exists_cons_of_ne_nil (of_nat_ne_nil (n / 10))
        have shorter : (ofNat (n / 10)).head? = some 0 := by
          rw [same] at front ⊢
          exact front
        have := ih (n / 10) (by omega) shorter
        omega

namespace Numeral

open Binary64

structure Proper (numeral : Numeral) : Prop where
  whole : numeral.whole ≠ []
  small : ∀ digit ∈ numeral.digits, digit < 10
  leading : numeral.whole.head? = some 0 → numeral.whole.length = 1

theorem proper_of_nat (n : ℕ) : Proper ⟨false, Digits.ofNat n, [], none⟩ where
  whole := Digits.of_nat_ne_nil n
  small := by
    intro digit member
    rw [Numeral.digits, List.append_nil] at member
    exact Digits.of_nat_lt_ten n digit member
  leading := by
    intro front
    obtain rfl := Digits.eq_zero_of_head front
    rw [Digits.ofNat]
    rfl

section Leading

variable {digits : List ℕ}

theorem leading_positional (negative : Bool) {point : ℤ} (nonempty : digits ≠ [])
    (front : digits.head? = some 0 → point = 1) :
    (positional negative digits point).whole.head? = some 0 →
      (positional negative digits point).whole.length = 1 := by
  intro zero
  by_cases before : point ≤ 0
  · simp [positional, before]
  · obtain ⟨digit, rest, rfl⟩ := List.exists_cons_of_ne_nil nonempty
    obtain ⟨count, size⟩ : ∃ count, point.toNat = count + 1 := ⟨point.toNat - 1, by omega⟩
    simp only [positional, before, if_false, size, List.cons_append, List.take_succ_cons,
      List.head?_cons] at zero ⊢
    have one := front zero
    obtain rfl : count = 0 := by omega
    simp

theorem leading_scientific (negative : Bool) (nonempty : digits ≠ []) (point : ℤ) :
    (scientific negative digits point).whole.length = 1 := by
  obtain ⟨digit, rest, rfl⟩ := List.exists_cons_of_ne_nil nonempty
  simp [scientific]

theorem leading_laid_out (layout : Layout) (negative : Bool) (point : ℤ) (nonempty : digits ≠ [])
    (front : digits.head? = some 0 → point = 1) {numeral : Numeral}
    (laid : numeral = if layout.admits (point - 1) then
        if layout.pointZero && (positional negative digits point).fraction.isEmpty then
          { positional negative digits point with fraction := [0] }
        else positional negative digits point
      else scientific negative digits point) :
    numeral.whole.head? = some 0 → numeral.whole.length = 1 := by
  subst laid
  split
  · split
    · exact leading_positional negative nonempty front
    · exact leading_positional negative nonempty front
  · exact fun _ => leading_scientific negative nonempty point

theorem head_kept {n : ℕ} (positive : 0 < n) :
    Digits.dropTrailingZeros (Digits.ofNat n) ≠ [] ∧
      (Digits.dropTrailingZeros (Digits.ofNat n)).head? ≠ some 0 := by
  obtain ⟨count, trailing⟩ := Digits.exists_append_zeros (Digits.ofNat n)
  cases kept : Digits.dropTrailingZeros (Digits.ofNat n) with
  | nil =>
      have value := Digits.to_nat_of_nat n
      rw [trailing, kept, List.nil_append, Digits.to_nat_zeros] at value
      omega
  | cons digit rest =>
      refine ⟨List.cons_ne_nil _ _, fun zero => positive.ne' (Digits.eq_zero_of_head ?_)⟩
      rw [trailing, kept]
      exact zero

theorem leading_of_binary (layout : Layout) (negative : Bool) {mantissa : ℕ} {exponent : ℤ}
    (found : 0 < mantissa → 0 < (Shortest.find mantissa exponent).1) :
    (ofBinary layout negative mantissa exponent).whole.head? = some 0 →
      (ofBinary layout negative mantissa exponent).whole.length = 1 := by
  rcases Nat.eq_zero_or_pos mantissa with rfl | positive
  · refine leading_laid_out layout negative _ (List.cons_ne_nil 0 []) (fun _ => ?_) rfl
    simp [Digits.ofNat]
  · obtain ⟨n, place, same⟩ : ∃ n place, Shortest.find mantissa exponent = (n, place) :=
      ⟨_, _, rfl⟩
    rw [same] at found
    obtain ⟨nonempty, front⟩ := head_kept (found positive)
    refine leading_laid_out layout negative ((Digits.ofNat n).length + place) nonempty
      (fun zero => absurd zero front) ?_
    rw [ofBinary]
    simp only [positive.ne', if_false, same]

end Leading

theorem proper_of_float {layout : Layout} {x : Float} {numeral : Numeral}
    (written : ofFloat? layout x = some numeral) : numeral.Proper := by
  obtain ⟨negative, number, shows, -⟩ := shows_of_float written
  refine ⟨shows.whole, shows.small, ?_⟩
  rw [ofFloat?] at written
  split at written
  · rename_i sign mantissa exponent finite
    obtain rfl := Option.some.inj written
    refine leading_of_binary layout sign fun positive => Nat.pos_of_ne_zero fun none => ?_
    have covers := Shortest.covers_find (encodes_of_value finite).canonical positive
    have above := pos_of_covers positive covers
    simp [none] at above
  · cases written

end Numeral

namespace Json.Token

-- What stands after a number must not look like more of it.
def Ends (rest : List Char) : Prop :=
  ∀ c ∈ rest.head?, Digits.value? 10 c = none ∧ c ≠ '.' ∧ c ≠ 'e' ∧ c ≠ 'E'

section

variable {rest : List Char}

theorem read_power (negative : Bool) (n : ℕ) {signed : List Char} (ends : Ends rest)
    (split : Numeral.splitSign signed = (negative, Digits.text (Digits.ofNat n) ++ rest)) :
    readExponent ('e' :: signed) = some (some (if negative then -(n : ℤ) else n), rest) := by
  have spanned := Digits.span_text (Digits.of_nat_lt_ten n) fun c first => (ends c first).1
  have value := Digits.to_nat_of_nat n
  have filled := List.isEmpty_eq_false_iff.mpr (Digits.of_nat_ne_nil n)
  simp [readExponent, split, spanned, filled, value]

theorem read_exponent_text (exponent : Option ℤ) (ends : Ends rest) :
    readExponent (Numeral.exponentText exponent ++ rest) = some (exponent, rest) := by
  match exponent with
  | none =>
      cases rest with
      | nil => rfl
      | cons c rest =>
          obtain ⟨-, -, small, large⟩ := ends c rfl
          simp [Numeral.exponentText, readExponent, small, large]
  | some (.ofNat n) =>
      exact read_power false n ends
        (Numeral.split_sign_text (Digits.of_nat_ne_nil n) (Digits.of_nat_lt_ten n) rest)
  | some (.negSucc n) => exact read_power true (n + 1) ends rfl

theorem head_exponent_text (exponent : Option ℤ) (ends : Ends rest) :
    ∀ c ∈ (Numeral.exponentText exponent ++ rest).head?,
      Digits.value? 10 c = none ∧ c ≠ '.' := by
  match exponent with
  | none => exact fun c first => ⟨(ends c first).1, (ends c first).2.1⟩
  | some (.ofNat n) =>
      rintro c ⟨⟩
      decide
  | some (.negSucc n) =>
      rintro c ⟨⟩
      decide

def fractionText (fraction : List ℕ) : List Char :=
  if fraction.isEmpty then [] else '.' :: Digits.text fraction

theorem read_fraction_text {fraction : List ℕ} (small : ∀ digit ∈ fraction, digit < 10)
    (after : ∀ c ∈ rest.head?, Digits.value? 10 c = none ∧ c ≠ '.') :
    readFraction (fractionText fraction ++ rest) = some (fraction, rest) := by
  by_cases bare : fraction = []
  · subst bare
    cases rest with
    | nil => rfl
    | cons c rest =>
        have := (after c rfl).2
        simp [fractionText, readFraction, this]
  · have spanned := Digits.span_text small fun c first => (after c first).1
    simp [fractionText, bare, readFraction, spanned]

theorem head_fraction_text (fraction : List ℕ)
    (after : ∀ c ∈ rest.head?, Digits.value? 10 c = none ∧ c ≠ '.') :
    ∀ c ∈ (fractionText fraction ++ rest).head?, Digits.value? 10 c = none := by
  unfold fractionText
  split
  · exact fun c first => (after c first).1
  · rintro c ⟨⟩
    decide

theorem read_number_text {numeral : Numeral} (proper : numeral.Proper) (ends : Ends rest) :
    readNumber numeral.negative (numeral.unsignedText ++ rest) = some (numeral, rest) := by
  have wholeSmall : ∀ digit ∈ numeral.whole, digit < 10 := fun digit member =>
    proper.small digit (List.mem_append_left _ member)
  have fractionSmall : ∀ digit ∈ numeral.fraction, digit < 10 := fun digit member =>
    proper.small digit (List.mem_append_right _ member)
  have power := head_exponent_text numeral.exponent ends
  have text : numeral.unsignedText ++ rest = Digits.text numeral.whole ++
      (fractionText numeral.fraction ++ (Numeral.exponentText numeral.exponent ++ rest)) := by
    simp [Numeral.unsignedText, fractionText]
  have spanned := Digits.span_text wholeSmall (head_fraction_text numeral.fraction power)
  have plain : ¬(numeral.whole.isEmpty = true ∨
      numeral.whole.head? = some 0 ∧ numeral.whole.length ≠ 1) := by
    rintro (none | ⟨zero, long⟩)
    · exact proper.whole (List.isEmpty_iff.mp none)
    · exact long (proper.leading zero)
  rw [text, readNumber]
  simp only [spanned, if_neg plain, read_fraction_text fractionSmall power,
    read_exponent_text numeral.exponent ends, Option.bind_eq_bind, Option.bind_some]
  rfl

theorem next_digit {digit : ℕ} (small : digit < 10) (rest : List Char) :
    next? (Char.ofNat (48 + digit) :: rest) =
      (readNumber false (Char.ofNat (48 + digit) :: rest)).map
        fun found => (number found.1, found.2) := by
  interval_cases digit <;> rfl

theorem next_number {numeral : Numeral} (proper : numeral.Proper) (ends : Ends rest) :
    next? (numeral.text ++ rest) = some (number numeral, rest) := by
  have read := read_number_text proper ends
  rw [Numeral.text_eq]
  cases sign : numeral.negative with
  | true =>
      rw [sign] at read
      change (readNumber true (numeral.unsignedText ++ rest)).map _ = _
      rw [read]
      rfl
  | false =>
      obtain ⟨digit, digits, front⟩ := List.exists_cons_of_ne_nil proper.whole
      obtain ⟨after, text⟩ : ∃ after,
          numeral.unsignedText ++ rest = Char.ofNat (48 + digit) :: after :=
        ⟨_, by rw [Numeral.unsignedText, front]; rfl⟩
      have small := proper.small digit (List.mem_append_left _ (front ▸ List.mem_cons_self))
      rw [sign, text] at read
      rw [Numeral.signText, if_neg Bool.false_ne_true, List.nil_append, text,
        next_digit small after, read]
      rfl

end

end Json.Token
end LatentFactor
