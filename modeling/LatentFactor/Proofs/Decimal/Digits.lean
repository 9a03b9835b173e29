import LatentFactor.Decimal.Reader
import Mathlib

set_option autoImplicit false

namespace LatentFactor

namespace Digits

theorem of_nat_ne_nil (n : ℕ) : ofNat n ≠ [] := by
  rw [ofNat]
  split <;> simp

theorem lt_pow_length (n : ℕ) : n < 10 ^ (ofNat n).length := by
  induction n using Nat.strongRecOn with
  | _ n ih =>
      rw [ofNat]
      split
      · simpa
      · have := ih (n / 10) (by omega)
        rw [List.length_append, List.length_singleton, pow_succ]
        omega

theorem pow_length_le {n : ℕ} (positive : 0 < n) : 10 ^ ((ofNat n).length - 1) ≤ n := by
  induction n using Nat.strongRecOn with
  | _ n ih =>
      rw [ofNat]
      split
      · simpa using Nat.succ_le_of_lt positive
      · have shorter := ih (n / 10) (by omega) (by omega)
        obtain ⟨digit, digits, front⟩ := List.exists_cons_of_ne_nil (of_nat_ne_nil (n / 10))
        rw [front, List.length_cons, Nat.add_sub_cancel] at shorter
        rw [front, List.length_append, List.length_cons, List.length_singleton,
          Nat.add_sub_cancel, pow_succ]
        omega

theorem to_nat_append (front back : List ℕ) :
    toNat (front ++ back) = toNat front * 10 ^ back.length + toNat back := by
  induction back using List.reverseRecOn with
  | nil => simp [toNat]
  | append_singleton back digit ih =>
      rw [← List.append_assoc, to_nat_append_singleton, to_nat_append_singleton, ih,
        List.length_append, List.length_singleton, pow_succ]
      ring

theorem le_fold (digits : List ℕ) (value : ℕ) :
    value ≤ digits.foldl (fun value digit => 10 * value + digit) value := by
  induction digits generalizing value with
  | nil => exact le_rfl
  | cons digit digits ih => exact le_trans (by omega) (ih (10 * value + digit))

theorem to_nat_zeros (count : ℕ) : toNat (List.replicate count 0) = 0 := by
  induction count with
  | zero => rfl
  | succ count ih => rw [List.replicate_succ', to_nat_append_singleton, ih]

theorem to_nat_drop_leading_zeros (digits : List ℕ) :
    toNat (digits.dropWhile (· == 0)) = toNat digits := by
  induction digits with
  | nil => rfl
  | cons digit rest ih =>
      by_cases zero : digit = 0
      · subst zero
        simpa [toNat] using ih
      · simp [zero]

theorem pow_le_to_nat {digits : List ℕ} (nonempty : digits ≠ []) (leading : digits.head? ≠ some 0) :
    10 ^ (digits.length - 1) ≤ toNat digits := by
  cases digits with
  | nil => exact absurd rfl nonempty
  | cons digit rest =>
      have positive : 1 ≤ digit := Nat.one_le_iff_ne_zero.mpr (by simpa using leading)
      have parts := to_nat_append [digit] rest
      have single : toNat [digit] = digit := by simp [toNat]
      rw [single] at parts
      rw [List.singleton_append] at parts
      rw [parts, List.length_cons, Nat.add_sub_cancel]
      nlinarith [Nat.pow_pos (n := rest.length) (show 0 < 10 by decide)]

theorem to_nat_lt_pow {digits : List ℕ} (small : ∀ digit ∈ digits, digit < 10) :
    toNat digits < 10 ^ digits.length := by
  induction digits using List.reverseRecOn with
  | nil => simp [toNat]
  | append_singleton digits digit ih =>
      have := ih fun digit member => small digit (List.mem_append_left _ member)
      have := small digit (by simp)
      rw [to_nat_append_singleton, List.length_append, List.length_singleton, pow_succ]
      omega

theorem exists_append_zeros (digits : List ℕ) :
    ∃ count, digits = dropTrailingZeros digits ++ List.replicate count 0 := by
  refine ⟨(digits.reverse.takeWhile (· == 0)).length, ?_⟩
  have zeros : digits.reverse.takeWhile (· == 0) =
      List.replicate (digits.reverse.takeWhile (· == 0)).length 0 :=
    List.eq_replicate_of_mem fun digit member => by
      simpa using List.mem_takeWhile_imp member
  rw [dropTrailingZeros, ← List.reverse_replicate, ← zeros, ← List.reverse_append,
    List.takeWhile_append_dropWhile, List.reverse_reverse]

theorem value_char {radix digit : ℕ} (small : digit < 10) (inside : digit < radix) :
    value? radix (Char.ofNat (48 + digit)) = some digit := by
  have each : ∀ digit < 10, '0' ≤ Char.ofNat (48 + digit) ∧ Char.ofNat (48 + digit) ≤ '9' ∧
      (Char.ofNat (48 + digit)).toNat - 48 = digit := by decide
  obtain ⟨low, high, same⟩ := each digit small
  simp [value?, low, high, same, inside]

-- The characters that numbers are written with: from the minus sign to the letter of a power.
def Numeric (c : Char) : Prop := 45 ≤ c.toNat ∧ c.toNat ≤ 101

theorem digit_of_mem_text {digits : List ℕ} {c : Char} (small : ∀ digit ∈ digits, digit < 10)
    (member : c ∈ text digits) : 48 ≤ c.toNat ∧ c.toNat ≤ 57 := by
  have each : ∀ digit < 10, 48 ≤ (Char.ofNat (48 + digit)).toNat ∧
      (Char.ofNat (48 + digit)).toNat ≤ 57 := by decide
  obtain ⟨digit, own, rfl⟩ := List.mem_map.mp member
  exact each digit (small digit own)

theorem numeric_of_mem_text {digits : List ℕ} {c : Char} (small : ∀ digit ∈ digits, digit < 10)
    (member : c ∈ text digits) : Numeric c := by
  have := digit_of_mem_text small member
  unfold Numeric
  omega

theorem span_text {digits : List ℕ} (small : ∀ digit ∈ digits, digit < 10) {rest : List Char}
    (ends : ∀ c ∈ rest.head?, value? 10 c = none) :
    span (text digits ++ rest) = (digits, rest) := by
  induction digits with
  | nil =>
      cases rest with
      | nil => rfl
      | cons c rest => simp [text, span, ends c rfl]
  | cons digit digits ih =>
      have tail := ih fun digit member => small digit (List.mem_cons_of_mem _ member)
      have first := small digit List.mem_cons_self
      change span (Char.ofNat (48 + digit) :: (text digits ++ rest)) = _
      rw [span, value_char first first, tail]

end Digits

namespace Numeral

theorem read_digits_lt {radix value n : ℕ} {text : List Char} (start : value < UInt64.size)
    (read : readDigits radix value text = .ok n) : n < UInt64.size := by
  induction text generalizing value with
  | nil =>
      obtain rfl := Except.ok.inj read
      exact start
  | cons c text ih =>
      rw [readDigits] at read
      split at read
      · cases read
      · split at read
        · exact ih (by assumption) read
        · cases read

theorem read_word_lt {radix n : ℕ} {text : List Char} (read : readWord radix text = .ok n) :
    n < UInt64.size := by
  unfold readWord at read
  split at read
  · cases read
  · cases read
  · exact read_digits_lt (by decide) read
  · exact read_digits_lt (by decide) read

theorem read_digits_text {value : ℕ} {digits : List ℕ} (small : ∀ digit ∈ digits, digit < 10)
    (fits : digits.foldl (fun value digit => 10 * value + digit) value < UInt64.size) :
    readDigits 10 value (Digits.text digits) =
      .ok (digits.foldl (fun value digit => 10 * value + digit) value) := by
  induction digits generalizing value with
  | nil => rfl
  | cons digit digits ih =>
      obtain ⟨first, rest⟩ := List.forall_mem_cons.mp small
      have next : 10 * value + digit < UInt64.size := (Digits.le_fold digits _).trans_lt fits
      change readDigits 10 value (Char.ofNat (48 + digit) :: Digits.text digits) = _
      rw [readDigits, Digits.value_char first first]
      simp only [if_pos next]
      exact ih rest fits

theorem read_word_text {n : ℕ} (fits : n < UInt64.size) :
    readWord 10 (Digits.text (Digits.ofNat n)) = .ok n := by
  have small := Digits.of_nat_lt_ten n
  have value := Digits.to_nat_of_nat n
  have digits : readDigits 10 0 (Digits.text (Digits.ofNat n)) = .ok n := by
    rw [Digits.toNat] at value
    rw [read_digits_text small (by rwa [value]), value]
  unfold readWord
  split
  · rename_i empty
    exact absurd (List.map_eq_nil_iff.mp empty) (Digits.of_nat_ne_nil n)
  · rename_i same
    exact absurd (Digits.digit_of_mem_text small (same ▸ List.mem_cons_self)) (by decide)
  · rename_i same
    exact absurd (Digits.digit_of_mem_text small (same ▸ List.mem_cons_self)) (by decide)
  · exact digits

end Numeral

end LatentFactor
