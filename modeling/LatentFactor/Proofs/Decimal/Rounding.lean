import LatentFactor.Decimal.Shortest
import Mathlib

set_option autoImplicit false

namespace LatentFactor

namespace Ratio

def toRat (ratio : Ratio) : ℚ := ratio.num / ratio.den

theorem to_rat_scaled (value base : ℕ) (exponent : ℤ) :
    (scaled value base exponent).toRat = value * (base : ℚ) ^ exponent := by
  cases exponent with
  | ofNat n => simp [toRat, scaled]
  | negSucc n => simp [toRat, scaled, zpow_negSucc, div_eq_mul_inv]

theorem to_rat_shift (ratio : Ratio) (base : ℕ) (exponent : ℤ) :
    (ratio.shift base exponent).toRat = ratio.toRat / (base : ℚ) ^ exponent := by
  cases exponent with
  | ofNat n => simp [toRat, shift, div_div]
  | negSucc n =>
      simp only [toRat, shift, Nat.pow_eq, Nat.cast_mul, Nat.cast_pow, zpow_negSucc, div_inv_eq_mul]
      ring

theorem den_scaled_pos (value : ℕ) {base : ℕ} (exponent : ℤ) (positive : 0 < base) :
    0 < (scaled value base exponent).den := by
  cases exponent with
  | ofNat n => exact Nat.one_pos
  | negSucc n => exact Nat.pow_pos positive

theorem den_shift_pos {ratio : Ratio} {base : ℕ} (exponent : ℤ) (positive : 0 < base)
    (den : 0 < ratio.den) : 0 < (ratio.shift base exponent).den := by
  cases exponent with
  | ofNat n => exact Nat.mul_pos den (Nat.pow_pos positive)
  | negSucc n => exact den

theorem to_rat_eq_zero {ratio : Ratio} (zero : ratio.num = 0) : ratio.toRat = 0 := by
  simp [toRat, zero]

theorem le_to_rat_iff {ratio : Ratio} (den : 0 < ratio.den) (a : ℚ) :
    a ≤ ratio.toRat ↔ a * ratio.den ≤ ratio.num :=
  le_div_iff₀ (Nat.cast_pos.mpr den)

theorem to_rat_le_iff {ratio : Ratio} (den : 0 < ratio.den) (a : ℚ) :
    ratio.toRat ≤ a ↔ ratio.num ≤ a * ratio.den :=
  div_le_iff₀ (Nat.cast_pos.mpr den)

theorem log2_bounds {n : ℕ} (positive : 0 < n) :
    (2 : ℚ) ^ n.log2 ≤ n ∧ (n : ℚ) < 2 ^ (n.log2 + 1) := by
  have low := Nat.log2_self_le positive.ne'
  have high := Nat.lt_log2_self (n := n)
  exact ⟨by exact_mod_cast low, by exact_mod_cast high⟩

-- Both logarithms are off by less than one.
theorem guess_bounds {ratio : Ratio} (num : 0 < ratio.num) (den : 0 < ratio.den) {guess : ℤ}
    (guessed : ratio.num.log2 - ratio.den.log2 = guess) :
    (2 : ℚ) ^ (guess - 1) ≤ ratio.toRat ∧ ratio.toRat < 2 ^ (guess + 1) := by
  obtain ⟨numLow, numHigh⟩ := log2_bounds num
  obtain ⟨denLow, denHigh⟩ := log2_bounds den
  have denPos : (0 : ℚ) < ratio.den := Nat.cast_pos.mpr den
  constructor
  · rw [le_to_rat_iff den]
    calc (2 : ℚ) ^ (guess - 1) * ratio.den
        ≤ 2 ^ (guess - 1) * 2 ^ (ratio.den.log2 + 1) := by gcongr
      _ = 2 ^ ratio.num.log2 := by
        rw [← zpow_natCast, ← zpow_natCast, ← zpow_add₀ two_ne_zero, ← guessed]
        congr 1
        push_cast
        ring
      _ ≤ ratio.num := numLow
  · rw [toRat, div_lt_iff₀ denPos]
    calc (ratio.num : ℚ) < 2 ^ (ratio.num.log2 + 1) := numHigh
      _ = 2 ^ (guess + 1) * 2 ^ ratio.den.log2 := by
        rw [← zpow_natCast, ← zpow_natCast, ← zpow_add₀ two_ne_zero, ← guessed]
        congr 1
        push_cast
        ring
      _ ≤ 2 ^ (guess + 1) * ratio.den := by gcongr

theorem den_shift_le_iff {ratio : Ratio} (den : 0 < ratio.den) (exponent : ℤ) :
    (ratio.shift 2 exponent).den ≤ (ratio.shift 2 exponent).num ↔
      (2 : ℚ) ^ exponent ≤ ratio.toRat := by
  have shifted := le_to_rat_iff (den_shift_pos exponent two_pos den) 1
  rw [to_rat_shift, le_div_iff₀ (zpow_pos (by norm_num) _), one_mul, one_mul,
    Nat.cast_le] at shifted
  exact shifted.symm

-- So the guess is right or one too large.
theorem log2_spec {ratio : Ratio} (num : 0 < ratio.num) (den : 0 < ratio.den) :
    (2 : ℚ) ^ ratio.log2 ≤ ratio.toRat ∧ ratio.toRat < 2 ^ (ratio.log2 + 1) := by
  obtain ⟨guess, guessed⟩ : ∃ guess : ℤ, ratio.num.log2 - ratio.den.log2 = guess := ⟨_, rfl⟩
  obtain ⟨below, above⟩ := guess_bounds num den guessed
  rw [log2]
  simp only [guessed, den_shift_le_iff den]
  by_cases reached : (2 : ℚ) ^ guess ≤ ratio.toRat
  · rw [if_pos reached]
    exact ⟨reached, above⟩
  · rw [if_neg reached, sub_add_cancel]
    exact ⟨below, lt_of_not_ge reached⟩

theorem log2_lt_of_lt {ratio : Ratio} (num : 0 < ratio.num) (den : 0 < ratio.den) {exponent : ℤ}
    (under : ratio.toRat < 2 ^ exponent) : ratio.log2 < exponent :=
  (zpow_lt_zpow_iff_right₀ one_lt_two).mp ((log2_spec num den).1.trans_lt under)

theorem le_log2_of_le {ratio : Ratio} (num : 0 < ratio.num) (den : 0 < ratio.den) {exponent : ℤ}
    (reached : 2 ^ exponent ≤ ratio.toRat) : exponent ≤ ratio.log2 :=
  Int.lt_add_one_iff.mp
    ((zpow_lt_zpow_iff_right₀ one_lt_two).mp (reached.trans_lt (log2_spec num den).2))

theorem round_eq_of_halves {ratio : Ratio} {n : ℕ} (den : 0 < ratio.den)
    (low : 2 * n * ratio.den ≤ 2 * ratio.num + ratio.den)
    (high : 2 * ratio.num ≤ (2 * n + 1) * ratio.den)
    (inside : n % 2 = 1 → 2 * n * ratio.den < 2 * ratio.num + ratio.den ∧
      2 * ratio.num < (2 * n + 1) * ratio.den) : ratio.round = n := by
  have split : ratio.den * (ratio.num / ratio.den) + ratio.num % ratio.den = ratio.num :=
    Nat.div_add_mod _ _
  have remainder : ratio.num % ratio.den < ratio.den := Nat.mod_lt _ den
  rw [round]
  generalize ratio.num / ratio.den = q at split
  generalize ratio.num % ratio.den = r at split remainder
  rw [← split] at low high inside
  generalize ratio.den = d at *
  -- The quotient is the number itself or the one below it.
  have atMost : q ≤ n := by
    by_contra more
    have : d * (n + 1) ≤ d * q := Nat.mul_le_mul_left d (by omega)
    nlinarith
  have atLeast : n ≤ q + 1 := by
    by_contra less
    have : d * (q + 2) ≤ d * n := Nat.mul_le_mul_left d (by omega)
    nlinarith
  rcases Nat.eq_or_lt_of_le atMost with rfl | under
  · have half : 2 * r ≤ d := by nlinarith
    have odd : q % 2 = 1 → 2 * r < d := fun odd => by nlinarith [(inside odd).2]
    grind
  · obtain rfl : n = q + 1 := by omega
    have half : d ≤ 2 * r := by nlinarith
    have odd : (q + 1) % 2 = 1 → d < 2 * r := fun odd => by nlinarith [(inside odd).1]
    grind

theorem round_eq {ratio : Ratio} {n : ℕ} (den : 0 < ratio.den)
    (low : (n : ℚ) - 1 / 2 ≤ ratio.toRat) (high : ratio.toRat ≤ n + 1 / 2)
    (inside : n % 2 = 1 → n - 1 / 2 < ratio.toRat ∧ ratio.toRat < n + 1 / 2) :
    ratio.round = n := by
  have denPos : (0 : ℚ) < ratio.den := Nat.cast_pos.mpr den
  refine round_eq_of_halves den ?_ ?_ fun odd => ?_
  · rw [le_to_rat_iff den] at low
    have scaled : (2 * n * ratio.den : ℚ) ≤ 2 * ratio.num + ratio.den := by linarith
    exact_mod_cast scaled
  · rw [to_rat_le_iff den] at high
    have scaled : (2 * ratio.num : ℚ) ≤ (2 * n + 1) * ratio.den := by linarith
    exact_mod_cast scaled
  · obtain ⟨above, below⟩ := inside odd
    rw [toRat, lt_div_iff₀ denPos] at above
    rw [toRat, div_lt_iff₀ denPos] at below
    have first : (2 * n * ratio.den : ℚ) < 2 * ratio.num + ratio.den := by linarith
    have second : (2 * ratio.num : ℚ) < (2 * n + 1) * ratio.den := by linarith
    exact ⟨by exact_mod_cast first, by exact_mod_cast second⟩

end Ratio

namespace Binary64

open Shortest

theorem hidden_eq : hidden = 2 ^ 52 := rfl

-- Mantissa and exponent of a finite number. Only the lowest exponent goes with a small mantissa.
structure Canonical (mantissa : ℕ) (exponent : ℤ) : Prop where
  bits : mantissa < 2 * hidden
  low : -1074 ≤ exponent
  high : exponent ≤ 971
  leading : -1074 < exponent → hidden ≤ mantissa

-- The interval of a machine number, with its ends in quarters of the last place.
structure Covers (mantissa : ℕ) (exponent : ℤ) (number : ℚ) : Prop where
  low : lower mantissa exponent * (2 : ℚ) ^ (exponent - 2) ≤ number
  high : number ≤ upper mantissa * (2 : ℚ) ^ (exponent - 2)
  inside : mantissa % 2 = 1 → lower mantissa exponent * (2 : ℚ) ^ (exponent - 2) < number ∧
    number < upper mantissa * (2 : ℚ) ^ (exponent - 2)

theorem le_lower (mantissa : ℕ) (exponent : ℤ) : 4 * mantissa - 2 ≤ lower mantissa exponent := by
  rw [lower]
  split <;> omega

theorem quarters (exponent : ℤ) : (2 : ℚ) ^ exponent = 4 * 2 ^ (exponent - 2) := by
  rw [zpow_sub₀ two_ne_zero]
  norm_num
  ring

variable {mantissa : ℕ} {exponent : ℤ} {number : ℚ}

theorem lower_pos (positive : 0 < mantissa) : 0 < lower mantissa exponent := by
  have := le_lower mantissa exponent
  omega

theorem pos_of_covers (positive : 0 < mantissa) (covers : Covers mantissa exponent number) :
    0 < number := by
  have low : (0 : ℚ) < lower mantissa exponent := Nat.cast_pos.mpr (lower_pos positive)
  exact (mul_pos low (zpow_pos two_pos _)).trans_le covers.low

theorem lt_of_covers (canonical : Canonical mantissa exponent)
    (covers : Covers mantissa exponent number) : number < 2 ^ (exponent + 53) := by
  have bits := canonical.bits
  have top : upper mantissa < 2 ^ 55 := by
    rw [upper]
    rw [hidden_eq] at bits
    omega
  calc number ≤ upper mantissa * (2 : ℚ) ^ (exponent - 2) := covers.high
    _ < 2 ^ (55 : ℤ) * 2 ^ (exponent - 2) := by
      gcongr
      exact_mod_cast top
    _ = 2 ^ (exponent + 53) := by
      rw [← zpow_add₀ two_ne_zero]
      congr 1
      ring

theorem le_of_covers (canonical : Canonical mantissa exponent) (positive : 0 < mantissa)
    (covers : Covers mantissa exponent number) : 2 ^ (-1075 : ℤ) ≤ number := by
  have low := canonical.low
  have two : 2 ≤ lower mantissa exponent := by
    have := le_lower mantissa exponent
    omega
  calc (2 : ℚ) ^ (-1075 : ℤ) ≤ 2 ^ (1 + (exponent - 2)) :=
        zpow_le_zpow_right₀ one_le_two (by omega)
    _ = 2 * 2 ^ (exponent - 2) := by rw [zpow_add₀ two_ne_zero, zpow_one]
    _ ≤ lower mantissa exponent * 2 ^ (exponent - 2) := by
      gcongr
      exact_mod_cast two
    _ ≤ number := covers.low

theorem near_of_covers (positive : 0 < mantissa) (covers : Covers mantissa exponent number) :
    (mantissa : ℚ) - 1 / 2 ≤ number / 2 ^ exponent ∧ number / 2 ^ exponent ≤ mantissa + 1 / 2 ∧
      (mantissa % 2 = 1 → (mantissa : ℚ) - 1 / 2 < number / 2 ^ exponent ∧
        number / 2 ^ exponent < mantissa + 1 / 2) := by
  have power : (0 : ℚ) < 2 ^ (exponent - 2) := zpow_pos two_pos _
  have wide : (4 * mantissa : ℚ) ≤ lower mantissa exponent + 2 := by
    have := le_lower mantissa exponent
    have natural : 4 * mantissa ≤ lower mantissa exponent + 2 := by omega
    exact_mod_cast natural
  have top : (upper mantissa : ℚ) = 4 * mantissa + 2 := by simp [upper]
  rw [quarters, le_div_iff₀ (by positivity), div_le_iff₀ (by positivity)]
  refine ⟨?_, ?_, fun odd => ?_⟩
  · nlinarith [covers.low]
  · nlinarith [covers.high]
  · rw [lt_div_iff₀ (by positivity), div_lt_iff₀ (by positivity)]
    constructor
    · nlinarith [covers.inside odd]
    · nlinarith [covers.inside odd]

-- Below the leading bit's place there is only the interval of a power of two, of which a quarter
-- of a place belongs to the next exponent.
theorem eq_hidden_of_covers (canonical : Canonical mantissa exponent) (above : -1074 < exponent)
    (covers : Covers mantissa exponent number) (under : number < 2 ^ (exponent + 52)) :
    mantissa = hidden ∧ (2 * hidden : ℚ) - 1 / 2 ≤ number / 2 ^ (exponent - 1) := by
  have power : (0 : ℚ) < 2 ^ (exponent - 2) := zpow_pos two_pos _
  have leading := canonical.leading above
  have place : (2 : ℚ) ^ (exponent + 52) = 4 * hidden * 2 ^ (exponent - 2) := by
    rw [zpow_add₀ two_ne_zero, quarters, hidden_eq]
    norm_num
    ring
  have below : lower mantissa exponent < 4 * hidden := by
    have bound := covers.low.trans_lt under
    rw [place] at bound
    have cast : (lower mantissa exponent : ℚ) < 4 * hidden := lt_of_mul_lt_mul_right bound power.le
    exact_mod_cast cast
  have same : mantissa = hidden := by
    have := le_lower mantissa exponent
    omega
  refine ⟨same, ?_⟩
  have low := covers.low
  have half : (2 : ℚ) ^ (exponent - 1) = 2 * 2 ^ (exponent - 2) := by
    rw [← zpow_one_add₀ two_ne_zero]
    congr 1
    ring
  have next : (lower mantissa exponent : ℚ) = 4 * hidden - 1 := by
    rw [lower, if_pos ⟨same, above⟩, same, Nat.cast_sub (by decide)]
    push_cast
    rfl
  rw [half, le_div_iff₀ (by positivity)]
  rw [next] at low
  linarith

theorem nearest_bits_eq {ratio : Ratio} (num : ratio.num ≠ 0) {place : ℤ} {rounded : ℕ}
    (chosen : max (ratio.log2 - 52) (-1074) = place)
    (nearest : (ratio.shift 2 place).round = rounded) :
    nearestBits ratio =
      min ((place + 1074).toNat * hidden + rounded) (special * hidden) := by
  rw [nearestBits, if_neg num]
  simp only [chosen, nearest]

theorem round_of_covers {ratio : Ratio} (positive : 0 < mantissa) (den : 0 < ratio.den)
    (covers : Covers mantissa exponent ratio.toRat) :
    (ratio.shift 2 exponent).round = mantissa := by
  have shifted := Ratio.to_rat_shift ratio 2 exponent
  obtain ⟨low, high, inside⟩ := near_of_covers positive covers
  rw [Nat.cast_two] at shifted
  rw [← shifted] at low high inside
  exact Ratio.round_eq (Ratio.den_shift_pos _ two_pos den) low high inside

theorem round_below_power {ratio : Ratio} (den : 0 < ratio.den)
    (near : (2 * hidden : ℚ) - 1 / 2 ≤ ratio.toRat / 2 ^ (exponent - 1))
    (under : ratio.toRat < 2 ^ (exponent + 52)) :
    (ratio.shift 2 (exponent - 1)).round = 2 * hidden := by
  have shifted := Ratio.to_rat_shift ratio 2 (exponent - 1)
  have next : ratio.toRat / 2 ^ (exponent - 1) ≤ 2 * hidden := by
    rw [div_le_iff₀ (by positivity)]
    refine under.le.trans_eq ?_
    rw [show exponent + 52 = 53 + (exponent - 1) by ring, zpow_add₀ two_ne_zero, hidden_eq]
    norm_num
  rw [Nat.cast_two] at shifted
  rw [← shifted] at near next
  refine Ratio.round_eq (Ratio.den_shift_pos _ two_pos den) ?_ ?_ fun odd => by omega
  · exact_mod_cast near
  · push_cast
    linarith

theorem le_of_near_power (near : (2 * hidden : ℚ) - 1 / 2 ≤ number / 2 ^ (exponent - 1)) :
    (2 : ℚ) ^ (exponent + 51) ≤ number := by
  have power : (0 : ℚ) < 2 ^ (exponent - 1) := zpow_pos two_pos _
  refine le_trans ?_ ((le_div_iff₀ power).mp near)
  rw [show exponent + 51 = 52 + (exponent - 1) by ring, zpow_add₀ two_ne_zero, hidden_eq]
  exact mul_le_mul_of_nonneg_right (by norm_num) power.le

-- The mantissa keeps its exponent, or is a power of two with an interval that begins below it.
theorem nearest_bits_of_covers {ratio : Ratio} (canonical : Canonical mantissa exponent)
    (positive : 0 < mantissa) (den : 0 < ratio.den)
    (covers : Covers mantissa exponent ratio.toRat) :
    nearestBits ratio = (exponent + 1074).toNat * hidden + mantissa := by
  have low := canonical.low
  have high := canonical.high
  have bits := canonical.bits
  have zero : ratio.num ≠ 0 := fun zero =>
    (pos_of_covers positive covers).ne' (Ratio.to_rat_eq_zero zero)
  have num := Nat.pos_of_ne_zero zero
  have atMost := Ratio.log2_lt_of_lt num den (lt_of_covers canonical covers)
  by_cases carried : -1074 < exponent ∧ ratio.toRat < 2 ^ (exponent + 52)
  · obtain ⟨above, under⟩ := carried
    obtain ⟨rfl, near⟩ := eq_hidden_of_covers canonical above covers under
    have chosen : max (ratio.log2 - 52) (-1074) = exponent - 1 := by
      have := Ratio.log2_lt_of_lt num den under
      have := Ratio.le_log2_of_le num den (le_of_near_power near)
      omega
    rw [nearest_bits_eq zero chosen (round_below_power den near under)]
    rw [hidden_eq, special] at *
    omega
  · have chosen : max (ratio.log2 - 52) (-1074) = exponent := by
      by_cases lowest : exponent = -1074
      · omega
      · have := Ratio.le_log2_of_le num den
          (not_lt.mp fun under => carried ⟨by omega, under⟩)
        omega
    rw [nearest_bits_eq zero chosen (round_of_covers positive den covers)]
    rw [hidden_eq, special] at *
    omega

open Float.Model Float.Model.UnpackedFloat in
theorem exponent_field (x : Float) :
    (@unpackExponent .binary64 x.toBits.toBitVec).toNat =
      x.toBits.toNat / hidden % (special + 1) := by
  have shifted : (@unpackExponent .binary64 x.toBits.toBitVec).toNat =
      x.toBits.toNat >>> 52 % 2 ^ 11 := rfl
  rw [shifted, Nat.shiftRight_eq_div_pow]
  rfl

open Float.Model Float.Model.UnpackedFloat in
theorem value_of_isFinite {x : Float} (finite : x.isFinite = true) :
    ∃ negative mantissa exponent, value x = .finite negative mantissa exponent := by
  have field : x.toBits.toNat / hidden % (special + 1) ≠ special := by
    intro all
    have ones : @unpackExponent .binary64 x.toBits.toBitVec = -1#11 := by
      apply BitVec.eq_of_toNat_eq
      rw [exponent_field, all]
      rfl
    change (UnpackedFloat.unpack .binary64 x.toBits.toBitVec).isFinite = true at finite
    rw [UnpackedFloat.unpack] at finite
    simp only [ones, if_true] at finite
    split at finite <;> cases finite
  rw [value]
  simp only [if_neg field]
  split <;> exact ⟨_, _, _, rfl⟩

open Float.Model Float.Model.UnpackedFloat in
theorem isFinite_of_value {x : Float} {negative : Bool}
    (finite : value x = .finite negative mantissa exponent) : x.isFinite = true := by
  have ones : @unpackExponent .binary64 x.toBits.toBitVec ≠ -1#11 := by
    intro all
    have field : x.toBits.toNat / hidden % (special + 1) = special := by
      rw [← exponent_field, all]
      rfl
    rw [value] at finite
    simp only [field, if_true] at finite
    split at finite <;> cases finite
  change (UnpackedFloat.unpack .binary64 x.toBits.toBitVec).isFinite = true
  rw [UnpackedFloat.unpack]
  simp only [ones, if_false]
  split
  · split <;> rfl
  · rfl

structure Encodes (negative : Bool) (mantissa : ℕ) (exponent : ℤ) (x : Float) : Prop where
  canonical : Canonical mantissa exponent
  bits : x.toBits.toNat =
    (if negative then signBit else 0) + ((exponent + 1074).toNat * hidden + mantissa)

theorem encodes_of_value {x : Float} {negative : Bool}
    (finite : value x = .finite negative mantissa exponent) :
    Encodes negative mantissa exponent x := by
  obtain ⟨word, same⟩ : ∃ word, x.toBits.toNat = word := ⟨_, rfl⟩
  have size : word < 2 ^ 64 := same ▸ x.toBits.toNat_lt
  have sign : signBit = 2 ^ 63 := rfl
  have signed : (if decide (2 ^ 63 ≤ word) = true then 2 ^ 63 else 0) =
      2 ^ 63 * (word / 2 ^ 63) := by
    by_cases negative : 2 ^ 63 ≤ word
    · simp only [negative, decide_true, if_true]
      omega
    · simp only [negative, decide_false, Bool.false_eq_true, if_false]
      omega
  rw [value, same] at finite
  simp only [hidden_eq, sign, special] at finite
  split at finite
  · split at finite <;> cases finite
  · split at finite
    all_goals
      cases finite
      constructor
      · exact ⟨by rw [hidden_eq]; omega, by omega, by omega, by rw [hidden_eq]; omega⟩
      · rw [same, sign, hidden_eq, signed]
        omega

theorem nearest_of_encodes {x : Float} {negative : Bool} {ratio : Ratio}
    (encodes : Encodes negative mantissa exponent x)
    (nearest_bits : nearestBits ratio = (exponent + 1074).toNat * hidden + mantissa) :
    nearest negative ratio = x := by
  rw [nearest, nearest_bits, ← encodes.bits, UInt64.ofNat_toNat, Float.ofBits_toBits]

end Binary64
end LatentFactor
