import LatentFactor.Proofs.Binary64.Order

set_option autoImplicit false

namespace LatentFactor.Binary64

open Float.Model Float.Model.UnpackedFloat

theorem pos_of_log2 {m : ℕ} (leading : m.log2 = 52) : 0 < m := by
  refine Nat.pos_of_ne_zero fun zero => ?_
  rw [zero] at leading
  cases leading

theorem append_leading {m : ℕ} (leading : m.log2 = 52) :
    (1#1 ++ BitVec.ofNat 52 m).toNat = m := by
  have low : 2 ^ m.log2 ≤ m := Nat.log2_self_le (pos_of_log2 leading).ne'
  have high : m < 2 ^ (m.log2 + 1) := Nat.lt_log2_self
  rw [leading] at low high
  rw [BitVec.toNat_append, ← Nat.shiftLeft_add_eq_or_of_lt (BitVec.isLt _)]
  simp only [BitVec.toNat_ofNat, Nat.shiftLeft_eq]
  omega

theorem unpack_pack_normal {m : ℕ} {e : ℤ} (sign : Sign) (positive : 0 < m)
    (leading : m.log2 = 52) (low : -1074 ≤ e) (high : e ≤ 971) :
    UnpackedFloat.unpack .binary64 (UnpackedFloat.pack .binary64 (.finite sign m e positive)) =
      .finite sign m e positive := by
  obtain ⟨field, biased⟩ : ∃ field, (e + 1023 + 52).toNat = field := ⟨_, rfl⟩
  have stored : (BitVec.ofNat 11 field).toNat = field := Nat.mod_eq_of_lt (by omega)
  have notZero : BitVec.ofNat 11 field ≠ 0#11 := by
    intro same
    have := congrArg BitVec.toNat same
    rw [stored, BitVec.toNat_zero] at this
    omega
  have notSpecial : BitVec.ofNat 11 field ≠ -1#11 := by
    intro same
    have := congrArg BitVec.toNat same
    rw [stored, show (-1#11).toNat = 2047 from rfl] at this
    omega
  have packed : UnpackedFloat.pack .binary64 (.finite sign m e positive) =
      packComponents .binary64 sign (BitVec.ofNat 11 field) (BitVec.ofNat 52 m) := by
    change (if 2 ^ 11 ≤ (e + 1023 + 52).toNat + 1 then _ else if m.log2 + 1 = 53 then
      packComponents .binary64 sign (BitVec.ofNat 11 (e + 1023 + 52).toNat) _ else _) = _
    rw [biased, if_neg (by omega), if_pos (by omega)]
  rw [packed, UnpackedFloat.unpack]
  simp only [unpackMantissa_packComponents, unpackExponent_packComponents,
    unpackSign_packComponents, Sign.ofBitVec_toBitVec, if_neg notZero, if_neg notSpecial, stored,
    append_leading leading]
  congr 1
  change (field : ℤ) - (1023 + 52) = e
  omega

theorem shift_succ (mantissa : ExtendedMantissa) (shift : ℕ) :
    mantissa >>> (shift + 1) = (mantissa >>> shift).shiftRightOne := rfl

theorem shift_exact (m shift : ℕ) :
    (ExtendedMantissa.mk (m <<< shift) false false) >>> shift = ⟨m, false, false⟩ := by
  induction shift generalizing m with
  | zero => rfl
  | succ shift ih =>
      have half := ih (m <<< 1)
      rw [← Nat.shiftLeft_add, Nat.add_comm] at half
      rw [shift_succ, half]
      simp [ExtendedMantissa.shiftRightOne, Nat.shiftLeft_eq]

theorem log2_shift_left {m : ℕ} (positive : 0 < m) (shift : ℕ) :
    (m <<< shift).log2 = m.log2 + shift := by
  induction shift with
  | zero => rfl
  | succ shift ih =>
      rw [Nat.shiftLeft_succ, Nat.log2_two_mul (Nat.shiftLeft_pos_iff.mpr positive).ne', ih]
      rfl

theorem shift_to_target {m : ℕ} {e : ℤ} (shift : ℕ) (leading : m.log2 = 52)
    (low : -1074 ≤ e + shift) :
    shiftToTargetExponent .binary64 (m <<< shift) e .exact = (⟨m, false, false⟩, e + shift) := by
  have target : Format.targetExponent .binary64 (totalExponent (m <<< shift) e) = e + shift := by
    simp only [totalExponent, log2_shift_left (pos_of_log2 leading), leading, Format.targetExponent,
      Format.mantissaBits, Format.minExponent]
    omega
  have amount : (e + shift - e).toNat = shift := by omega
  rw [shiftToTargetExponent, target, shiftToExponent, amount]
  exact Prod.ext (shift_exact m shift) rfl

theorem round_exact {m : ℕ} {e : ℤ} (sign : Sign) (shift : ℕ) (positive : 0 < m)
    (leading : m.log2 = 52) (low : -1074 ≤ e + shift) :
    roundWithAccuracy .binary64 sign (m <<< shift) e .exact =
      .finite sign m (e + shift) positive := by
  have again := shift_to_target (m := m) (e := e + shift) 0 leading (by omega)
  rw [roundWithAccuracy, shift_to_target shift leading low]
  change (match shiftToTargetExponent .binary64 (m <<< 0) (e + shift) .exact with
    | (whole, exponent) => if zero : whole.mantissa = 0 then UnpackedFloat.zero sign else
      .finite sign whole.mantissa exponent (Nat.pos_of_ne_zero zero)) = _
  rw [again]
  simp only [positive.ne', Int.natCast_zero, Int.add_zero, dite_false]

structure Normal (x : Float) (m : ℕ) (e : ℤ) : Prop where
  leading : m.log2 = 52
  unpacked : x.toModel.unpack = .finite .positive m e (pos_of_log2 leading)

theorem normal_of_round {m : ℕ} {e : ℤ} (shift : ℕ) (leading : m.log2 = 52)
    (low : -1074 ≤ e + shift) (high : e + shift ≤ 971) :
    Normal ⟨Float.Model.pack (roundWithAccuracy .binary64 .positive (m <<< shift) e .exact)⟩
      m (e + shift) where
  leading := leading
  unpacked := by
    rw [round_exact .positive shift (pos_of_log2 leading) leading low]
    exact unpack_pack_normal .positive _ leading low high

theorem normal_mul_power {x y : Float} {m : ℕ} {e f : ℤ} (normal : Normal x m e)
    (power : Normal y (2 ^ 52) f) (low : -1074 ≤ e + f + 52) (high : e + f + 52 ≤ 971) :
    Normal (x * y) m (e + f + 52) := by
  have rounded := normal_of_round (e := e + f) 52 normal.leading low high
  have product : x * y = ⟨Float.Model.pack
      (UnpackedFloat.mul .binary64 x.toModel.unpack y.toModel.unpack)⟩ := rfl
  rw [product, normal.unpacked, power.unpacked]
  rwa [Nat.shiftLeft_eq] at rounded

theorem normal_div_power {x y : Float} {m : ℕ} {e f : ℤ} (normal : Normal x m e)
    (power : Normal y (2 ^ 52) f) (low : -1074 ≤ e - f - 53) (high : e - f - 52 ≤ 971) :
    Normal (x / y) m (e - f - 52) := by
  have rounded := normal_of_round (e := e - f - 53) 1 normal.leading (by omega) (by omega)
  have quotient : x / y = ⟨Float.Model.pack
      (UnpackedFloat.div .binary64 x.toModel.unpack y.toModel.unpack)⟩ := rfl
  have target : min (e - f) (Format.targetExponent .binary64
      (totalExponent m e - totalExponent (2 ^ 52) f)) = e - f - 53 := by
    simp only [totalExponent, normal.leading, power.leading, Format.targetExponent,
      Format.mantissaBits, Format.minExponent]
    omega
  have amount : (e - f - (e - f - 53)).toNat = 53 := by omega
  have core : divCore .binary64 m e (2 ^ 52) f = (m <<< 1, e - f - 53, .exact) := by
    have whole : m <<< 53 = 2 ^ 52 * (m <<< 1) := by
      simp only [Nat.shiftLeft_eq]
      omega
    rw [divCore, target, amount, whole, Nat.mul_mod_right, Nat.mul_div_cancel_left _ (by decide)]
    rfl
  rw [quotient, normal.unpacked, power.unpacked, UnpackedFloat.div, core]
  have same : e - f - 53 + (1 : ℕ) = e - f - 52 := by omega
  rwa [same] at rounded

theorem log2_lt_of_small {k : ℕ} (positive : 0 < k) (small : k < 2 ^ 53) : k.log2 < 53 :=
  (Nat.log2_lt positive.ne').mpr small

theorem log2_of_shifted {k : ℕ} (positive : 0 < k) (small : k < 2 ^ 53) :
    (k <<< (52 - k.log2)).log2 = 52 := by
  have bits := log2_lt_of_small positive small
  rw [log2_shift_left positive]
  omega

theorem round_eq_shifted {k : ℕ} (bits : k.log2 < 53) :
    UnpackedFloat.round .binary64 .positive k 0 =
      roundWithAccuracy .binary64 .positive (k <<< (52 - k.log2)) (k.log2 - 52) .exact := by
  have target : Format.targetExponent .binary64 (totalExponent k 0) = k.log2 - 52 := by
    simp only [totalExponent, Format.targetExponent, Format.mantissaBits, Format.minExponent]
    omega
  have amount : (0 - ((k.log2 : ℤ) - 52)).toNat = 52 - k.log2 := by omega
  have exponent : (0 : ℤ) - (52 - k.log2 : ℕ) = k.log2 - 52 := by omega
  rw [UnpackedFloat.round, target, decreaseExponent, amount]
  change roundWithAccuracy .binary64 .positive _ (0 - (52 - k.log2 : ℕ)) .exact = _
  rw [exponent]

theorem normal_of_word {k : ℕ} (positive : 0 < k) (small : k < 2 ^ 53) :
    Normal k.toUInt64.toFloat (k <<< (52 - k.log2)) (k.log2 - 52) := by
  have bits := log2_lt_of_small positive small
  have word : k.toUInt64.toNat = k := UInt64.toNat_ofNat_of_lt (small.trans (by decide))
  have value : k.toUInt64.toFloat = ⟨Float.Model.pack (UnpackedFloat.ofInt .binary64 k)⟩ := by
    change (⟨Float.Model.pack (UnpackedFloat.ofInt .binary64 k.toUInt64.toNat)⟩ : Float) = _
    rw [word]
  have exact : UnpackedFloat.ofInt .binary64 k =
      roundWithAccuracy .binary64 .positive (k <<< (52 - k.log2)) (k.log2 - 52) .exact := by
    rw [UnpackedFloat.ofInt, UnpackedFloat.normalize, Int.compare_eq_gt.mpr (by omega),
      ← round_eq_shifted bits]
    rfl
  have rounded := normal_of_round (e := k.log2 - 52) 0 (log2_of_shifted positive small)
    (by omega) (by omega)
  rw [value, exact]
  simpa using rounded

theorem normal_of_nat {k : ℕ} (positive : 0 < k) (small : k < 2 ^ 53) :
    Normal (Float.ofNat k) (k <<< (52 - k.log2)) (k.log2 - 52) := by
  have bits := log2_lt_of_small positive small
  have scaled : Float.ofNat k = k.toUInt64.toFloat * Float.ofBits 4607182418800017408 := by
    change Float.ofScientific k false 0 = _
    rw [Float.ofScientific, dif_pos ⟨small, by decide⟩]
    rfl
  have one : Normal (Float.ofBits 4607182418800017408) (2 ^ 52) (-52) := ⟨by decide, rfl⟩
  have product := normal_mul_power (normal_of_word positive small) one (by omega) (by omega)
  have same : (k.log2 : ℤ) - 52 + -52 + 52 = k.log2 - 52 := by omega
  rwa [scaled, ← same]

theorem normal_fraction {k : ℕ} (positive : 0 < k) (small : k < 2 ^ 53) :
    Normal (Float.ofNat k / Float.ofNat (2 ^ 53)) (k <<< (52 - k.log2)) (k.log2 - 105) := by
  have bits := log2_lt_of_small positive small
  have power : Normal (Float.ofNat (2 ^ 53)) (2 ^ 52) 1 := ⟨by decide, rfl⟩
  have quotient := normal_div_power (normal_of_nat positive small) power (by omega) (by omega)
  have same : (k.log2 : ℤ) - 52 - 1 - 52 = k.log2 - 105 := by omega
  rwa [same] at quotient

theorem fraction_nonneg {k : ℕ} (small : k < 2 ^ 53) :
    0 ≤ Float.ofNat k / Float.ofNat (2 ^ 53) := by
  rcases k.eq_zero_or_pos with rfl | positive
  · decide
  rw [float_le_iff, (normal_fraction positive small).unpacked]
  refine ⟨toLex (0, toLex (0, 0)), rfl, _, rfl, ?_⟩
  exact Prod.Lex.le_iff.mpr (.inl Int.one_pos)

theorem fraction_lt_one {k : ℕ} (small : k < 2 ^ 53) :
    Float.ofNat k / Float.ofNat (2 ^ 53) < 1 := by
  rcases k.eq_zero_or_pos with rfl | positive
  · decide
  have bits := log2_lt_of_small positive small
  rw [float_lt_iff, (normal_fraction positive small).unpacked]
  refine ⟨_, rfl, toLex (1, toLex (-52, 2 ^ 52)), rfl, ?_⟩
  refine Prod.Lex.lt_iff.mpr (.inr ⟨rfl, Prod.Lex.lt_iff.mpr (.inl ?_)⟩)
  change (k.log2 : ℤ) - 105 < -52
  omega

end LatentFactor.Binary64
