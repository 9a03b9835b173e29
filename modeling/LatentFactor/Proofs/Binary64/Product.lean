import LatentFactor.Proofs.Binary64.Exact

set_option autoImplicit false

namespace LatentFactor.Binary64

open Float.Model Float.Model.UnpackedFloat

theorem mantissa_shift (mantissa : ExtendedMantissa) (shift : ℕ) :
    (mantissa >>> shift).mantissa = mantissa.mantissa / 2 ^ shift := by
  induction shift with
  | zero => exact (Nat.div_one _).symm
  | succ shift ih =>
      rw [shift_succ, ExtendedMantissa.shiftRightOne, ih, Nat.div_div_eq_div_mul, Nat.pow_succ]

theorem rounded_mantissa_cases (mantissa : ExtendedMantissa) :
    mantissa.roundedMantissa = mantissa.mantissa ∨
      mantissa.roundedMantissa = mantissa.mantissa + 1 := by
  obtain ⟨whole, half, rest⟩ := mantissa
  have tie : whole + whole % 2 = whole ∨ whole + whole % 2 = whole + 1 := by omega
  cases half <;> cases rest
  · exact .inl rfl
  · exact .inl rfl
  · exact tie
  · exact .inr rfl

theorem log2_cut {p shift : ℕ} (bits : p.log2 = 52 + shift) : (p / 2 ^ shift).log2 = 52 := by
  have positive : p ≠ 0 := by
    rintro rfl
    rw [Nat.log2_zero] at bits
    omega
  obtain ⟨low, high⟩ := (Nat.log2_eq_iff positive).mp bits
  have power : 0 < 2 ^ shift := Nat.two_pow_pos shift
  have least : 2 ^ 52 ≤ p / 2 ^ shift :=
    (Nat.le_div_iff_mul_le power).mpr (by rwa [← Nat.pow_add])
  have same : 52 + shift + 1 = 53 + shift := by omega
  have below : p / 2 ^ shift < 2 ^ 53 :=
    (Nat.div_lt_iff_lt_mul power).mpr (by rwa [← Nat.pow_add, ← same])
  exact (Nat.log2_eq_iff (by omega)).mpr ⟨least, below⟩

-- The mantissa and the exponent that a mantissa cut off to `whole` may be rounded to.
def RoundsTo (whole : ℕ) (exponent : ℤ) (m : ℕ) (e : ℤ) : Prop :=
  (e = exponent ∧ (m = whole ∨ m = whole + 1)) ∨
    (e = exponent + 1 ∧ m = 2 ^ 52 ∧ whole + 1 = 2 ^ 53)

def settled (sign : Sign) (last : ExtendedMantissa × ℤ) : UnpackedFloat :=
  if zero : last.1.mantissa = 0 then .zero sign
  else .finite sign last.1.mantissa last.2 (Nat.pos_of_ne_zero zero)

theorem rounds_cut {p : ℕ} {e : ℤ} (sign : Sign) (shift : ℕ) (bits : p.log2 = 52 + shift)
    (low : -1074 ≤ e + shift) :
    ∃ m f, ∃ leading : m.log2 = 52, RoundsTo (p / 2 ^ shift) (e + shift) m f ∧
      roundWithAccuracy .binary64 sign p e .exact = .finite sign m f (pos_of_log2 leading) := by
  have target : Format.targetExponent .binary64 (totalExponent p e) = e + shift := by
    simp only [totalExponent, bits, Format.targetExponent, Format.mantissaBits, Format.minExponent]
    omega
  have amount : (e + shift - e).toNat = shift := by omega
  have first : shiftToTargetExponent .binary64 p e .exact =
      (ExtendedMantissa.mk p false false >>> shift, e + shift) := by
    rw [shiftToTargetExponent, target, shiftToExponent, amount]
    rfl
  obtain ⟨rounded, found⟩ :
      ∃ r, (ExtendedMantissa.mk p false false >>> shift).roundedMantissa = r := ⟨_, rfl⟩
  have near : rounded = p / 2 ^ shift ∨ rounded = p / 2 ^ shift + 1 := by
    have cases := rounded_mantissa_cases (ExtendedMantissa.mk p false false >>> shift)
    rwa [found, mantissa_shift] at cases
  have cut := log2_cut bits
  obtain ⟨least, below⟩ := (Nat.log2_eq_iff (pos_of_log2 cut).ne').mp cut
  have opened : roundWithAccuracy .binary64 sign p e .exact =
      settled sign (shiftToTargetExponent .binary64 rounded (e + shift) .exact) := by
    rw [roundWithAccuracy, first, ← found]
    rfl
  by_cases carries : rounded = 2 ^ 53
  · have leading : (2 ^ 52).log2 = 52 := by decide
    have moved := shift_to_target (e := e + shift) 1 leading (by omega)
    refine ⟨2 ^ 52, e + shift + 1, leading, .inr ⟨rfl, rfl, by omega⟩, ?_⟩
    rw [opened, carries, show 2 ^ 53 = (2 ^ 52) <<< 1 from rfl, moved]
    exact dif_neg (pos_of_log2 leading).ne'
  · have leading : rounded.log2 = 52 := (Nat.log2_eq_iff (by omega)).mpr ⟨by omega, by omega⟩
    have kept := shift_to_target (e := e + shift) 0 leading (by omega)
    refine ⟨rounded, e + shift, leading, .inl ⟨rfl, near⟩, ?_⟩
    simp only [Nat.shiftLeft_zero, Int.natCast_zero, Int.add_zero] at kept
    rw [opened, kept]
    exact dif_neg (pos_of_log2 leading).ne'

theorem normal_mul {x y : Float} {m n : ℕ} {e f : ℤ} (left : Normal x m e) (right : Normal y n f)
    (shift : ℕ) (bits : (m * n).log2 = 52 + shift) (low : -1074 ≤ e + f + shift)
    (high : e + f + shift < 971) :
    ∃ p g, RoundsTo (m * n / 2 ^ shift) (e + f + shift) p g ∧ Normal (x * y) p g := by
  obtain ⟨p, g, leading, rounds, rounded⟩ := rounds_cut .positive shift bits low
  have product : x * y = ⟨Float.Model.pack
      (UnpackedFloat.mul .binary64 x.toModel.unpack y.toModel.unpack)⟩ := rfl
  have range : e + f + shift ≤ g ∧ g ≤ e + f + shift + 1 := by
    rcases rounds with ⟨same, -⟩ | ⟨same, -⟩ <;> omega
  refine ⟨p, g, rounds, leading, ?_⟩
  rw [product, left.unpacked, right.unpacked, UnpackedFloat.mul]
  change UnpackedFloat.unpack .binary64 (UnpackedFloat.pack .binary64
    (roundWithAccuracy .binary64 .positive (m * n) (e + f) .exact)) = _
  rw [rounded]
  exact unpack_pack_normal .positive _ leading (by omega) (by omega)

theorem lt_of_normal {x y : Float} {m n : ℕ} {e f : ℤ} (left : Normal x m e) (right : Normal y n f)
    (less : e < f ∨ e = f ∧ m < n) : x < y := by
  rw [float_lt_iff, left.unpacked, right.unpacked]
  refine ⟨_, rfl, _, rfl, Prod.Lex.lt_iff.mpr (.inr ⟨rfl, Prod.Lex.lt_iff.mpr ?_⟩)⟩
  exact less.imp id fun same => ⟨same.1, Int.ofNat_lt.mpr same.2⟩

theorem zero_le_of_normal {x : Float} {m : ℕ} {e : ℤ} (normal : Normal x m e) : 0 ≤ x := by
  rw [float_le_iff, normal.unpacked]
  refine ⟨toLex (0, toLex (0, 0)), rfl, _, rfl, ?_⟩
  exact Prod.Lex.le_iff.mpr (.inl Int.one_pos)

theorem normal_tenth : Normal (1 / Float.ofNat 10) 7205759403792794 (-56) := ⟨by decide, rfl⟩

theorem normal_even_fraction {k : ℕ} (positive : 0 < k) (small : k < 2 ^ 52) :
    Normal (Float.ofNat k / Float.ofNat (2 ^ 52)) (k <<< (52 - k.log2)) (k.log2 - 104) := by
  have bits := log2_lt_of_small positive (by omega)
  have power : Normal (Float.ofNat (2 ^ 52)) (2 ^ 52) 0 := ⟨by decide, rfl⟩
  have quotient :=
    normal_div_power (normal_of_nat positive (by omega)) power (by omega) (by omega)
  have same : (k.log2 : ℤ) - 52 - 0 - 52 = k.log2 - 104 := by omega
  rwa [same] at quotient

theorem shifted_bounds {k : ℕ} (positive : 0 < k) (small : k < 2 ^ 52) :
    2 ^ 52 ≤ k <<< (52 - k.log2) ∧ k <<< (52 - k.log2) < 2 ^ 53 ∧
      (k.log2 = 51 → k <<< (52 - k.log2) ≤ 2 ^ 53 - 2) := by
  have leading := log2_of_shifted positive (by omega : k < 2 ^ 53)
  obtain ⟨low, high⟩ := (Nat.log2_eq_iff (pos_of_log2 leading).ne').mp leading
  refine ⟨low, high, fun top => ?_⟩
  rw [top, Nat.shiftLeft_eq]
  omega

theorem tenth_of_fraction {k : ℕ} (small : k < 2 ^ 52) :
    0 ≤ Float.ofNat k / Float.ofNat (2 ^ 52) * (1 / Float.ofNat 10) ∧
      Float.ofNat k / Float.ofNat (2 ^ 52) * (1 / Float.ofNat 10) < 1 / Float.ofNat 10 := by
  rcases k.eq_zero_or_pos with rfl | positive
  · decide
  have bits : k.log2 < 52 := (Nat.log2_lt positive.ne').mpr small
  obtain ⟨low, high, top⟩ := shifted_bounds positive small
  have fraction := normal_even_fraction positive small
  generalize k <<< (52 - k.log2) = m at low high top fraction
  -- The product has 105 or 106 bits; with 105 its exponent lies below that of a tenth.
  by_cases wide : 2 ^ 105 ≤ m * 7205759403792794
  · have leading : (m * 7205759403792794).log2 = 52 + 53 :=
      (Nat.log2_eq_iff (by omega)).mpr ⟨wide, by omega⟩
    obtain ⟨p, g, rounds, normal⟩ :=
      normal_mul fraction normal_tenth 53 leading (by omega) (by omega)
    refine ⟨zero_le_of_normal normal, lt_of_normal normal normal_tenth ?_⟩
    unfold RoundsTo at rounds
    omega
  · have leading : (m * 7205759403792794).log2 = 52 + 52 :=
      (Nat.log2_eq_iff (by omega)).mpr ⟨by omega, by omega⟩
    obtain ⟨p, g, rounds, normal⟩ :=
      normal_mul fraction normal_tenth 52 leading (by omega) (by omega)
    refine ⟨zero_le_of_normal normal, lt_of_normal normal normal_tenth ?_⟩
    unfold RoundsTo at rounds
    omega

end LatentFactor.Binary64
