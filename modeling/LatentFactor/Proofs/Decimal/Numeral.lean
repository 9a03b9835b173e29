import LatentFactor.Proofs.Decimal.Shortest

set_option autoImplicit false

namespace LatentFactor.Numeral

open Binary64

def digits (numeral : Numeral) : List ℕ := numeral.whole ++ numeral.fraction

def place (numeral : Numeral) : ℤ := numeral.exponent.getD 0 - numeral.fraction.length

def magnitude (numeral : Numeral) : ℚ := Digits.toNat numeral.digits * 10 ^ numeral.place

section Value

variable {mantissa : ℕ} {exponent : ℤ} {x : Float} {numeral : Numeral}

theorem not_below_smallest {digits : List ℕ} {place : ℤ} (canonical : Canonical mantissa exponent)
    (positive : 0 < mantissa) (small : ∀ digit ∈ digits, digit < 10)
    (covers : Covers mantissa exponent (Digits.toNat digits * 10 ^ place)) :
    ¬place + digits.length < smallestPoint := by
  intro under
  rw [smallestPoint] at under
  have most : (Digits.toNat digits : ℚ) < 10 ^ digits.length := by
    exact_mod_cast Digits.to_nat_lt_pow small
  have bound : (2 : ℚ) ^ (-1075 : ℤ) < 10 ^ (-331 : ℤ) :=
    calc (2 : ℚ) ^ (-1075 : ℤ) ≤ Digits.toNat digits * 10 ^ place :=
          le_of_covers canonical positive covers
      _ < 10 ^ digits.length * 10 ^ place := mul_lt_mul_of_pos_right most (by positivity)
      _ = 10 ^ (digits.length + place) := by rw [zpow_add₀ (by norm_num), zpow_natCast]
      _ ≤ 10 ^ (-331 : ℤ) := zpow_le_zpow_right₀ (by norm_num) (by omega)
  rw [zpow_neg, zpow_neg, inv_lt_inv₀ (by positivity) (by positivity)] at bound
  have natural : (10 : ℕ) ^ 331 < 2 ^ 1075 := by exact_mod_cast bound
  have powers : (2 : ℕ) ^ 1075 ≤ 10 ^ 331 := by decide +kernel
  exact powers.not_gt natural

theorem not_above_largest {digits : List ℕ} {place : ℤ} (canonical : Canonical mantissa exponent)
    (leading : digits.head? ≠ some 0) (nonempty : digits ≠ [])
    (covers : Covers mantissa exponent (Digits.toNat digits * 10 ^ place)) :
    ¬largestPoint < place + digits.length := by
  intro past
  rw [largestPoint] at past
  have high := canonical.high
  have size := List.length_pos_of_ne_nil nonempty
  have least : (10 : ℚ) ^ (digits.length - 1) ≤ Digits.toNat digits := by
    exact_mod_cast Digits.pow_le_to_nat nonempty leading
  have bound : (10 : ℚ) ^ (310 : ℤ) < 2 ^ (1024 : ℤ) :=
    calc (10 : ℚ) ^ (310 : ℤ) ≤ 10 ^ (((digits.length - 1 : ℕ) : ℤ) + place) :=
          zpow_le_zpow_right₀ (by norm_num) (by omega)
      _ = 10 ^ (digits.length - 1) * 10 ^ place := by
        rw [zpow_add₀ (by norm_num), zpow_natCast]
      _ ≤ Digits.toNat digits * 10 ^ place := mul_le_mul_of_nonneg_right least (by positivity)
      _ < 2 ^ (exponent + 53) := lt_of_covers canonical covers
      _ ≤ 2 ^ (1024 : ℤ) := zpow_le_zpow_right₀ one_le_two (by omega)
  have natural : (10 : ℕ) ^ 310 < 2 ^ 1024 := by exact_mod_cast bound
  have powers : (2 : ℕ) ^ 1024 ≤ 10 ^ 310 := by decide +kernel
  exact powers.not_gt natural

theorem to_float_eq {significant : List ℕ}
    (kept : numeral.digits.dropWhile (· == 0) = significant) : numeral.toFloat =
      if significant.isEmpty ∨ numeral.place + significant.length < smallestPoint then
        nearest numeral.negative ⟨0, 1⟩
      else if largestPoint < numeral.place + significant.length then
        nearest numeral.negative ⟨Nat.pow 2 1024, 1⟩
      else nearest numeral.negative
        (Ratio.scaled (Digits.toNat significant) 10 numeral.place) := by
  rw [← kept]
  rfl

theorem head_significant (digits : List ℕ) : (digits.dropWhile (· == 0)).head? ≠ some 0 := by
  intro zero
  have kept := List.head?_dropWhile_not (· == 0) digits
  rw [zero] at kept
  cases kept

theorem to_float_of_covers (encodes : Encodes numeral.negative mantissa exponent x)
    (positive : 0 < mantissa) (small : ∀ digit ∈ numeral.digits, digit < 10)
    (covers : Covers mantissa exponent numeral.magnitude) : numeral.toFloat = x := by
  obtain ⟨significant, kept⟩ : ∃ digits, numeral.digits.dropWhile (· == 0) = digits := ⟨_, rfl⟩
  have leading : significant.head? ≠ some 0 := kept ▸ head_significant numeral.digits
  have smallToo : ∀ digit ∈ significant, digit < 10 := fun digit member =>
    small digit (List.dropWhile_subset _ (kept ▸ member))
  have value : numeral.magnitude = Digits.toNat significant * 10 ^ numeral.place := by
    rw [magnitude, ← kept, Digits.to_nat_drop_leading_zeros]
  have nonempty : significant ≠ [] := by
    rintro rfl
    have zero : numeral.magnitude = 0 := by
      rw [value]
      simp [Digits.toNat]
    exact (pos_of_covers positive covers).ne' zero
  rw [value] at covers
  have rounded := nearest_bits_of_covers encodes.canonical positive
    (Ratio.den_scaled_pos (Digits.toNat significant) numeral.place (by decide : 0 < 10))
    (by rwa [Ratio.to_rat_scaled, Nat.cast_ofNat])
  have above := not_below_smallest encodes.canonical positive smallToo covers
  have under := not_above_largest encodes.canonical leading nonempty covers
  have filled : significant.isEmpty = false := List.isEmpty_eq_false_iff.mpr nonempty
  rw [to_float_eq kept, if_neg (by simp [filled, above]), if_neg under]
  exact nearest_of_encodes encodes rounded

theorem to_float_of_zero (encodes : Encodes numeral.negative 0 exponent x)
    (zero : numeral.magnitude = 0) : numeral.toFloat = x := by
  have none : numeral.digits.dropWhile (· == 0) = [] := by
    by_contra nonempty
    have least := Digits.pow_le_to_nat nonempty (head_significant numeral.digits)
    rw [Digits.to_nat_drop_leading_zeros] at least
    have positive : 0 < Digits.toNat numeral.digits := lt_of_lt_of_le (by positivity) least
    have above : 0 < numeral.magnitude :=
      mul_pos (Nat.cast_pos.mpr positive) (by positivity)
    exact above.ne' zero
  have lowest : exponent = -1074 := by
    have low := encodes.canonical.low
    have leading := encodes.canonical.leading
    rw [hidden_eq] at leading
    omega
  rw [to_float_eq none, if_pos (.inl rfl)]
  exact nearest_of_encodes encodes (by rw [lowest]; rfl)

end Value

-- How a numeral shows a number: with which sign, and with digits that can be read again.
structure Shows (numeral : Numeral) (negative : Bool) (number : ℚ) : Prop where
  sign : numeral.negative = negative
  magnitude : numeral.magnitude = number
  whole : numeral.whole ≠ []
  small : ∀ digit ∈ numeral.digits, digit < 10

section Layout

variable {digits : List ℕ} {numeral : Numeral}

theorem shows_of_digits (before behind : ℕ) (whole : numeral.whole ≠ [])
    (small : ∀ digit ∈ digits, digit < 10) (laid : numeral.digits =
      List.replicate before 0 ++ digits ++ List.replicate behind 0) :
    Shows numeral numeral.negative (Digits.toNat digits * 10 ^ (numeral.place + behind)) where
  sign := rfl
  magnitude := by
    rw [magnitude, laid, Digits.to_nat_append, Digits.to_nat_append, Digits.to_nat_zeros,
      Digits.to_nat_zeros, List.length_replicate, zpow_add₀ (by norm_num), zpow_natCast]
    push_cast
    ring
  whole := whole
  small := by
    intro digit member
    rw [laid, List.mem_append, List.mem_append] at member
    rcases member with (zero | own) | zero
    · simp [List.eq_of_mem_replicate zero]
    · exact small digit own
    · simp [List.eq_of_mem_replicate zero]

theorem shows_positional (negative : Bool) (nonempty : digits ≠ [])
    (small : ∀ digit ∈ digits, digit < 10) (point : ℤ) :
    Shows (positional negative digits point) negative
      (Digits.toNat digits * 10 ^ (point - digits.length)) := by
  have size := List.length_pos_of_ne_nil nonempty
  obtain ⟨behind, filled⟩ : ∃ behind, (point - digits.length).toNat = behind := ⟨_, rfl⟩
  obtain ⟨before, moved⟩ : ∃ before, (-point).toNat = before := ⟨_, rfl⟩
  by_cases front : point ≤ 0
  · obtain rfl : behind = 0 := by omega
    have laid : positional negative digits point =
        ⟨negative, [0], List.replicate before 0 ++ digits, none⟩ := by
      simp [positional, front, filled, moved, Int.toNat_of_nonpos front]
    have place : (positional negative digits point).place + (0 : ℕ) = point - digits.length := by
      simp only [laid, Numeral.place, Option.getD_none, List.length_append, List.length_replicate]
      omega
    rw [← place]
    refine shows_of_digits (before + 1) 0 ?_ small ?_
    · simp [laid]
    · simp [laid, Numeral.digits, List.replicate_succ]
  · obtain rfl : before = 0 := by omega
    have laid : positional negative digits point =
        ⟨negative, (digits ++ List.replicate behind 0).take point.toNat,
          (digits ++ List.replicate behind 0).drop point.toNat, none⟩ := by
      simp [positional, front, filled, moved]
    have place : (positional negative digits point).place + behind = point - digits.length := by
      simp only [laid, Numeral.place, Option.getD_none, List.length_drop, List.length_append,
        List.length_replicate]
      omega
    rw [← place]
    refine shows_of_digits 0 behind ?_ small ?_
    · rw [laid]
      have : point.toNat ≠ 0 := by omega
      simp [List.take_eq_nil_iff, this, nonempty]
    · simp [laid, Numeral.digits]

theorem shows_scientific (negative : Bool) (nonempty : digits ≠ [])
    (small : ∀ digit ∈ digits, digit < 10) (point : ℤ) :
    Shows (scientific negative digits point) negative
      (Digits.toNat digits * 10 ^ (point - digits.length)) := by
  have size := List.length_pos_of_ne_nil nonempty
  have place : (scientific negative digits point).place + (0 : ℕ) = point - digits.length := by
    simp only [scientific, Numeral.place, Option.getD_some, List.length_drop]
    omega
  rw [← place]
  refine shows_of_digits 0 0 ?_ small ?_
  · simp [scientific, List.take_eq_nil_iff, nonempty]
  · simp [scientific, Numeral.digits, -List.drop_one]

theorem shows_with_zero {negative : Bool} {number : ℚ} (shows : Shows numeral negative number)
    (bare : numeral.fraction = []) :
    Shows { numeral with fraction := [0] } negative number := by
  have digits : numeral.digits = numeral.whole := by simp [Numeral.digits, bare]
  have place : numeral.place = ({ numeral with fraction := [0] } : Numeral).place + (1 : ℕ) := by
    simp [Numeral.place, bare]
  rw [← shows.sign, ← shows.magnitude, magnitude, digits, place]
  refine shows_of_digits 0 1 shows.whole ?_ ?_
  · exact digits ▸ shows.small
  · simp [Numeral.digits]

theorem shows_laid_out (layout : Layout) (negative : Bool) (nonempty : digits ≠ [])
    (small : ∀ digit ∈ digits, digit < 10) (point : ℤ) :
    Shows
      (if layout.admits (point - 1) then
        if layout.pointZero && (positional negative digits point).fraction.isEmpty then
          { positional negative digits point with fraction := [0] }
        else positional negative digits point
      else scientific negative digits point)
      negative (Digits.toNat digits * 10 ^ (point - digits.length)) := by
  have plainly := shows_positional negative nonempty small point
  split
  · split
    · rename_i bare
      simp only [Bool.and_eq_true, List.isEmpty_iff] at bare
      exact shows_with_zero plainly bare.2
    · exact plainly
  · exact shows_scientific negative nonempty small point

theorem shows_zero (layout : Layout) (negative : Bool) (exponent : ℤ) :
    Shows (ofBinary layout negative 0 exponent) negative 0 := by
  have laid := shows_laid_out layout negative (List.cons_ne_nil 0 []) (by simp)
    (([0] : List ℕ).length + 0)
  have zero : (Digits.toNat [0] : ℚ) = 0 := by simp [Digits.toNat]
  rw [zero, zero_mul] at laid
  have written : Digits.ofNat 0 = [0] := by
    rw [Digits.ofNat]
    rfl
  rw [ofBinary]
  simpa only [if_true, written] using laid

theorem shows_found (layout : Layout) (negative : Bool) {mantissa n : ℕ} {exponent place : ℤ}
    (positive : 0 < mantissa) (found : Shortest.find mantissa exponent = (n, place))
    (nonzero : 0 < n) : Shows (ofBinary layout negative mantissa exponent) negative
      (n * 10 ^ place) := by
  obtain ⟨count, trailing⟩ := Digits.exists_append_zeros (Digits.ofNat n)
  have value := Digits.to_nat_of_nat n
  obtain ⟨digits, kept⟩ : ∃ digits, Digits.dropTrailingZeros (Digits.ofNat n) = digits := ⟨_, rfl⟩
  rw [kept] at trailing
  rw [trailing, Digits.to_nat_append, Digits.to_nat_zeros, List.length_replicate,
    Nat.add_zero] at value
  have nonempty : digits ≠ [] := by
    rintro rfl
    simp [Digits.toNat] at value
    omega
  have small : ∀ digit ∈ digits, digit < 10 := fun digit member =>
    Digits.of_nat_lt_ten n digit (trailing ▸ List.mem_append_left _ member)
  have laid := shows_laid_out layout negative nonempty small
    ((Digits.ofNat n).length + place)
  have point : ((Digits.ofNat n).length : ℤ) + place - digits.length = count + place := by
    rw [trailing, List.length_append, List.length_replicate]
    push_cast
    ring
  rw [point, zpow_add₀ (by norm_num), zpow_natCast, ← mul_assoc] at laid
  have whole : (Digits.toNat digits : ℚ) * 10 ^ count = n := by exact_mod_cast value
  rw [whole] at laid
  rw [ofBinary]
  simpa only [positive.ne', if_false, found, kept] using laid

end Layout

theorem shows_of_float {layout : Layout} {x : Float} {numeral : Numeral}
    (written : ofFloat? layout x = some numeral) :
    ∃ negative number, Shows numeral negative number ∧ numeral.toFloat = x := by
  rw [ofFloat?] at written
  split at written
  · rename_i negative mantissa exponent finite
    obtain rfl := Option.some.inj written
    have encodes := encodes_of_value finite
    rcases Nat.eq_zero_or_pos mantissa with rfl | positive
    · have shows := shows_zero layout negative exponent
      exact ⟨_, _, shows, to_float_of_zero (shows.sign.symm ▸ encodes) shows.magnitude⟩
    · have covers := Shortest.covers_find encodes.canonical positive
      obtain ⟨n, place, found⟩ : ∃ n place, Shortest.find mantissa exponent = (n, place) :=
        ⟨_, _, rfl⟩
      rw [found] at covers
      have nonzero : 0 < n := by
        refine Nat.pos_of_ne_zero fun none => ?_
        have := pos_of_covers positive covers
        simp [none] at this
      have shows := shows_found layout negative positive found nonzero
      refine ⟨_, _, shows, ?_⟩
      exact to_float_of_covers (shows.sign.symm ▸ encodes) positive shows.small
        (shows.magnitude.symm ▸ covers)
  · cases written

section Text

variable {numeral : Numeral} {negative : Bool} {number : ℚ}

theorem split_sign_text {digits : List ℕ} (nonempty : digits ≠ [])
    (small : ∀ digit ∈ digits, digit < 10) (rest : List Char) :
    splitSign (Digits.text digits ++ rest) = (false, Digits.text digits ++ rest) := by
  obtain ⟨digit, digits, rfl⟩ := List.exists_cons_of_ne_nil nonempty
  have noSign : ∀ digit < 10, Char.ofNat (48 + digit) ≠ '-' ∧ Char.ofNat (48 + digit) ≠ '+' := by
    decide
  obtain ⟨notMinus, notPlus⟩ := noSign digit (small digit List.mem_cons_self)
  change splitSign (Char.ofNat (48 + digit) :: (Digits.text digits ++ rest)) = _
  unfold splitSign
  split
  · rename_i same
    exact absurd (List.cons.inj same).1 notMinus
  · rename_i same
    exact absurd (List.cons.inj same).1 notPlus
  · rfl

theorem read_power (negative : Bool) (n : ℕ) {signed : List Char} (split : splitSign signed =
    (negative, Digits.text (Digits.ofNat n))) :
    readExponent ('e' :: signed) = some (some (if negative then -(n : ℤ) else n)) := by
  have spanned : Digits.span (Digits.text (Digits.ofNat n) ++ []) = (Digits.ofNat n, []) :=
    Digits.span_text (Digits.of_nat_lt_ten n) (by simp)
  have value := Digits.to_nat_of_nat n
  obtain ⟨digit, digits, front⟩ := List.exists_cons_of_ne_nil (Digits.of_nat_ne_nil n)
  rw [List.append_nil, front] at spanned
  rw [front] at split value
  simp [readExponent, split, spanned, value]

theorem read_exponent_text (exponent : Option ℤ) :
    readExponent (exponentText exponent) = some exponent := by
  match exponent with
  | none => rfl
  | some (.ofNat n) =>
      have unsigned := split_sign_text (Digits.of_nat_ne_nil n) (Digits.of_nat_lt_ten n) []
      rw [List.append_nil] at unsigned
      exact read_power false n unsigned
  | some (.negSucc n) => exact read_power true (n + 1) rfl

theorem head_exponent_text (exponent : Option ℤ) :
    ∀ c ∈ (exponentText exponent).head?, Digits.value? 10 c = none := by
  match exponent with
  | none => simp [exponentText]
  | some (.ofNat n) => simp [exponentText]; decide
  | some (.negSucc n) => simp [exponentText]; decide

def unsignedText (numeral : Numeral) : List Char :=
  Digits.text numeral.whole ++
    ((if numeral.fraction.isEmpty then [] else '.' :: Digits.text numeral.fraction) ++
      exponentText numeral.exponent)

theorem text_eq (numeral : Numeral) :
    numeral.text = signText numeral.negative ++ numeral.unsignedText := by
  simp [text, unsignedText]

theorem read_unsigned_text (shows : Shows numeral negative number) :
    readUnsigned negative numeral.unsignedText = some numeral := by
  have wholeSmall : ∀ digit ∈ numeral.whole, digit < 10 := fun digit member =>
    shows.small digit (List.mem_append_left _ member)
  have fractionSmall : ∀ digit ∈ numeral.fraction, digit < 10 := fun digit member =>
    shows.small digit (List.mem_append_right _ member)
  have ends := head_exponent_text numeral.exponent
  have whole : numeral.whole.isEmpty = false := List.isEmpty_eq_false_iff.mpr shows.whole
  by_cases bare : numeral.fraction = []
  · have spanned := Digits.span_text wholeSmall ends
    have noPoint : splitFraction (exponentText numeral.exponent) =
        ([], exponentText numeral.exponent) := by
      match numeral.exponent with
      | none => rfl
      | some (.ofNat n) => rfl
      | some (.negSucc n) => rfl
    simp only [unsignedText, readUnsigned, bare, List.isEmpty_nil, if_true, List.nil_append,
      spanned, noPoint, read_exponent_text, whole]
    simp [← shows.sign, ← bare]
  · have point : ∀ c ∈ ('.' :: (Digits.text numeral.fraction ++
        exponentText numeral.exponent)).head?, Digits.value? 10 c = none := by
      intro c first
      obtain rfl := Option.some.inj first
      decide
    have spanned := Digits.span_text wholeSmall point
    have fraction := Digits.span_text fractionSmall ends
    simp only [unsignedText, readUnsigned, List.isEmpty_eq_false_iff.mpr bare, if_false,
      Bool.false_eq_true, List.cons_append, spanned, splitFraction, fraction, read_exponent_text,
      whole]
    simp [← shows.sign]

theorem unsigned_text_ne_nil (shows : Shows numeral negative number) :
    numeral.unsignedText ≠ [] := by
  simp [unsignedText, Digits.text, shows.whole]

theorem split_text (shows : Shows numeral negative number) :
    splitSign numeral.text = (negative, numeral.unsignedText) := by
  rw [text_eq, shows.sign]
  cases negative with
  | true => rfl
  | false =>
      have small : ∀ digit ∈ numeral.whole, digit < 10 := fun digit member =>
        shows.small digit (List.mem_append_left _ member)
      exact split_sign_text shows.whole small _

theorem read_text (shows : Shows numeral negative number) :
    readFloat numeral.text = .ok numeral.toFloat := by
  have filled : numeral.text.isEmpty = false := by
    rw [text_eq]
    simp [unsigned_text_ne_nil shows]
  rw [readFloat, filled]
  simp [split_text shows, read_unsigned_text shows]

theorem numeric_of_mem_exponent_text {exponent : Option ℤ} {c : Char}
    (member : c ∈ exponentText exponent) : Digits.Numeric c := by
  match exponent with
  | none => cases member
  | some (.ofNat n) =>
      rcases List.mem_cons.mp member with rfl | own
      · exact ⟨by decide, by decide⟩
      · exact Digits.numeric_of_mem_text (Digits.of_nat_lt_ten n) own
  | some (.negSucc n) =>
      rcases List.mem_cons.mp member with rfl | rest
      · exact ⟨by decide, by decide⟩
      rcases List.mem_cons.mp rest with rfl | own
      · exact ⟨by decide, by decide⟩
      · exact Digits.numeric_of_mem_text (Digits.of_nat_lt_ten (n + 1)) own

theorem numeric_of_mem_text (shows : Shows numeral negative number) {c : Char}
    (member : c ∈ numeral.text) : Digits.Numeric c := by
  rw [text, List.mem_append, List.mem_append, List.mem_append] at member
  rcases member with ((sign | whole) | fraction) | power
  · rw [signText] at sign
    split at sign
    · obtain rfl := List.mem_singleton.mp sign
      exact ⟨by decide, by decide⟩
    · cases sign
  · exact Digits.numeric_of_mem_text
      (fun digit own => shows.small digit (List.mem_append_left _ own)) whole
  · split at fraction
    · cases fraction
    · rcases List.mem_cons.mp fraction with rfl | own
      · exact ⟨by decide, by decide⟩
      · exact Digits.numeric_of_mem_text
          (fun digit own => shows.small digit (List.mem_append_right _ own)) own
  · exact numeric_of_mem_exponent_text power

end Text

-- Infinite and undefined numbers have no numeral.
theorem read_write {layout : Layout} {x : Float} (finite : x.isFinite = true) :
    readFloat (write layout x).toList = .ok x ∧
      ∀ c ∈ (write layout x).toList, Digits.Numeric c := by
  obtain ⟨negative, mantissa, exponent, value⟩ := value_of_isFinite finite
  have written : ofFloat? layout x = some (ofBinary layout negative mantissa exponent) := by
    rw [ofFloat?, value]
  obtain ⟨negative, number, shows, same⟩ := shows_of_float written
  rw [write, written, String.toList_ofList]
  refine ⟨?_, fun c => numeric_of_mem_text shows⟩
  rw [read_text shows, same]

end LatentFactor.Numeral
