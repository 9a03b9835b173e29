import Mathlib

set_option autoImplicit false

namespace LatentFactor.Binary64

open Float.Model

-- Sign and infinity first, then the exponent, then the mantissa. Both zeros have one place.
def place : UnpackedFloat → Option (ℤ ×ₗ ℤ ×ₗ ℤ)
  | .notANumber => none
  | .infinity sign => some (toLex (sign.apply 2, toLex (0, 0)))
  | .zero _ => some (toLex (0, toLex (0, 0)))
  | .finite sign mantissa exponent _ =>
      some (toLex (sign.apply 1, toLex (sign.apply exponent, sign.apply mantissa)))

theorem compare_lex {α β : Type} [LinearOrder α] [LinearOrder β] (a c : α) (b d : β) :
    compare (toLex (a, b)) (toLex (c, d)) = (compare a c).then (compare b d) := by
  rw [Prod.Lex.compare_def]
  rfl

theorem compare_neg (a b : ℤ) : compare (-a) (-b) = (compare a b).swap := by
  have negated : StrictAnti fun x : ℤ => -x := fun _ _ less => Int.neg_lt_neg less
  rw [← cmp_eq_compare, ← cmp_eq_compare, cmp_swap]
  exact negated.cmp_map_eq a b

theorem compare_cast (m n : ℕ) : compare (m : ℤ) (n : ℤ) = compare m n := by
  rw [← cmp_eq_compare, ← cmp_eq_compare]
  have cast : StrictMono fun n : ℕ => (n : ℤ) := fun _ _ less => Int.ofNat_lt.mpr less
  exact cast.cmp_map_eq m n

theorem compare_eq_place (a b : UnpackedFloat) :
    a.compare b = (place a).bind fun x => (place b).map fun y => compare x y := by
  rcases a with (_ | _) | _ | _ | ⟨_ | _, m, e, _⟩ <;>
    rcases b with (_ | _) | _ | _ | ⟨_ | _, n, f, _⟩ <;>
    first
    | rfl
    | simp [place, UnpackedFloat.compare, UnpackedFloat.Sign.apply, compare_lex, compare_neg,
        compare_cast, Ordering.swap_then]

theorem lt_iff_place (a b : UnpackedFloat) :
    a.lt b = true ↔ ∃ x ∈ place a, ∃ y ∈ place b, x < y := by
  rw [UnpackedFloat.lt, compare_eq_place]
  cases place a <;> cases place b <;> simp [compare_lt_iff_lt]

theorem le_iff_place (a b : UnpackedFloat) :
    a.le b = true ↔ ∃ x ∈ place a, ∃ y ∈ place b, x ≤ y := by
  rw [UnpackedFloat.le, compare_eq_place]
  cases place a <;> cases place b <;> simp [← Ordering.ne_gt_iff_isLE, compare_le_iff_le]

theorem float_lt_iff (a b : Float) : a < b ↔
    ∃ x ∈ place a.toModel.unpack, ∃ y ∈ place b.toModel.unpack, x < y := by
  rw [← lt_iff_place]
  exact decide_eq_true_iff

theorem float_le_iff (a b : Float) : a ≤ b ↔
    ∃ x ∈ place a.toModel.unpack, ∃ y ∈ place b.toModel.unpack, x ≤ y := by
  rw [← le_iff_place]
  exact decide_eq_true_iff

theorem lt_of_lt_of_le {a b c : Float} (less : a < b) (below : b ≤ c) : a < c := by
  obtain ⟨x, own, y, there, first⟩ := (float_lt_iff a b).mp less
  obtain ⟨z, same, w, last, second⟩ := (float_le_iff b c).mp below
  rw [Option.mem_unique there same] at first
  exact (float_lt_iff a c).mpr ⟨x, own, w, last, first.trans_le second⟩

theorem not_lt_of_le {a b : Float} (below : a ≤ b) : ¬b < a := by
  intro less
  obtain ⟨x, own, y, there, first⟩ := (float_le_iff a b).mp below
  obtain ⟨z, same, w, last, second⟩ := (float_lt_iff b a).mp less
  rw [Option.mem_unique own last, Option.mem_unique there same] at first
  exact second.not_ge first

end LatentFactor.Binary64
