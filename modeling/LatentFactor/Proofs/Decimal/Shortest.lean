import LatentFactor.Proofs.Decimal.Digits
import LatentFactor.Proofs.Decimal.Rounding

set_option autoImplicit false

namespace LatentFactor.Shortest

open Binary64

theorem decade_le {ratio : Ratio} (num : 0 < ratio.num) (den : 0 < ratio.den) :
    (10 : ℚ) ^ decade ratio ≤ ratio.toRat := by
  rw [decade, Ratio.le_to_rat_iff den]
  by_cases atLeastOne : ratio.den ≤ ratio.num
  · have whole : 0 < ratio.num / ratio.den := Nat.div_pos atLeastOne den
    obtain ⟨digit, digits, front⟩ :=
      List.exists_cons_of_ne_nil (Digits.of_nat_ne_nil (ratio.num / ratio.den))
    have low := Digits.pow_length_le whole
    rw [front, List.length_cons, Nat.add_sub_cancel] at low
    rw [if_pos atLeastOne, front, List.length_cons, Nat.cast_add_one, add_sub_cancel_right,
      zpow_natCast]
    have product : 10 ^ digits.length * ratio.den ≤ ratio.num :=
      (Nat.mul_le_mul_right _ low).trans (Nat.div_mul_le_self _ _)
    exact_mod_cast product
  · rw [if_neg atLeastOne]
    obtain ⟨above, ceiling⟩ : ∃ above, (ratio.den + ratio.num - 1) / ratio.num = above := ⟨_, rfl⟩
    have bound := Digits.lt_pow_length (above - 1)
    have covers : ratio.den ≤ above * ratio.num := by
      have split := Nat.div_add_mod (ratio.den + ratio.num - 1) ratio.num
      have rest := Nat.mod_lt (ratio.den + ratio.num - 1) num
      rw [ceiling] at split
      rw [Nat.mul_comm]
      omega
    rw [ceiling, zpow_neg, zpow_natCast, inv_mul_le_iff₀ (by positivity)]
    have product : ratio.den ≤ 10 ^ (Digits.ofNat (above - 1)).length * ratio.num :=
      covers.trans (Nat.mul_le_mul_right _ (by omega))
    exact_mod_cast product

def step (exponent place : ℤ) : Ratio := (Ratio.scaled 1 10 place).shift 2 (exponent - 2)

def admits (mantissa : ℕ) (exponent place : ℤ) (n : ℕ) : Bool :=
  let step := step exponent place
  if mantissa % 2 = 0 then
    decide (lower mantissa exponent * step.den ≤ n * step.num ∧
      n * step.num ≤ upper mantissa * step.den)
  else
    decide (lower mantissa exponent * step.den < n * step.num ∧
      n * step.num < upper mantissa * step.den)

def below (mantissa : ℕ) (exponent place : ℤ) : ℕ :=
  4 * mantissa * (step exponent place).den / (step exponent place).num

section Pick

variable {mantissa : ℕ} {exponent place : ℤ} {n : ℕ}

theorem den_step_pos (exponent place : ℤ) : 0 < (step exponent place).den :=
  Ratio.den_shift_pos _ two_pos (Ratio.den_scaled_pos 1 place (by decide))

theorem to_rat_step (exponent place : ℤ) :
    (step exponent place).toRat = (10 : ℚ) ^ place / 2 ^ (exponent - 2) := by
  rw [step, Ratio.to_rat_shift, Ratio.to_rat_scaled]
  simp

theorem num_step_pos (exponent place : ℤ) : 0 < (step exponent place).num := by
  refine Nat.pos_of_ne_zero fun zero => ?_
  have none := Ratio.to_rat_eq_zero zero
  rw [to_rat_step] at none
  have positive : (0 : ℚ) < 10 ^ place / 2 ^ (exponent - 2) := by positivity
  exact positive.ne' none

theorem mul_num_step (exponent place : ℤ) (n : ℕ) : (n : ℚ) * (step exponent place).num =
    n * 10 ^ place / 2 ^ (exponent - 2) * (step exponent place).den := by
  have den : ((step exponent place).den : ℚ) ≠ 0 := Nat.cast_ne_zero.mpr (den_step_pos _ _).ne'
  have ratio := to_rat_step exponent place
  rw [Ratio.toRat, div_eq_iff den] at ratio
  rw [ratio]
  ring

theorem le_step_iff (exponent place : ℤ) (a n : ℕ) :
    a * (step exponent place).den ≤ n * (step exponent place).num ↔
      (a : ℚ) * 2 ^ (exponent - 2) ≤ n * 10 ^ place := by
  have den : (0 : ℚ) < (step exponent place).den := Nat.cast_pos.mpr (den_step_pos _ _)
  rw [← Nat.cast_le (α := ℚ), Nat.cast_mul, Nat.cast_mul, mul_num_step,
    mul_le_mul_iff_left₀ den, le_div_iff₀ (by positivity)]

theorem lt_step_iff (exponent place : ℤ) (a n : ℕ) :
    a * (step exponent place).den < n * (step exponent place).num ↔
      (a : ℚ) * 2 ^ (exponent - 2) < n * 10 ^ place := by
  have den : (0 : ℚ) < (step exponent place).den := Nat.cast_pos.mpr (den_step_pos _ _)
  rw [← Nat.cast_lt (α := ℚ), Nat.cast_mul, Nat.cast_mul, mul_num_step,
    mul_lt_mul_iff_left₀ den, lt_div_iff₀ (by positivity)]

theorem admits_iff : admits mantissa exponent place n = true ↔
    Covers mantissa exponent (n * 10 ^ place) := by
  have lowEnd := le_step_iff exponent place (lower mantissa exponent) n
  have highEnd := lt_step_iff exponent place (upper mantissa) n
  have lowInside := lt_step_iff exponent place (lower mantissa exponent) n
  have highInside := le_step_iff exponent place (upper mantissa) n
  rw [← not_iff_not, not_lt, not_lt] at highEnd
  rw [← not_iff_not, not_le, not_le] at highInside
  by_cases even : mantissa % 2 = 0
  · simp only [admits, if_pos even, decide_eq_true_eq, lowEnd, highEnd]
    exact ⟨fun ⟨low, high⟩ => ⟨low, high, fun odd => by omega⟩,
      fun covers => ⟨covers.low, covers.high⟩⟩
  · simp only [admits, if_neg even, decide_eq_true_eq, lowInside, highInside]
    exact ⟨fun ⟨low, high⟩ => ⟨low.le, high.le, fun _ => ⟨low, high⟩⟩,
      fun covers => covers.inside (by omega)⟩

theorem below_le (mantissa : ℕ) (exponent place : ℤ) :
    (below mantissa exponent place : ℚ) * 10 ^ place ≤ mantissa * 2 ^ exponent := by
  have under : ¬4 * mantissa * (step exponent place).den <
      below mantissa exponent place * (step exponent place).num :=
    not_lt.mpr (Nat.div_mul_le_self _ _)
  rw [lt_step_iff, not_lt] at under
  refine under.trans_eq ?_
  rw [quarters exponent]
  push_cast
  ring

theorem lt_below_succ (mantissa : ℕ) (exponent place : ℤ) :
    (mantissa : ℚ) * 2 ^ exponent < (below mantissa exponent place + 1 : ℕ) * 10 ^ place := by
  have past : 4 * mantissa * (step exponent place).den <
      (below mantissa exponent place + 1) * (step exponent place).num := by
    rw [Nat.mul_comm (below mantissa exponent place + 1)]
    exact Nat.lt_mul_div_succ _ (num_step_pos _ _)
  rw [lt_step_iff] at past
  refine Eq.trans_lt ?_ past
  rw [quarters exponent]
  push_cast
  ring

theorem pick_eq (mantissa : ℕ) (exponent place : ℤ) : ∃ nearer : Bool,
    pick mantissa exponent place =
      match admits mantissa exponent place (below mantissa exponent place),
        admits mantissa exponent place (below mantissa exponent place + 1) with
      | false, false => none
      | true, false => some (below mantissa exponent place)
      | false, true => some (below mantissa exponent place + 1)
      | true, true =>
          if nearer then some (below mantissa exponent place)
          else some (below mantissa exponent place + 1) := by
  refine ⟨decide (4 * mantissa * (step exponent place).den -
    below mantissa exponent place * (step exponent place).num <
      (below mantissa exponent place + 1) * (step exponent place).num -
        4 * mantissa * (step exponent place).den), ?_⟩
  simp only [decide_eq_true_eq]
  rfl

theorem covers_of_pick (picked : pick mantissa exponent place = some n) :
    Covers mantissa exponent (n * 10 ^ place) := by
  obtain ⟨nearer, chosen⟩ := pick_eq mantissa exponent place
  rw [← admits_iff]
  rw [chosen] at picked
  cases low : admits mantissa exponent place (below mantissa exponent place) <;>
    cases high : admits mantissa exponent place (below mantissa exponent place + 1) <;>
    cases nearer <;> simp_all

-- If neither neighbour is inside, the whole interval lies between them.
theorem pick_isSome (positive : 0 < mantissa) (dense : (10 : ℚ) ^ place <
    ((upper mantissa : ℚ) - lower mantissa exponent) * 2 ^ (exponent - 2)) :
    (pick mantissa exponent place).isSome := by
  have power : (0 : ℚ) < 2 ^ (exponent - 2) := by positivity
  have under := below_le mantissa exponent place
  have past := lt_below_succ mantissa exponent place
  have center : (mantissa : ℚ) * 2 ^ exponent = 4 * mantissa * 2 ^ (exponent - 2) := by
    rw [quarters exponent]
    ring
  have aboveLow : (lower mantissa exponent : ℚ) < 4 * mantissa := by
    have natural : lower mantissa exponent < 4 * mantissa := by
      rw [lower]
      split <;> omega
    exact_mod_cast natural
  have belowHigh : (4 * mantissa : ℚ) < upper mantissa := by simp [upper]
  rw [center] at under past
  have either : admits mantissa exponent place (below mantissa exponent place) = true ∨
      admits mantissa exponent place (below mantissa exponent place + 1) = true := by
    simp only [admits_iff]
    by_cases first : lower mantissa exponent * (2 : ℚ) ^ (exponent - 2) <
        below mantissa exponent place * 10 ^ place
    · have high := under.trans_lt (mul_lt_mul_of_pos_right belowHigh power)
      exact .inl ⟨first.le, high.le, fun _ => ⟨first, high⟩⟩
    · have low := (mul_lt_mul_of_pos_right aboveLow power).trans past
      have high : ((below mantissa exponent place + 1 : ℕ) : ℚ) * 10 ^ place <
          upper mantissa * 2 ^ (exponent - 2) := by
        push_cast
        linarith
      exact .inr ⟨low.le, high.le, fun _ => ⟨low, high⟩⟩
  obtain ⟨nearer, chosen⟩ := pick_eq mantissa exponent place
  rw [chosen]
  cases low : admits mantissa exponent place (below mantissa exponent place) <;>
    cases high : admits mantissa exponent place (below mantissa exponent place + 1) <;>
    cases nearer <;> simp_all

-- Seventeen digits have places below the width of the interval.
theorem dense_of_seventeen (canonical : Canonical mantissa exponent) (positive : 0 < mantissa) :
    (10 : ℚ) ^ (decade (Ratio.scaled mantissa 2 exponent) - (16 : ℕ)) <
      ((upper mantissa : ℚ) - lower mantissa exponent) * 2 ^ (exponent - 2) := by
  have power : (0 : ℚ) < 2 ^ (exponent - 2) := by positivity
  have bits := canonical.bits
  have num : 0 < (Ratio.scaled mantissa 2 exponent).num := by
    cases exponent with
    | ofNat n => exact Nat.mul_pos positive (Nat.pow_pos two_pos)
    | negSucc n => exact positive
  have top := decade_le num (Ratio.den_scaled_pos mantissa exponent two_pos)
  rw [Ratio.to_rat_scaled, Nat.cast_two, quarters exponent] at top
  have width : 4 * mantissa < 10 ^ 16 * (upper mantissa - lower mantissa exponent) := by
    rw [hidden_eq] at bits
    rw [upper, lower, hidden_eq]
    split <;> omega
  have cast : (4 * mantissa : ℚ) < 10 ^ 16 * ((upper mantissa : ℚ) - lower mantissa exponent) := by
    have ordered : lower mantissa exponent ≤ upper mantissa := by
      rw [upper, lower]
      split <;> omega
    rw [← Nat.cast_sub ordered]
    exact_mod_cast width
  rw [zpow_sub₀ (by norm_num), zpow_natCast, div_lt_iff₀ (by positivity)]
  calc (10 : ℚ) ^ decade (Ratio.scaled mantissa 2 exponent)
      ≤ 4 * mantissa * 2 ^ (exponent - 2) := by linarith
    _ < 10 ^ 16 * ((upper mantissa : ℚ) - lower mantissa exponent) * 2 ^ (exponent - 2) :=
      mul_lt_mul_of_pos_right cast power
    _ = _ := by ring

theorem covers_find (canonical : Canonical mantissa exponent) (positive : 0 < mantissa) :
    Covers mantissa exponent
      ((find mantissa exponent).1 * 10 ^ (find mantissa exponent).2) := by
  obtain ⟨last, chosen⟩ := Option.isSome_iff_exists.mp
    (pick_isSome positive (dense_of_seventeen canonical positive))
  obtain ⟨found, search⟩ : ∃ found, (List.range 17).findSome? (fun count : ℕ =>
      (pick mantissa exponent (decade (Ratio.scaled mantissa 2 exponent) - count)).map
        fun n => (n, decade (Ratio.scaled mantissa 2 exponent) - (count : ℤ))) = some found := by
    rw [← Option.isSome_iff_exists, List.findSome?_isSome_iff]
    exact ⟨16, by simp, by rw [chosen]; rfl⟩
  have result : find mantissa exponent = found := by
    rw [find]
    simp only [search, Option.getD_some]
  obtain ⟨count, _, tried⟩ := List.exists_of_findSome?_eq_some search
  obtain ⟨n, picked, rfl⟩ := Option.map_eq_some_iff.mp tried
  rw [result]
  exact covers_of_pick picked

end Pick

end LatentFactor.Shortest
