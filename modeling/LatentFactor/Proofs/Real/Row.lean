import Mathlib.Algebra.BigOperators.Group.List.Basic
import Mathlib.Tactic.Linarith
import Mathlib.Tactic.Ring
import LatentFactor.Proofs.Block.Shape
import LatentFactor.Proofs.Real.Scalar

set_option autoImplicit false

namespace LatentFactor.Row

theorem dot_nil_left (y : Row ℝ) : dot [] y = 0 := rfl

theorem dot_nil_right (x : Row ℝ) : dot x [] = 0 := by
  rw [dot, List.zipWith_nil_right]
  rfl

theorem dot_cons (a b : ℝ) (x y : Row ℝ) : dot (a :: x) (b :: y) = a * b + dot x y := by
  have moved : ∀ (terms : List ℝ) (first : ℝ),
      terms.foldl (· + ·) first = first + terms.foldl (· + ·) 0 := by
    intro terms
    induction terms with
    | nil => simp
    | cons term terms ih =>
        intro first
        rw [List.foldl_cons, List.foldl_cons, ih (first + term), ih (0 + term)]
        ring
  rw [dot, List.zipWith_cons_cons, List.foldl_cons, moved, zero_add]
  rfl

theorem dot_comm (x y : Row ℝ) : dot x y = dot y x := by
  induction x generalizing y with
  | nil => rw [dot_nil_left, dot_nil_right]
  | cons a x ih =>
      cases y with
      | nil => rw [dot_nil_left, dot_nil_right]
      | cons b y => rw [dot_cons, dot_cons, ih, mul_comm]

theorem dot_zeros (length : Nat) (y : Row ℝ) : dot (zeros length) y = 0 := by
  induction length generalizing y with
  | zero => rfl
  | succ length ih =>
      cases y with
      | nil => exact dot_nil_right _
      | cons b y =>
          change dot (0 :: zeros length) (b :: y) = 0
          rw [dot_cons, ih, zero_mul, add_zero]

theorem dot_zip_with {combine : ℝ → ℝ → ℝ} {s t : ℝ} (linear : ∀ a b, combine a b = s * a + t * b)
    {x y : Row ℝ} (same : x.length = y.length) (z : Row ℝ) :
    dot (List.zipWith combine x y) z = s * dot x z + t * dot y z := by
  induction x generalizing y z with
  | nil =>
      rw [List.eq_nil_of_length_eq_zero same.symm, List.zipWith_nil_left, dot_nil_left]
      ring
  | cons a x ih =>
      cases y with
      | nil => cases same
      | cons b y =>
          cases z with
          | nil =>
              simp only [dot_nil_right]
              ring
          | cons c z =>
              rw [List.zipWith_cons_cons, dot_cons, dot_cons, dot_cons, ih (Nat.succ.inj same),
                linear]
              ring

theorem dot_add {x y : Row ℝ} (same : x.length = y.length) (z : Row ℝ) :
    dot (x.add y) z = dot x z + dot y z := by
  rw [add, dot_zip_with (s := 1) (t := 1) (fun a b => by ring) same]
  ring

theorem dot_sub {x y : Row ℝ} (same : x.length = y.length) (z : Row ℝ) :
    dot (x.sub y) z = dot x z - dot y z := by
  rw [sub, dot_zip_with (s := 1) (t := -1) (fun a b => by ring) same]
  ring

theorem dot_add_scaled {x y : Row ℝ} (same : x.length = y.length) (factor : ℝ) (z : Row ℝ) :
    dot (x.addScaled factor y) z = dot x z + factor * dot y z := by
  rw [addScaled, dot_zip_with (s := 1) (t := factor) (fun a b => by ring) same]
  ring

theorem dot_scale (factor : ℝ) (x z : Row ℝ) : dot (x.scale factor) z = factor * dot x z := by
  induction x generalizing z with
  | nil =>
      rw [scale, List.map_nil, dot_nil_left]
      ring
  | cons a x ih =>
      cases z with
      | nil =>
          simp only [dot_nil_right]
          ring
      | cons c z =>
          have rest := ih z
          rw [scale] at rest ⊢
          rw [List.map_cons, dot_cons, dot_cons, rest]
          ring

theorem dot_divided (divisor : ℝ) (x z : Row ℝ) :
    dot (x.map (· / divisor)) z = dot x z / divisor := by
  have scaled : x.map (· / divisor) = x.scale divisor⁻¹ :=
    List.map_congr_left fun value _ => div_eq_inv_mul value divisor
  rw [scaled, dot_scale, div_eq_inv_mul]

theorem dot_combine {length : Nat} {factors : List ℝ} {rows : List (Row ℝ)}
    (width : ∀ row ∈ rows, row.length = length) (z : Row ℝ) :
    dot (combine length factors rows) z =
      ((factors.zip rows).map fun entry => entry.1 * dot entry.2 z).sum := by
  have fold : ∀ (entries : List (ℝ × Row ℝ)) (sum : Row ℝ), sum.length = length →
      (∀ entry ∈ entries, entry.2.length = length) →
      dot (entries.foldl (fun sum entry => sum.addScaled entry.1 entry.2) sum) z =
        dot sum z + (entries.map fun entry => entry.1 * dot entry.2 z).sum := by
    intro entries
    induction entries with
    | nil => simp
    | cons entry entries ih =>
        intro sum start widths
        obtain ⟨first, rest⟩ := List.forall_mem_cons.mp widths
        have same : sum.length = entry.2.length := start.trans first.symm
        have kept : (sum.addScaled entry.1 entry.2).length = length := by
          rw [length_add_scaled, start, first, Nat.min_self]
        rw [List.foldl_cons, ih _ kept rest, dot_add_scaled same, List.map_cons, List.sum_cons]
        ring
  rw [combine, fold _ _ (length_zeros length) fun entry member =>
    width _ (List.of_mem_zip member).2, dot_zeros, zero_add]

theorem dot_combine_rows {length : Nat} {factors : List ℝ} {rows : List (Row ℝ)}
    (width : ∀ row ∈ rows, row.length = length) (z : Row ℝ) :
    dot (combine length factors rows) z = dot factors (rows.map fun row => row.dot z) := by
  rw [dot_combine width]
  clear width
  induction factors generalizing rows with
  | nil => rfl
  | cons factor factors ih =>
      cases rows with
      | nil => exact (dot_nil_right _).symm
      | cons row rows =>
          rw [List.zip_cons_cons, List.map_cons, List.sum_cons, ih, List.map_cons, dot_cons]

theorem dot_self_nonneg (x : Row ℝ) : 0 ≤ dot x x := by
  induction x with
  | nil => exact le_of_eq rfl
  | cons a x ih =>
      rw [dot_cons]
      have square := mul_self_nonneg a
      linarith

theorem eq_zeros_of_dot_self {x : Row ℝ} (null : dot x x = 0) : x = zeros x.length := by
  induction x with
  | nil => rfl
  | cons a x ih =>
      rw [dot_cons] at null
      have square := mul_self_nonneg a
      have rest := dot_self_nonneg x
      have first : a = 0 := mul_self_eq_zero.mp (by linarith)
      have others := ih (by linarith)
      rw [first]
      exact congrArg (0 :: ·) others

theorem eq_of_sub_eq_zeros {x y : Row ℝ} (same : x.length = y.length)
    (null : x.sub y = zeros x.length) : x = y := by
  induction x generalizing y with
  | nil => exact (List.eq_nil_of_length_eq_zero same.symm).symm
  | cons a x ih =>
      cases y with
      | nil => cases same
      | cons b y =>
          have entries : (a - b) :: sub x y = 0 :: zeros x.length := null
          obtain ⟨first, rest⟩ := List.cons.inj entries
          rw [sub_eq_zero.mp first, ih (Nat.succ.inj same) rest]

end LatentFactor.Row
