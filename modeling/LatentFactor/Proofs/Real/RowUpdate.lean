import Mathlib.Algebra.BigOperators.Ring.List
import LatentFactor.Proofs.Real.Block
import LatentFactor.Proofs.RowUpdate.Solve

set_option autoImplicit false

namespace LatentFactor

namespace Feedback

-- What a rating adds to the error of a prediction. With implicit feedback every pair counts as
-- unrated first, so a rating adds the difference.
def misfit (feedback : Feedback ℝ) (rating prediction : ℝ) : ℝ :=
  match feedback with
  | explicit => (rating - prediction) ^ 2
  | implicit alpha => (1 + alpha * rating) * (1 - prediction) ^ 2 - prediction ^ 2

def curvature (feedback : Feedback ℝ) (rating : ℝ) : ℝ :=
  match feedback with
  | explicit => 1
  | implicit alpha => alpha * rating

def pull (feedback : Feedback ℝ) (rating : ℝ) : ℝ :=
  match feedback with
  | explicit => rating
  | implicit alpha => 1 + alpha * rating

-- The multiple of the regularisation that a row with so many ratings takes.
def weight (feedback : Feedback ℝ) (count : Nat) : ℝ :=
  match feedback with
  | explicit => ((max count 1 : Nat) : ℝ)
  | implicit _ => 1

-- The error of all pairs of a row as if they were unrated.
noncomputable def spread (feedback : Feedback ℝ) (rows : List (Row ℝ)) (x y : Row ℝ) : ℝ :=
  match feedback with
  | explicit => 0
  | implicit _ => (rows.map fun row => Row.dot row x * Row.dot row y).sum

theorem misfit_eq (feedback : Feedback ℝ) (rating prediction : ℝ) :
    feedback.misfit rating prediction =
      feedback.curvature rating * prediction ^ 2 - 2 * (feedback.pull rating * prediction) +
        feedback.misfit rating 0 := by
  cases feedback with
  | explicit =>
      simp only [misfit, curvature, pull]
      ring
  | implicit alpha =>
      simp only [misfit, curvature, pull]
      ring

theorem spread_comm (feedback : Feedback ℝ) (rows : List (Row ℝ)) (x y : Row ℝ) :
    feedback.spread rows x y = feedback.spread rows y x := by
  cases feedback with
  | explicit => rfl
  | implicit alpha => simp only [spread, mul_comm]

end Feedback

namespace RowUpdate

noncomputable def loss (update : RowUpdate ℝ) (rated : List (Row ℝ × ℝ)) (x : Row ℝ) : ℝ :=
  (rated.map fun entry => update.feedback.misfit entry.2 (Row.dot entry.1 x)).sum +
    update.feedback.spread update.fixed.rows.toList x x +
    update.lambda * update.feedback.weight rated.length * Row.dot x x

section

variable {update : RowUpdate ℝ} {rated : List (Row ℝ × ℝ)}

theorem form_system (shared : SharedOf update.feedback update.fixed update.shared)
    (widths : ∀ pair ∈ rated, pair.1.length = update.fixed.cols) {x y : Row ℝ}
    (right : y.length = update.fixed.cols) :
    Block.form (update.system rated).1 x y =
      (rated.map fun entry =>
        update.feedback.curvature entry.2 * (Row.dot entry.1 x * Row.dot entry.1 y)).sum +
      update.feedback.spread update.fixed.rows.toList x y +
      update.lambda * update.feedback.weight rated.length * Row.dot x y := by
  have rows := widths_of_rated widths
  unfold system
  unfold SharedOf at shared
  cases feedback : update.feedback with
  | explicit =>
      have own := widths_of_rows rows
      dsimp only
      rw [Block.form_add_diagonal (Block.square_gram _ _ own) _ right, Block.form_gram own]
      simp only [List.map_map, Function.comp_def, Feedback.curvature, Feedback.spread,
        Feedback.weight, one_mul, add_zero]
  | implicit alpha =>
      simp only [feedback] at shared
      have all := widths_of_rows (widths_of_fixed update.fixed)
      have own := widths_of_scaled (rated.map fun entry => 1 + alpha * entry.2) rows
      have sharedSquare := Block.square_gram _ _ all
      have extraSquare := Block.square_gram _ _ own
      dsimp only
      rw [shared, Block.form_add_diagonal (Block.square_add sharedSquare extraSquare) _ right,
        Block.form_add sharedSquare extraSquare, Block.form_gram all, Block.form_gram own,
        List.zip_map']
      simp only [List.map_map, Function.comp_def, Feedback.curvature, Feedback.spread,
        Feedback.weight, Row.dot_scale, mul_one, add_sub_cancel_left, mul_assoc]
      rw [add_comm (List.sum _)]

theorem dot_system (widths : ∀ pair ∈ rated, pair.1.length = update.fixed.cols) (y : Row ℝ) :
    Row.dot (update.system rated).2 y =
      (rated.map fun entry => update.feedback.pull entry.2 * Row.dot entry.1 y).sum := by
  have rows := widths_of_rated widths
  unfold system
  cases feedback : update.feedback with
  | explicit =>
      dsimp only
      rw [Row.dot_combine rows, List.zip_map']
      simp only [List.map_map, Function.comp_def, Feedback.pull]
  | implicit alpha =>
      dsimp only
      rw [Row.dot_combine rows, List.zip_map']
      simp only [List.map_map, Function.comp_def, Feedback.pull]

theorem symmetric_system (shared : SharedOf update.feedback update.fixed update.shared)
    (widths : ∀ pair ∈ rated, pair.1.length = update.fixed.cols) :
    Block.Symmetric update.fixed.cols (update.system rated).1 := by
  intro x y left right
  rw [form_system shared widths right, form_system shared widths left,
    Feedback.spread_comm _ _ x y, Row.dot_comm x y]
  have terms : ∀ entry : Row ℝ × ℝ, Row.dot entry.1 x * Row.dot entry.1 y =
      Row.dot entry.1 y * Row.dot entry.1 x := fun entry => mul_comm _ _
  simp only [terms]

theorem loss_eq (shared : SharedOf update.feedback update.fixed update.shared)
    (widths : ∀ pair ∈ rated, pair.1.length = update.fixed.cols) {x : Row ℝ}
    (length : x.length = update.fixed.cols) :
    update.loss rated x =
      Block.form (update.system rated).1 x x - 2 * Row.dot (update.system rated).2 x +
        (rated.map fun entry => update.feedback.misfit entry.2 0).sum := by
  have misfits : (rated.map fun entry =>
      update.feedback.misfit entry.2 (Row.dot entry.1 x)).sum =
      (rated.map fun entry =>
        update.feedback.curvature entry.2 * (Row.dot entry.1 x * Row.dot entry.1 x)).sum -
      2 * (rated.map fun entry => update.feedback.pull entry.2 * Row.dot entry.1 x).sum +
      (rated.map fun entry => update.feedback.misfit entry.2 0).sum := by
    clear widths
    induction rated with
    | nil => simp
    | cons entry rated ih =>
        simp only [List.map_cons, List.sum_cons, ih]
        rw [update.feedback.misfit_eq entry.2 (Row.dot entry.1 x)]
        ring
  rw [loss, misfits, form_system shared widths length, dot_system widths]
  ring

theorem least_of_solves (shared : SharedOf update.feedback update.fixed update.shared)
    (widths : ∀ pair ∈ rated, pair.1.length = update.fixed.cols) {x : Row ℝ}
    (definite : Block.Definite update.fixed.cols (update.system rated).1)
    (solves : Block.Solves update.fixed.cols (update.system rated).1 (update.system rated).2 x)
    {y : Row ℝ} (length : y.length = update.fixed.cols) :
    update.loss rated x ≤ update.loss rated y ∧
      (update.loss rated y = update.loss rated x → y = x) := by
  obtain ⟨width, products⟩ := solves
  have same : y.length = x.length := length.trans width.symm
  have symmetric := symmetric_system shared widths
  have apart : (y.sub x).length = update.fixed.cols := by
    rw [Row.length_sub, length, width, Nat.min_self]
  -- The losses differ by the form of the difference of the rows.
  have difference : update.loss rated y - update.loss rated x =
      Block.form (update.system rated).1 (y.sub x) (y.sub x) := by
    have first : ∀ z : Row ℝ, Block.form (update.system rated).1 (y.sub x) z =
        Block.form (update.system rated).1 y z - Block.form (update.system rated).1 x z :=
      fun z => Row.dot_sub same _
    rw [loss_eq shared widths length, loss_eq shared widths width, first,
      symmetric y (y.sub x) length apart, symmetric x (y.sub x) width apart, first, first,
      symmetric y x length width, products y length, products x width]
    ring
  obtain ⟨nonneg, null⟩ := definite (y.sub x) apart
  rw [← difference] at nonneg null
  refine ⟨by linarith, fun equal => ?_⟩
  have zero := null (by linarith)
  rw [← length] at zero
  exact Row.eq_of_sub_eq_zeros same zero

theorem least_of_solve {observations : Observations ℝ} {x : Row ℝ}
    (shared : SharedOf update.feedback update.fixed update.shared)
    (solved : update.solve observations = .ok x) :
    ∃ rated, update.ratedRows observations = .ok rated ∧ x.length = update.fixed.cols ∧
      ∀ y : Row ℝ, y.length = update.fixed.cols →
        update.loss rated x ≤ update.loss rated y ∧
          (update.loss rated y = update.loss rated x → y = x) := by
  obtain ⟨rated, looked, -, found⟩ := solve_eq_ok_iff.mp solved
  have widths := length_of_rated looked
  obtain ⟨square, right⟩ := square_system shared widths
  obtain ⟨definite, solves⟩ :=
    Block.solves_of_solve square (symmetric_system shared widths) right found
  exact ⟨rated, looked, solves.1, fun y length =>
    least_of_solves shared widths definite solves length⟩

theorem definite_of_explicit (shared : SharedOf update.feedback update.fixed update.shared)
    (widths : ∀ pair ∈ rated, pair.1.length = update.fixed.cols)
    (explicit : update.feedback = .explicit) (positive : 0 < update.lambda) :
    Block.Definite update.fixed.cols (update.system rated).1 := by
  intro x length
  have squares : 0 ≤ (rated.map fun entry =>
      update.feedback.curvature entry.2 * (Row.dot entry.1 x * Row.dot entry.1 x)).sum := by
    apply List.sum_nonneg
    intro term member
    obtain ⟨entry, -, rfl⟩ := List.mem_map.mp member
    rw [explicit, Feedback.curvature, one_mul]
    exact mul_self_nonneg _
  have weight : 0 < update.feedback.weight rated.length := by
    rw [explicit, Feedback.weight, Nat.cast_pos]
    exact Nat.lt_of_lt_of_le Nat.one_pos (Nat.le_max_right ..)
  have factor : 0 < update.lambda * update.feedback.weight rated.length := mul_pos positive weight
  have spread : update.feedback.spread update.fixed.rows.toList x x = 0 := by
    rw [explicit, Feedback.spread]
  rw [form_system shared widths length, spread, add_zero]
  have regular := mul_nonneg factor.le (Row.dot_self_nonneg x)
  refine ⟨add_nonneg squares regular, fun null => ?_⟩
  have vanishes := (add_eq_zero_iff_of_nonneg squares regular).mp null
  have zero := (mul_eq_zero.mp vanishes.2).resolve_left factor.ne'
  exact length ▸ Row.eq_zeros_of_dot_self zero

theorem exists_solve {observations : Observations ℝ}
    (shared : SharedOf update.feedback update.fixed update.shared)
    (looked : update.ratedRows observations = .ok rated)
    (holds : update.fixed.HoldsSystem observations.length)
    (definite : Block.Definite update.fixed.cols (update.system rated).1) :
    ∃ x, update.solve observations = .ok x := by
  have widths := length_of_rated looked
  obtain ⟨x, solved⟩ := Block.exists_solve (square_system shared widths).1
    (symmetric_system shared widths) definite (update.system rated).2 update.passes
  exact ⟨x, solve_eq_ok_iff.mpr ⟨rated, looked, holds, solved⟩⟩

theorem no_error_of_definite {observations : Observations ℝ}
    (shared : SharedOf update.feedback update.fixed update.shared)
    (looked : update.ratedRows observations = .ok rated)
    (definite : Block.Definite update.fixed.cols (update.system rated).1) (error : Error ℝ) :
    update.solve observations ≠ .error (.error error) := by
  intro failed
  obtain ⟨_, -, holds, -⟩ := solve_eq_error_iff.mp failed
  obtain ⟨x, solved⟩ := exists_solve shared looked holds definite
  rw [solved] at failed
  cases failed

end

end RowUpdate
end LatentFactor
