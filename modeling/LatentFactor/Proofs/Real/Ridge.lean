import LatentFactor.Proofs.Real.RowUpdate

set_option autoImplicit false

namespace LatentFactor.RowUpdate

-- The squared errors on the observations, and what the length of the row adds.
noncomputable def ridge (fixed : RowMatrix ℝ) (lambda : ℝ) (observations : Observations ℝ)
    (x : Row ℝ) : ℝ :=
  (observations.map fun observation =>
      (Row.dot (fixed.rowAt observation.1) x - observation.2) ^ 2).sum +
    lambda * ((max observations.length 1 : Nat) : ℝ) * Row.dot x x

theorem loss_eq_ridge {update : RowUpdate ℝ} {observations : Observations ℝ}
    {rated : List (Row ℝ × ℝ)} (explicit : update.feedback = .explicit)
    (looked : update.ratedRows observations = .ok rated) (x : Row ℝ) :
    update.loss rated x = ridge update.fixed update.lambda observations x := by
  rw [loss, ridge, explicit, rated_eq_map looked, List.map_map, List.length_map]
  simp only [Function.comp_def, Feedback.misfit, Feedback.spread, Feedback.weight, add_zero,
    sub_sq_comm]

/-- The observations may name an index several times, and there may be none at all. -/
theorem solve_explicit_least (fixed : RowMatrix ℝ) {lambda : ℝ} (positive : 0 < lambda)
    (passes : Nat) (observations : Observations ℝ)
    (inside : ∀ observation ∈ observations, observation.1 < fixed.size) :
    ∃ update, create .explicit fixed lambda passes = .ok update ∧
      (fixed.HoldsSystem observations.length →
        ∃ x, update.solve observations = .ok x ∧ x.length = fixed.cols ∧
          ∀ y : Row ℝ, y.length = fixed.cols → y ≠ x →
            ridge fixed lambda observations x < ridge fixed lambda observations y) ∧
      (¬fixed.HoldsSystem observations.length →
        ∃ rows cols, update.solve observations = .error (.fault (.beyondMemory rows cols))) := by
  let update : RowUpdate ℝ := ⟨.explicit, fixed, [], lambda, passes⟩
  have shared : SharedOf update.feedback update.fixed update.shared := rfl
  obtain ⟨rated, looked⟩ : ∃ rated, update.ratedRows observations = .ok rated :=
    exists_rated inside
  refine ⟨update, rfl, fun holds => ?_, fun lacks => solve_of_lacks looked lacks⟩
  have definite := definite_of_explicit shared (length_of_rated looked) rfl positive
  obtain ⟨x, solved⟩ := exists_solve shared looked holds definite
  obtain ⟨rated', again, length, least⟩ := least_of_solve shared solved
  cases looked.symm.trans again
  refine ⟨x, solved, length, fun y same other => ?_⟩
  obtain ⟨below, unique⟩ := least y same
  rw [loss_eq_ridge rfl looked, loss_eq_ridge rfl looked] at below unique
  exact lt_of_le_of_ne below fun equal => other (unique equal.symm)

-- One row is rated twice, so that without regularisation many rows would have the least cost.
theorem solve_explicit_least_rated_twice :
    let fixed : RowMatrix ℝ := ⟨2, #[[1, 2]], by simp⟩
    (0 : ℝ) < 1 ∧
      ∃ update x, create .explicit fixed 1 0 = .ok update ∧
        update.solve [(0, 3), (0, 1)] = .ok x ∧ x.length = 2 ∧
        ∀ y : Row ℝ, y.length = 2 → y ≠ x →
          ridge fixed 1 [(0, 3), (0, 1)] x < ridge fixed 1 [(0, 3), (0, 1)] y := by
  intro fixed
  have inside : ∀ observation ∈ [((0 : Nat), (3 : ℝ)), (0, 1)], observation.1 < fixed.size := by
    simp [fixed, RowMatrix.size]
  obtain ⟨update, created, solvable, -⟩ :=
    solve_explicit_least fixed zero_lt_one 0 [(0, 3), (0, 1)] inside
  obtain ⟨x, solved, length, least⟩ := solvable ⟨by decide, by decide⟩
  exact ⟨zero_lt_one, update, x, created, solved, length, least⟩

-- The matrix has no rows, but its square system has more numbers than memory can hold.
theorem not_solve_explicit_wide :
    let fixed : RowMatrix ℝ := ⟨2 ^ 30, #[], by simp⟩
    (0 : ℝ) < 1 ∧ (∀ observation ∈ ([] : Observations ℝ), observation.1 < fixed.size) ∧
      ∃ update, create .explicit fixed 1 0 = .ok update ∧ ¬∃ x, update.solve [] = .ok x := by
  intro fixed
  refine ⟨zero_lt_one, List.forall_mem_nil _, ⟨.explicit, fixed, [], 1, 0⟩, rfl, ?_⟩
  rintro ⟨x, solved⟩
  have lacks : ¬Memory.Holds (fixed.cols * fixed.cols) := by decide
  obtain ⟨rated, -, holds, -⟩ := solve_eq_ok_iff.mp solved
  exact lacks holds.square

end LatentFactor.RowUpdate
