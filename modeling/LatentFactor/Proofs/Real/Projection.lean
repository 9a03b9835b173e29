import LatentFactor.Proofs.Projector
import LatentFactor.Proofs.Real.Inverse
import Mathlib.Algebra.Order.Star.Real

set_option autoImplicit false

namespace LatentFactor

open Matrix

section

variable {rows cols : Nat} {M P : Matrix (Fin rows) (Fin cols) ℝ}

structure Projects (M P : Matrix (Fin rows) (Fin cols) ℝ) : Prop where
  leftInverse : Pᵀ * M = 1
  normal : Mᵀ * M * Pᵀ = Mᵀ

theorem linear_independent_iff_det_gram :
    LinearIndependent ℝ M.col ↔ (Mᵀ * M).det ≠ 0 := by
  rw [← mulVec_injective_iff]
  constructor
  · intro injective
    have definite := PosDef.conjTranspose_mul_self M injective
    rw [conjTranspose_eq_transpose_of_trivial] at definite
    exact ((isUnit_iff_isUnit_det _).mp definite.isUnit).ne_zero
  · intro regular v w same
    have unit : IsUnit (Mᵀ * M) := (isUnit_iff_isUnit_det _).mpr (isUnit_iff_ne_zero.mpr regular)
    apply mulVec_injective_of_isUnit unit
    change (Mᵀ * M) *ᵥ v = (Mᵀ * M) *ᵥ w
    rw [← mulVec_mulVec, ← mulVec_mulVec, same]

theorem projects_of_inverse {B : Matrix (Fin cols) (Fin cols) ℝ} (inverse : Mᵀ * M * B = 1) :
    Projects M (M * B) where
  leftInverse := by
    have transposed := congrArg transpose inverse
    rwa [transpose_mul, transpose_mul, transpose_transpose, transpose_one, ← Matrix.mul_assoc,
      ← transpose_mul] at transposed
  normal := by
    have transposed := congrArg transpose (mul_eq_one_comm.mp inverse)
    rw [transpose_mul, transpose_mul, transpose_transpose, transpose_one] at transposed
    rw [transpose_mul, ← Matrix.mul_assoc, transposed, Matrix.one_mul]

namespace Projects

theorem squared_error (projects : Projects M P) (c : Fin rows → ℝ) (v : Fin cols → ℝ) :
    (M *ᵥ v - c) ⬝ᵥ (M *ᵥ v - c) =
      (M *ᵥ (Pᵀ *ᵥ c) - c) ⬝ᵥ (M *ᵥ (Pᵀ *ᵥ c) - c) +
        (M *ᵥ (v - Pᵀ *ᵥ c)) ⬝ᵥ (M *ᵥ (v - Pᵀ *ᵥ c)) := by
  have orthogonal : (M *ᵥ (Pᵀ *ᵥ c) - c) ⬝ᵥ (M *ᵥ (v - Pᵀ *ᵥ c)) = 0 := by
    rw [dotProduct_mulVec, ← mulVec_transpose, mulVec_sub, mulVec_mulVec, mulVec_mulVec,
      projects.normal, sub_self, zero_dotProduct]
  have split : M *ᵥ v - c = (M *ᵥ (Pᵀ *ᵥ c) - c) + M *ᵥ (v - Pᵀ *ᵥ c) := by
    rw [mulVec_sub]
    abel
  rw [split, add_dotProduct, dotProduct_add, dotProduct_add,
    dotProduct_comm (M *ᵥ (v - Pᵀ *ᵥ c)) (M *ᵥ (Pᵀ *ᵥ c) - c), orthogonal, add_zero, zero_add]

theorem transpose_mul_vec_of_eq (projects : Projects M P) {c : Fin rows → ℝ} {v : Fin cols → ℝ}
    (same : M *ᵥ v = c) : Pᵀ *ᵥ c = v := by
  rw [← same, mulVec_mulVec, projects.leftInverse, one_mulVec]

theorem least (projects : Projects M P) (c : Fin rows → ℝ) {v : Fin cols → ℝ}
    (other : v ≠ Pᵀ *ᵥ c) :
    (M *ᵥ (Pᵀ *ᵥ c) - c) ⬝ᵥ (M *ᵥ (Pᵀ *ᵥ c) - c) < (M *ᵥ v - c) ⬝ᵥ (M *ᵥ v - c) := by
  have nonzero : M *ᵥ (v - Pᵀ *ᵥ c) ≠ 0 := by
    intro null
    have zero := projects.transpose_mul_vec_of_eq null
    rw [mulVec_zero] at zero
    exact other (sub_eq_zero.mp zero.symm)
  have positive := dotProduct_star_self_pos_iff.mpr nonzero
  rw [star_trivial] at positive
  rw [projects.squared_error c v]
  exact lt_add_of_pos_right _ positive

end Projects

end

namespace RowMatrix

def sized (rows cols : Nat) (m : RowMatrix ℝ) : Matrix (Fin rows) (Fin cols) ℝ :=
  Matrix.of fun r => Row.vector cols (m.rowAt r)

theorem row_at_of_rows {cols : Nat} {rows : List (Row ℝ)} {m : RowMatrix ℝ}
    (made : ofRows cols rows = .ok m) (r : Nat) : m.rowAt r = rows[r]?.getD [] := by
  rw [rowAt, ← (of_rows_eq_ok made).2, Array.getElem?_toList]

theorem matrix_gram (m : RowMatrix ℝ) :
    Block.matrix m.cols (Block.gram m.cols (m.rows.toList.map fun row => (row, row))) =
      m.matrixᵀ * m.matrix := by
  have widths := RowUpdate.widths_of_rows (RowUpdate.widths_of_fixed m)
  refine Block.matrix_eq_of_form (Block.square_gram _ _ widths) fun x y left right => ?_
  rw [Block.form_gram widths, List.map_map, rows_eq_of_fn, List.map_ofFn, List.sum_ofFn,
    ← mulVec_mulVec, dotProduct_mulVec, vecMul_transpose]
  apply Finset.sum_congr rfl
  intro r _
  rw [Function.comp_apply, Function.comp_apply, dot_row_at r left, dot_row_at r right]

theorem mul_square {m other : RowMatrix ℝ} (square : Block.Square m.cols other.rows.toList)
    (cols : other.cols = m.cols) :
    ∃ product, m.mul other = .ok product ∧ product.size = m.size ∧ product.cols = m.cols ∧
      product.sized m.size m.cols = m.matrix * Block.matrix m.cols other.rows.toList := by
  have width : ∀ row ∈ m.rows.toList.map fun row => Row.combine m.cols row other.rows.toList,
      row.length = m.cols := by
    intro row member
    obtain ⟨factors, -, rfl⟩ := List.mem_map.mp member
    exact Row.length_combine _ _ square.width
  obtain ⟨product, made⟩ := exists_of_rows width
  obtain ⟨same, listed⟩ := of_rows_eq_ok made
  refine ⟨product, ?_, ?_, same, ?_⟩
  · have fits : m.cols = other.size := square.rows.symm
    rw [mul, if_pos fits, cols, made]
  · rw [RowMatrix.size, ← Array.length_toList, listed, List.length_map]
    rfl
  · ext r
    have row : product.rowAt r = Row.combine m.cols (m.rowAt r) other.rows.toList := by
      rw [row_at_of_rows made, List.getElem?_map, Array.getElem?_toList, get_row_at r.isLt]
      rfl
    rw [sized, of_apply, row, Block.vector_combine square (length_row_at r.isLt)]
    rfl

end RowMatrix

namespace Projector

theorem project_of_lacks {items : RowMatrix ℝ}
    (lacks : ¬Memory.Holds (items.cols * items.cols)) :
    project items = .error (.fault (.beyondMemory 1 (items.cols * items.cols))) := by
  rw [project, Memory.reserve, if_neg lacks]
  rfl

theorem project_cases {items : RowMatrix ℝ} (holds : Memory.Holds (items.cols * items.cols)) :
    (LinearIndependent ℝ items.matrix.col ∧ ∃ projection, project items = .ok projection ∧
      projection.size = items.size ∧ projection.cols = items.cols ∧
      Projects items.matrix (projection.sized items.size items.cols)) ∨
    (¬LinearIndependent ℝ items.matrix.col ∧
      project items = .error (.error (.singular (.zeroPivot items.cols items.cols)))) := by
  have gram := Block.square_gram items.cols _
    (RowUpdate.widths_of_rows (RowUpdate.widths_of_fixed items))
  rw [linear_independent_iff_det_gram, not_not, project, Memory.reserve_eq_ok_iff.mpr holds]
  rcases Block.invert_cases gram with ⟨regular, block, inverted, square, product⟩ | ⟨zero, failed⟩
  · rw [RowMatrix.matrix_gram] at regular product
    obtain ⟨inverse, made⟩ := RowMatrix.exists_of_rows square.width
    obtain ⟨cols, rfl⟩ := RowMatrix.of_rows_eq_ok made
    obtain ⟨projection, multiplied, height, width, same⟩ := RowMatrix.mul_square square cols
    refine .inl ⟨regular, projection, ?_, height, width, ?_⟩
    · rw [inverted]
      change (do
        let inverse ← (RowMatrix.ofRows items.cols _).mapError Failure.fault
        (items.mul inverse).mapError Failure.fault : Except (Failure ℝ) (RowMatrix ℝ)) = _
      rw [made]
      change (items.mul inverse).mapError Failure.fault = .ok projection
      rw [multiplied]
      rfl
    · rw [same]
      exact projects_of_inverse product
  · rw [RowMatrix.matrix_gram] at zero
    exact .inr ⟨zero, by rw [failed]; rfl⟩

end Projector
end LatentFactor
