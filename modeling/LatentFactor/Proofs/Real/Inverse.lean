import LatentFactor.Proofs.Real.Elimination
import LatentFactor.Proofs.Real.System
import Mathlib.LinearAlgebra.Matrix.ToLinearEquiv

set_option autoImplicit false

namespace LatentFactor

open Matrix

namespace Elimination

variable {size : Nat} {block : Block ℝ}

def augmented {α : Type} [Scalar α] (size : Nat) (block : Block α) : List (Equation α) :=
  block.mapIdx fun i row => ⟨row, unitRow size i⟩

theorem vector_unit_row (i : Fin size) :
    Row.vector size (unitRow size i) = Pi.single i 1 := by
  funext j
  rw [Row.vector, List.getD_eq_getElem _ _ (by rw [length_unit_row]; exact j.isLt),
    Pi.single_apply]
  simp only [unitRow, List.getElem_map, List.getElem_range, Fin.ext_iff]

theorem system_of_square (square : Block.Square size block) :
    System size size (augmented size block) where
  count := by rw [augmented, List.length_mapIdx, square.rows]
  fits := by
    intro equation member
    obtain ⟨i, inside, rfl⟩ := List.mem_mapIdx.mp member
    exact ⟨square.width _ (List.getElem_mem inside), length_unit_row size i⟩

theorem holds_iff_mul_vec_eq (square : Block.Square size block) {x z : Row ℝ}
    (left : x.length = size) (right : z.length = size) :
    (∀ equation ∈ augmented size block, equation.Holds x z) ↔
      block.matrix size *ᵥ x.vector size = z.vector size := by
  have own : ∀ (i : Fin size) (inside : i < block.length),
      (⟨block[i], unitRow size i⟩ : Equation ℝ).Holds x z ↔
        (block.matrix size *ᵥ x.vector size) i = z.vector size i := by
    intro i inside
    rw [Equation.Holds, Row.dot_eq_dot_product (length_unit_row size i) right, vector_unit_row,
      single_one_dotProduct, ← Block.vector_products square left]
    have product : Row.vector size (block.map fun row => row.dot x) i = block[i.val].dot x := by
      rw [Row.vector, List.getD_eq_getElem _ _ (by rwa [List.length_map]), List.getElem_map]
    rw [product]
    rfl
  constructor
  · intro all
    funext i
    have inside : i < block.length := by
      rw [square.rows]
      exact i.isLt
    exact (own i inside).mp (all _ (List.mem_mapIdx.mpr ⟨i, inside, rfl⟩))
  · intro same equation member
    obtain ⟨i, inside, rfl⟩ := List.mem_mapIdx.mp member
    have row : i < size := by rwa [← square.rows]
    exact (own ⟨i, row⟩ inside).mpr (congrFun same ⟨i, row⟩)

end Elimination

namespace Block

variable {size : Nat} {block : Block ℝ}

theorem mul_eq_one_of_eliminate {triangle : List (Elimination.Pivoted ℝ)}
    (square : Square size block)
    (eliminated : Elimination.eliminate size (Elimination.augmented size block) = some triangle)
    (inverse : Square size (Elimination.backSubstitute triangle)) :
    block.matrix size * matrix size (Elimination.backSubstitute triangle) = 1 := by
  obtain ⟨triangular, solved⟩ :=
    Elimination.triangular_of_eliminate (Elimination.system_of_square square) eliminated
  apply ext_of_mulVec_single
  intro i
  let z := List.ofFn (Pi.single i (1 : ℝ))
  let x := (Elimination.backSubstitute triangle).map fun row => row.dot z
  have right : z.length = size := List.length_ofFn
  have left : x.length = size := by rw [List.length_map, inverse.rows]
  have every := (solved x z left).mp
    ((Elimination.solved_iff_back_substitute triangular left z).mpr rfl)
  have equal := (Elimination.holds_iff_mul_vec_eq square left right).mp every
  rw [vector_products inverse right, Row.vector_of_fn] at equal
  rw [← mulVec_mulVec, equal, one_mulVec]

theorem det_eq_zero_of_eliminate (square : Square size block)
    (stopped : Elimination.eliminate size (Elimination.augmented size block) = none) :
    (block.matrix size).det = 0 := by
  obtain ⟨x, length, some, null⟩ :=
    Elimination.exists_null_of_stopped (Elimination.system_of_square square) stopped
  rw [Elimination.holds_iff_mul_vec_eq square length (Row.length_zeros size),
    Row.vector_zeros] at null
  refine exists_mulVec_eq_zero_iff.mp ⟨x.vector size, fun zero => some ?_, null⟩
  exact (Row.vector_eq_zero_iff length).mp zero

theorem invert_cases (square : Square size block) :
    ((block.matrix size).det ≠ 0 ∧ ∃ inverse, invert block = .ok inverse ∧
      Square size inverse ∧ block.matrix size * inverse.matrix size = 1) ∨
    ((block.matrix size).det = 0 ∧
      invert block = .error (.singular (.zeroPivot size size))) := by
  have inverse_eq : Elimination.inverse? block =
      (Elimination.eliminate size (Elimination.augmented size block)).map
        Elimination.backSubstitute := by
    rw [Elimination.inverse?, square.rows]
    rfl
  rw [invert, inverse_eq, square.rows]
  cases eliminated : Elimination.eliminate size (Elimination.augmented size block) with
  | none => exact .inr ⟨det_eq_zero_of_eliminate square eliminated, rfl⟩
  | some triangle =>
      rw [eliminated] at inverse_eq
      have inverse : Square size (Elimination.backSubstitute triangle) :=
        Elimination.square_inverse square.rows inverse_eq
      have product := mul_eq_one_of_eliminate square eliminated inverse
      refine .inl ⟨det_ne_zero_of_right_inverse product, _, ?_, inverse, product⟩
      exact if_pos (List.all_eq_true.mpr fun row _ => List.all_eq_true.mpr fun _ _ => rfl)

end Block

namespace RowMatrix

variable {m : RowMatrix ℝ}

theorem invert_cases (size : m.size = m.cols) :
    let A := Block.matrix m.cols m.rows.toList
    (A.det ≠ 0 ∧ ∃ inverse, m.invert = .ok inverse ∧ inverse.size = m.cols ∧
      inverse.cols = m.cols ∧ A * Block.matrix m.cols inverse.rows.toList = 1) ∨
    (A.det = 0 ∧ m.invert = .error (.error (.singular (.zeroPivot m.cols m.cols)))) := by
  intro A
  rw [invert, if_pos size]
  rcases Block.invert_cases (square_of_size size) with
    ⟨regular, inverse, inverted, square, product⟩ | ⟨zero, failed⟩
  · obtain ⟨made, listed⟩ := exists_of_rows square.width
    obtain ⟨cols, same⟩ := of_rows_eq_ok listed
    refine .inl ⟨regular, made, ?_, ?_, cols, ?_⟩
    · rw [inverted]
      change (ofRows m.cols inverse).mapError Failure.fault = .ok made
      rw [listed]
      rfl
    · rw [RowMatrix.size, ← Array.length_toList, same, square.rows]
    · rw [same, product]
  · exact .inr ⟨zero, by rw [failed]; rfl⟩

/-- A square matrix has an inverse on both sides, or its determinant is zero. -/
theorem invert_iff_det_ne_zero (m : RowMatrix ℝ) :
    let A := Block.matrix m.cols m.rows.toList
    ((∃ cause, m.invert = .error (.error (.mismatch cause))) ↔ m.size ≠ m.cols) ∧
      (m.size = m.cols →
        ((∃ inverse, m.invert = .ok inverse) ↔ A.det ≠ 0) ∧
        (∀ inverse, m.invert = .ok inverse →
          inverse.size = m.cols ∧ inverse.cols = m.cols ∧
          A * Block.matrix m.cols inverse.rows.toList = 1 ∧
          Block.matrix m.cols inverse.rows.toList * A = 1) ∧
        ((∃ cause, m.invert = .error (.error (.singular cause))) ↔ A.det = 0)) := by
  intro A
  by_cases size : m.size = m.cols
  · rcases invert_cases size with ⟨regular, inverse, inverted, height, width, product⟩ |
      ⟨zero, singular⟩
    · rw [inverted]
      refine ⟨⟨nofun, fun unfit => absurd size unfit⟩, fun _ => ⟨⟨fun _ => regular, fun _ =>
        ⟨inverse, rfl⟩⟩, fun other same => ?_, nofun, fun zero => absurd zero regular⟩⟩
      cases same
      exact ⟨height, width, product, mul_eq_one_comm.mp product⟩
    · rw [singular]
      exact ⟨⟨nofun, fun unfit => absurd size unfit⟩, fun _ =>
        ⟨⟨nofun, fun regular => absurd zero regular⟩, nofun, fun _ => zero, fun _ => ⟨_, rfl⟩⟩⟩
  · refine ⟨⟨fun _ => size, fun _ => ⟨.inverse m.size m.cols, if_neg size⟩⟩, fun fits => ?_⟩
    exact absurd fits size

-- A zero in the corner is no obstacle to the first matrix.
theorem invert_iff_det_ne_zero_two_rows :
    let regular : RowMatrix ℝ := ⟨2, #[[0, 1], [1, 0]], by simp⟩
    let singular : RowMatrix ℝ := ⟨2, #[[1, 2], [2, 4]], by simp⟩
    (∃ inverse, regular.invert = .ok inverse) ∧
      ∃ cause, singular.invert = .error (.error (.singular cause)) := by
  intro regular singular
  obtain ⟨-, inverts⟩ := invert_iff_det_ne_zero regular
  obtain ⟨-, fails⟩ := invert_iff_det_ne_zero singular
  refine ⟨(inverts rfl).1.mpr ?_, (fails rfl).2.2.mpr ?_⟩
  · change (Block.matrix 2 [[0, 1], [1, 0]]).det ≠ 0
    simp [det_fin_two, Block.matrix, Row.vector]
  · change (Block.matrix 2 [[1, 2], [2, 4]]).det = 0
    simp [det_fin_two, Block.matrix, Row.vector]
    norm_num

end RowMatrix
end LatentFactor
