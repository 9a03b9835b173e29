import LatentFactor.Proofs.Block.Lower
import LatentFactor.Proofs.Real.Matrix

set_option autoImplicit false

namespace LatentFactor

open Matrix

namespace Block

variable {size : Nat} {block : Block ℝ}

def ofMatrix (A : Matrix (Fin size) (Fin size) ℝ) : Block ℝ := List.ofFn fun i => List.ofFn (A i)

-- The symmetric matrix with the lower triangle of a block.
def lowerMatrix (size : Nat) (block : Block ℝ) : Matrix (Fin size) (Fin size) ℝ :=
  Matrix.of fun i j => block.matrix size (max i j) (min i j)

theorem square_of_matrix (A : Matrix (Fin size) (Fin size) ℝ) : Square size (ofMatrix A) where
  rows := List.length_ofFn
  width := by
    intro row member
    obtain ⟨i, rfl⟩ := List.mem_ofFn.mp member
    exact List.length_ofFn

theorem entry_at_of_square (square : Square size block) (i j : Fin size) :
    block.entryAt? i j = some (block.matrix size i j) := by
  have inside : i < block.length := by
    rw [square.rows]
    exact i.isLt
  have wide : j < block[i.val].length := by
    rw [square.width _ (List.getElem_mem inside)]
    exact j.isLt
  rw [entryAt?, List.getElem?_eq_getElem inside, Option.bind_some, List.getElem?_eq_getElem wide,
    matrix, of_apply, Row.vector, List.getD_eq_getElem _ _ inside, List.getD_eq_getElem _ _ wide]

theorem matrix_of_matrix (A : Matrix (Fin size) (Fin size) ℝ) : (ofMatrix A).matrix size = A := by
  ext i j
  have row : (ofMatrix A).getD i [] = List.ofFn (A i) := by
    rw [ofMatrix, List.getD_eq_getElem _ _ (by rw [List.length_ofFn]; exact i.isLt),
      List.getElem_ofFn]
  rw [matrix, of_apply, row, Row.vector_of_fn]

theorem lower_matrix_is_symm (size : Nat) (block : Block ℝ) :
    (block.lowerMatrix size).IsSymm := by
  ext i j
  rw [transpose_apply, lowerMatrix, of_apply, of_apply, max_comm, min_comm]

theorem lower_matrix_of_le {i j : Fin size} (below : j ≤ i) :
    block.lowerMatrix size i j = block.matrix size i j := by
  rw [lowerMatrix, of_apply, max_eq_left below, min_eq_right below]

theorem lower_matrix_of_is_symm (symm : (block.matrix size).IsSymm) :
    block.lowerMatrix size = block.matrix size := by
  ext i j
  rcases le_total i j with above | below
  · rw [← (lower_matrix_is_symm size block).apply i j, lower_matrix_of_le above, symm.apply i j]
  · exact lower_matrix_of_le below

theorem symmetric_of_is_symm (square : Square size block) (symm : (block.matrix size).IsSymm) :
    Symmetric size block := by
  intro x y left right
  rw [form_eq_dot_product square left right, form_eq_dot_product square right left,
    dotProduct_mulVec, dotProduct_comm, ← mulVec_transpose, symm]

theorem same_lower_of_square (square : Square size block) :
    SameLower block (ofMatrix (block.lowerMatrix size)) where
  rows := square.rows.trans (square_of_matrix _).rows.symm
  entries := by
    intro i j below
    by_cases inside : i < size
    · let row : Fin size := ⟨i, inside⟩
      let col : Fin size := ⟨j, below.trans_lt inside⟩
      have own := entry_at_of_square square row col
      have other := entry_at_of_square (square_of_matrix (block.lowerMatrix size)) row col
      have under : col ≤ row := below
      rw [matrix_of_matrix, lower_matrix_of_le under] at other
      exact own.trans other.symm
    · have past : ∀ a : Block ℝ, Square size a → a.entryAt? i j = none := by
        intro a shape
        rw [entryAt?, List.getElem?_eq_none (by rw [shape.rows]; exact Nat.le_of_not_lt inside)]
        rfl
      rw [past _ square, past _ (square_of_matrix _)]

theorem solve_lower_cases (square : Square size block) {b : Row ℝ} (right : b.length = size) :
    ((block.lowerMatrix size).PosDef ∧ ∃ x, solve block b 0 = .ok x ∧ x.length = size ∧
      block.lowerMatrix size *ᵥ x.vector size = b.vector size) ∨
    (¬(block.lowerMatrix size).PosDef ∧
      solve block b 0 = .error (.singular (.notPositiveDefinite size size))) := by
  have mirrored := square_of_matrix (block.lowerMatrix size)
  have symmetric := symmetric_of_is_symm mirrored
    (by rw [matrix_of_matrix]; exact lower_matrix_is_symm size block)
  have cases := solve_symmetric_cases mirrored symmetric right 0
  rwa [matrix_of_matrix, ← solve_of_same_lower (same_lower_of_square square)] at cases

theorem solve_passes (square : Square size block) (symm : (block.matrix size).IsSymm) {b : Row ℝ}
    (right : b.length = size) (passes : Nat) : solve block b passes = solve block b 0 := by
  have symmetric := symmetric_of_is_symm square symm
  rcases solve_symmetric_cases square symmetric right passes with
    ⟨definite, x, solved, length, equal⟩ | ⟨indefinite, singular⟩
  · rcases solve_symmetric_cases square symmetric right 0 with
      ⟨-, y, plain, same, other⟩ | ⟨indefinite, -⟩
    · have vectors := eq_of_mul_vec_eq definite (equal.trans other.symm)
      rw [solved, plain, Row.vector_injective length same vectors]
    · exact absurd definite indefinite
  · rcases solve_symmetric_cases square symmetric right 0 with ⟨definite, -⟩ | ⟨-, plain⟩
    · exact absurd definite indefinite
    · rw [singular, plain]

end Block

namespace RowMatrix

variable {m : RowMatrix ℝ}

theorem square_of_size (square : m.size = m.cols) : Block.Square m.cols m.rows.toList where
  rows := square
  width := fun row member => m.width row (Array.mem_toList_iff.mp member)

theorem solve_eq_of_square (square : m.size = m.cols) {b : Row ℝ} (right : b.length = m.cols)
    (passes : Nat) : m.solve b passes = Block.solve m.rows.toList b passes :=
  if_pos ⟨square, square.trans right.symm⟩

theorem solve_eq_mismatch_iff (m : RowMatrix ℝ) (b : Row ℝ) (passes : Nat) :
    (∃ cause, m.solve b passes = .error (.mismatch cause)) ↔
      ¬(m.size = m.cols ∧ b.length = m.cols) := by
  constructor
  · rintro ⟨cause, failed⟩ ⟨square, right⟩
    rw [solve_eq_of_square square right] at failed
    rcases Block.solve_cases (square_of_size square) b passes with ⟨x, solved⟩ | singular
    · rw [solved] at failed
      cases failed
    · rw [singular] at failed
      cases failed
  · intro unfit
    refine ⟨.system m.size m.cols b.length, if_neg fun fits => unfit ⟨fits.1, ?_⟩⟩
    rw [← fits.2, fits.1]

/-- A system is solved from the lower triangle of its matrix: the symmetric matrix with that
triangle has to be positive definite. -/
theorem solve_iff_lower_pos_def (m : RowMatrix ℝ) (b : Row ℝ) (passes : Nat) :
    let A := Block.matrix m.cols m.rows.toList
    let S := Block.lowerMatrix m.cols m.rows.toList
    ((∃ cause, m.solve b passes = .error (.mismatch cause)) ↔
        ¬(m.size = m.cols ∧ b.length = m.cols)) ∧
      (m.size = m.cols ∧ b.length = m.cols →
        ((∃ x, m.solve b 0 = .ok x) ↔ S.PosDef) ∧
        (∀ x, m.solve b 0 = .ok x →
          x.length = m.cols ∧ S *ᵥ x.vector m.cols = b.vector m.cols) ∧
        ((∃ cause, m.solve b 0 = .error (.singular cause)) ↔ ¬S.PosDef) ∧
        (∀ other : RowMatrix ℝ, other.SameLower m → other.solve b 0 = m.solve b 0) ∧
        (A.IsSymm → m.solve b passes = m.solve b 0 ∧
          ∀ x, m.solve b passes = .ok x → A *ᵥ x.vector m.cols = b.vector m.cols)) := by
  intro A S
  refine ⟨solve_eq_mismatch_iff m b passes, fun ⟨size, right⟩ => ?_⟩
  have square := square_of_size size
  have sameLower := fun (other : RowMatrix ℝ) (same : other.SameLower m) =>
    solve_of_same_lower same b
  have refined : A.IsSymm → m.solve b passes = m.solve b 0 := by
    intro symm
    rw [solve_eq_of_square size right, solve_eq_of_square size right,
      Block.solve_passes square symm right]
  have cases := Block.solve_lower_cases square right
  rw [← solve_eq_of_square size right] at cases
  rcases cases with ⟨definite, x, solved, length, equal⟩ | ⟨indefinite, singular⟩
  · refine ⟨⟨fun _ => definite, fun _ => ⟨x, solved⟩⟩, fun y again => ?_, ?_, sameLower,
      fun symm => ⟨refined symm, fun y again => ?_⟩⟩
    · cases solved.symm.trans again
      exact ⟨length, equal⟩
    · rw [solved]
      exact ⟨nofun, fun indefinite => absurd definite indefinite⟩
    · cases solved.symm.trans ((refined symm).symm.trans again)
      have whole : S = A := Block.lower_matrix_of_is_symm symm
      rw [← whole, equal]
  · rw [singular] at sameLower refined ⊢
    refine ⟨⟨nofun, fun definite => absurd definite indefinite⟩, nofun,
      ⟨fun _ => indefinite, fun _ => ⟨_, rfl⟩⟩, sameLower,
      fun symm => ⟨refined symm, fun y again => ?_⟩⟩
    cases (refined symm).symm.trans again

-- The entry above the diagonal makes neither matrix singular, nor does it save the second one.
theorem solve_iff_lower_pos_def_two_rows :
    let regular : RowMatrix ℝ := ⟨2, #[[1, 5], [1, 2]], by simp⟩
    let singular : RowMatrix ℝ := ⟨2, #[[1, 5], [1, 1]], by simp⟩
    (∃ x, regular.solve [1, 1] 0 = .ok x) ∧
      ∃ cause, singular.solve [1, 1] 0 = .error (.singular cause) := by
  intro regular singular
  have form : ∀ (d : ℝ) (v : Fin 2 → ℝ),
      v ⬝ᵥ (Block.lowerMatrix 2 [[1, 5], [1, d]] *ᵥ v) =
        (v 0 + v 1) ^ 2 + (d - 1) * v 1 ^ 2 := by
    intro d v
    simp [dotProduct, mulVec, Fin.sum_univ_two, Block.lowerMatrix, Block.matrix, Row.vector]
    ring
  obtain ⟨-, fits⟩ := solve_iff_lower_pos_def regular [1, 1] 0
  obtain ⟨-, unfit⟩ := solve_iff_lower_pos_def singular [1, 1] 0
  refine ⟨(fits ⟨rfl, rfl⟩).1.mpr ?_, (unfit ⟨rfl, rfl⟩).2.2.1.mpr fun definite => ?_⟩
  · refine posDef_iff_dotProduct_mulVec.mpr ⟨?_, fun v nonzero => ?_⟩
    · exact (conjTranspose_eq_transpose_of_trivial _).trans (Block.lower_matrix_is_symm ..)
    · rw [star_trivial]
      have value := form 2 v
      by_cases last : v 1 = 0
      · have first : v 0 ≠ 0 := fun zero => nonzero (funext (Fin.forall_fin_two.mpr ⟨zero, last⟩))
        have square := sq_pos_of_ne_zero first
        rw [last, add_zero] at value
        change 0 < v ⬝ᵥ (Block.lowerMatrix 2 [[1, 5], [1, 2]] *ᵥ v)
        linarith
      · have square := sq_pos_of_ne_zero last
        have other := sq_nonneg (v 0 + v 1)
        change 0 < v ⬝ᵥ (Block.lowerMatrix 2 [[1, 5], [1, 2]] *ᵥ v)
        linarith
  · have nonzero : (![1, -1] : Fin 2 → ℝ) ≠ 0 := fun zero => one_ne_zero (congrFun zero 0)
    have positive := definite.dotProduct_mulVec_pos nonzero
    have value := form 1 ![1, -1]
    rw [star_trivial] at positive
    change 0 < ![1, -1] ⬝ᵥ (Block.lowerMatrix 2 [[1, 5], [1, 1]] *ᵥ ![1, -1]) at positive
    rw [value] at positive
    norm_num at positive

end RowMatrix
end LatentFactor
