import Mathlib.Data.List.GetD
import Mathlib.LinearAlgebra.Matrix.PosDef
import LatentFactor.Proofs.HeldOut
import LatentFactor.Proofs.Real.Block

set_option autoImplicit false

namespace LatentFactor

open Matrix

namespace Row

-- The first entries of a row; one that is missing counts as zero.
def vector (size : Nat) (x : Row ℝ) : Fin size → ℝ := fun i => x.getD i 0

theorem vector_of_fn {size : Nat} (v : Fin size → ℝ) : vector size (List.ofFn v) = v := by
  funext i
  rw [vector, List.getD_eq_getElem _ _ (by rw [List.length_ofFn]; exact i.isLt), List.getElem_ofFn]

theorem of_fn_vector {size : Nat} {x : Row ℝ} (length : x.length = size) :
    List.ofFn (x.vector size) = x := by
  subst length
  apply List.ext_getElem (List.length_ofFn ..)
  intro i first second
  rw [List.getElem_ofFn, vector, List.getD_eq_getElem _ _ second]

theorem vector_injective {size : Nat} {x y : Row ℝ} (left : x.length = size)
    (right : y.length = size) (same : x.vector size = y.vector size) : x = y := by
  rw [← of_fn_vector left, same, of_fn_vector right]

theorem vector_zeros (size : Nat) : (zeros size).vector size = 0 := by
  funext i
  rw [vector, List.getD_eq_getElem _ _ (by rw [length_zeros]; exact i.isLt)]
  exact List.getElem_replicate ..

theorem vector_eq_zero_iff {size : Nat} {x : Row ℝ} (length : x.length = size) :
    x.vector size = 0 ↔ x = zeros size := by
  rw [← vector_zeros]
  exact ⟨vector_injective length (length_zeros size), fun same => by rw [same]⟩

theorem dot_eq_dot_product {size : Nat} {x y : Row ℝ} (left : x.length = size)
    (right : y.length = size) : dot x y = x.vector size ⬝ᵥ y.vector size := by
  induction size generalizing x y with
  | zero =>
      rw [List.eq_nil_of_length_eq_zero left, dot_nil_left]
      exact (Finset.sum_empty).symm
  | succ size ih =>
      obtain ⟨a, x, rfl⟩ := List.exists_cons_of_length_eq_add_one left
      obtain ⟨b, y, rfl⟩ := List.exists_cons_of_length_eq_add_one right
      rw [dot_cons, ih (Nat.succ.inj left) (Nat.succ.inj right), dotProduct, dotProduct,
        Fin.sum_univ_succ]
      rfl

theorem vector_eq_of_dot {size : Nat} {x : Row ℝ} (length : x.length = size)
    {v : Fin size → ℝ}
    (same : ∀ y : Row ℝ, y.length = size → x.dot y = v ⬝ᵥ y.vector size) :
    x.vector size = v := by
  refine dotProduct_eq _ _ fun w => ?_
  have wide : (List.ofFn w).length = size := List.length_ofFn
  have product := same (List.ofFn w) wide
  rwa [dot_eq_dot_product length wide, vector_of_fn] at product

section

variable {size : Nat} {x y : Row ℝ}

theorem vector_add (left : x.length = size) (right : y.length = size) :
    (x.add y).vector size = x.vector size + y.vector size := by
  have length : (x.add y).length = size := by rw [length_add, left, right, Nat.min_self]
  refine vector_eq_of_dot length fun z wide => ?_
  rw [dot_add (left.trans right.symm), dot_eq_dot_product left wide,
    dot_eq_dot_product right wide, add_dotProduct]

theorem vector_add_scaled (left : x.length = size) (right : y.length = size) (factor : ℝ) :
    (x.addScaled factor y).vector size = x.vector size + factor • y.vector size := by
  have length : (x.addScaled factor y).length = size := by
    rw [length_add_scaled, left, right, Nat.min_self]
  refine vector_eq_of_dot length fun z wide => ?_
  rw [dot_add_scaled (left.trans right.symm), dot_eq_dot_product left wide,
    dot_eq_dot_product right wide, add_dotProduct, smul_dotProduct, smul_eq_mul]

theorem vector_scale (length : x.length = size) (factor : ℝ) :
    (x.scale factor).vector size = factor • x.vector size := by
  have kept : (x.scale factor).length = size := (List.length_map _).trans length
  refine vector_eq_of_dot kept fun z wide => ?_
  rw [dot_scale, dot_eq_dot_product length wide, smul_dotProduct, smul_eq_mul]

end

end Row

namespace Block

def matrix (size : Nat) (block : Block ℝ) : Matrix (Fin size) (Fin size) ℝ :=
  Matrix.of fun i => Row.vector size (block.getD i [])

section

variable {size : Nat} {block : Block ℝ}

theorem vector_products (square : Square size block) {y : Row ℝ} (right : y.length = size) :
    Row.vector size (block.map fun row => row.dot y) = block.matrix size *ᵥ y.vector size := by
  funext i
  have inside : i < block.length := by
    rw [square.rows]
    exact i.isLt
  have width := square.width _ (List.getElem_mem inside)
  have row : block.matrix size i = Row.vector size block[i.val] :=
    congrArg (Row.vector size) (List.getD_eq_getElem block [] inside)
  rw [Row.vector, List.getD_eq_getElem _ _ (by rwa [List.length_map]), List.getElem_map,
    Row.dot_eq_dot_product width right, ← row]
  rfl

theorem vector_combine (square : Square size block) {factors : Row ℝ}
    (length : factors.length = size) :
    Row.vector size (Row.combine size factors block) =
      factors.vector size ᵥ* block.matrix size := by
  refine Row.vector_eq_of_dot (Row.length_combine factors block square.width) fun y wide => ?_
  have products : (block.map fun row => row.dot y).length = size := by
    rw [List.length_map, square.rows]
  rw [Row.dot_combine_rows square.width, Row.dot_eq_dot_product length products,
    vector_products square wide, dotProduct_mulVec]

theorem form_eq_dot_product (square : Square size block) {x y : Row ℝ} (left : x.length = size)
    (right : y.length = size) :
    form block x y = x.vector size ⬝ᵥ (block.matrix size *ᵥ y.vector size) := by
  have length : (block.map fun row => row.dot y).length = size := by
    rw [List.length_map, square.rows]
  rw [form, Row.dot_eq_dot_product left length, vector_products square right]

theorem matrix_eq_of_form (square : Square size block) {A : Matrix (Fin size) (Fin size) ℝ}
    (same : ∀ x y : Row ℝ, x.length = size → y.length = size →
      form block x y = x.vector size ⬝ᵥ (A *ᵥ y.vector size)) :
    block.matrix size = A := by
  ext i j
  have entry : ∀ B : Matrix (Fin size) (Fin size) ℝ,
      Pi.single i 1 ⬝ᵥ (B *ᵥ Pi.single j 1) = B i j := by
    intro B
    rw [single_one_dotProduct, mulVec_single_one, Matrix.col_apply]
  have lengths : ∀ v : Fin size → ℝ, (List.ofFn v).length = size := fun _ => List.length_ofFn
  have forms := same (List.ofFn (Pi.single i 1)) (List.ofFn (Pi.single j 1)) (lengths _) (lengths _)
  rw [form_eq_dot_product square (lengths _) (lengths _), Row.vector_of_fn, Row.vector_of_fn,
    entry, entry] at forms
  exact forms

theorem is_hermitian_matrix (square : Square size block) (symmetric : Symmetric size block) :
    (block.matrix size).IsHermitian := by
  have transposed : block.matrix size = (block.matrix size)ᵀ := by
    refine matrix_eq_of_form square fun x y left right => ?_
    rw [symmetric x y left right, form_eq_dot_product square right left, dotProduct_mulVec,
      dotProduct_comm, ← mulVec_transpose]
  rw [Matrix.IsHermitian, conjTranspose_eq_transpose_of_trivial]
  exact transposed.symm

theorem definite_iff_pos_def (square : Square size block) (symmetric : Symmetric size block) :
    Definite size block ↔ (block.matrix size).PosDef := by
  rw [posDef_iff_dotProduct_mulVec]
  simp only [star_trivial]
  constructor
  · intro definite
    refine ⟨is_hermitian_matrix square symmetric, fun v nonzero => ?_⟩
    have length : (List.ofFn v).length = size := List.length_ofFn
    obtain ⟨nonneg, null⟩ := definite (List.ofFn v) length
    rw [form_eq_dot_product square length length, Row.vector_of_fn] at nonneg null
    refine lt_of_le_of_ne nonneg fun zero => nonzero ?_
    rw [← Row.vector_of_fn v]
    exact (Row.vector_eq_zero_iff length).mpr (null zero.symm)
  · rintro ⟨-, positive⟩ x length
    rw [form_eq_dot_product square length length]
    by_cases zero : x.vector size = 0
    · rw [zero, zero_dotProduct]
      exact ⟨le_refl 0, fun _ => (Row.vector_eq_zero_iff length).mp zero⟩
    · have above := positive zero
      exact ⟨above.le, fun null => absurd null above.ne'⟩

theorem solves_iff {b x : Row ℝ} (square : Square size block) (symmetric : Symmetric size block)
    (right : b.length = size) :
    Solves size block b x ↔
      x.length = size ∧ block.matrix size *ᵥ x.vector size = b.vector size := by
  constructor
  · rintro ⟨length, products⟩
    refine ⟨length, dotProduct_eq _ _ fun v => ?_⟩
    have same : (List.ofFn v).length = size := List.length_ofFn
    have product := products (List.ofFn v) same
    rw [symmetric x _ length same, form_eq_dot_product square same length,
      Row.dot_eq_dot_product right same, Row.vector_of_fn] at product
    rw [dotProduct_comm, product]
  · rintro ⟨length, solved⟩
    refine ⟨length, fun y same => ?_⟩
    rw [symmetric x y length same, form_eq_dot_product square same length, solved,
      Row.dot_eq_dot_product right same, dotProduct_comm]

-- In real arithmetic no entry is infinite, so only a pivot can stop a solve.
theorem solve_cases (square : Square size block) (b : Row ℝ) (passes : Nat) :
    (∃ x, solve block b passes = .ok x) ∨
      solve block b passes = .error (.singular (.notPositiveDefinite size size)) := by
  unfold solve
  cases Cholesky.factor (Cholesky.lowerColumns block) with
  | none => exact .inr (by rw [square.rows])
  | some factor =>
      refine .inl ⟨Nat.repeat (refine block factor b) passes (Cholesky.solve factor b), ?_⟩
      exact if_pos (List.all_eq_true.mpr fun _ _ => rfl)

theorem solve_ok_iff_pos_def (square : Square size block) (symmetric : Symmetric size block)
    {b : Row ℝ} (right : b.length = size) (passes : Nat) :
    (∃ x, solve block b passes = .ok x) ↔ (block.matrix size).PosDef := by
  rw [← definite_iff_pos_def square symmetric]
  constructor
  · rintro ⟨x, solved⟩
    exact (solves_of_solve square symmetric right solved).1
  · intro definite
    exact exists_solve square symmetric definite b passes

theorem solve_symmetric_cases (square : Square size block) (symmetric : Symmetric size block)
    {b : Row ℝ} (right : b.length = size) (passes : Nat) :
    ((block.matrix size).PosDef ∧ ∃ x, solve block b passes = .ok x ∧ x.length = size ∧
      block.matrix size *ᵥ x.vector size = b.vector size) ∨
    (¬(block.matrix size).PosDef ∧
      solve block b passes = .error (.singular (.notPositiveDefinite size size))) := by
  have solvable := solve_ok_iff_pos_def square symmetric right passes
  rcases solve_cases square b passes with ⟨x, solved⟩ | singular
  · have solves := (solves_of_solve square symmetric right solved).2
    rw [solves_iff square symmetric right] at solves
    exact .inl ⟨solvable.mp ⟨x, solved⟩, x, solved, solves⟩
  · refine .inr ⟨fun definite => ?_, singular⟩
    obtain ⟨x, solved⟩ := solvable.mpr definite
    rw [singular] at solved
    cases solved

end

end Block

theorem eq_of_mul_vec_eq {size : Nat} {A : Matrix (Fin size) (Fin size) ℝ} (definite : A.PosDef)
    {v w : Fin size → ℝ} (same : A *ᵥ v = A *ᵥ w) : v = w :=
  mulVec_injective_of_isUnit definite.isUnit same

namespace RowMatrix

def matrix (m : RowMatrix ℝ) : Matrix (Fin m.size) (Fin m.cols) ℝ :=
  Matrix.of fun r => Row.vector m.cols (m.rowAt r)

variable {m : RowMatrix ℝ}

theorem length_row_at {r : Nat} (inside : r < m.size) : (m.rowAt r).length = m.cols :=
  length_of_row (get_row_at inside)

theorem dot_row_at (r : Fin m.size) {x : Row ℝ} (length : x.length = m.cols) :
    Row.dot (m.rowAt r) x = (m.matrix *ᵥ x.vector m.cols) r :=
  Row.dot_eq_dot_product (length_row_at r.isLt) length

theorem rows_eq_of_fn : m.rows.toList = List.ofFn fun r : Fin m.size => m.rowAt r := by
  apply List.ext_getElem
  · rw [List.length_ofFn]
    rfl
  · intro r first second
    rw [List.getElem_ofFn, Array.getElem_toList]
    have found := m.get_row_at (r := r) first
    rw [Array.getElem?_eq_getElem first] at found
    exact Option.some.inj found

end RowMatrix

end LatentFactor
