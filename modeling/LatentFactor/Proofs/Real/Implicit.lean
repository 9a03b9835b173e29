import Mathlib.Algebra.Order.Star.Real
import LatentFactor.Proofs.Real.Matrix
import LatentFactor.Proofs.Real.Objective

set_option autoImplicit false

namespace LatentFactor

open Matrix

section

variable {κ : Type} [DecidableEq κ] {entries : List (κ × ℝ)} {alpha : ℝ}

-- One for the row itself, and what all its ratings add.
noncomputable def confidenceAt (alpha : ℝ) (entries : List (κ × ℝ)) (k : κ) : ℝ :=
  1 + ((entries.filter fun entry => entry.1 = k).map fun entry => alpha * entry.2).sum

theorem confidence_at_nonneg (distinct : (entries.map Prod.fst).Nodup)
    (confident : ∀ entry ∈ entries, 0 ≤ 1 + alpha * entry.2) (k : κ) :
    0 ≤ confidenceAt alpha entries k := by
  rw [confidenceAt, sum_group Prod.fst distinct k fun entry => alpha * entry.2]
  cases found : entries.find? fun entry => entry.1 = k with
  | none =>
      rw [Option.map_none, Option.getD_none, add_zero]
      exact zero_le_one
  | some entry => exact confident entry (List.mem_of_find?_eq_some found)

end

theorem lookup_eq_find (observations : Observations ℝ) (r : Nat) :
    observations.lookup r =
      (observations.find? fun observation => observation.1 = r).map Prod.snd := by
  induction observations with
  | nil => rfl
  | cons observation observations ih =>
      obtain ⟨row, value⟩ := observation
      by_cases same : row = r
      · simp [same]
      · have other : (r == row) = false := beq_eq_false_iff_ne.mpr (Ne.symm same)
        rw [List.lookup_cons, other, List.find?_cons_of_neg (by simpa using same)]
        exact ih

section

variable {observations : Observations ℝ} {size : Nat}

theorem sum_rated (distinct : (observations.map Prod.fst).Nodup) (r : Nat) (f : ℝ → ℝ) :
    ((observations.filter fun observation => observation.1 = r).map fun observation =>
      f observation.2).sum = ((observations.lookup r).map f).getD 0 := by
  rw [sum_group Prod.fst distinct r, lookup_eq_find, Option.map_map]
  rfl

theorem confidence_at_of_distinct (distinct : (observations.map Prod.fst).Nodup) (alpha : ℝ)
    (r : Nat) : confidenceAt alpha observations r = confidence alpha (observations.lookup r) := by
  rw [confidenceAt, sum_rated distinct r (alpha * ·)]
  cases observations.lookup r with
  | none => exact add_zero 1
  | some value => rfl

theorem sum_observations (inside : ∀ observation ∈ observations, observation.1 < size)
    (f : Nat × ℝ → ℝ) (g : Nat → ℝ) :
    (observations.map fun observation => f observation * g observation.1).sum =
      ∑ r : Fin size,
        ((observations.filter fun observation => observation.1 = r.val).map f).sum * g r := by
  have distinct : (List.ofFn fun r : Fin size => r.val).Nodup :=
    List.nodup_ofFn.mpr Fin.val_injective
  have known : ∀ observation ∈ observations,
      observation.1 ∈ List.ofFn fun r : Fin size => r.val := fun observation member =>
    List.mem_ofFn.mpr ⟨⟨observation.1, inside observation member⟩, rfl⟩
  rw [← sum_groups Prod.fst distinct known, List.map_ofFn, List.sum_ofFn]
  apply Finset.sum_congr rfl
  intro r _
  rw [Function.comp_apply, ← List.sum_map_mul_right]
  apply sum_congr
  intro observation member
  have same : observation.1 = r := of_decide_eq_true (List.mem_filter.mp member).2
  rw [same]

end

theorem form_weighted {size cols : Nat} (Y : Matrix (Fin size) (Fin cols) ℝ) (c : Fin size → ℝ)
    (lambda : ℝ) (v w : Fin cols → ℝ) :
    v ⬝ᵥ ((Yᵀ * diagonal c * Y + lambda • 1) *ᵥ w) =
      (∑ r, c r * ((Y *ᵥ v) r * (Y *ᵥ w) r)) + lambda * (v ⬝ᵥ w) := by
  have square : v ⬝ᵥ ((Yᵀ * diagonal c * Y) *ᵥ w) = (Y *ᵥ v) ⬝ᵥ (diagonal c *ᵥ (Y *ᵥ w)) := by
    rw [← mulVec_mulVec, ← mulVec_mulVec, dotProduct_mulVec, vecMul_transpose]
  have terms : (Y *ᵥ v) ⬝ᵥ (diagonal c *ᵥ (Y *ᵥ w)) =
      ∑ r, c r * ((Y *ᵥ v) r * (Y *ᵥ w) r) := by
    apply Finset.sum_congr rfl
    intro r _
    rw [mulVec_diagonal]
    ring
  rw [add_mulVec, dotProduct_add, square, terms, smul_mulVec, one_mulVec, dotProduct_smul,
    smul_eq_mul]

theorem pos_def_weighted {size cols : Nat} (Y : Matrix (Fin size) (Fin cols) ℝ)
    {c : Fin size → ℝ} {lambda : ℝ} (nonneg : ∀ r, 0 ≤ c r) (positive : 0 < lambda) :
    (Yᵀ * diagonal c * Y + lambda • 1).PosDef := by
  have weighted := (PosSemidef.diagonal nonneg).conjTranspose_mul_mul_same Y
  rw [conjTranspose_eq_transpose_of_trivial] at weighted
  exact PosDef.posSemidef_add weighted (PosDef.one.smul positive)

namespace RowUpdate

variable {update : RowUpdate ℝ} {observations : Observations ℝ} {rated : List (Row ℝ × ℝ)}
  {alpha : ℝ}

theorem matrix_system_implicit (shared : SharedOf update.feedback update.fixed update.shared)
    (implicit : update.feedback = .implicit alpha)
    (inside : ∀ observation ∈ observations, observation.1 < update.fixed.size)
    (looked : update.ratedRows observations = .ok rated) :
    Block.matrix update.fixed.cols (update.system rated).1 =
      update.fixed.matrixᵀ *
        diagonal (fun r : Fin update.fixed.size => confidenceAt alpha observations r) *
        update.fixed.matrix + update.lambda • 1 := by
  have widths := length_of_rated looked
  refine Block.matrix_eq_of_form (square_system shared widths).1 fun x y left right => ?_
  have own : (rated.map fun entry => update.feedback.curvature entry.2 *
      (Row.dot entry.1 x * Row.dot entry.1 y)).sum =
      ∑ r : Fin update.fixed.size, ((observations.filter fun observation =>
          observation.1 = r.val).map fun observation => alpha * observation.2).sum *
        (Row.dot (update.fixed.rowAt r) x * Row.dot (update.fixed.rowAt r) y) := by
    rw [rated_eq_map looked, List.map_map, implicit]
    exact sum_observations inside (fun observation => alpha * observation.2) fun r =>
      Row.dot (update.fixed.rowAt r) x * Row.dot (update.fixed.rowAt r) y
  have all : update.feedback.spread update.fixed.rows.toList x y =
      ∑ r : Fin update.fixed.size,
        Row.dot (update.fixed.rowAt r) x * Row.dot (update.fixed.rowAt r) y := by
    rw [implicit, Feedback.spread, RowMatrix.rows_eq_of_fn, List.map_ofFn, List.sum_ofFn]
    rfl
  rw [form_system shared widths right, own, all, form_weighted, ← Finset.sum_add_distrib, implicit,
    Feedback.weight, mul_one, Row.dot_eq_dot_product left right]
  congr 1
  apply Finset.sum_congr rfl
  intro r _
  rw [RowMatrix.dot_row_at r left, RowMatrix.dot_row_at r right, confidenceAt]
  ring

theorem right_system_implicit (implicit : update.feedback = .implicit alpha)
    (inside : ∀ observation ∈ observations, observation.1 < update.fixed.size)
    (distinct : (observations.map Prod.fst).Nodup)
    (shared : SharedOf update.feedback update.fixed update.shared)
    (looked : update.ratedRows observations = .ok rated) :
    Row.vector update.fixed.cols (update.system rated).2 =
      update.fixed.matrixᵀ *ᵥ
        (diagonal (fun r : Fin update.fixed.size => confidence alpha (observations.lookup r.val)) *ᵥ
          fun r : Fin update.fixed.size => preference (observations.lookup r.val)) := by
  have widths := length_of_rated looked
  have right := (square_system shared widths).2
  refine dotProduct_eq _ _ fun v => ?_
  have length : (List.ofFn v).length = update.fixed.cols := List.length_ofFn
  have product : Row.dot (update.system rated).2 (List.ofFn v) = _ := dot_system widths _
  rw [Row.dot_eq_dot_product right length, Row.vector_of_fn] at product
  rw [product, rated_eq_map looked, List.map_map, implicit]
  refine (sum_observations inside (fun observation => 1 + alpha * observation.2) fun r =>
    Row.dot (update.fixed.rowAt r) (List.ofFn v)).trans ?_
  rw [dotProduct_comm, dotProduct_mulVec, vecMul_transpose]
  apply Finset.sum_congr rfl
  intro r _
  rw [sum_rated distinct r.val fun value => 1 + alpha * value, RowMatrix.dot_row_at r length,
    Row.vector_of_fn, mulVec_diagonal]
  cases observations.lookup r.val with
  | none =>
      simp only [preference, Option.map_none, Option.getD_none]
      ring
  | some value =>
      simp only [confidence, preference, Option.map_some, Option.getD_some]
      ring

theorem definite_of_implicit (shared : SharedOf update.feedback update.fixed update.shared)
    (implicit : update.feedback = .implicit alpha) (positive : 0 < update.lambda)
    (inside : ∀ observation ∈ observations, observation.1 < update.fixed.size)
    (looked : update.ratedRows observations = .ok rated)
    (nonneg : ∀ r, 0 ≤ confidenceAt alpha observations r) :
    Block.Definite update.fixed.cols (update.system rated).1 := by
  have widths := length_of_rated looked
  rw [Block.definite_iff_pos_def (square_system shared widths).1 (symmetric_system shared widths),
    matrix_system_implicit shared implicit inside looked]
  exact pos_def_weighted _ (fun r => nonneg r) positive

section

variable {fixed : RowMatrix ℝ} {lambda : ℝ} {passes : Nat}

-- What the update solves, in one matrix: every row of the other side with its confidence.
noncomputable def dense (fixed : RowMatrix ℝ) (alpha lambda : ℝ) (observations : Observations ℝ) :
    Matrix (Fin fixed.cols) (Fin fixed.cols) ℝ :=
  fixed.matrixᵀ *
    diagonal (fun r : Fin fixed.size => confidence alpha (observations.lookup r.val)) *
    fixed.matrix + lambda • 1

noncomputable def denseRight (fixed : RowMatrix ℝ) (alpha : ℝ) (observations : Observations ℝ) :
    Fin fixed.cols → ℝ :=
  fixed.matrixᵀ *ᵥ
    (diagonal (fun r : Fin fixed.size => confidence alpha (observations.lookup r.val)) *ᵥ
      fun r : Fin fixed.size => preference (observations.lookup r.val))

theorem form_dense {x : Row ℝ} (length : x.length = fixed.cols) :
    x.vector fixed.cols ⬝ᵥ (dense fixed alpha lambda observations *ᵥ x.vector fixed.cols) =
      (∑ r : Fin fixed.size, confidence alpha (observations.lookup r.val) *
        (Row.dot (fixed.rowAt r) x * Row.dot (fixed.rowAt r) x)) + lambda * Row.dot x x := by
  rw [dense, form_weighted, ← Row.dot_eq_dot_product length length]
  simp only [RowMatrix.dot_row_at _ length]

theorem solve_implicit_cases
    (created : create (.implicit alpha) fixed lambda passes = .ok update)
    (inside : ∀ observation ∈ observations, observation.1 < fixed.size)
    (distinct : (observations.map Prod.fst).Nodup) :
    ((dense fixed alpha lambda observations).PosDef ∧
      ∃ x, update.solve observations = .ok x ∧ x.length = fixed.cols ∧
        dense fixed alpha lambda observations *ᵥ x.vector fixed.cols =
          denseRight fixed alpha observations) ∨
    (¬(dense fixed alpha lambda observations).PosDef ∧
      update.solve observations =
        .error (.error (.singular (.notPositiveDefinite fixed.cols fixed.cols)))) := by
  have holds := RowMatrix.holds_system_of_distinct inside distinct (holds_of_create created)
  obtain ⟨implicit, rfl, rfl, rfl, shared⟩ := create_eq_ok created
  obtain ⟨rated, looked⟩ := exists_rated inside
  have widths := length_of_rated looked
  obtain ⟨square, right⟩ := square_system shared widths
  have symmetric := symmetric_system shared widths
  have matrix : Block.matrix update.fixed.cols (update.system rated).1 =
      dense update.fixed alpha update.lambda observations := by
    rw [matrix_system_implicit shared implicit inside looked, dense]
    simp only [confidence_at_of_distinct distinct]
  have cases := Block.solve_symmetric_cases square symmetric right update.passes
  rw [matrix, right_system_implicit implicit inside distinct shared looked] at cases
  rw [solve_eq looked holds]
  rcases cases with ⟨definite, x, solved, solves⟩ | ⟨indefinite, singular⟩
  · exact .inl ⟨definite, x, by rw [solved]; rfl, solves⟩
  · exact .inr ⟨indefinite, by rw [singular]; rfl⟩

theorem pos_def_dense (distinct : (observations.map Prod.fst).Nodup) (positive : 0 < lambda)
    (confident : ∀ observation ∈ observations, 0 ≤ 1 + alpha * observation.2) :
    (dense fixed alpha lambda observations).PosDef := by
  refine pos_def_weighted _ (fun r => ?_) positive
  rw [← confidence_at_of_distinct distinct]
  exact confidence_at_nonneg distinct confident r

theorem solve_implicit_unrated (positive : 0 < lambda)
    (created : create (.implicit alpha) fixed lambda passes = .ok update) :
    update.solve [] = .ok (Row.zeros fixed.cols) := by
  have definite : (dense fixed alpha lambda []).PosDef :=
    pos_def_dense List.nodup_nil positive (List.forall_mem_nil _)
  rcases solve_implicit_cases created (List.forall_mem_nil _) List.nodup_nil with
    ⟨-, x, solved, length, equal⟩ | ⟨indefinite, -⟩
  · have null : denseRight fixed alpha [] = 0 := by
      have unrated : (fun r : Fin fixed.size => preference (List.lookup r.val [])) = 0 := rfl
      rw [denseRight, unrated, mulVec_zero, mulVec_zero]
    have zero : x.vector fixed.cols = 0 := by
      apply eq_of_mul_vec_eq definite
      rw [equal, null, mulVec_zero]
    rw [solved, (Row.vector_eq_zero_iff length).mp zero]
  · exact absurd definite indefinite

/-- The shared square and what is added for the rated rows are together the square weighted by all
confidences, and the right side is its product with the preferences. -/
theorem solve_implicit_iff_dense (observations : Observations ℝ)
    (created : create (.implicit alpha) fixed lambda passes = .ok update) (positive : 0 < lambda)
    (inside : ∀ observation ∈ observations, observation.1 < fixed.size)
    (distinct : (observations.map Prod.fst).Nodup) :
    let Y := fixed.matrix
    let C := diagonal fun r : Fin fixed.size => confidence alpha (observations.lookup r.val)
    let p := fun r : Fin fixed.size => preference (observations.lookup r.val)
    let A := Yᵀ * C * Y + lambda • 1
    ((∃ x, update.solve observations = .ok x) ↔ A.PosDef) ∧
      (∀ x, update.solve observations = .ok x →
        x.length = fixed.cols ∧ ∀ v, A *ᵥ v = Yᵀ *ᵥ (C *ᵥ p) ↔ v = x.vector fixed.cols) ∧
      (¬A.PosDef → update.solve observations =
        .error (.error (.singular (.notPositiveDefinite fixed.cols fixed.cols)))) ∧
      ((∀ observation ∈ observations, 0 ≤ 1 + alpha * observation.2) →
        ∃ x, update.solve observations = .ok x) ∧
      update.solve [] = .ok (Row.zeros fixed.cols) := by
  intro Y C p A
  refine ⟨?_, ?_, ?_, ?_, solve_implicit_unrated positive created⟩
  all_goals rcases solve_implicit_cases created inside distinct with
    ⟨definite, x, solved, length, equal⟩ | ⟨indefinite, singular⟩
  · exact ⟨fun _ => definite, fun _ => ⟨x, solved⟩⟩
  · rw [singular]
    exact ⟨nofun, fun definite => absurd definite indefinite⟩
  · intro y again
    cases solved.symm.trans again
    refine ⟨length, fun v => ⟨fun same => ?_, fun same => same ▸ equal⟩⟩
    exact eq_of_mul_vec_eq definite (same.trans equal.symm)
  · intro y again
    rw [singular] at again
    cases again
  · exact fun indefinite => absurd definite indefinite
  · exact fun _ => singular
  · exact fun _ => ⟨x, solved⟩
  · exact fun confident => absurd (pos_def_dense distinct positive confident) indefinite

end

-- With a rating of minus three the second row has confidence minus two.
theorem solve_implicit_iff_dense_two_rows :
    let fixed : RowMatrix ℝ := ⟨1, #[[1], [2]], by simp⟩
    ∃ update, create (.implicit 1) fixed 1 0 = .ok update ∧
      (∃ x, update.solve [(1, 3)] = .ok x) ∧
      update.solve [(1, -3)] = .error (.error (.singular (.notPositiveDefinite 1 1))) := by
  intro fixed
  obtain ⟨update, created⟩ : ∃ update, create (.implicit 1) fixed 1 0 = .ok update := by
    refine ⟨_, bind_eq_ok_iff.mpr ⟨_, bind_eq_ok_iff.mpr ⟨(), ?_, rfl⟩, rfl⟩⟩
    exact Memory.reserve_eq_ok_iff.mpr (by decide)
  have inside : ∀ value : ℝ, ∀ observation ∈ [(1, value)], observation.1 < fixed.size := by
    intro value observation member
    rw [List.mem_singleton.mp member]
    exact Nat.one_lt_two
  have distinct : ∀ value : ℝ, ([(1, value)].map Prod.fst).Nodup := fun _ =>
    List.nodup_singleton 1
  obtain ⟨-, -, -, confident, -⟩ :=
    solve_implicit_iff_dense [(1, 3)] created zero_lt_one (inside 3) (distinct 3)
  obtain ⟨-, -, singular, -, -⟩ :=
    solve_implicit_iff_dense [(1, -3)] created zero_lt_one (inside (-3)) (distinct (-3))
  refine ⟨update, created, confident ?_, singular fun definite => ?_⟩
  · intro observation member
    rw [List.mem_singleton.mp member]
    norm_num
  · have unit : ([1] : Row ℝ).length = fixed.cols := rfl
    have nonzero : Row.vector fixed.cols [1] ≠ 0 := by
      rw [Ne, Row.vector_eq_zero_iff unit]
      exact fun same => one_ne_zero (List.cons.inj same).1
    have two : ∀ f : Fin fixed.size → ℝ, ∑ r, f r = f ⟨0, by decide⟩ + f ⟨1, by decide⟩ :=
      fun f => Fin.sum_univ_two f
    have unrated : List.lookup 0 [((1 : Nat), (-3 : ℝ))] = none := rfl
    have rated : List.lookup 1 [((1 : Nat), (-3 : ℝ))] = some (-3) := rfl
    have form := definite.dotProduct_mulVec_pos nonzero
    rw [star_trivial] at form
    rw [← dense, form_dense unit, two] at form
    norm_num [unrated, rated, Row.dot, confidence, RowMatrix.rowAt, fixed] at form

end RowUpdate
end LatentFactor
