import LatentFactor.Proofs.Real.Row

set_option autoImplicit false

namespace LatentFactor.Cholesky

-- The value `xᵀ A y` of a symmetric block given by the columns of its lower triangle.
noncomputable def form : List (Row ℝ) → Row ℝ → Row ℝ → ℝ
  | (pivot :: below) :: columns, a :: x, b :: y =>
      pivot * a * b + a * Row.dot below y + b * Row.dot below x + form columns x y
  | _, _, _ => 0

def Definite (size : Nat) (columns : List (Row ℝ)) : Prop :=
  ∀ x : Row ℝ, x.length = size → 0 ≤ form columns x x ∧
    (form columns x x = 0 → x = Row.zeros size)

theorem form_nil (x y : Row ℝ) : form [] x y = 0 := rfl

theorem form_cons (pivot a b : ℝ) (below x y : Row ℝ) (columns : List (Row ℝ)) :
    form ((pivot :: below) :: columns) (a :: x) (b :: y) =
      pivot * a * b + a * Row.dot below y + b * Row.dot below x + form columns x y := rfl

theorem form_zeros (columns : List (Row ℝ)) (size : Nat) (y : Row ℝ) :
    form columns (Row.zeros size) y = 0 := by
  induction columns generalizing size y with
  | nil => rfl
  | cons column columns ih =>
      cases column with
      | nil => rfl
      | cons pivot below =>
          cases size with
          | zero => rfl
          | succ size =>
              cases y with
              | nil => rfl
              | cons b y =>
                  change form ((pivot :: below) :: columns) (0 :: Row.zeros size) (b :: y) = 0
                  rw [form_cons, ih, Row.dot_comm below (Row.zeros size), Row.dot_zeros]
                  ring

theorem form_reduce {size : Nat} {columns : List (Row ℝ)} (triangle : Triangle size columns)
    {factor x y : Row ℝ} (length : factor.length = size) (left : x.length = size)
    (right : y.length = size) :
    form (reduce factor columns) x y =
      form columns x y - Row.dot factor x * Row.dot factor y := by
  induction size generalizing columns factor x y with
  | zero =>
      rw [triangle, List.eq_nil_of_length_eq_zero length]
      simp [reduce, form_nil, Row.dot_nil_left]
  | succ size ih =>
      obtain ⟨f, factor, rfl⟩ := List.exists_cons_of_length_eq_add_one length
      obtain ⟨a, x, rfl⟩ := List.exists_cons_of_length_eq_add_one left
      obtain ⟨b, y, rfl⟩ := List.exists_cons_of_length_eq_add_one right
      cases columns with
      | nil => exact triangle.elim
      | cons column columns =>
          obtain ⟨first, rest⟩ := triangle
          obtain ⟨pivot, below, rfl⟩ := List.exists_cons_of_length_eq_add_one first
          have same : factor.length = below.length :=
            (Nat.succ.inj length).trans (Nat.succ.inj first).symm
          have others := ih rest (Nat.succ.inj length) (Nat.succ.inj left) (Nat.succ.inj right)
          rw [reduce, List.zipWith_cons_cons, form_cons, form_cons, others, Row.dot_cons,
            Row.dot_cons, Row.dot_zip_with (s := -f) (t := 1) (fun a b => by ring) same,
            Row.dot_zip_with (s := -f) (t := 1) (fun a b => by ring) same]
          ring

theorem dot_scaled (root : ℝ) (positive : 0 < root) (below x : Row ℝ) :
    Row.dot below x = root * Row.dot (below.map (· / root)) x := by
  rw [Row.dot_divided, mul_div_cancel₀ _ positive.ne']

-- Completing the square takes the first unknown out of the form.
theorem form_square {size : Nat} {columns : List (Row ℝ)} (triangle : Triangle size columns)
    {root : ℝ} (positive : 0 < root) {below x y : Row ℝ} (length : below.length = size)
    (left : x.length = size) (right : y.length = size) (a b : ℝ) :
    form ((root * root :: below) :: columns) (a :: x) (b :: y) =
      (root * a + Row.dot (below.map (· / root)) x) *
          (root * b + Row.dot (below.map (· / root)) y) +
        form (reduce (below.map (· / root)) columns) x y := by
  rw [form_cons, form_reduce triangle (by rw [List.length_map, length]) left right,
    dot_scaled root positive below x, dot_scaled root positive below y]
  ring

theorem factor_cons_iff {pivot : ℝ} {below : Row ℝ} {columns factors : List (Row ℝ)} :
    factor ((pivot :: below) :: columns) = some factors ↔
      ∃ root, 0 < root ∧ pivot = root * root ∧ ∃ others,
        factor (reduce (below.map (· / root)) columns) = some others ∧
          factors = (root :: below.map (· / root)) :: others := by
  rw [factor]
  constructor
  · intro factored
    split at factored
    · rename_i positive
      obtain ⟨others, reduced, rfl⟩ := Option.map_eq_some_iff.mp factored
      exact ⟨Real.sqrt pivot, Real.sqrt_pos.mpr positive, (Real.mul_self_sqrt positive.le).symm,
        others, reduced, rfl⟩
    · cases factored
  · rintro ⟨root, positive, rfl, others, reduced, rfl⟩
    have root_eq : Scalar.sqrt (root * root) = root := Real.sqrt_mul_self positive.le
    rw [if_pos (mul_pos positive positive), root_eq]
    dsimp only
    rw [reduced]
    rfl

-- One unknown is eliminated at a time, so each proof below is an induction on the size.
theorem form_solve {size : Nat} {columns factors : List (Row ℝ)} (triangle : Triangle size columns)
    (factored : factor columns = some factors) {b y : Row ℝ} (length : b.length = size)
    (right : y.length = size) : form columns (solve factors b) y = Row.dot b y := by
  induction size generalizing columns factors b y with
  | zero =>
      rw [triangle, List.eq_nil_of_length_eq_zero length, form_nil, Row.dot_nil_left]
  | succ size ih =>
      obtain ⟨b, bs, rfl⟩ := List.exists_cons_of_length_eq_add_one length
      obtain ⟨c, y, rfl⟩ := List.exists_cons_of_length_eq_add_one right
      cases columns with
      | nil => exact triangle.elim
      | cons column columns =>
          obtain ⟨first, rest⟩ := triangle
          obtain ⟨pivot, below, rfl⟩ := List.exists_cons_of_length_eq_add_one first
          obtain ⟨root, positive, rfl, others, reduced, rfl⟩ := factor_cons_iff.mp factored
          have below_length : below.length = size := Nat.succ.inj first
          have scaled_length : (below.map (· / root)).length = size := by
            rw [List.length_map, below_length]
          have reduced_triangle := triangle_reduce scaled_length rest
          have bs_length : bs.length = size := Nat.succ.inj length
          have y_length : y.length = size := Nat.succ.inj right
          let bs' := List.zipWith (fun l c => -(b / root) * l + c) (below.map (· / root)) bs
          have bs'_length : bs'.length = size := by
            rw [List.length_zipWith, scaled_length, bs_length, Nat.min_self]
          have inner := ih reduced_triangle reduced bs'_length y_length
          have known : Row.dot bs' y =
              -(b / root) * Row.dot (below.map (· / root)) y + Row.dot bs y := by
            rw [Row.dot_zip_with (s := -(b / root)) (t := 1) (fun a b => by ring)
              (scaled_length.trans bs_length.symm), one_mul]
          have unfolded : solve ((root :: below.map (· / root)) :: others) (b :: bs) =
              (b / root - Row.dot (below.map (· / root)) (solve others bs')) / root ::
                solve others bs' := rfl
          have solved_length := length_solve (triangle_factor reduced_triangle reduced) bs'_length
          rw [unfolded, form_square rest positive below_length solved_length y_length, inner, known,
            Row.dot_cons]
          field_simp
          ring

theorem definite_of_factor {size : Nat} {columns factors : List (Row ℝ)}
    (triangle : Triangle size columns) (factored : factor columns = some factors) :
    Definite size columns := by
  induction size generalizing columns factors with
  | zero =>
      intro x length
      rw [triangle, form_nil, List.eq_nil_of_length_eq_zero length]
      exact ⟨le_rfl, fun _ => rfl⟩
  | succ size ih =>
      cases columns with
      | nil => exact triangle.elim
      | cons column columns =>
          obtain ⟨first, rest⟩ := triangle
          obtain ⟨pivot, below, rfl⟩ := List.exists_cons_of_length_eq_add_one first
          obtain ⟨root, positive, rfl, others, reduced, -⟩ := factor_cons_iff.mp factored
          have below_length : below.length = size := Nat.succ.inj first
          have scaled_length : (below.map (· / root)).length = size := by
            rw [List.length_map, below_length]
          have definite := ih (triangle_reduce scaled_length rest) reduced
          intro x length
          obtain ⟨a, x, rfl⟩ := List.exists_cons_of_length_eq_add_one length
          obtain ⟨nonneg, null⟩ := definite x (Nat.succ.inj length)
          rw [form_square rest positive below_length (Nat.succ.inj length) (Nat.succ.inj length)]
          have square := mul_self_nonneg (root * a + Row.dot (below.map (· / root)) x)
          refine ⟨by linarith, fun zero => ?_⟩
          have others := null (by linarith)
          have first : root * a + Row.dot (below.map (· / root)) x = 0 :=
            mul_self_eq_zero.mp (by linarith)
          rw [others, Row.dot_comm, Row.dot_zeros, add_zero] at first
          have head : a = 0 := (mul_eq_zero.mp first).resolve_left positive.ne'
          rw [head, others]
          rfl

theorem exists_factor {size : Nat} {columns : List (Row ℝ)} (triangle : Triangle size columns)
    (definite : Definite size columns) : ∃ factors, factor columns = some factors := by
  induction size generalizing columns with
  | zero =>
      rw [triangle, factor]
      exact ⟨[], rfl⟩
  | succ size ih =>
      cases columns with
      | nil => exact triangle.elim
      | cons column columns =>
          obtain ⟨first, rest⟩ := triangle
          obtain ⟨pivot, below, rfl⟩ := List.exists_cons_of_length_eq_add_one first
          have below_length : below.length = size := Nat.succ.inj first
          have positive : 0 < pivot := by
            have unit_length : (1 :: Row.zeros size : Row ℝ).length = size + 1 :=
              congrArg (· + 1) (Row.length_zeros size)
            obtain ⟨nonneg, null⟩ := definite (1 :: Row.zeros size) unit_length
            have value : form ((pivot :: below) :: columns) (1 :: Row.zeros size)
                (1 :: Row.zeros size) = pivot := by
              rw [form_cons, form_zeros, Row.dot_comm, Row.dot_zeros]
              ring
            rw [value] at nonneg null
            apply nonneg.lt_of_ne
            intro zero
            exact one_ne_zero (List.cons.inj (null zero.symm)).1
          let root := Real.sqrt pivot
          have root_positive : 0 < root := Real.sqrt_pos.mpr positive
          have pivot_eq : pivot = root * root := (Real.mul_self_sqrt positive.le).symm
          have scaled_length : (below.map (· / root)).length = size := by
            rw [List.length_map, below_length]
          have smaller : Definite size (reduce (below.map (· / root)) columns) := by
            intro x length
            -- The first unknown that makes the square vanish.
            let a := -Row.dot (below.map (· / root)) x / root
            have vanishes : root * a + Row.dot (below.map (· / root)) x = 0 := by
              have product : root * a = -Row.dot (below.map (· / root)) x :=
                mul_div_cancel₀ _ root_positive.ne'
              rw [product, neg_add_cancel]
            have value := form_square rest root_positive below_length length length a a
            rw [vanishes, zero_mul, zero_add, ← pivot_eq] at value
            obtain ⟨nonneg, null⟩ := definite (a :: x) (congrArg (· + 1) length)
            rw [value] at nonneg null
            exact ⟨nonneg, fun zero => (List.cons.inj (null zero)).2⟩
          obtain ⟨others, reduced⟩ := ih (triangle_reduce scaled_length rest) smaller
          exact ⟨_, factor_cons_iff.mpr ⟨root, root_positive, pivot_eq, others, reduced, rfl⟩⟩

end LatentFactor.Cholesky
