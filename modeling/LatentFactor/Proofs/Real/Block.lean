import LatentFactor.Proofs.Real.Cholesky

set_option autoImplicit false

namespace LatentFactor.Block

noncomputable def form (block : Block ℝ) (x y : Row ℝ) : ℝ :=
  Row.dot x (block.map fun row => row.dot y)

def Symmetric (size : Nat) (block : Block ℝ) : Prop :=
  ∀ x y : Row ℝ, x.length = size → y.length = size → form block x y = form block y x

def Definite (size : Nat) (block : Block ℝ) : Prop :=
  ∀ x : Row ℝ, x.length = size → 0 ≤ form block x x ∧ (form block x x = 0 → x = Row.zeros size)

theorem form_zeros_left (block : Block ℝ) (size : Nat) (y : Row ℝ) :
    form block (Row.zeros size) y = 0 := Row.dot_zeros size _

theorem form_zeros_right (block : Block ℝ) (x : Row ℝ) (size : Nat) :
    form block x (Row.zeros size) = 0 := by
  have null : (block.map fun row => row.dot (Row.zeros size)) = Row.zeros block.length := by
    refine List.eq_replicate_iff.mpr ⟨List.length_map .., ?_⟩
    intro value member
    obtain ⟨row, -, rfl⟩ := List.mem_map.mp member
    rw [Row.dot_comm, Row.dot_zeros]
  rw [form, null, Row.dot_comm, Row.dot_zeros]

theorem form_tails {size : Nat} {rows : List (Row ℝ)} (width : ∀ row ∈ rows, row.length = size + 1)
    (x y : Row ℝ) (b : ℝ) :
    Row.dot x (rows.map fun row => row.dot (b :: y)) =
      b * Row.dot x (rows.filterMap List.head?) + form (rows.map List.tail) x y := by
  induction rows generalizing x with
  | nil =>
      rw [form]
      simp [Row.dot_nil_right]
  | cons row rows ih =>
      obtain ⟨first, rest⟩ := List.forall_mem_cons.mp width
      obtain ⟨c, row, rfl⟩ := List.exists_cons_of_length_eq_add_one first
      cases x with
      | nil =>
          simp only [form, Row.dot_nil_left]
          ring
      | cons a x =>
          have others := ih rest x
          rw [form] at others ⊢
          simp only [List.map_cons, List.filterMap_cons, List.head?_cons, List.tail_cons,
            Row.dot_cons, others]
          ring

theorem form_cons {size : Nat} {d : ℝ} {row : Row ℝ} {rows : List (Row ℝ)}
    (width : ∀ row ∈ rows, row.length = size + 1) (x y : Row ℝ) (a b : ℝ) :
    form ((d :: row) :: rows) (a :: x) (b :: y) =
      a * (d * b + Row.dot row y) + b * Row.dot x (rows.filterMap List.head?) +
        form (rows.map List.tail) x y := by
  rw [form, List.map_cons, Row.dot_cons, Row.dot_cons, form_tails width]
  ring

theorem form_lower_columns {size : Nat} {block : Block ℝ} (square : Square size block)
    (symmetric : Symmetric size block) {x y : Row ℝ} (left : x.length = size)
    (right : y.length = size) :
    Cholesky.form (Cholesky.lowerColumns block) x y = form block x y := by
  induction size generalizing block x y with
  | zero =>
      rw [List.eq_nil_of_length_eq_zero square.rows, List.eq_nil_of_length_eq_zero left,
        Cholesky.lowerColumns]
      rfl
  | succ size ih =>
      obtain ⟨row, rows, rfl⟩ := List.exists_cons_of_length_eq_add_one square.rows
      obtain ⟨first, width⟩ := List.forall_mem_cons.mp square.width
      obtain ⟨d, row, rfl⟩ := List.exists_cons_of_length_eq_add_one first
      obtain ⟨a, x, rfl⟩ := List.exists_cons_of_length_eq_add_one left
      obtain ⟨b, y, rfl⟩ := List.exists_cons_of_length_eq_add_one right
      have column : ∀ z : Row ℝ, z.length = size →
          Row.dot row z = Row.dot z (rows.filterMap List.head?) := by
        intro z length
        have unit : (1 :: Row.zeros size : Row ℝ).length = size + 1 :=
          congrArg (· + 1) (Row.length_zeros size)
        have swapped := symmetric (1 :: Row.zeros size) (0 :: z) unit (congrArg (· + 1) length)
        rw [form_cons width, form_cons width, form_zeros_left, form_zeros_right] at swapped
        linarith
      have smaller : Symmetric size (rows.map List.tail) := by
        intro u v first second
        have swapped := symmetric (0 :: u) (0 :: v) (congrArg (· + 1) first)
          (congrArg (· + 1) second)
        rw [form_cons width, form_cons width] at swapped
        linarith
      have inner := ih (Cholesky.square_tails square) smaller (Nat.succ.inj left)
        (Nat.succ.inj right)
      rw [Cholesky.lowerColumns, List.filterMap_cons, List.head?_cons]
      dsimp only
      rw [Cholesky.form_cons, inner, form_cons width, column y (Nat.succ.inj right),
        Row.dot_comm _ y, Row.dot_comm _ x]
      ring

theorem map_zip_with {α β γ δ ε : Type} {f : α → β → γ} {g : γ → δ} {left : α → ε}
    {right : β → ε} {h : ε → ε → δ} {xs : List α} {ys : List β}
    (each : ∀ x ∈ xs, ∀ y ∈ ys, g (f x y) = h (left x) (right y)) :
    (List.zipWith f xs ys).map g = List.zipWith h (xs.map left) (ys.map right) := by
  rw [List.map_zipWith, List.zipWith_map]
  induction xs generalizing ys with
  | nil => rfl
  | cons x xs ih =>
      cases ys with
      | nil => rfl
      | cons y ys =>
          have rest := ih fun u first v second =>
            each u (List.mem_cons_of_mem x first) v (List.mem_cons_of_mem y second)
          rw [List.zipWith_cons_cons, List.zipWith_cons_cons, rest,
            each x (List.mem_cons_self ..) y (List.mem_cons_self ..)]

theorem form_add {size : Nat} {a b : Block ℝ} (left : Square size a) (right : Square size b)
    (x y : Row ℝ) : form (a.add b) x y = form a x y + form b x y := by
  have rows : (a.add b).map (fun row => row.dot y) =
      Row.add (a.map fun row => row.dot y) (b.map fun row => row.dot y) :=
    map_zip_with fun row first other second =>
      Row.dot_add ((left.width row first).trans (right.width other second).symm) y
  have same : (a.map fun row => row.dot y).length = (b.map fun row => row.dot y).length := by
    rw [List.length_map, List.length_map, left.rows, right.rows]
  rw [form, rows, Row.dot_comm, Row.dot_add same, Row.dot_comm _ x, Row.dot_comm _ x]
  rfl

theorem form_add_product {size : Nat} {block : Block ℝ} (square : Square size block)
    {u v : Row ℝ} (left : u.length = size) (right : v.length = size) (x y : Row ℝ) :
    form (List.zipWith (fun row value => row.addScaled value v) block u) x y =
      form block x y + Row.dot u x * Row.dot v y := by
  have rows : (List.zipWith (fun row value => row.addScaled value v) block u).map
      (fun row => row.dot y) =
      List.zipWith (fun product value => product + value * Row.dot v y)
        (block.map fun row => row.dot y) (u.map id) :=
    map_zip_with fun row first value _ =>
      Row.dot_add_scaled ((square.width row first).trans right.symm) value y
  have same : (block.map fun row => row.dot y).length = (u.map id).length := by
    rw [List.length_map, List.length_map, square.rows, left]
  rw [form, rows, Row.dot_comm,
    Row.dot_zip_with (s := 1) (t := Row.dot v y) (fun a b => by ring) same, Row.dot_comm _ x,
    List.map_id, ← form]
  ring

theorem form_gram {size : Nat} {pairs : List (Row ℝ × Row ℝ)}
    (widths : ∀ pair ∈ pairs, pair.1.length = size ∧ pair.2.length = size) (x y : Row ℝ) :
    form (gram size pairs) x y =
      (pairs.map fun pair => Row.dot pair.1 x * Row.dot pair.2 y).sum := by
  have fold : ∀ (pairs : List (Row ℝ × Row ℝ)) (sum : Block ℝ), Square size sum →
      (∀ pair ∈ pairs, pair.1.length = size ∧ pair.2.length = size) →
      form (pairs.foldl (fun sum pair =>
          List.zipWith (fun row x => row.addScaled x pair.2) sum pair.1) sum) x y =
        form sum x y + (pairs.map fun pair => Row.dot pair.1 x * Row.dot pair.2 y).sum := by
    intro pairs
    induction pairs with
    | nil => simp
    | cons pair pairs ih =>
        intro sum start widths
        obtain ⟨⟨left, right⟩, rest⟩ := List.forall_mem_cons.mp widths
        rw [List.foldl_cons, ih _ (square_add_product start left right) rest,
          form_add_product start left right, List.map_cons, List.sum_cons, add_assoc]
  have null : form (List.replicate size (Row.zeros size)) x y = 0 := by
    rw [form, List.map_replicate, Row.dot_zeros, Row.dot_comm]
    exact Row.dot_zeros size x
  rw [gram, fold pairs _ (square_zeros size) widths, null, zero_add]

theorem dot_modify {row y rest : Row ℝ} {i : Nat} {b : ℝ} (value : ℝ) (inside : i < row.length)
    (there : y.drop i = b :: rest) :
    Row.dot (row.modify i (· + value)) y = Row.dot row y + value * b := by
  induction i generalizing row y with
  | zero =>
      obtain ⟨a, row, rfl⟩ := List.exists_cons_of_ne_nil (List.ne_nil_of_length_pos inside)
      rw [List.drop_zero] at there
      rw [there, List.modify_zero_cons, Row.dot_cons, Row.dot_cons]
      ring
  | succ i ih =>
      cases row with
      | nil => cases inside
      | cons a row =>
          cases y with
          | nil => cases there
          | cons c y =>
              have others := ih (Nat.lt_of_succ_lt_succ inside) there
              rw [List.modify_succ_cons, Row.dot_cons, Row.dot_cons, others]
              ring

-- The induction is on the rows from one place of the diagonal on.
theorem form_diagonal {size : Nat} (value : ℝ) {y : Row ℝ} (right : y.length = size)
    {rows : List (Row ℝ)} (width : ∀ row ∈ rows, row.length = size) {k : Nat}
    (remaining : k + rows.length = size) (x : Row ℝ) :
    form (rows.mapIdx fun i row => row.modify (i + k) (· + value)) x y =
      form rows x y + value * Row.dot x (y.drop k) := by
  induction rows generalizing k x with
  | nil =>
      have past : y.length ≤ k := by
        rw [right, ← remaining]
        exact Nat.le_refl k
      rw [List.drop_eq_nil_of_le past, Row.dot_nil_right]
      simp
  | cons row rows ih =>
      obtain ⟨own, others⟩ := List.forall_mem_cons.mp width
      rw [List.length_cons] at remaining
      have below : k < y.length := by omega
      have there := List.drop_eq_getElem_cons below
      have rest := fun x => ih others (show k + 1 + rows.length = size by omega) x
      cases x with
      | nil =>
          simp only [form, Row.dot_nil_left]
          ring
      | cons a x =>
          have tail := rest x
          simp only [form] at tail ⊢
          rw [List.mapIdx_cons, List.map_cons, List.map_cons, Row.dot_cons, Row.dot_cons, there,
            Row.dot_cons, Nat.zero_add, dot_modify value (by omega) there]
          simp only [Nat.add_assoc, Nat.add_comm 1] at tail ⊢
          rw [tail]
          ring

theorem form_add_diagonal {size : Nat} {block : Block ℝ} (square : Square size block) (value : ℝ)
    {y : Row ℝ} (right : y.length = size) (x : Row ℝ) :
    form (block.addDiagonal value) x y = form block x y + value * Row.dot x y := by
  have whole : 0 + block.length = size := by rw [square.rows, Nat.zero_add]
  have diagonal := form_diagonal value right square.width whole x
  rw [List.drop_zero] at diagonal
  exact diagonal

def Solves (size : Nat) (block : Block ℝ) (b x : Row ℝ) : Prop :=
  x.length = size ∧ ∀ y : Row ℝ, y.length = size → form block x y = Row.dot b y

section

variable {size : Nat} {block : Block ℝ} {b x : Row ℝ}

theorem solves_of_factor {factor : List (Row ℝ)} (square : Square size block)
    (symmetric : Symmetric size block)
    (factored : Cholesky.factor (Cholesky.lowerColumns block) = some factor)
    (right : b.length = size) : Solves size block b (Cholesky.solve factor b) := by
  have triangle := Cholesky.triangle_lower_columns square
  have length := Cholesky.length_solve (Cholesky.triangle_factor triangle factored) right
  refine ⟨length, fun y same => ?_⟩
  rw [← form_lower_columns square symmetric length same]
  exact Cholesky.form_solve triangle factored right same

-- Whatever a pass of refinement starts from, it ends in the solution.
theorem solves_of_refine {factor : List (Row ℝ)} (square : Square size block)
    (symmetric : Symmetric size block)
    (factored : Cholesky.factor (Cholesky.lowerColumns block) = some factor)
    (right : b.length = size) (start : x.length = size) :
    Solves size block b (refine block factor b x) := by
  have product_length : (block.map fun row => row.dot x).length = size := by
    rw [List.length_map, square.rows]
  have residual_length : (b.sub (block.map fun row => row.dot x)).length = size := by
    rw [Row.length_sub, right, product_length, Nat.min_self]
  obtain ⟨length, solves⟩ := solves_of_factor square symmetric factored residual_length
  have triangle := Cholesky.triangle_factor (Cholesky.triangle_lower_columns square) factored
  refine ⟨length_refine square triangle right start, fun y same => ?_⟩
  have product : Row.dot (block.map fun row => row.dot x) y = form block y x := Row.dot_comm _ y
  have added : form block (refine block factor b x) y = form block x y +
      form block (Cholesky.solve factor (b.sub (block.map fun row => row.dot x))) y :=
    Row.dot_add (start.trans length.symm) _
  rw [added, solves y same, Row.dot_sub (right.trans product_length.symm), product,
    symmetric x y start same]
  ring

theorem definite_of_factor {factor : List (Row ℝ)} (square : Square size block)
    (symmetric : Symmetric size block)
    (factored : Cholesky.factor (Cholesky.lowerColumns block) = some factor) :
    Definite size block := by
  have definite := Cholesky.definite_of_factor (Cholesky.triangle_lower_columns square) factored
  intro y length
  rw [← form_lower_columns square symmetric length length]
  exact definite y length

theorem solves_of_solve {passes : Nat} (square : Square size block)
    (symmetric : Symmetric size block) (right : b.length = size)
    (solved : solve block b passes = .ok x) :
    Definite size block ∧ Solves size block b x := by
  unfold solve at solved
  split at solved
  · cases solved
  · rename_i factor factored
    dsimp only at solved
    split at solved
    · cases solved
      refine ⟨definite_of_factor square symmetric factored, ?_⟩
      clear * - square symmetric factored right
      induction passes with
      | zero => exact solves_of_factor square symmetric factored right
      | succ passes ih => exact solves_of_refine square symmetric factored right ih.1
    · cases solved

theorem exists_solve (square : Square size block) (symmetric : Symmetric size block)
    (definite : Definite size block) (b : Row ℝ) (passes : Nat) :
    ∃ x, solve block b passes = .ok x := by
  have lower : Cholesky.Definite size (Cholesky.lowerColumns block) := by
    intro y length
    rw [form_lower_columns square symmetric length length]
    exact definite y length
  obtain ⟨factor, factored⟩ :=
    Cholesky.exists_factor (Cholesky.triangle_lower_columns square) lower
  refine ⟨Nat.repeat (refine block factor b) passes (Cholesky.solve factor b), ?_⟩
  unfold solve
  rw [factored]
  exact if_pos (List.all_eq_true.mpr fun _ _ => rfl)

end

end LatentFactor.Block
