import LatentFactor.Block.Solve

set_option autoImplicit false

namespace LatentFactor

theorem exists_of_mem_zip_with {α β γ : Type} {f : α → β → γ} {xs : List α} {ys : List β} {z : γ}
    (member : z ∈ List.zipWith f xs ys) : ∃ x y, x ∈ xs ∧ y ∈ ys ∧ f x y = z := by
  rw [← List.map_uncurry_zip_eq_zipWith] at member
  obtain ⟨⟨x, y⟩, there, rfl⟩ := List.mem_map.mp member
  exact ⟨x, y, (List.of_mem_zip there).1, (List.of_mem_zip there).2, rfl⟩

namespace Row

variable {α : Type} [Scalar α]

theorem length_zeros (length : Nat) : (zeros length : Row α).length = length :=
  List.length_replicate

theorem length_add (x y : Row α) : (x.add y).length = min x.length y.length :=
  List.length_zipWith

theorem length_sub (x y : Row α) : (x.sub y).length = min x.length y.length :=
  List.length_zipWith

theorem length_scale (factor : α) (x : Row α) : (x.scale factor).length = x.length :=
  List.length_map ..

theorem length_add_scaled (x y : Row α) (factor : α) :
    (x.addScaled factor y).length = min x.length y.length :=
  List.length_zipWith

theorem length_combine {length : Nat} (factors : List α) (rows : List (Row α))
    (width : ∀ row ∈ rows, row.length = length) :
    (combine length factors rows).length = length := by
  have fold : ∀ (entries : List (α × Row α)) (sum : Row α), sum.length = length →
      (∀ entry ∈ entries, entry.2.length = length) →
      (entries.foldl (fun sum entry => sum.addScaled entry.1 entry.2) sum).length = length := by
    intro entries
    induction entries with
    | nil => exact fun sum start _ => start
    | cons entry entries ih =>
        intro sum start widths
        obtain ⟨first, rest⟩ := List.forall_mem_cons.mp widths
        exact ih _ (by rw [length_add_scaled, start, first, Nat.min_self]) rest
  exact fold _ _ (length_zeros length) fun entry member => width _ (List.of_mem_zip member).2

end Row

namespace Block

variable {α : Type}

structure Square (size : Nat) (block : Block α) : Prop where
  rows : block.length = size
  width : ∀ row ∈ block, row.length = size

variable [Scalar α]

theorem square_zeros (size : Nat) :
    Square size (List.replicate size (Row.zeros size) : Block α) where
  rows := List.length_replicate
  width := by
    intro row member
    rw [(List.mem_replicate.mp member).2, Row.length_zeros]

theorem square_add_product {size : Nat} {block : Block α} {x y : Row α}
    (square : Square size block) (left : x.length = size) (right : y.length = size) :
    Square size (List.zipWith (fun row value => row.addScaled value y) block x) where
  rows := by rw [List.length_zipWith, square.rows, left, Nat.min_self]
  width := by
    intro row member
    obtain ⟨old, value, there, -, rfl⟩ := exists_of_mem_zip_with member
    rw [Row.length_add_scaled, square.width old there, right, Nat.min_self]

theorem square_gram (size : Nat) (pairs : List (Row α × Row α))
    (widths : ∀ pair ∈ pairs, pair.1.length = size ∧ pair.2.length = size) :
    Square size (gram size pairs) := by
  have fold : ∀ (pairs : List (Row α × Row α)) (sum : Block α), Square size sum →
      (∀ pair ∈ pairs, pair.1.length = size ∧ pair.2.length = size) →
      Square size (pairs.foldl
        (fun sum pair => List.zipWith (fun row x => row.addScaled x pair.2) sum pair.1) sum) := by
    intro pairs
    induction pairs with
    | nil => exact fun sum start _ => start
    | cons pair pairs ih =>
        intro sum start widths
        obtain ⟨⟨left, right⟩, rest⟩ := List.forall_mem_cons.mp widths
        exact ih _ (square_add_product start left right) rest
  exact fold pairs _ (square_zeros size) widths

theorem square_add {size : Nat} {a b : Block α} (left : Square size a) (right : Square size b) :
    Square size (a.add b) where
  rows := by rw [add, List.length_zipWith, left.rows, right.rows, Nat.min_self]
  width := by
    intro row member
    obtain ⟨x, y, first, second, rfl⟩ := exists_of_mem_zip_with member
    rw [Row.length_add, left.width x first, right.width y second, Nat.min_self]

theorem square_add_diagonal {size : Nat} {block : Block α} (value : α)
    (square : Square size block) : Square size (block.addDiagonal value) where
  rows := by rw [addDiagonal, List.length_mapIdx, square.rows]
  width := by
    intro row member
    obtain ⟨i, inside, rfl⟩ := List.mem_mapIdx.mp member
    rw [List.length_modify, square.width _ (List.getElem_mem inside)]

end Block

namespace Cholesky

variable {α : Type}

-- Columns of a lower triangle, each from the diagonal down.
def Triangle : Nat → List (Row α) → Prop
  | 0, columns => columns = []
  | _ + 1, [] => False
  | size + 1, column :: columns => column.length = size + 1 ∧ Triangle size columns

theorem length_heads {size : Nat} {rows : List (Row α)}
    (width : ∀ row ∈ rows, row.length = size + 1) :
    (rows.filterMap List.head?).length = rows.length := by
  induction rows with
  | nil => rfl
  | cons row rows ih =>
      obtain ⟨first, rest⟩ := List.forall_mem_cons.mp width
      cases row with
      | nil => cases first
      | cons x row => simpa using ih rest

theorem square_tails {size : Nat} {row : Row α} {rows : List (Row α)}
    (square : Block.Square (size + 1) (row :: rows)) : Block.Square size (rows.map List.tail) where
  rows := by
    have length := square.rows
    simp only [List.length_cons] at length
    simpa using length
  width := by
    intro tail member
    obtain ⟨other, there, rfl⟩ := List.mem_map.mp member
    rw [List.length_tail, square.width other (List.mem_cons_of_mem row there), Nat.add_sub_cancel]

theorem triangle_lower_columns {size : Nat} {block : Block α} (square : Block.Square size block) :
    Triangle size (lowerColumns block) := by
  induction size generalizing block with
  | zero =>
      rw [List.length_eq_zero_iff.mp square.rows, lowerColumns]
      rfl
  | succ size ih =>
      cases block with
      | nil => cases square.rows
      | cons row rows =>
          rw [lowerColumns]
          exact ⟨(length_heads square.width).trans square.rows, ih (square_tails square)⟩

variable [Scalar α]

theorem triangle_reduce {size : Nat} {entries : Row α} {columns : List (Row α)}
    (length : entries.length = size) (triangle : Triangle size columns) :
    Triangle size (reduce entries columns) := by
  induction size generalizing entries columns with
  | zero =>
      rw [List.length_eq_zero_iff.mp length, triangle]
      rfl
  | succ size ih =>
      cases entries with
      | nil => cases length
      | cons x xs =>
          cases columns with
          | nil => exact triangle.elim
          | cons column columns =>
              obtain ⟨first, rest⟩ := triangle
              refine ⟨?_, ih (Nat.succ.inj length) rest⟩
              rw [List.length_zipWith, length, first, Nat.min_self]

theorem triangle_factor {size : Nat} {columns result : List (Row α)}
    (triangle : Triangle size columns) (factored : factor columns = some result) :
    Triangle size result := by
  induction size generalizing columns result with
  | zero =>
      rw [triangle, factor] at factored
      exact (Option.some.inj factored).symm
  | succ size ih =>
      cases columns with
      | nil => exact triangle.elim
      | cons column columns =>
          obtain ⟨first, rest⟩ := triangle
          cases column with
          | nil => cases first
          | cons pivot below =>
              rw [factor] at factored
              split at factored
              · obtain ⟨others, reduced, rfl⟩ := Option.map_eq_some_iff.mp factored
                have length : (below.map (· / Scalar.sqrt pivot)).length = size := by
                  rw [List.length_map]
                  exact Nat.succ.inj first
                exact ⟨congrArg (· + 1) length, ih (triangle_reduce length rest) reduced⟩
              · cases factored

theorem length_forward {size : Nat} {columns : List (Row α)} {b : Row α}
    (triangle : Triangle size columns) (length : b.length = size) :
    (forward columns b).length = size := by
  induction size generalizing columns b with
  | zero =>
      rw [triangle, forward]
      · rfl
      · simp
  | succ size ih =>
      cases columns with
      | nil => exact triangle.elim
      | cons column columns =>
          obtain ⟨first, rest⟩ := triangle
          cases column with
          | nil => cases first
          | cons root below =>
              cases b with
              | nil => cases length
              | cons y ys =>
                  rw [forward, List.length_cons]
                  refine congrArg (· + 1) (ih rest ?_)
                  rw [List.length_zipWith, Nat.succ.inj first, Nat.succ.inj length, Nat.min_self]

theorem length_backward {size : Nat} {columns : List (Row α)} {y : Row α}
    (triangle : Triangle size columns) (length : y.length = size) :
    (backward columns y).length = size := by
  induction size generalizing columns y with
  | zero =>
      rw [triangle, backward]
      · rfl
      · simp
  | succ size ih =>
      cases columns with
      | nil => exact triangle.elim
      | cons column columns =>
          obtain ⟨first, rest⟩ := triangle
          cases column with
          | nil => cases first
          | cons root below =>
              cases y with
              | nil => cases length
              | cons z zs =>
                  rw [backward, List.length_cons]
                  exact congrArg (· + 1) (ih rest (Nat.succ.inj length))

theorem length_solve {size : Nat} {columns : List (Row α)} {b : Row α}
    (triangle : Triangle size columns) (length : b.length = size) :
    (solve columns b).length = size :=
  length_backward triangle (length_forward triangle length)

end Cholesky
namespace Block

variable {α : Type} [Scalar α]

theorem length_refine {size : Nat} {block : Block α} {factor : List (Row α)} {b x : Row α}
    (square : Square size block) (triangle : Cholesky.Triangle size factor)
    (right : b.length = size) (start : x.length = size) :
    (refine block factor b x).length = size := by
  have residual : (b.sub (block.map fun row => row.dot x)).length = size := by
    rw [Row.length_sub, List.length_map, right, square.rows, Nat.min_self]
  rw [refine, Row.length_add, start, Cholesky.length_solve triangle residual, Nat.min_self]

theorem length_repeat_refine {size : Nat} {block : Block α} {factor : List (Row α)} {b x : Row α}
    (square : Square size block) (triangle : Cholesky.Triangle size factor)
    (right : b.length = size) (start : x.length = size) (passes : Nat) :
    (Nat.repeat (refine block factor b) passes x).length = size := by
  induction passes with
  | zero => exact start
  | succ passes ih => exact length_refine square triangle right ih

theorem length_of_solve {size : Nat} {block : Block α} {b x : Row α} {passes : Nat}
    (square : Square size block) (right : b.length = size)
    (solved : solve block b passes = .ok x) : x.length = size := by
  unfold solve at solved
  split at solved
  · cases solved
  · rename_i factor factored
    have triangle := Cholesky.triangle_factor (Cholesky.triangle_lower_columns square) factored
    dsimp only at solved
    split at solved
    · cases solved
      exact length_repeat_refine square triangle right (Cholesky.length_solve triangle right) passes
    · cases solved

theorem finite_of_solve {block : Block α} {b x : Row α} {passes : Nat}
    (solved : solve block b passes = .ok x) : x.isFinite = true := by
  unfold solve at solved
  split at solved
  · cases solved
  · dsimp only at solved
    split at solved
    · rename_i finite
      cases solved
      exact finite
    · cases solved

end Block
end LatentFactor
