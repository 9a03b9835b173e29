import LatentFactor.RowMatrix.Solve

set_option autoImplicit false

namespace LatentFactor

namespace Block

variable {α : Type}

def entryAt? (block : Block α) (i j : Nat) : Option α := block[i]?.bind (·[j]?)

structure SameLower (a b : Block α) : Prop where
  rows : a.length = b.length
  entries : ∀ i j, j ≤ i → a.entryAt? i j = b.entryAt? i j

theorem heads_of_same_lower {a b : Block α} (same : SameLower a b) :
    a.filterMap List.head? = b.filterMap List.head? := by
  have heads : a.map List.head? = b.map List.head? := by
    apply List.ext_getElem (by rw [List.length_map, List.length_map, same.rows])
    intro i left right
    rw [List.length_map] at left right
    have entry := same.entries i 0 (Nat.zero_le i)
    rw [entryAt?, entryAt?, List.getElem?_eq_getElem left, List.getElem?_eq_getElem right] at entry
    rw [List.getElem_map, List.getElem_map, List.head?_eq_getElem?, List.head?_eq_getElem?]
    exact entry
  have mapped := congrArg (List.filterMap id) heads
  rwa [List.filterMap_map, List.filterMap_map] at mapped

theorem entry_at_tails (row : Row α) (rows : List (Row α)) (i j : Nat) :
    entryAt? (rows.map List.tail) i j = entryAt? (row :: rows) (i + 1) (j + 1) := by
  rw [entryAt?, entryAt?, List.getElem?_map, List.getElem?_cons_succ]
  cases rows[i]? with
  | none => rfl
  | some found => exact List.getElem?_tail

theorem tails_of_same_lower {row other : Row α} {rows others : List (Row α)}
    (same : SameLower (row :: rows) (other :: others)) :
    SameLower (rows.map List.tail) (others.map List.tail) where
  rows := by
    rw [List.length_map, List.length_map]
    exact Nat.succ.inj same.rows
  entries := by
    intro i j below
    rw [entry_at_tails row, entry_at_tails other]
    exact same.entries _ _ (Nat.succ_le_succ below)

theorem lower_columns_of_same_lower {a b : Block α} (same : SameLower a b) :
    Cholesky.lowerColumns a = Cholesky.lowerColumns b := by
  induction count : a.length generalizing a b with
  | zero =>
      rw [List.eq_nil_of_length_eq_zero count,
        List.eq_nil_of_length_eq_zero (same.rows.symm.trans count)]
  | succ count ih =>
      obtain ⟨row, rows, rfl⟩ := List.exists_cons_of_length_eq_add_one count
      obtain ⟨other, others, rfl⟩ :=
        List.exists_cons_of_length_eq_add_one (same.rows.symm.trans count)
      have rest := ih (tails_of_same_lower same) (by rw [List.length_map]; exact Nat.succ.inj count)
      rw [Cholesky.lowerColumns, Cholesky.lowerColumns, heads_of_same_lower same, rest]

-- Only refinement reads the other entries.
theorem solve_of_same_lower [Scalar α] {a b : Block α} (same : SameLower a b) (right : Row α) :
    solve a right 0 = solve b right 0 := by
  unfold solve
  rw [lower_columns_of_same_lower same, same.rows]
  rfl

end Block

namespace RowMatrix

variable {α : Type}

structure SameLower (m other : RowMatrix α) : Prop where
  cols : m.cols = other.cols
  block : Block.SameLower m.rows.toList other.rows.toList

theorem solve_of_same_lower [Scalar α] {m other : RowMatrix α} (same : m.SameLower other)
    (b : Row α) : m.solve b 0 = other.solve b 0 := by
  have size : m.size = other.size := same.block.rows
  rw [solve, solve, size, same.cols, Block.solve_of_same_lower same.block]

end RowMatrix
end LatentFactor
