import LatentFactor.Row

set_option autoImplicit false

namespace LatentFactor

@[ext]
structure RowMatrix (α : Type) where
  cols : Nat
  rows : Array (Row α)
  width : ∀ row ∈ rows, row.length = cols

namespace RowMatrix

variable {α : Type}

def size (m : RowMatrix α) : Nat := m.rows.size

def ofRows (cols : Nat) (rows : List (Row α)) : Except Fault (RowMatrix α) :=
  if width : ∀ row ∈ rows.toArray, row.length = cols then .ok ⟨cols, rows.toArray, width⟩
  else .error (.lengthMismatch ((rows.find? (·.length ≠ cols)).map List.length |>.getD 0) cols)

def row (m : RowMatrix α) (r : Nat) : Except Fault (Row α) :=
  match m.rows[r]? with
  | some row => .ok row
  | none => .error (.rowOutOfRange r m.size)

-- Replaces an entry; one beyond the end is not written.
def setEntry (m : RowMatrix α) (r k : Nat) (value : α) : RowMatrix α where
  cols := m.cols
  rows := m.rows.modify r (·.set k value)
  width := by
    intro row member
    obtain ⟨i, inside, rfl⟩ := Array.mem_iff_getElem.mp member
    have old : i < m.rows.size := by simpa using inside
    have width := m.width m.rows[i] (Array.getElem_mem old)
    rw [Array.getElem_modify]
    split <;> simp [width]

def zeros [Scalar α] (size cols : Nat) : RowMatrix α where
  cols
  rows := Array.ofFn fun _ : Fin size => Row.zeros cols
  width := by
    intro row member
    obtain ⟨_, rfl⟩ := Array.mem_ofFn.mp member
    simp [Row.zeros]

def mul [Scalar α] (m : RowMatrix α) (other : RowMatrix α) : Except Fault (RowMatrix α) :=
  if m.cols = other.size then
    ofRows other.cols (m.rows.toList.map fun row => Row.combine other.cols row other.rows.toList)
  else .error (.lengthMismatch m.cols other.size)

theorem size_set_entry (m : RowMatrix α) (r k : Nat) (value : α) :
    (m.setEntry r k value).size = m.size := by
  simp [size, setEntry]

theorem of_rows_eq_ok {cols : Nat} {rows : List (Row α)} {m : RowMatrix α}
    (made : ofRows cols rows = .ok m) : m.cols = cols ∧ m.rows.toList = rows := by
  unfold ofRows at made
  split at made
  · cases made
    exact ⟨rfl, rfl⟩
  · cases made

theorem of_rows_self (m : RowMatrix α) : ofRows m.cols m.rows.toList = .ok m := by
  rw [ofRows, dif_pos fun row member => m.width row member]

theorem exists_of_rows {cols : Nat} {rows : List (Row α)}
    (width : ∀ row ∈ rows, row.length = cols) :
    ∃ m, ofRows cols rows = .ok m := by
  unfold ofRows
  rw [dif_pos fun row member => width row (List.mem_toArray.mp member)]
  exact ⟨_, rfl⟩

theorem row_eq_ok_iff {m : RowMatrix α} {r : Nat} {row : Row α} :
    m.row r = .ok row ↔ m.rows[r]? = some row := by
  rw [RowMatrix.row]
  cases m.rows[r]? with
  | none => simp
  | some found => simp

theorem length_of_row {m : RowMatrix α} {r : Nat} {row : Row α} (found : m.rows[r]? = some row) :
    row.length = m.cols := by
  obtain ⟨inside, rfl⟩ := Array.getElem?_eq_some_iff.mp found
  exact m.width _ (Array.getElem_mem inside)

end RowMatrix
end LatentFactor
