import LatentFactor.Error

/-!
How many numbers a block of memory can hold. The length of a block in bytes is a signed 64-bit
word, and so is the product of the sides of a matrix, a side of length zero left out: a matrix
without rows can be wider than any block, but not without bound.
-/

set_option autoImplicit false

namespace LatentFactor.Memory

def limit : Nat := UInt64.size / 2 - 1

def numberSize : Nat := 8

def Holds (count : Nat) : Prop := count * numberSize ≤ limit

def HoldsMatrix (rows cols : Nat) : Prop := max rows 1 * max cols 1 ≤ limit ∧ Holds (rows * cols)

-- Copies of no more rows than a matrix has take no more than the matrix does.
def HoldsCopies (count rows cols : Nat) : Prop := count ≤ rows ∨ HoldsMatrix count cols

instance decidableHolds (count : Nat) : Decidable (Holds count) :=
  inferInstanceAs (Decidable (count * numberSize ≤ limit))

instance decidableHoldsMatrix (rows cols : Nat) : Decidable (HoldsMatrix rows cols) :=
  inferInstanceAs (Decidable (_ ∧ _))

instance decidableHoldsCopies (count rows cols : Nat) : Decidable (HoldsCopies count rows cols) :=
  inferInstanceAs (Decidable (_ ∨ _))

def reserve (count : Nat) : Except Fault Unit :=
  if Holds count then .ok () else .error (.beyondMemory 1 count)

def reserveMatrix (rows cols : Nat) : Except Fault Unit :=
  if HoldsMatrix rows cols then .ok () else .error (.beyondMemory rows cols)

def reserveCopies (count rows cols : Nat) : Except Fault Unit :=
  if HoldsCopies count rows cols then .ok () else .error (.beyondMemory count cols)

theorem holds_matrix_of_le {rows more cols : Nat} (fewer : rows ≤ more)
    (holds : HoldsMatrix more cols) : HoldsMatrix rows cols := by
  obtain ⟨sides, bytes⟩ := holds
  refine ⟨Nat.le_trans (Nat.mul_le_mul_right _ ?_) sides, ?_⟩
  · exact Nat.max_le.mpr ⟨Nat.le_trans fewer (Nat.le_max_left ..), Nat.le_max_right ..⟩
  · exact Nat.le_trans (Nat.mul_le_mul_right _ (Nat.mul_le_mul_right _ fewer)) bytes

theorem holds_copies_iff {count rows cols : Nat} (holds : HoldsMatrix rows cols) :
    HoldsCopies count rows cols ↔ HoldsMatrix count cols := by
  constructor
  · intro copies
    rcases copies with fewer | matrix
    · exact holds_matrix_of_le fewer holds
    · exact matrix
  · exact .inr

theorem reserve_eq_ok_iff {count : Nat} : reserve count = .ok () ↔ Holds count := by
  unfold reserve
  split <;> simp_all

theorem reserve_matrix_eq_ok_iff {rows cols : Nat} :
    reserveMatrix rows cols = .ok () ↔ HoldsMatrix rows cols := by
  unfold reserveMatrix
  split <;> simp_all

theorem reserve_copies_eq_ok_iff {count rows cols : Nat} :
    reserveCopies count rows cols = .ok () ↔ HoldsCopies count rows cols := by
  unfold reserveCopies
  split <;> simp_all

end LatentFactor.Memory
