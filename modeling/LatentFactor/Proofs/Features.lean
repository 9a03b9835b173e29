import LatentFactor.Features
import LatentFactor.Proofs.Ends
import LatentFactor.Proofs.Sequence

set_option autoImplicit false

namespace LatentFactor.Features

variable {α : Type} [Scalar α]

theorem length_item_rows (noisy : Nat) (byItem : List (Observations α)) (words : List UInt64) :
    (itemRows noisy byItem words).length = byItem.length := by
  induction byItem generalizing words with
  | nil => rfl
  | cons observations rest ih => exact congrArg (· + 1) (ih _)

theorem rows_of_initial {userCount rank : Nat} {byItem : List (Observations α)} {seed : UInt64}
    {features : Features α} (made : initial userCount byItem rank seed = .ok features) :
    features.users = RowMatrix.zeros userCount rank ∧ features.items.cols = rank ∧
      features.items.rows.toList = itemRows (rank - 1) byItem
        (Generator.draws (byItem.length * (rank - 1)) (Generator.ofSeed seed)) := by
  obtain ⟨_, -, rest⟩ := bind_eq_ok_iff.mp made
  obtain ⟨_, -, rest⟩ := bind_eq_ok_iff.mp rest
  split at rest
  · cases rest
  · obtain ⟨items, listed, same⟩ := bind_eq_ok_iff.mp rest
    obtain ⟨cols, rows⟩ := RowMatrix.of_rows_eq_ok listed
    cases same
    exact ⟨rfl, cols, rows⟩

theorem initial_eq_ok {userCount rank : Nat} {byItem : List (Observations α)} {seed : UInt64}
    {features : Features α} (made : initial userCount byItem rank seed = .ok features) :
    (features.users.size = userCount ∧ features.users.cols = rank) ∧
      features.items.size = byItem.length ∧ features.items.cols = rank := by
  obtain ⟨users, cols, rows⟩ := rows_of_initial made
  rw [users]
  refine ⟨⟨by simp [RowMatrix.zeros, RowMatrix.size], rfl⟩, ?_, cols⟩
  rw [RowMatrix.size, ← Array.length_toList, rows, length_item_rows]

-- Each item takes its own words, so more items after it change nothing.
theorem item_rows_append {noisy : Nat} (byItem more : List (Observations α))
    {words : List UInt64} (later : List UInt64) (enough : byItem.length * noisy ≤ words.length) :
    ∃ rest, itemRows noisy (byItem ++ more) (words ++ later) =
      itemRows noisy byItem words ++ rest := by
  induction byItem generalizing words with
  | nil => exact ⟨_, rfl⟩
  | cons observations byItem ih =>
      rw [List.length_cons, Nat.succ_mul] at enough
      have inside : noisy ≤ words.length := by omega
      have others_enough : byItem.length * noisy ≤ (words.drop noisy).length := by
        rw [List.length_drop]
        omega
      obtain ⟨rest, others⟩ := ih others_enough
      refine ⟨rest, ?_⟩
      rw [List.cons_append, itemRows, itemRows, List.take_append_of_le_length inside,
        List.drop_append_of_le_length inside, others]
      rfl

theorem items_of_initial_append {userCount rank : Nat} {byItem more : List (Observations α)}
    {seed : UInt64} {features wider : Features α}
    (made : initial userCount byItem rank seed = .ok features)
    (madeWider : initial userCount (byItem ++ more) rank seed = .ok wider) :
    features.items.rows.toList <+: wider.items.rows.toList := by
  obtain ⟨-, -, rows⟩ := rows_of_initial made
  obtain ⟨-, -, rowsWider⟩ := rows_of_initial madeWider
  rw [List.length_append, Nat.add_mul, Generator.draws_of_seed_add] at rowsWider
  obtain ⟨rest, same⟩ := item_rows_append byItem more _
    (Nat.le_of_eq (Generator.length_draws (byItem.length * (rank - 1)) (.ofSeed seed)).symm)
  exact ⟨rest, by rw [rows, rowsWider, same]⟩

theorem holds_of_initial {userCount rank : Nat} {byItem : List (Observations α)} {seed : UInt64}
    {features : Features α} (made : initial userCount byItem rank seed = .ok features) :
    Memory.HoldsMatrix byItem.length rank ∧ Memory.HoldsMatrix userCount rank := by
  obtain ⟨_, items, rest⟩ := bind_eq_ok_iff.mp made
  obtain ⟨_, users, -⟩ := bind_eq_ok_iff.mp rest
  exact ⟨Memory.reserve_matrix_eq_ok_iff.mp items, Memory.reserve_matrix_eq_ok_iff.mp users⟩

theorem width_item_rows {noisy : Nat} (byItem : List (Observations α)) {words : List UInt64}
    (enough : byItem.length * noisy ≤ words.length) :
    ∀ row ∈ itemRows noisy byItem words, row.length = noisy + 1 := by
  induction byItem generalizing words with
  | nil => simp [itemRows]
  | cons observations rest ih =>
      rw [List.length_cons, Nat.succ_mul] at enough
      have later : rest.length * noisy ≤ (words.drop noisy).length := by
        rw [List.length_drop]
        omega
      intro row member
      rcases List.mem_cons.mp member with rfl | other
      · have taken : (words.take noisy).length = noisy := by
          rw [List.length_take]
          omega
        rw [List.length_cons, List.length_map, taken]
      · exact ih later row other

theorem exists_initial {userCount rank : Nat} (byItem : List (Observations α)) (seed : UInt64)
    (ranked : rank ≠ 0) (items : Memory.HoldsMatrix byItem.length rank)
    (users : Memory.HoldsMatrix userCount rank) :
    ∃ features, initial userCount byItem rank seed = .ok features := by
  have drawn := Generator.length_draws (byItem.length * (rank - 1)) (Generator.ofSeed seed)
  have width := width_item_rows byItem (Nat.le_of_eq drawn.symm)
  rw [Nat.sub_add_cancel (Nat.pos_of_ne_zero ranked)] at width
  obtain ⟨matrix, listed⟩ := RowMatrix.exists_of_rows width
  refine ⟨⟨RowMatrix.zeros userCount rank, matrix⟩, bind_eq_ok_iff.mpr ⟨(), ?_, ?_⟩⟩
  · exact Memory.reserve_matrix_eq_ok_iff.mpr items
  · refine bind_eq_ok_iff.mpr ⟨(), Memory.reserve_matrix_eq_ok_iff.mpr users, ?_⟩
    simp only [ranked, false_and, if_false]
    exact bind_eq_ok_iff.mpr ⟨matrix, listed, rfl⟩

theorem lacks_of_initial {userCount rank : Nat} {byItem : List (Observations α)} {seed : UInt64}
    {fault : Fault} (ranked : rank ≠ 0)
    (failed : initial userCount byItem rank seed = .error fault) :
    Memory.LacksMatrix byItem.length rank fault ∨ Memory.LacksMatrix userCount rank fault := by
  rcases bind_eq_error_iff.mp failed with items | ⟨_, items, rest⟩
  · exact .inl (Memory.reserve_matrix_eq_error_iff.mp items)
  · rcases bind_eq_error_iff.mp rest with users | ⟨_, users, rest⟩
    · exact .inr (Memory.reserve_matrix_eq_error_iff.mp users)
    · obtain ⟨features, made⟩ := exists_initial byItem seed ranked
        (Memory.reserve_matrix_eq_ok_iff.mp items) (Memory.reserve_matrix_eq_ok_iff.mp users)
      rw [made] at failed
      cases failed

theorem initial_of_wide {userCount rank : Nat} {byItem : List (Observations α)} {seed : UInt64}
    (wide : ¬Memory.HoldsMatrix byItem.length rank ∨ ¬Memory.HoldsMatrix userCount rank) :
    ∃ rows, initial userCount byItem rank seed = .error (.beyondMemory rows rank) := by
  by_cases items : Memory.HoldsMatrix byItem.length rank
  · have users := wide.resolve_left (not_not.mpr items)
    refine ⟨userCount, bind_eq_error_iff.mpr (.inr ⟨(), ?_, bind_eq_error_iff.mpr (.inl ?_)⟩)⟩
    · exact Memory.reserve_matrix_eq_ok_iff.mpr items
    · exact Memory.reserve_matrix_eq_error_iff.mpr ⟨rfl, users⟩
  · refine ⟨byItem.length, bind_eq_error_iff.mpr (.inl ?_)⟩
    exact Memory.reserve_matrix_eq_error_iff.mpr ⟨rfl, items⟩

end LatentFactor.Features
