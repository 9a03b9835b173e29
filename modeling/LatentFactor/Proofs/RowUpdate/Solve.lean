import Mathlib.Data.List.Perm.Subperm
import LatentFactor.Proofs.Block.Shape
import LatentFactor.Proofs.Ends
import LatentFactor.Proofs.HeldOut
import LatentFactor.Proofs.Sequence
import LatentFactor.RowUpdate

set_option autoImplicit false

namespace LatentFactor

variable {α : Type}

namespace RowMatrix

structure HoldsSystem (fixed : RowMatrix α) (count : Nat) : Prop where
  copies : Memory.HoldsCopies count fixed.size fixed.cols
  square : Memory.Holds (fixed.cols * fixed.cols)

theorem reserve_system_eq_ok_iff {fixed : RowMatrix α} {count : Nat} :
    fixed.reserveSystem count = .ok () ↔ fixed.HoldsSystem count := by
  rw [reserveSystem, bind_eq_ok_iff]
  constructor
  · rintro ⟨_, copies, square⟩
    exact ⟨Memory.reserve_copies_eq_ok_iff.mp copies, Memory.reserve_eq_ok_iff.mp square⟩
  · rintro ⟨copies, square⟩
    exact ⟨(), Memory.reserve_copies_eq_ok_iff.mpr copies, Memory.reserve_eq_ok_iff.mpr square⟩

theorem holds_system_of_distinct {fixed : RowMatrix α} {observations : Observations α}
    (inside : ∀ observation ∈ observations, observation.1 < fixed.size)
    (distinct : (observations.map Prod.fst).Nodup)
    (square : Memory.Holds (fixed.cols * fixed.cols)) : fixed.HoldsSystem observations.length := by
  have within : observations.map Prod.fst ⊆ List.range fixed.size := by
    intro row member
    obtain ⟨observation, there, rfl⟩ := List.mem_map.mp member
    exact List.mem_range.mpr (inside observation there)
  have fewer := (List.subperm_of_subset distinct within).length_le
  rw [List.length_map, List.length_range] at fewer
  exact ⟨.inl fewer, square⟩

def LacksSystem (fixed : RowMatrix α) (count : Nat) (fault : Fault) : Prop :=
  (∃ rows cols, fault = .beyondMemory rows cols) ∧ ¬fixed.HoldsSystem count

theorem lacks_of_reserve_system {fixed : RowMatrix α} {count : Nat} {fault : Fault}
    (failed : fixed.reserveSystem count = .error fault) : fixed.LacksSystem count fault := by
  refine ⟨?_, fun holds => ?_⟩
  · rcases bind_eq_error_iff.mp failed with copies | ⟨_, -, square⟩
    · exact ⟨_, _, Memory.beyond_of_reserve_copies copies⟩
    · exact ⟨_, _, (Memory.reserve_eq_error_iff.mp square).1⟩
  · cases failed.symm.trans (reserve_system_eq_ok_iff.mpr holds)

end RowMatrix

namespace RowUpdate

theorem rated_rows_eq_ok_iff {update : RowUpdate α} {observations : Observations α}
    {rated : List (Row α × α)} :
    update.ratedRows observations = .ok rated ↔
      List.Forall₂ (fun entry pair => update.fixed.rows[entry.1]? = some pair.1 ∧
        entry.2 = pair.2) observations rated := by
  rw [ratedRows, map_m_eq_ok_iff]
  have same : (fun (entry : Nat × α) (pair : Row α × α) =>
      (do return (← update.fixed.row entry.1, entry.2) : Except Fault (Row α × α)) = .ok pair) =
      fun entry pair => update.fixed.rows[entry.1]? = some pair.1 ∧ entry.2 = pair.2 := by
    funext entry pair
    rw [bind_eq_ok_iff, ← RowMatrix.row_eq_ok_iff]
    apply propext
    constructor
    · rintro ⟨row, found, made⟩
      cases made
      exact ⟨found, rfl⟩
    · rintro ⟨found, value⟩
      exact ⟨pair.1, found, by rw [value]; rfl⟩
  rw [same]

theorem length_of_rated_rows {update : RowUpdate α} {observations : Observations α}
    {rated : List (Row α × α)} (looked : update.ratedRows observations = .ok rated) :
    rated.length = observations.length :=
  (rated_rows_eq_ok_iff.mp looked).length_eq.symm

theorem length_of_rated {update : RowUpdate α} {observations : Observations α}
    {rated : List (Row α × α)} (looked : update.ratedRows observations = .ok rated) :
    ∀ pair ∈ rated, pair.1.length = update.fixed.cols := by
  intro pair member
  have entries := rated_rows_eq_ok_iff.mp looked
  obtain ⟨i, inside, rfl⟩ := List.mem_iff_getElem.mp member
  have found := (List.forall₂_iff_get.mp entries).2 i (entries.length_eq ▸ inside) inside
  exact RowMatrix.length_of_row found.1

theorem rated_eq_map {update : RowUpdate α} {observations : Observations α}
    {rated : List (Row α × α)} (looked : update.ratedRows observations = .ok rated) :
    rated = observations.map fun observation =>
      (update.fixed.rowAt observation.1, observation.2) := by
  symm
  rw [← List.forall₂_eq_eq_eq, List.forall₂_map_left_iff]
  refine (rated_rows_eq_ok_iff.mp looked).imp fun observation pair entry => ?_
  obtain ⟨found, value⟩ := entry
  rw [RowMatrix.rowAt, found, value]
  rfl

theorem exists_rated {update : RowUpdate α} {observations : Observations α}
    (inside : ∀ observation ∈ observations, observation.1 < update.fixed.size) :
    ∃ rated, update.ratedRows observations = .ok rated := by
  apply exists_map_m
  intro observation member
  have found := Array.getElem?_eq_getElem (inside observation member)
  exact ⟨(_, observation.2),
    bind_eq_ok_iff.mpr ⟨_, RowMatrix.row_eq_ok_iff.mpr found, rfl⟩⟩

theorem widths_of_rows {cols : Nat} {rows : List (Row α)}
    (widths : ∀ row ∈ rows, row.length = cols) :
    ∀ pair ∈ rows.map fun row => (row, row), pair.1.length = cols ∧ pair.2.length = cols := by
  intro pair member
  obtain ⟨row, there, rfl⟩ := List.mem_map.mp member
  exact ⟨widths row there, widths row there⟩

theorem widths_of_fixed (fixed : RowMatrix α) :
    ∀ row ∈ fixed.rows.toList, row.length = fixed.cols :=
  fun row member => fixed.width row (Array.mem_toList_iff.mp member)

theorem widths_of_rated {cols : Nat} {rated : List (Row α × α)}
    (widths : ∀ pair ∈ rated, pair.1.length = cols) :
    ∀ row ∈ rated.map Prod.fst, row.length = cols := by
  intro row member
  obtain ⟨pair, there, rfl⟩ := List.mem_map.mp member
  exact widths pair there

variable [Scalar α]

def SharedOf (feedback : Feedback α) (fixed : RowMatrix α) (shared : Block α) : Prop :=
  match feedback with
  | .explicit => shared = []
  | .implicit _ => shared = Block.gram fixed.cols (fixed.rows.toList.map fun row => (row, row))

theorem create_eq_ok {feedback : Feedback α} {fixed : RowMatrix α} {lambda : α} {passes : Nat}
    {update : RowUpdate α} (created : create feedback fixed lambda passes = .ok update) :
    update.feedback = feedback ∧ update.fixed = fixed ∧ update.lambda = lambda ∧
      update.passes = passes ∧ SharedOf update.feedback update.fixed update.shared := by
  obtain ⟨shared, computed, made⟩ := bind_eq_ok_iff.mp created
  cases made
  refine ⟨rfl, rfl, rfl, rfl, ?_⟩
  cases feedback with
  | explicit =>
      cases computed
      rfl
  | implicit alpha =>
      obtain ⟨_, _, made⟩ := bind_eq_ok_iff.mp computed
      cases made
      rfl

theorem holds_of_create {alpha : α} {fixed : RowMatrix α} {lambda : α} {passes : Nat}
    {update : RowUpdate α} (created : create (.implicit alpha) fixed lambda passes = .ok update) :
    Memory.Holds (fixed.cols * fixed.cols) := by
  obtain ⟨shared, computed, -⟩ := bind_eq_ok_iff.mp created
  obtain ⟨_, reserved, -⟩ := bind_eq_ok_iff.mp computed
  exact Memory.reserve_eq_ok_iff.mp reserved

theorem lacks_of_create {feedback : Feedback α} {fixed : RowMatrix α} {lambda : α}
    {passes : Nat} {fault : Fault}
    (failed : create feedback fixed lambda passes = .error fault) :
    Memory.Lacks (fixed.cols * fixed.cols) fault := by
  rcases bind_eq_error_iff.mp failed with shared | ⟨_, _, impossible⟩
  · cases feedback with
    | explicit => cases shared
    | implicit alpha =>
        rcases bind_eq_error_iff.mp shared with lacking | ⟨_, _, impossible⟩
        · exact Memory.reserve_eq_error_iff.mp lacking
        · cases impossible
  · cases impossible

theorem exists_create {feedback : Feedback α} {fixed other : RowMatrix α} {lambda : α}
    {passes : Nat} {update : RowUpdate α} (cols : fixed.cols = other.cols)
    (created : create feedback fixed lambda passes = .ok update) :
    ∃ twin, create feedback other lambda passes = .ok twin := by
  cases feedback with
  | explicit => exact ⟨_, rfl⟩
  | implicit alpha =>
      obtain ⟨shared, computed, -⟩ := bind_eq_ok_iff.mp created
      obtain ⟨_, reserved, -⟩ := bind_eq_ok_iff.mp computed
      rw [cols] at reserved
      exact ⟨_, bind_eq_ok_iff.mpr ⟨_, bind_eq_ok_iff.mpr ⟨(), reserved, rfl⟩, rfl⟩⟩

theorem solve_eq {update : RowUpdate α} {observations : Observations α}
    {rated : List (Row α × α)} (looked : update.ratedRows observations = .ok rated)
    (holds : update.fixed.HoldsSystem observations.length) :
    update.solve observations =
      (Block.solve (update.system rated).1 (update.system rated).2 update.passes).mapError
        .error := by
  rw [← length_of_rated_rows looked, ← RowMatrix.reserve_system_eq_ok_iff] at holds
  exact (bind_of_ok (map_error_eq_ok_iff.mpr looked)).trans
    (bind_of_ok (map_error_eq_ok_iff.mpr holds))

theorem solve_of_lacks {update : RowUpdate α} {observations : Observations α}
    {rated : List (Row α × α)} (looked : update.ratedRows observations = .ok rated)
    (lacks : ¬update.fixed.HoldsSystem observations.length) :
    ∃ rows cols, update.solve observations = .error (.fault (.beyondMemory rows cols)) := by
  rw [← length_of_rated_rows looked] at lacks
  cases reserved : update.fixed.reserveSystem rated.length with
  | ok _ => exact absurd (RowMatrix.reserve_system_eq_ok_iff.mp reserved) lacks
  | error fault =>
      obtain ⟨⟨rows, cols, rfl⟩, -⟩ := RowMatrix.lacks_of_reserve_system reserved
      refine ⟨rows, cols, bind_eq_error_iff.mpr (.inr ⟨rated, ?_, bind_eq_error_iff.mpr (.inl ?_)⟩)⟩
      · exact map_error_eq_ok_iff.mpr looked
      · exact map_error_eq_error_iff.mpr ⟨_, reserved, rfl⟩

theorem solve_eq_ok_iff {update : RowUpdate α} {observations : Observations α} {x : Row α} :
    update.solve observations = .ok x ↔
      ∃ rated, update.ratedRows observations = .ok rated ∧
        update.fixed.HoldsSystem observations.length ∧
        Block.solve (update.system rated).1 (update.system rated).2 update.passes = .ok x := by
  constructor
  · intro done
    obtain ⟨rated, looked, rest⟩ := bind_eq_ok_iff.mp done
    obtain ⟨_, reserved, solved⟩ := bind_eq_ok_iff.mp rest
    have holds := RowMatrix.reserve_system_eq_ok_iff.mp (map_error_eq_ok_iff.mp reserved)
    replace looked := map_error_eq_ok_iff.mp looked
    rw [length_of_rated_rows looked] at holds
    exact ⟨rated, looked, holds, map_error_eq_ok_iff.mp solved⟩
  · rintro ⟨rated, looked, holds, solved⟩
    rw [solve_eq looked holds, solved]
    rfl

theorem solve_eq_error_iff {update : RowUpdate α} {observations : Observations α}
    {error : Error α} :
    update.solve observations = .error (.error error) ↔
      ∃ rated, update.ratedRows observations = .ok rated ∧
        update.fixed.HoldsSystem observations.length ∧
        Block.solve (update.system rated).1 (update.system rated).2 update.passes =
          .error error := by
  constructor
  · intro failed
    rcases bind_eq_error_iff.mp failed with missing | ⟨rated, looked, rest⟩
    · obtain ⟨_, -, impossible⟩ := map_error_eq_error_iff.mp missing
      cases impossible
    · rcases bind_eq_error_iff.mp rest with lacking | ⟨_, reserved, unsolved⟩
      · obtain ⟨_, -, impossible⟩ := map_error_eq_error_iff.mp lacking
        cases impossible
      · obtain ⟨_, own, same⟩ := map_error_eq_error_iff.mp unsolved
        cases same
        have holds := RowMatrix.reserve_system_eq_ok_iff.mp (map_error_eq_ok_iff.mp reserved)
        replace looked := map_error_eq_ok_iff.mp looked
        rw [length_of_rated_rows looked] at holds
        exact ⟨rated, looked, holds, own⟩
  · rintro ⟨rated, looked, holds, failed⟩
    rw [solve_eq looked holds, failed]
    rfl

theorem widths_of_scaled {cols : Nat} {rows : List (Row α)} (factors : List α)
    (widths : ∀ row ∈ rows, row.length = cols) :
    ∀ pair ∈ (factors.zip rows).map fun entry => (entry.2.scale (entry.1 - 1), entry.2),
      pair.1.length = cols ∧ pair.2.length = cols := by
  intro pair member
  obtain ⟨entry, there, rfl⟩ := List.mem_map.mp member
  have width := widths entry.2 (List.of_mem_zip there).2
  exact ⟨(Row.length_scale ..).trans width, width⟩

theorem square_system {update : RowUpdate α} {rated : List (Row α × α)}
    (shared : SharedOf update.feedback update.fixed update.shared)
    (widths : ∀ pair ∈ rated, pair.1.length = update.fixed.cols) :
    Block.Square update.fixed.cols (update.system rated).1 ∧
      (update.system rated).2.length = update.fixed.cols := by
  have rows := widths_of_rated widths
  unfold system
  unfold SharedOf at shared
  cases feedback : update.feedback with
  | explicit =>
      refine ⟨Block.square_add_diagonal _ ?_, Row.length_combine _ _ rows⟩
      exact Block.square_gram _ _ (widths_of_rows rows)
  | implicit alpha =>
      simp only [feedback] at shared
      refine ⟨Block.square_add_diagonal _ (Block.square_add ?_ ?_), Row.length_combine _ _ rows⟩
      · rw [shared]
        exact Block.square_gram _ _ (widths_of_rows (widths_of_fixed update.fixed))
      · exact Block.square_gram _ _ (widths_of_scaled _ rows)

theorem length_of_solve {update : RowUpdate α} {observations : Observations α} {x : Row α}
    (shared : SharedOf update.feedback update.fixed update.shared)
    (solved : update.solve observations = .ok x) : x.length = update.fixed.cols := by
  obtain ⟨rated, looked, -, found⟩ := solve_eq_ok_iff.mp solved
  obtain ⟨square, right⟩ := square_system shared (length_of_rated looked)
  exact Block.length_of_solve square right found

theorem finite_of_solve {update : RowUpdate α} {observations : Observations α} {x : Row α}
    (solved : update.solve observations = .ok x) :
    ∀ entry ∈ x, Scalar.isFinite entry = true := by
  obtain ⟨rated, -, -, found⟩ := solve_eq_ok_iff.mp solved
  exact List.all_eq_true.mp (Block.finite_of_solve found)

end RowUpdate
end LatentFactor
