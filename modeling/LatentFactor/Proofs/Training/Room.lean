import LatentFactor.Proofs.Training.Completion

set_option autoImplicit false

namespace LatentFactor.Training

variable {α : Type} {training : Training α} {prepared : Prepared α}

structure Affords (training : Training α) : Prop where
  matrices : ∀ side, Memory.HoldsMatrix (training.ratings.ids side).length training.settings.rank
  errors : Memory.Holds training.settings.iterations
  copies : ∀ side, ∀ id ∈ training.ratings.ids side, ∀ entries,
    training.ratings.entries side id = .ok entries →
      Memory.HoldsMatrix entries.length training.settings.rank
  systems : ∀ side, training.ratings.ids side ≠ [] →
    Memory.Holds (training.settings.rank * training.settings.rank)

theorem affords_of_rowless (rowless : ∀ side, training.ratings.ids side = [])
    (matrix : Memory.HoldsMatrix 0 training.settings.rank)
    (errors : Memory.Holds training.settings.iterations) : training.Affords where
  matrices side := by
    rw [rowless side]
    exact matrix
  errors := errors
  copies side id listed := by
    rw [rowless side] at listed
    cases listed
  systems side some := absurd (rowless side) some

theorem fits_of_affords (coherent : training.Coherent prepared) (affords : training.Affords) :
    training.Fits prepared where
  users := size_numbering coherent .user ▸ affords.matrices .user
  items := size_numbering coherent .item ▸ affords.matrices .item
  errors := affords.errors

theorem holds_of_affords {side : Side} {fixed : RowMatrix α} (coherent : training.Coherent prepared)
    (affords : training.Affords) (cols : fixed.cols = training.settings.rank)
    {observations : Observations α}
    (member : observations ∈ (prepared.ratings.bySide side).toList) :
    fixed.HoldsSystem observations.length := by
  obtain ⟨id, listed, entries, given, lists⟩ := entries_of_coherent coherent member
  have copies := affords.copies side id listed entries given
  have square := affords.systems side (List.ne_nil_of_mem listed)
  rw [lists.length_eq, ← cols] at copies
  rw [← cols] at square
  exact ⟨.inr copies, square⟩

-- With implicit feedback the shared square takes its room even if no row is solved.
structure Accommodates (training : Training α) : Prop where
  affords : training.Affords
  square : training.settings.implicit = true →
    Memory.Holds (training.settings.rank * training.settings.rank)

theorem accommodates_iff_affords (explicit : training.settings.feedback = .explicit) :
    training.Accommodates ↔ training.Affords := by
  constructor
  · exact Accommodates.affords
  · intro affords
    refine ⟨affords, fun implicit => ?_⟩
    rw [Settings.feedback_eq_implicit_iff.mpr ⟨implicit, rfl⟩] at explicit
    cases explicit

variable [Scalar α]

theorem holds_of_half {settings : Settings α} {side : Side} {fixed target : RowMatrix α}
    (solved : half settings prepared side fixed = .ok target) {observations : Observations α}
    (member : observations ∈ (prepared.ratings.bySide side).toList) :
    fixed.HoldsSystem observations.length := by
  obtain ⟨update, created, -, answers⟩ := half_eq_ok_iff.mp solved
  obtain ⟨-, same, -, -, -⟩ := RowUpdate.create_eq_ok created
  obtain ⟨r, inside, rfl⟩ := List.mem_iff_getElem.mp member
  have own := (List.forall₂_iff_get.mp answers).2 r inside (answers.length_eq ▸ inside)
  obtain ⟨rated, -, holds, -⟩ := RowUpdate.solve_eq_ok_iff.mp own
  rw [same] at holds
  exact holds

theorem halves_of_alternation {model : Model α} (trained : training.settings.iterations ≠ 0)
    (coherent : training.Coherent prepared) (whole : alternation training prepared = .ok model)
    (side : Side) :
    ∃ fixed target : RowMatrix α, fixed.size = (prepared.numbering side.other).size ∧
      fixed.cols = training.settings.rank ∧
      half training.settings prepared side fixed = .ok target := by
  obtain ⟨initial, features, errors, made, -, solved, -⟩ := alternation_eq_ok_iff.mp whole
  have shaped := shaped_of_initial coherent made
  obtain ⟨count, counted⟩ := Nat.exists_eq_succ_of_ne_zero trained
  rw [counted] at solved
  obtain ⟨before, earlier, prior, both, -⟩ := rounds_succ_eq_ok_iff.mp solved
  obtain ⟨users, items⟩ := round_eq_ok_iff.mp both
  have items_shaped := shaped_of_rounds coherent shaped prior
  obtain ⟨size, cols⟩ := size_of_half coherent users
  cases side with
  | user => exact ⟨_, _, items_shaped.size .item, items_shaped.cols .item, users⟩
  | item => exact ⟨_, _, size, cols.trans (items_shaped.cols .item), items⟩

theorem affords_of_alternation {model : Model α} (trained : training.settings.iterations ≠ 0)
    (coherent : training.Coherent prepared) (whole : alternation training prepared = .ok model) :
    training.Affords := by
  obtain ⟨initial, features, errors, made, reserved, -⟩ := alternation_eq_ok_iff.mp whole
  have fits := fits_of_initial coherent made reserved
  have matrices : ∀ side,
      Memory.HoldsMatrix (prepared.numbering side).size training.settings.rank :=
    Side.user.forall_of_both fits.users fits.items
  have systems : ∀ side, ∀ id ∈ training.ratings.ids side, ∀ entries,
      training.ratings.entries side id = .ok entries →
        Memory.HoldsMatrix entries.length training.settings.rank ∧
          Memory.Holds (training.settings.rank * training.settings.rank) := by
    intro side id listed entries given
    obtain ⟨fixed, target, size, cols, solved⟩ := halves_of_alternation trained coherent whole side
    obtain ⟨observations, member, _, again, lists⟩ := exists_entries coherent listed
    cases given.symm.trans again
    obtain ⟨copies, square⟩ := holds_of_half solved member
    rw [size, cols, Memory.holds_copies_iff (matrices side.other), ← lists.length_eq] at copies
    rw [cols] at square
    exact ⟨copies, square⟩
  refine ⟨fun side => size_numbering coherent side ▸ matrices side, fits.errors,
    fun side id listed entries given => (systems side id listed entries given).1,
    fun side some => ?_⟩
  obtain ⟨id, listed⟩ := List.exists_mem_of_ne_nil _ some
  obtain ⟨_, -, entries, given, -⟩ := exists_entries coherent listed
  exact (systems side id listed entries given).2

theorem accommodates_of_alternation {model : Model α} (trained : training.settings.iterations ≠ 0)
    (coherent : training.Coherent prepared) (whole : alternation training prepared = .ok model) :
    training.Accommodates := by
  refine ⟨affords_of_alternation trained coherent whole, fun implicit => ?_⟩
  obtain ⟨fixed, target, -, cols, solved⟩ := halves_of_alternation trained coherent whole .user
  obtain ⟨update, created, -⟩ := half_eq_ok_iff.mp solved
  rw [Settings.feedback_eq_implicit_iff.mpr ⟨implicit, rfl⟩] at created
  exact cols ▸ RowUpdate.holds_of_create created

theorem exists_create_of_accommodates {fixed : RowMatrix α} (accommodates : training.Accommodates)
    (cols : fixed.cols = training.settings.rank) :
    ∃ update, RowUpdate.create training.settings.feedback fixed training.settings.lambda
      training.settings.passes = .ok update := by
  cases kind : training.settings.feedback with
  | explicit => exact ⟨_, rfl⟩
  | implicit alpha =>
      have holds := accommodates.square (Settings.feedback_eq_implicit_iff.mp kind).1
      rw [← cols] at holds
      exact ⟨_, bind_eq_ok_iff.mpr ⟨_, bind_eq_ok_iff.mpr
        ⟨(), Memory.reserve_eq_ok_iff.mpr holds, rfl⟩, rfl⟩⟩

end LatentFactor.Training
