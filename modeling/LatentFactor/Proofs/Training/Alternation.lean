import LatentFactor.Proofs.Training.Undisturbed

set_option autoImplicit false

namespace LatentFactor.Training

variable {α : Type}

def faulty {β : Type} (result : Except Fault β) : Except (List (Failure α)) β :=
  result.mapError fun fault => [.fault fault]

variable [Scalar α]

-- All rows of a side against the other side, or the failures of all rows that fail.
def half (settings : Settings α) (prepared : Prepared α) (side : Side) (fixed : RowMatrix α) :
    Except (List (Failure α)) (RowMatrix α) :=
  match RowUpdate.create settings.feedback fixed settings.lambda settings.passes with
  | .error fault => .error [.fault fault]
  | .ok update =>
      let answers := (prepared.ratings.bySide side).toList.map update.solve
      match failures answers with
      | [] => faulty (RowMatrix.ofRows fixed.cols (values answers))
      | others => .error others

def round (settings : Settings α) (prepared : Prepared α) (items : RowMatrix α) :
    Except (List (Failure α)) (Features α) := do
  let users ← half settings prepared .user items
  let items ← half settings prepared .item users
  return ⟨users, items⟩

-- The features after a count of iterations, and the error after each.
def rounds (settings : Settings α) (prepared : Prepared α) (initial : Features α) :
    Nat → Except (List (Failure α)) (Features α × List (Option α))
  | 0 => .ok (initial, [])
  | count + 1 => do
      let (features, errors) ← rounds settings prepared initial count
      let next ← round settings prepared features.items
      return (next, errors ++ [prepared.heldOut.error? next.users next.items])

def alternation (training : Training α) (prepared : Prepared α) :
    Except (List (Failure α)) (Model α) := do
  let settings := training.settings
  let initial ← faulty (Features.initial prepared.users.size prepared.ratings.byItem.toList
    settings.rank settings.seedInUse)
  faulty (Memory.reserve settings.iterations)
  let (features, errors) ← rounds settings prepared initial settings.iterations
  return ⟨prepared.users, prepared.items, features.users, features.items, errors⟩

section

variable {settings : Settings α} {prepared : Prepared α} {side : Side} {fixed : RowMatrix α}
  {update : RowUpdate α}

theorem half_eq_ok_iff {target : RowMatrix α} :
    half settings prepared side fixed = .ok target ↔
      ∃ update, RowUpdate.create settings.feedback fixed settings.lambda settings.passes =
          .ok update ∧
        target.cols = fixed.cols ∧
        List.Forall₂ (fun observations row => update.solve observations = .ok row)
          (prepared.ratings.bySide side).toList target.rows.toList := by
  rw [half]
  cases RowUpdate.create settings.feedback fixed settings.lambda settings.passes with
  | error fault => simp
  | ok update =>
      simp only [Except.ok.injEq, exists_eq_left', ← map_eq_map_ok_iff]
      constructor
      · intro done
        split at done
        · rename_i none
          obtain ⟨cols, rows⟩ := RowMatrix.of_rows_eq_ok (map_error_eq_ok_iff.mp done)
          rw [rows]
          exact ⟨cols, eq_map_values none⟩
        · cases done
      · rintro ⟨cols, answers⟩
        rw [answers, failures_map_ok, values_map_ok, ← cols]
        exact map_error_eq_ok_iff.mpr (RowMatrix.of_rows_self target)

theorem size_of_half {training : Training α} {target : RowMatrix α}
    (coherent : training.Coherent prepared)
    (solved : half settings prepared side fixed = .ok target) :
    target.size = (prepared.numbering side).size ∧ target.cols = fixed.cols := by
  obtain ⟨update, -, cols, rows⟩ := half_eq_ok_iff.mp solved
  refine ⟨?_, cols⟩
  rw [← size_by_side coherent]
  exact rows.length_eq.symm

theorem half_eq_ok {target : RowMatrix α}
    (created : RowUpdate.create settings.feedback fixed settings.lambda settings.passes =
      .ok update)
    (cols : target.cols = fixed.cols) (size : target.size = (prepared.ratings.bySide side).size)
    (rows : ∀ r < target.size, ∃ row,
      solveRow update (prepared.ratings.bySide side) r = .ok row ∧ target.rows[r]? = some row) :
    half settings prepared side fixed = .ok target := by
  refine half_eq_ok_iff.mpr ⟨update, created, cols, List.forall₂_iff_get.mpr ⟨size.symm, ?_⟩⟩
  intro r first second
  obtain ⟨row, answer, written⟩ := rows r (by simpa [RowMatrix.size] using second)
  obtain ⟨observations, found, solved⟩ := solve_row_eq_ok_iff.mp answer
  obtain ⟨within, rfl⟩ := Array.getElem?_eq_some_iff.mp written
  obtain ⟨listed, rfl⟩ := Array.getElem?_eq_some_iff.mp found
  simpa using solved

theorem exists_half
    (created : RowUpdate.create settings.feedback fixed settings.lambda settings.passes =
      .ok update)
    (each : ∀ observations ∈ (prepared.ratings.bySide side).toList,
      ∃ row, update.solve observations = .ok row) :
    ∃ matrix, half settings prepared side fixed = .ok matrix := by
  obtain ⟨-, fixed_eq, -, -, shared⟩ := RowUpdate.create_eq_ok created
  obtain ⟨rows, mapped⟩ := exists_map_m each
  have solved := map_m_eq_ok_iff.mp mapped
  have width : ∀ row ∈ rows, row.length = fixed.cols := by
    intro row member
    obtain ⟨r, inside, rfl⟩ := List.mem_iff_getElem.mp member
    have own := (List.forall₂_iff_get.mp solved).2 r (solved.length_eq ▸ inside) inside
    rw [← fixed_eq]
    exact RowUpdate.length_of_solve shared own
  obtain ⟨matrix, made⟩ := RowMatrix.exists_of_rows width
  obtain ⟨cols, listed⟩ := RowMatrix.of_rows_eq_ok made
  exact ⟨matrix, half_eq_ok_iff.mpr ⟨update, created, cols, listed ▸ solved⟩⟩

theorem half_error_cases {others : List (Failure α)}
    (failed : half settings prepared side fixed = .error others) :
    (∃ fault, RowUpdate.create settings.feedback fixed settings.lambda settings.passes =
        .error fault ∧ others = [.fault fault]) ∨
    ∃ update, RowUpdate.create settings.feedback fixed settings.lambda settings.passes =
        .ok update ∧
      others = failures ((prepared.ratings.bySide side).toList.map update.solve) := by
  cases made : RowUpdate.create settings.feedback fixed settings.lambda settings.passes with
  | error fault =>
      rw [half, made] at failed
      exact .inl ⟨fault, rfl, (Except.error.inj failed).symm⟩
  | ok update =>
      refine .inr ⟨update, rfl, ?_⟩
      cases none : failures ((prepared.ratings.bySide side).toList.map update.solve) with
      | cons first rest =>
          rw [half, made] at failed
          simp only [none] at failed
          exact (Except.error.inj failed).symm
      | nil =>
          have solved := map_eq_map_ok_iff.mp (eq_map_values none)
          obtain ⟨matrix, done⟩ : ∃ matrix, half settings prepared side fixed = .ok matrix := by
            refine exists_half made fun observations member => ?_
            obtain ⟨r, inside, rfl⟩ := List.mem_iff_getElem.mp member
            exact ⟨_, (List.forall₂_iff_get.mp solved).2 r inside (solved.length_eq ▸ inside)⟩
          cases failed.symm.trans done

theorem half_eq_error {r : Nat} {failure : Failure α}
    (created : RowUpdate.create settings.feedback fixed settings.lambda settings.passes =
      .ok update)
    (inside : r < (prepared.ratings.bySide side).size)
    (unsolved : solveRow update (prepared.ratings.bySide side) r = .error failure) :
    ∃ others, half settings prepared side fixed = .error others ∧ failure ∈ others := by
  rw [solveRow, Array.getElem?_eq_getElem inside] at unsolved
  have member : failure ∈ failures ((prepared.ratings.bySide side).toList.map update.solve) := by
    rw [mem_failures_iff, List.mem_map]
    exact ⟨_, Array.mem_toList_iff.mpr (Array.getElem_mem inside), unsolved⟩
  rw [half, created]
  dsimp only
  cases listed : failures ((prepared.ratings.bySide side).toList.map update.solve) with
  | nil =>
      rw [listed] at member
      cases member
  | cons first others =>
      rw [listed] at member
      exact ⟨first :: others, rfl, member⟩

end

section

variable {settings : Settings α} {prepared : Prepared α} {initial : Features α}

theorem rounds_succ_eq_ok {iteration : Nat} {before after : Features α} {errors : List (Option α)}
    (solved : rounds settings prepared initial iteration = .ok (before, errors))
    (next : round settings prepared before.items = .ok after) :
    rounds settings prepared initial (iteration + 1) =
      .ok (after, errors ++ [prepared.heldOut.error? after.users after.items]) := by
  refine bind_eq_ok_iff.mpr ⟨_, solved, ?_⟩
  exact bind_eq_ok_iff.mpr ⟨after, next, rfl⟩

theorem rounds_eq_error {iteration count : Nat} {features : Features α}
    {errors : List (Option α)} {others : List (Failure α)}
    (solved : rounds settings prepared initial iteration = .ok (features, errors))
    (failed : round settings prepared features.items = .error others) (later : iteration < count) :
    rounds settings prepared initial count = .error others := by
  induction count with
  | zero => cases later
  | succ count ih =>
      by_cases same : iteration = count
      · subst same
        refine bind_eq_error_iff.mpr (.inr ⟨_, solved, ?_⟩)
        exact bind_eq_error_iff.mpr (.inl failed)
      · exact bind_eq_error_iff.mpr (.inl (ih (by omega)))

end

section

variable {environment : Environment α} {settings : Settings α} {prepared : Prepared α}
  {phase : Phase} {before : State α}

theorem half_of_phase_ok {training : Training α} {rank : Nat} {after : State α}
    (lawful : Phase.Lawful environment.runPhase)
    (coherent : training.Coherent prepared) (shaped : Shaped prepared rank before.features)
    (done : solvePhase environment settings prepared phase before = .ok after) :
    ∃ matrix, half settings prepared phase.side (before.features.bySide phase.side.other) =
        .ok matrix ∧
      after.features = before.features.replace phase.side matrix ∧
      after.errors = before.errors := by
  obtain ⟨task, elapsed, made, complete, rfl⟩ := solve_phase_eq_ok lawful done
  obtain ⟨update, created, -, -, solves⟩ := task_eq_ok made
  have cols : (environment.outcome phase before task).target.cols =
      (before.features.bySide phase.side.other).cols := by
    rw [complete.cols, shaped.cols, shaped.cols]
  have size : (environment.outcome phase before task).target.size =
      (prepared.ratings.bySide phase.side).size := by
    rw [complete.size, shaped.size, size_by_side coherent]
  refine ⟨_, half_eq_ok created cols size ?_, rfl, rfl⟩
  intro r inside
  rw [complete.size] at inside
  obtain ⟨row, ⟨answer, -⟩, written⟩ := complete.rows r inside
  rw [solves r] at answer
  exact ⟨row, answer, written⟩

-- The flag must be clear when the phase starts; who sets it later is out of the question.
theorem half_of_clear_phase_error {training : Training α} {rank : Nat} {stopped : Stopped α}
    (calm : Phase.Calm environment.runPhase) (unlimited : settings.timeLimit = none)
    (clear : before.cancelled = false) (coherent : training.Coherent prepared)
    (shaped : Shaped prepared rank before.features)
    (failed : solvePhase environment settings prepared phase before = .error stopped) :
    ∃ others, half settings prepared phase.side (before.features.bySide phase.side.other) =
      .error others ∧ stopped.failure ∈ others := by
  rcases solve_phase_eq_error failed with ⟨fault, unmade, rfl⟩ | ⟨task, made, ended, -⟩
  · have uncreated : RowUpdate.create settings.feedback
        (before.features.bySide phase.side.other) settings.lambda settings.passes =
          .error fault := by
      rcases bind_eq_error_iff.mp unmade with uncreated | ⟨_, _, impossible⟩
      · exact uncreated
      · cases impossible
    refine ⟨[.fault fault], ?_, List.mem_singleton_self _⟩
    rw [half, uncreated]
  · obtain ⟨update, created, same, limit, solves⟩ := task_eq_ok made
    obtain ⟨-, fixed, -, -, shared⟩ := RowUpdate.create_eq_ok created
    obtain ⟨r, inside, unsolved⟩ := unsolved_of_error calm (limit.trans unlimited) clear
      solves (by
        intro r row answer
        rw [solves r] at answer
        obtain ⟨observations, -, solved⟩ := solve_row_eq_ok_iff.mp answer
        rw [RowUpdate.length_of_solve shared solved, fixed, shaped.cols, shaped.cols]) ended
    refine half_eq_error created ?_ unsolved
    rw [size_by_side coherent, ← shaped.size]
    exact inside

theorem half_of_phase_error {training : Training α} {rank : Nat} {stopped : Stopped α}
    (undisturbed : environment.Undisturbed) (unlimited : settings.timeLimit = none)
    (clear : before.cancelled = false) (coherent : training.Coherent prepared)
    (shaped : Shaped prepared rank before.features)
    (failed : solvePhase environment settings prepared phase before = .error stopped) :
    ∃ others, half settings prepared phase.side (before.features.bySide phase.side.other) =
      .error others ∧ stopped.failure ∈ others :=
  half_of_clear_phase_error undisturbed.runner unlimited clear coherent shaped failed

end

end LatentFactor.Training
