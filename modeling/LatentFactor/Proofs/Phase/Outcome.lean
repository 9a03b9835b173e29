import LatentFactor.Proofs.Phase.Progress

set_option autoImplicit false

namespace LatentFactor.Phase

variable {α : Type} {task : Task α} {clock : Clock} {target : RowMatrix α} {cancelled : Bool}
  {outcome : Outcome α} {actions : List Action}

structure Outcome.Complete (task : Task α) (target : RowMatrix α) (outcome : Outcome α) :
    Prop where
  cols : outcome.target.cols = target.cols
  size : outcome.target.size = target.size
  calls : outcome.calls.Perm (List.range target.size)
  rows : ∀ r < target.size, ∃ row, task.Solves target.cols r row ∧
    outcome.target.rows[r]? = some row

structure Outcome.Whole (task : Task α) (target : RowMatrix α) (outcome : Outcome α) : Prop where
  cols : outcome.target.cols = target.cols
  size : outcome.target.size = target.size
  rows : ∀ r < target.size, outcome.target.rows[r]? = target.rows[r]? ∨
    ∃ row, task.Solves target.cols r row ∧ outcome.target.rows[r]? = some row

namespace Progress

theorem settled_row {progress : Progress α} (hold : RowsHold task target progress)
    (settled : progress.isSettled = true) {r : Nat} (inside : r < target.size) :
    (progress.target.rows[r]? = target.rows[r]? ∧ progress.failures ≠ []) ∨
      (∃ row, task.Solves target.cols r row ∧ progress.target.rows[r]? = some row) ∧
        progress.calls.count r = 1 := by
  have within : r < progress.states.size := by rw [hold.states]; exact inside
  have found := Array.getElem?_eq_getElem within
  have done : progress.states[r].isSettled = true := by
    simp only [isSettled, Array.all_eq_true] at settled
    exact settled r within
  obtain ⟨old, row, oldRow, newRow, described, abandoned⟩ := hold.row r _ found
  have width := RowMatrix.length_of_row oldRow
  cases state : progress.states[r] with
  | waiting | admitted | solved _ | writing _ _ => simp [state, RowState.isSettled] at done
  | written =>
      rw [state] at described
      obtain ⟨solves, called⟩ := described
      rw [width] at solves
      exact .inr ⟨⟨row, solves, newRow⟩, called⟩
  | failed | skipped =>
      rw [state] at described abandoned
      obtain ⟨rfl, _⟩ := described
      exact .inl ⟨newRow.trans oldRow.symm, abandoned rfl⟩

theorem calls_perm {progress : Progress α} (size : Nat)
    (once : ∀ r < size, progress.calls.count r = 1) (bounded : ∀ r ∈ progress.calls, r < size) :
    progress.calls.Perm (List.range size) := by
  rw [List.perm_iff_count]
  intro r
  by_cases inside : r < size
  · rw [once r inside, List.nodup_range.count, if_pos (List.mem_range.mpr inside)]
  · rw [List.count_eq_zero_of_not_mem fun listed => inside (bounded r listed),
      List.count_eq_zero_of_not_mem fun listed => inside (List.mem_range.mp listed)]

end Progress

theorem complete_of_ok (possible : Possible clock task target cancelled outcome actions)
    {report : Report} (ok : outcome.result = .ok report) :
    outcome.Complete task target ∧ report.rows = target.size := by
  have sound := Progress.sound_play task clock target cancelled actions
  unfold Possible at possible
  split at possible
  · rw [possible] at ok
    simp [Task.overflow] at ok
  · obtain ⟨settled, targetEq, -, callsEq, result⟩ := possible
    split at result
    · rename_i clean
      have written : ∀ r < target.size, (∃ row, task.Solves target.cols r row ∧
          outcome.target.rows[r]? = some row) ∧ outcome.calls.count r = 1 := by
        intro r inside
        rw [targetEq, callsEq]
        exact (Progress.settled_row sound.rows settled inside).resolve_left
          fun kept => kept.2 clean
      refine ⟨⟨?_, ?_, ?_, fun r inside => (written r inside).1⟩, ?_⟩
      · rw [targetEq, sound.rows.cols]
      · rw [targetEq, sound.rows.size]
      · rw [callsEq] at written ⊢
        exact Progress.calls_perm _ (fun r inside => (written r inside).2) sound.record.bounded
      · rw [ok, Task.finish] at result
        split at result
        · cases result
        · cases result
          rfl
    · obtain ⟨failure, -, failed⟩ := result
      rw [ok] at failed
      cases failed

theorem whole_of_possible (possible : Possible clock task target cancelled outcome actions) :
    outcome.Whole task target := by
  have sound := Progress.sound_play task clock target cancelled actions
  unfold Possible at possible
  split at possible
  · rw [possible]
    exact ⟨rfl, rfl, fun r _ => .inl rfl⟩
  · obtain ⟨settled, targetEq, -, -, -⟩ := possible
    refine ⟨by rw [targetEq, sound.rows.cols], by rw [targetEq, sound.rows.size], ?_⟩
    intro r inside
    rw [targetEq]
    rcases Progress.settled_row sound.rows settled inside with kept | written
    · exact .inl kept.1
    · exact .inr written.1

-- The failures of a phase that no row meets: its deadline lies beyond the clock, or it came to
-- an end too late.
def Task.Overrun (task : Task α) (clock : Clock) : Failure α → Prop
  | .fault fault => fault = .deadlineOverflow ∧ task.unreachable clock = true
  | .error error => error = .timedOut task.phase clock.finish ∧ task.late clock.finish = true

theorem not_overrun (unlimited : task.limit = none) {failure : Failure α} :
    ¬task.Overrun clock failure := by
  cases failure with
  | fault fault => simp [Task.Overrun, Task.unreachable, unlimited]
  | error error => simp [Task.Overrun, Task.late, unlimited]

theorem met_of_error (possible : Possible clock task target cancelled outcome actions)
    {failure : Failure α} (failed : outcome.result = .error failure) :
    task.Overrun clock failure ∨
      task.Met clock target.cols (Flagged task cancelled actions outcome.calls) outcome.calls
        failure := by
  have sound := Progress.sound_play task clock target cancelled actions
  unfold Possible at possible
  split at possible
  · rename_i unreachable
    rw [possible] at failed
    cases failed
    exact .inl ⟨rfl, unreachable⟩
  · obtain ⟨-, -, -, callsEq, result⟩ := possible
    split at result
    · rw [failed, Task.finish] at result
      split at result
      · rename_i late
        cases result
        exact .inl ⟨rfl, late⟩
      · cases result
    · obtain ⟨other, member, found⟩ := result
      rw [failed] at found
      cases found
      rw [callsEq]
      exact .inr (sound.record.met failure member)

theorem lt_size_of_called (possible : Possible clock task target cancelled outcome actions)
    {r : Nat} (called : r ∈ outcome.calls) : r < target.size := by
  have sound := Progress.sound_play task clock target cancelled actions
  unfold Possible at possible
  split at possible
  · rw [possible] at called
    cases called
  · obtain ⟨-, -, -, callsEq, -⟩ := possible
    rw [callsEq] at called
    exact sound.record.bounded r called

theorem flag_of_possible (possible : Possible clock task target cancelled outcome actions)
    (calm : .cancel ∉ actions) (quiet : ∀ r, (task.solve r).cancels = false) :
    outcome.cancelled = cancelled := by
  have sound := Progress.sound_play task clock target cancelled actions
  unfold Possible at possible
  split at possible
  · rw [possible]
    rfl
  · obtain ⟨-, -, flagEq, -, -⟩ := possible
    rw [flagEq, Bool.eq_iff_iff, sound.record.flag]
    simp [Flagged, calm, quiet]

theorem not_complete_of_unsolved {r : Nat} (inside : r < target.size)
    (unsolved : ∀ row, ¬task.Solves target.cols r row) : ¬outcome.Complete task target := by
  intro complete
  obtain ⟨row, solves, -⟩ := complete.rows r inside
  exact unsolved row solves

-- The actions are any list at all: any count of workers, any order of the rows, any moment of
-- cancellation.
theorem phase_all_or_failure (unlimited : task.limit = none)
    (possible : Possible clock task target cancelled outcome actions) :
    (∀ report, outcome.result = .ok report →
      outcome.Complete task target ∧ report.rows = target.size) ∧
    ((∃ r < target.size, ∀ row, ¬task.Solves target.cols r row) →
      ∃ failure, outcome.result = .error failure) ∧
    (∀ failure, outcome.result = .error failure →
      outcome.Whole task target ∧
      ((∃ r ∈ outcome.calls, (task.solve r).result = .error failure) ∨
        (∃ r ∈ outcome.calls, ∃ row, (task.solve r).result = .ok row ∧ row.length ≠ target.cols ∧
          failure = .error (.mismatch
            (.solvedRow task.phase.side r row.length target.cols))) ∨
        (failure = .error (.cancelled task.phase) ∧
          Flagged task cancelled actions outcome.calls))) := by
  refine ⟨fun report ok => complete_of_ok possible ok, ?_, ?_⟩
  · rintro ⟨r, inside, unsolved⟩
    cases ending : outcome.result with
    | error failure => exact ⟨failure, rfl⟩
    | ok report =>
        exact absurd (complete_of_ok possible ending).1 (not_complete_of_unsolved inside unsolved)
  · intro failure failed
    refine ⟨whole_of_possible possible, ?_⟩
    rcases met_of_error possible failed with overrun | met
    · cases failure with
      | fault fault => simp [Task.Overrun, Task.unreachable, unlimited] at overrun
      | error error => simp [Task.Overrun, Task.late, unlimited] at overrun
    · cases met with
      | cancelled set => exact .inr (.inr ⟨rfl, set⟩)
      | timedOut r expired => simp [Task.expired, unlimited] at expired
      | unsolved r _ called answer => exact .inl ⟨r, called, answer⟩
      | misfit r row called answer differ =>
          exact .inr (.inl ⟨r, called, row, answer, differ, rfl⟩)

-- Row 1 fails between two entries of row 0, which is finished all the same; row 2 is left out.
theorem phase_all_or_failure_interleaved :
    let solve : Nat → Attempt Nat := fun r =>
      ⟨false, if r = 1 then .error (.fault .missingColumn) else .ok [r + 5, r + 6]⟩
    let task : Task Nat := ⟨⟨3, .item⟩, solve, none⟩
    let target : RowMatrix Nat := ⟨2, #[[0, 0], [0, 0], [0, 0]], by decide⟩
    let clock : Clock := ⟨.zero, fun _ => .zero, .zero⟩
    let actions : List Action := [.check 1, .check 0, .call 0, .write 0, .write 0, .call 1,
      .write 0, .cancel, .write 0, .skip 2]
    let outcome : Outcome Nat :=
      ⟨.error (.fault .missingColumn), ⟨2, #[[5, 6], [0, 0], [0, 0]], by decide⟩, true, [1, 0]⟩
    task.limit = none ∧ Possible clock task target false outcome actions ∧
      outcome.Whole task target := by
  intro solve task target clock actions outcome
  have final : (Progress.start target false).play task clock actions =
      ⟨outcome.target, #[.written, .failed, .skipped], true, [.fault .missingColumn], [1, 0]⟩ := by
    simp [actions, task, target, solve, outcome, Progress.play, Progress.act, Progress.start,
      Progress.check, Progress.call, Progress.write, Progress.skip, Progress.cancel,
      Progress.mark, Progress.fail, Task.expired, RowMatrix.size, RowMatrix.setEntry,
      Array.modify, Array.modifyM]
    rfl
  have possible : Possible clock task target false outcome actions := by
    unfold Possible
    rw [if_neg (by simp [task, Task.unreachable]), final]
    exact ⟨by simp [Progress.isSettled, RowState.isSettled], rfl, rfl, rfl, _,
      List.mem_cons_self .., rfl⟩
  exact ⟨rfl, possible, ((phase_all_or_failure rfl possible).2.2 _ rfl).1⟩

end LatentFactor.Phase
