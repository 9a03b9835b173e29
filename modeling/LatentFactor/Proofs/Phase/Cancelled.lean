import LatentFactor.Proofs.Phase.Outcome

set_option autoImplicit false

namespace LatentFactor.Phase

variable {α : Type} {task : Task α} {clock : Clock} {target : RowMatrix α} {cancelled : Bool}
  {outcome : Outcome α} {actions : List Action}

def RowState.isUntouched : RowState α → Bool
  | .waiting | .failed | .skipped => true
  | _ => false

namespace Progress

structure Barred (task : Task α) (progress : Progress α) : Prop where
  flag : progress.cancelled = true
  calls : progress.calls = []
  states : ∀ (r : Nat) (state : RowState α), progress.states[r]? = some state →
    state.isUntouched = true
  failures : ∀ failure ∈ progress.failures, failure = .error (.cancelled task.phase)

theorem barred_start (task : Task α) (target : RowMatrix α) : (start target true).Barred task where
  flag := rfl
  calls := rfl
  states := by
    intro r state found
    obtain ⟨_, rfl⟩ := Array.getElem?_eq_some_iff.mp found
    simp [start, RowState.isUntouched]
  failures := List.forall_mem_nil _

theorem barred_mark {progress : Progress α} {r : Nat} {after : RowState α}
    (barred : progress.Barred task) (untouched : after.isUntouched = true) :
    (progress.mark r after).Barred task where
  flag := barred.flag
  calls := barred.calls
  states := by
    intro q state found
    rw [states_mark] at found
    by_cases same : r = q
    · rw [if_pos same, Option.map_eq_some_iff] at found
      obtain ⟨_, _, rfl⟩ := found
      exact untouched
    · rw [if_neg same] at found
      exact barred.states q state found
  failures := barred.failures

theorem barred_move {progress next : Progress α} {action : Action}
    (barred : progress.Barred task) (move : Move task clock progress action next) :
    next.Barred task := by
  cases move with
  | stay => exact barred
  | cancel => exact ⟨rfl, barred.calls, barred.states, barred.failures⟩
  | refuse r =>
      have marked : (progress.mark r .failed).Barred task := barred_mark barred rfl
      exact ⟨marked.flag, marked.calls, marked.states,
        List.forall_mem_cons.mpr ⟨rfl, marked.failures⟩⟩
  | expire r state clear | accept r state clear =>
      rw [barred.flag] at clear
      cases clear
  | solve r row state | unsolved r failure state | begin r row state | misfit r row state
  | enter r row next value state | finish r row next state =>
      cases barred.states r _ state
  | skip r => exact barred_mark barred rfl

theorem barred_play (task : Task α) (clock : Clock) (target : RowMatrix α)
    (actions : List Action) : ((start target true).play task clock actions).Barred task :=
  play_induction _ (barred_start task target) (fun _ _ _ _ => barred_move) actions

def Vacant (progress : Progress α) : Prop := progress.states = #[] ∧ progress.failures = []

theorem vacant_move {progress next : Progress α} {action : Action} (vacant : progress.Vacant)
    (move : Move task clock progress action next) : next.Vacant := by
  have rowless : ∀ (r : Nat) (state : RowState α), progress.states[r]? ≠ some state := by
    intro r state
    rw [vacant.1]
    simp
  cases move with
  | stay | cancel => exact vacant
  | refuse r state | expire r state | accept r state | skip r state =>
      exact absurd state (rowless r _)
  | solve r row state | unsolved r failure state | begin r row state | misfit r row state
  | enter r row next value state | finish r row next state => exact absurd state (rowless r _)

end Progress

theorem untouched_of_cancelled (possible : Possible clock task target true outcome actions) :
    outcome.cancelled = true ∧ outcome.calls = [] := by
  have barred := Progress.barred_play task clock target actions
  rw [Possible] at possible
  split at possible
  · rw [possible]
    exact ⟨rfl, rfl⟩
  · obtain ⟨-, -, flag, calls, -⟩ := possible
    exact ⟨flag.trans barred.flag, calls.trans barred.calls⟩

theorem ending_of_cancelled (possible : Possible clock task target true outcome actions)
    (rows : target.size ≠ 0) :
    (task.unreachable clock = true ∧ outcome = Task.overflow target true) ∨
      outcome.result = .error (.error (.cancelled task.phase)) := by
  have barred := Progress.barred_play task clock target actions
  have sound := Progress.sound_play task clock target true actions
  rw [Possible] at possible
  split at possible
  · rename_i unreachable
    exact .inl ⟨unreachable, possible⟩
  · obtain ⟨settled, -, -, -, result⟩ := possible
    refine .inr ?_
    split at result
    · rename_i clean
      rcases Progress.settled_row sound.rows settled (Nat.pos_of_ne_zero rows) with kept | written
      · exact absurd clean kept.2
      · have called := written.2
        rw [barred.calls] at called
        cases called
    · obtain ⟨failure, member, failed⟩ := result
      rw [failed, barred.failures failure member]

theorem error_of_cancelled (unlimited : task.limit = none)
    (possible : Possible clock task target true outcome actions) (rows : target.size ≠ 0) :
    outcome.result = .error (.error (.cancelled task.phase)) := by
  rcases ending_of_cancelled possible rows with ⟨unreachable, -⟩ | cancelled
  · simp [Task.unreachable, unlimited] at unreachable
  · exact cancelled

theorem overrun_of_no_rows (possible : Possible clock task target cancelled outcome actions)
    (none : target.size = 0) {failure : Failure α} (failed : outcome.result = .error failure) :
    task.Overrun clock failure := by
  have start : (Progress.start target cancelled).Vacant := by
    refine ⟨?_, rfl⟩
    rw [Progress.start, none]
    rfl
  have vacant : ((Progress.start target cancelled).play task clock actions).Vacant :=
    Progress.play_induction _ start (fun _ _ _ _ => Progress.vacant_move) actions
  rcases met_of_error possible failed with overrun | met
  · exact overrun
  · unfold Possible at possible
    split at possible
    · rename_i unreachable
      rw [possible] at failed
      cases failed
      exact ⟨rfl, unreachable⟩
    · obtain ⟨-, -, -, -, result⟩ := possible
      rw [vacant.2, failed, Task.finish] at result
      dsimp only at result
      split at result
      · rename_i late
        cases result
        exact ⟨rfl, late⟩
      · cases result

theorem ok_of_no_rows (unlimited : task.limit = none)
    (possible : Possible clock task target cancelled outcome actions) (none : target.size = 0) :
    ∃ report, outcome.result = .ok report := by
  cases ending : outcome.result with
  | ok report => exact ⟨report, rfl⟩
  | error failure => exact absurd (overrun_of_no_rows possible none ending) (not_overrun unlimited)

end LatentFactor.Phase
