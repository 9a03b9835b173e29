import Mathlib.Data.List.Induction
import LatentFactor.Phase.Run

set_option autoImplicit false

namespace LatentFactor.Phase

def Action.row? : Action → Option Nat
  | .check r | .call r | .write r | .skip r => some r
  | .cancel => none

namespace Progress

variable {α : Type} {task : Task α} {clock : Clock}

inductive Move (task : Task α) (clock : Clock) (progress : Progress α) :
    Action → Progress α → Prop where
  | stay (action : Action) (other : action ≠ .cancel) : Move task clock progress action progress
  | cancel : Move task clock progress .cancel progress.cancel
  | refuse (r : Nat) (state : progress.states[r]? = some .waiting)
      (flag : progress.cancelled = true) :
      Move task clock progress (.check r) (progress.fail r (.error (.cancelled task.phase)))
  | expire (r : Nat) (state : progress.states[r]? = some .waiting)
      (clear : progress.cancelled = false) (expired : task.expired (clock.atRow r) = true) :
      Move task clock progress (.check r)
        (progress.fail r (.error (.timedOut task.phase (clock.atRow r))))
  | accept (r : Nat) (state : progress.states[r]? = some .waiting)
      (clear : progress.cancelled = false) :
      Move task clock progress (.check r) (progress.mark r .admitted)
  | solve (r : Nat) (row : Row α) (state : progress.states[r]? = some .admitted)
      (answer : (task.solve r).result = .ok row) :
      Move task clock progress (.call r) { progress.mark r (.solved row) with
        cancelled := progress.cancelled || (task.solve r).cancels, calls := r :: progress.calls }
  | unsolved (r : Nat) (failure : Failure α) (state : progress.states[r]? = some .admitted)
      (answer : (task.solve r).result = .error failure) :
      Move task clock progress (.call r) { progress.fail r failure with
        cancelled := progress.cancelled || (task.solve r).cancels, calls := r :: progress.calls }
  | begin (r : Nat) (row : Row α) (state : progress.states[r]? = some (.solved row))
      (fits : row.length = progress.target.cols) :
      Move task clock progress (.write r) (progress.mark r (.writing row 0))
  | misfit (r : Nat) (row : Row α) (state : progress.states[r]? = some (.solved row))
      (differ : row.length ≠ progress.target.cols) :
      Move task clock progress (.write r) (progress.fail r (.error (.mismatch
        (.solvedRow task.phase.side r row.length progress.target.cols))))
  | enter (r : Nat) (row : Row α) (next : Nat) (value : α)
      (state : progress.states[r]? = some (.writing row next)) (entry : row[next]? = some value) :
      Move task clock progress (.write r) { progress.mark r (.writing row (next + 1)) with
        target := progress.target.setEntry r next value }
  | finish (r : Nat) (row : Row α) (next : Nat)
      (state : progress.states[r]? = some (.writing row next)) (entry : row[next]? = none) :
      Move task clock progress (.write r) (progress.mark r .written)
  | skip (r : Nat) (state : progress.states[r]? = some .waiting)
      (failing : progress.failures ≠ []) :
      Move task clock progress (.skip r) (progress.mark r .skipped)

theorem move_of_act (progress : Progress α) (action : Action) :
    Move task clock progress action (progress.act task clock action) := by
  cases action with
  | cancel => exact .cancel
  | check r =>
      simp only [act, check]
      split
      · rename_i state
        split
        · rename_i flag
          exact .refuse r state flag
        · rename_i flag
          have clear := Bool.eq_false_iff.mpr flag
          split
          · rename_i expired
            exact .expire r state clear expired
          · exact .accept r state clear
      · exact .stay _ (by simp)
  | call r =>
      simp only [act, call]
      split
      · rename_i state
        split
        · rename_i row answer
          exact .solve r row state answer
        · rename_i failure answer
          exact .unsolved r failure state answer
      · exact .stay _ (by simp)
  | write r =>
      simp only [act, write]
      split
      · rename_i row state
        split
        · rename_i fits
          exact .begin r row state fits
        · rename_i differ
          exact .misfit r row state differ
      · rename_i row next state
        split
        · rename_i value entry
          exact .enter r row next value state entry
        · rename_i entry
          exact .finish r row next state entry
      · exact .stay _ (by simp)
  | skip r =>
      simp only [act, skip]
      split
      · rename_i failure failures state failing
        exact .skip r state (by simp [failing])
      · exact .stay _ (by simp)

theorem states_mark (progress : Progress α) (r q : Nat) (state : RowState α) :
    (progress.mark r state).states[q]? =
      if r = q then progress.states[q]?.map fun _ => state else progress.states[q]? := by
  rw [mark, Array.getElem?_setIfInBounds]
  by_cases same : r = q
  · subst same
    by_cases inside : r < progress.states.size <;> simp [inside]
  · simp [same]

theorem states_of_move {progress next : Progress α} {action : Action} {q : Nat}
    (move : Move task clock progress action next) (other : action.row? ≠ some q) :
    next.states[q]? = progress.states[q]? := by
  cases move with
  | stay | cancel => rfl
  | refuse r | expire r | accept r | solve r | unsolved r | begin r | misfit r | enter r | finish r
  | skip r =>
      have apart : r ≠ q := fun same => other (congrArg some same)
      exact (states_mark progress r q _).trans (if_neg apart)

theorem play_induction {holds : List Action → Progress α → Prop} (progress : Progress α)
    (first : holds [] progress)
    (step : ∀ actions before action after, holds actions before →
      Move task clock before action after → holds (actions ++ [action]) after)
    (actions : List Action) : holds actions (progress.play task clock actions) := by
  -- The last action is taken off, since the invariant speaks of the actions so far.
  induction actions using List.reverseRecOn with
  | nil => exact first
  | append_singleton actions action ih =>
      rw [play, List.foldl_append]
      exact step actions _ action _ ih (move_of_act _ action)

end Progress
end LatentFactor.Phase
