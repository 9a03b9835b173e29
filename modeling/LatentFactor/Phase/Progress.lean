import LatentFactor.Phase.Task

/-!
A phase under way. Every row is checked, solved and written in turn, entry after entry. Each of
these is an action that may come at any time between the actions of other rows. An action that does
not fit the state of its row changes nothing.
-/

set_option autoImplicit false

namespace LatentFactor.Phase

inductive RowState (α : Type) where
  | waiting
  | admitted
  | solved (row : Row α)
  | writing (row : Row α) (next : Nat)
  | written
  | failed
  | skipped

def RowState.isSettled {α : Type} : RowState α → Bool
  | written => true
  | failed => true
  | skipped => true
  | _ => false

-- Failures and calls are listed latest first.
structure Progress (α : Type) where
  target : RowMatrix α
  states : Array (RowState α)
  cancelled : Bool
  failures : List (Failure α)
  calls : List Nat

namespace Progress

variable {α : Type}

def start (target : RowMatrix α) (cancelled : Bool) : Progress α where
  target
  states := Array.replicate target.size .waiting
  cancelled
  failures := []
  calls := []

def mark (progress : Progress α) (r : Nat) (state : RowState α) : Progress α :=
  { progress with states := progress.states.setIfInBounds r state }

def fail (progress : Progress α) (r : Nat) (failure : Failure α) : Progress α :=
  { progress.mark r .failed with failures := failure :: progress.failures }

def isSettled (progress : Progress α) : Bool := progress.states.all RowState.isSettled

-- Cancellation is looked at first, then the deadline.
def check (task : Task α) (clock : Clock) (r : Nat) (progress : Progress α) : Progress α :=
  match progress.states[r]? with
  | some .waiting =>
      let elapsed := clock.atRow r
      if progress.cancelled then progress.fail r (.error (.cancelled task.phase))
      else if task.expired elapsed then progress.fail r (.error (.timedOut task.phase elapsed))
      else progress.mark r .admitted
  | _ => progress

def call (task : Task α) (r : Nat) (progress : Progress α) : Progress α :=
  match progress.states[r]? with
  | some .admitted =>
      let attempt := task.solve r
      let called :=
        { progress with
          cancelled := progress.cancelled || attempt.cancels
          calls := r :: progress.calls }
      match attempt.result with
      | .ok row => called.mark r (.solved row)
      | .error failure => called.fail r failure
  | _ => progress

-- A solved row of another length is refused before its first entry is written.
def write (task : Task α) (r : Nat) (progress : Progress α) : Progress α :=
  match progress.states[r]? with
  | some (.solved row) =>
      if row.length = progress.target.cols then progress.mark r (.writing row 0)
      else
        progress.fail r (.error (.mismatch
          (.solvedRow task.phase.side r row.length progress.target.cols)))
  | some (.writing row next) =>
      match row[next]? with
      | some value =>
          { progress with
            target := progress.target.setEntry r next value
            states := progress.states.setIfInBounds r (.writing row (next + 1)) }
      | none => progress.mark r .written
  | _ => progress

-- After a failure rows that have not started may be left out.
def skip (r : Nat) (progress : Progress α) : Progress α :=
  match progress.states[r]?, progress.failures with
  | some .waiting, _ :: _ => progress.mark r .skipped
  | _, _ => progress

def cancel (progress : Progress α) : Progress α := { progress with cancelled := true }

end Progress
end LatentFactor.Phase
