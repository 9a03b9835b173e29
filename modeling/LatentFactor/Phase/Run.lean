import LatentFactor.Phase.Progress

set_option autoImplicit false

namespace LatentFactor.Phase

variable {α : Type}

inductive Action where
  | check (r : Nat)
  | call (r : Nat)
  | write (r : Nat)
  | skip (r : Nat)
  | cancel
deriving DecidableEq, Repr

def Progress.act (task : Task α) (clock : Clock) (progress : Progress α) : Action → Progress α
  | .check r => progress.check task clock r
  | .call r => progress.call task r
  | .write r => progress.write task r
  | .skip r => progress.skip r
  | .cancel => progress.cancel

def Progress.play (task : Task α) (clock : Clock) (progress : Progress α) (actions : List Action) :
    Progress α :=
  actions.foldl (Progress.act task clock) progress

def Task.finish (task : Task α) (clock : Clock) (rows : Nat) : Except (Failure α) Report :=
  if task.late clock.finish then .error (.error (.timedOut task.phase clock.finish))
  else .ok ⟨rows, clock.finish⟩

def Task.overflow (target : RowMatrix α) (cancelled : Bool) : Outcome α :=
  ⟨.error (.fault .deadlineOverflow), target, cancelled, []⟩

/-- The actions, in this order, lead to the outcome. Of several failures any one may be reported. -/
def Possible (clock : Clock) (task : Task α) (target : RowMatrix α) (cancelled : Bool)
    (outcome : Outcome α) (actions : List Action) : Prop :=
  let final := (Progress.start target cancelled).play task clock actions
  if task.unreachable clock then outcome = Task.overflow target cancelled
  else
    final.isSettled ∧ outcome.target = final.target ∧ outcome.cancelled = final.cancelled ∧
      outcome.calls = final.calls ∧
      match final.failures with
      | [] => outcome.result = task.finish clock target.size
      | failures => ∃ failure ∈ failures, outcome.result = .error failure

-- All that one worker does with a row: the first writing looks at the length, the last one finds
-- no entry left.
def Action.ofRow (cols r : Nat) : List Action :=
  .check r :: .call r :: List.replicate (cols + 2) (.write r)

def Progress.step (task : Task α) (clock : Clock) (progress : Progress α) (r : Nat) : Progress α :=
  if progress.failures.isEmpty then
    progress.play task clock (Action.ofRow progress.target.cols r)
  else progress.skip r

def checkWorkers (workers : Nat) : Except (Error α) Unit :=
  if workers = 0 then .error (.invalidSetting .idleExecutor) else .ok ()

def inOrder (clock : Phase → Clock) : Runner α := fun task target cancelled =>
  let clock := clock task.phase
  if task.unreachable clock then Task.overflow target cancelled
  else
    let final := (List.range target.size).foldl (Progress.step task clock)
      (Progress.start target cancelled)
    let result := match final.failures with
      | [] => task.finish clock target.size
      | failure :: _ => .error failure
    ⟨result, final.target, final.cancelled, final.calls⟩

end LatentFactor.Phase
