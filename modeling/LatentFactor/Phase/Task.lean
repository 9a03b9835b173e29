import LatentFactor.RowMatrix

set_option autoImplicit false

namespace LatentFactor.Phase

-- What solving a row comes to. The row's function may ask for cancellation; that takes effect for
-- rows that start later.
structure Attempt (α : Type) where
  cancels : Bool
  result : Except (Failure α) (Row α)

structure Task (α : Type) where
  phase : Phase
  solve : Nat → Attempt α
  limit : Option Duration

/-- Readings of a monotonic clock: at the start, and the time since then when a row is about to be
solved and when all are done. -/
structure Clock where
  start : Duration
  atRow : Nat → Duration
  finish : Duration

structure Report where
  rows : Nat
  elapsed : Duration
deriving DecidableEq, Repr

structure Outcome (α : Type) where
  result : Except (Failure α) Report
  target : RowMatrix α
  cancelled : Bool
  calls : List Nat

abbrev Runner (α : Type) := Task α → RowMatrix α → Bool → Outcome α

-- The clock counts seconds in a signed 64-bit word.
def clockLimit : Nat := Nat.pow 2 63 * Duration.perSecond

namespace Task

variable {α : Type}

-- A row does not start once the limit is reached.
def expired (task : Task α) (elapsed : Duration) : Bool :=
  task.limit.any fun limit => limit.nanoseconds ≤ elapsed.nanoseconds

-- A phase that ends after its limit has failed.
def late (task : Task α) (elapsed : Duration) : Bool :=
  task.limit.any fun limit => limit.nanoseconds < elapsed.nanoseconds

def unreachable (task : Task α) (clock : Clock) : Bool :=
  task.limit.any fun limit => clockLimit ≤ clock.start.nanoseconds + limit.nanoseconds

end Task
end LatentFactor.Phase
