import LatentFactor.RowUpdate

set_option autoImplicit false

namespace LatentFactor

structure Settings (α : Type) where
  rank : Nat
  lambda : α
  iterations : Nat
  implicit : Bool
  -- Only read with implicit feedback.
  alpha : α
  workers : Nat
  seed : Option UInt64
  passes : Nat
  timeLimit : Option Duration
deriving DecidableEq, Repr

namespace Settings

variable {α : Type}

def standardSeed : UInt64 := 42

def seedInUse (settings : Settings α) : UInt64 := settings.seed.getD standardSeed

def feedback (settings : Settings α) : Feedback α :=
  if settings.implicit then .implicit settings.alpha else .explicit

theorem feedback_eq_implicit_iff {settings : Settings α} {alpha : α} :
    settings.feedback = .implicit alpha ↔ settings.implicit = true ∧ settings.alpha = alpha := by
  rw [feedback]
  cases settings.implicit with
  | true => simp
  | false => simp

def withImplicit (settings : Settings α) (alpha : α) : Settings α :=
  { settings with implicit := true, alpha }

variable [Scalar α]

def standard (workers : Nat) : Settings α where
  rank := 10
  lambda := Scalar.tenth
  iterations := 10
  implicit := false
  alpha := ((40 : Nat) : α)
  workers := workers
  seed := none
  passes := 0
  timeLimit := none

def create (workers rank : Nat) (lambda : α) (iterations : Nat) : Settings α :=
  { standard workers with rank, lambda, iterations }

-- The first rule that is broken is reported.
def check (settings : Settings α) : Except (Error α) Unit :=
  if settings.rank = 0 then .error (.invalidSetting .noFeatures)
  else if ¬(Scalar.isFinite settings.lambda ∧ 0 < settings.lambda) then
    .error (.invalidSetting (.lambda settings.lambda))
  else if settings.iterations = 0 then .error (.invalidSetting .noIterations)
  else if settings.workers = 0 then .error (.invalidSetting .noWorkers)
  else if settings.implicit ∧ ¬(Scalar.isFinite settings.alpha ∧ 0 ≤ settings.alpha) then
    .error (.invalidSetting (.alpha settings.alpha))
  else .ok ()

theorem check_eq_ok_iff {settings : Settings α} :
    (settings.check : Except (Error α) Unit) = .ok () ↔
      settings.rank ≠ 0 ∧ (Scalar.isFinite settings.lambda = true ∧ 0 < settings.lambda) ∧
        settings.iterations ≠ 0 ∧ settings.workers ≠ 0 ∧
        (settings.implicit = true →
          Scalar.isFinite settings.alpha = true ∧ 0 ≤ settings.alpha) := by
  unfold check
  by_cases rank : settings.rank = 0
  · simp [rank]
  · by_cases lambda : Scalar.isFinite settings.lambda = true ∧ 0 < settings.lambda
    · by_cases iterations : settings.iterations = 0
      · simp [rank, lambda, iterations]
      · by_cases workers : settings.workers = 0
        · simp [rank, lambda, iterations, workers]
        · simp [rank, lambda, iterations, workers]
    · rw [if_neg rank, if_pos lambda]
      simp [lambda]

end Settings
end LatentFactor
