import LatentFactor.Memory

set_option autoImplicit false

namespace LatentFactor

variable {α β γ : Type}

def Ends (admitted : Fault → Prop) (promised : β → Prop) : Except (Failure α) β → Prop
  | .ok b => promised b
  | .error (.error _) => True
  | .error (.fault fault) => admitted fault

def Sound (promised : β → Prop) (x : Except (Failure α) β) : Prop :=
  Ends (fun _ => False) promised x

variable {admitted : Fault → Prop} {promised : β → Prop}

theorem ends_iff {x : Except (Failure α) β} :
    Ends admitted promised x ↔
      (∀ b, x = .ok b → promised b) ∧ ∀ fault, x = .error (.fault fault) → admitted fault := by
  cases x with
  | ok b => simp [Ends]
  | error failure =>
      cases failure with
      | error cause => simp [Ends]
      | fault fault => simp [Ends]

theorem ends_of_sound {x : Except (Failure α) β} (sound : Sound promised x) :
    Ends admitted promised x := by
  cases x with
  | ok b => exact sound
  | error failure =>
      cases failure with
      | error _ => trivial
      | fault fault => exact sound.elim

theorem ends_mono {weaker : β → Prop} {x : Except (Failure α) β} (ends : Ends admitted promised x)
    (weaken : ∀ b, promised b → weaker b) : Ends admitted weaker x := by
  cases x with
  | ok b => exact weaken b ends
  | error failure =>
      cases failure with
      | error _ => trivial
      | fault _ => exact ends

theorem ends_bind {assumed : γ → Prop} {x : Except (Failure α) γ}
    {f : γ → Except (Failure α) β} (first : Ends admitted assumed x)
    (rest : ∀ c, assumed c → Ends admitted promised (f c)) :
    Ends admitted promised (x >>= f) := by
  cases x with
  | ok c => exact rest c first
  | error failure =>
      cases failure with
      | error _ => trivial
      | fault _ => exact first

theorem ends_of_error {x : Except (Error α) β} (results : ∀ b, x = .ok b → promised b) :
    Ends admitted promised (x.mapError Failure.error) := by
  cases x with
  | ok b => exact results b rfl
  | error cause => trivial

theorem ends_of_fault {x : Except Fault β} (results : ∀ b, x = .ok b → promised b)
    (faults : ∀ fault, x = .error fault → admitted fault) :
    Ends admitted promised (x.mapError (Failure.fault : Fault → Failure α)) := by
  cases x with
  | ok b => exact results b rfl
  | error fault => exact faults fault rfl

theorem ends_fold_m {step : β → γ → Except (Failure α) β}
    (each : ∀ b c, promised b → Ends admitted promised (step b c)) (cs : List γ) {b : β}
    (first : promised b) : Ends admitted promised (cs.foldlM step b) := by
  induction cs generalizing b with
  | nil => exact first
  | cons c cs ih =>
      rw [List.foldlM_cons]
      exact ends_bind (each b c first) fun next good => ih good

namespace Memory

def Lacks (count : Nat) (fault : Fault) : Prop :=
  fault = .beyondMemory 1 count ∧ ¬Holds count

theorem reserve_eq_error_iff {count : Nat} {fault : Fault} :
    reserve count = .error fault ↔ Lacks count fault := by
  unfold reserve Lacks
  split
  · rename_i holds
    simp [holds]
  · rename_i lacks
    simp [lacks, eq_comm]

def LacksMatrix (rows cols : Nat) (fault : Fault) : Prop :=
  fault = .beyondMemory rows cols ∧ ¬HoldsMatrix rows cols

theorem reserve_matrix_eq_error_iff {rows cols : Nat} {fault : Fault} :
    reserveMatrix rows cols = .error fault ↔ LacksMatrix rows cols fault := by
  unfold reserveMatrix LacksMatrix
  split
  · rename_i holds
    simp [holds]
  · rename_i lacks
    simp [lacks, eq_comm]

theorem beyond_of_reserve_copies {count rows cols : Nat} {fault : Fault}
    (failed : reserveCopies count rows cols = .error fault) : fault = .beyondMemory count cols := by
  unfold reserveCopies at failed
  split at failed
  · cases failed
  · exact (Except.error.inj failed).symm

theorem ends_of_reserve (count : Nat) :
    Ends (Lacks count) (fun _ => True)
      ((reserve count).mapError (Failure.fault : Fault → Failure α)) :=
  ends_of_fault (fun _ _ => trivial) fun _ => reserve_eq_error_iff.mp

end Memory
end LatentFactor
