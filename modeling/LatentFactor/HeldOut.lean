import LatentFactor.Numbering
import LatentFactor.RowMatrix
import LatentFactor.Ratings

set_option autoImplicit false

namespace LatentFactor

structure Sample (α : Type) where
  user : Nat
  item : Nat
  value : α

structure Measurement (α : Type) where
  total : α
  samples : Nat

namespace Measurement

variable {α : Type}

def isDefined (measurement : Measurement α) : Bool := 0 < measurement.samples

def error? (measurement : Measurement α) : Option α :=
  if measurement.samples = 0 then none else some measurement.total

def mean? [Scalar α] (measurement : Measurement α) : Option α :=
  measurement.error?.map fun total => total / ((measurement.samples : Nat) : α)

end Measurement

structure HeldOut (α : Type) where
  samples : Array (Sample α)
  unknownUsers : Nat
  unknownRatings : Nat

namespace HeldOut

variable {α : Type}

def empty : HeldOut α := ⟨#[], 0, 0⟩

def addEntry (items : Numbering) (user : Nat) (heldOut : HeldOut α) (entry : EntityId × α) :
    HeldOut α :=
  match items.get? entry.1 with
  | some item => { heldOut with samples := heldOut.samples.push ⟨user, item, entry.2⟩ }
  | none => { heldOut with unknownRatings := heldOut.unknownRatings + 1 }

def addUser (users items : Numbering) (test : Ratings α) (heldOut : HeldOut α)
    (id : EntityId) : Except (Error α) (HeldOut α) := do
  let entries ← test.ofUser id
  match users.get? id with
  | some user => return entries.foldl (addEntry items user) heldOut
  | none =>
      return { heldOut with
        unknownUsers := heldOut.unknownUsers + 1
        unknownRatings := heldOut.unknownRatings + entries.length }

def create (test : Ratings α) (users items : Numbering) : Except (Error α) (HeldOut α) :=
  test.userIds.foldlM (addUser users items test) empty

variable [Scalar α]

def absoluteError (users items : RowMatrix α) (sample : Sample α) : Except Fault α := do
  let predicted ← Row.dot? (← users.row sample.user) (← items.row sample.item)
  return Scalar.abs (predicted - sample.value)

def measure (heldOut : HeldOut α) (users items : RowMatrix α) : Except Fault (Measurement α) := do
  let errors ← heldOut.samples.toList.mapM (absoluteError users items)
  return ⟨Scalar.sum errors, heldOut.samples.size⟩

end HeldOut
end LatentFactor
