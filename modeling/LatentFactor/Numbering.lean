import LatentFactor.Error
import Std.Data.HashMap

set_option autoImplicit false

namespace LatentFactor

structure Numbering where
  side : Side
  ids : Array EntityId
  positions : Std.HashMap EntityId Nat
  consistent : ∀ (id : EntityId) (row : Nat), positions[id]? = some row ↔ ids[row]? = some id

namespace Numbering

variable {α : Type}

def size (numbering : Numbering) : Nat := numbering.ids.size
def isEmpty (numbering : Numbering) : Bool := numbering.ids.isEmpty

def get? (numbering : Numbering) (id : EntityId) : Option Nat := numbering.positions[id]?
def contains (numbering : Numbering) (id : EntityId) : Bool := numbering.positions.contains id
def id? (numbering : Numbering) (row : Nat) : Option EntityId := numbering.ids[row]?

def rowOf (numbering : Numbering) (id : EntityId) : Except (Error α) Nat :=
  match numbering.get? id with
  | some row => .ok row
  | none => .error (.unknownId numbering.side id)

theorem get_eq_some_iff (numbering : Numbering) (id : EntityId) (row : Nat) :
    numbering.get? id = some row ↔ numbering.id? row = some id :=
  numbering.consistent id row

theorem lt_size_of_get (numbering : Numbering) {id : EntityId} {row : Nat}
    (found : numbering.get? id = some row) : row < numbering.size := by
  have listed := (numbering.get_eq_some_iff id row).mp found
  exact (Array.getElem?_eq_some_iff.mp listed).1

def empty (side : Side) : Numbering where
  side
  ids := #[]
  positions := ∅
  consistent := by simp

def push (numbering : Numbering) (id : EntityId) (fresh : numbering.get? id = none) :
    Numbering where
  side := numbering.side
  ids := numbering.ids.push id
  positions := numbering.positions.insert id numbering.ids.size
  consistent := by
    intro other row
    have unlisted : ∀ row : Nat, numbering.ids[row]? ≠ some id := by
      intro row listed
      have found := (numbering.consistent id row).mpr listed
      simp [get?] at fresh
      simp_all
    rw [Std.HashMap.getElem?_insert, Array.getElem?_push]
    by_cases same : id = other
    · subst same
      simp only [beq_self_eq_true, if_true]
      by_cases last : row = numbering.ids.size
      · simp [last]
      · have absent := unlisted row
        simp only [last, if_false]
        constructor
        · intro equal
          exact absurd (Option.some.inj equal).symm last
        · intro listed
          exact absurd listed absent
    · have differ : (id == other) = false := by simpa using same
      simp only [differ]
      by_cases last : row = numbering.ids.size
      · subst last
        simp only [if_true, Option.some.injEq, same, iff_false]
        intro found
        have listed := (numbering.consistent other numbering.ids.size).mp found
        simp at listed
      · simpa [last] using numbering.consistent other row

def extend (numbering : Numbering) (id : EntityId) : Except (Error α) Numbering :=
  match known : numbering.get? id with
  | some _ => .error (.repeatedId numbering.side id)
  | none => .ok (numbering.push id known)

def ofIds (side : Side) (ids : List EntityId) : Except (Error α) Numbering :=
  ids.foldlM extend (empty side)

end Numbering
end LatentFactor
