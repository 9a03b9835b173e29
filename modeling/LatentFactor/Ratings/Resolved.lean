import LatentFactor.Numbering
import LatentFactor.Ratings

set_option autoImplicit false

namespace LatentFactor

abbrev Observations (α : Type) := List (Nat × α)

structure Resolved (α : Type) where
  byUser : Array (Observations α)
  byItem : Array (Observations α)

namespace Resolved

variable {α : Type}

def bySide (resolved : Resolved α) : Side → Array (Observations α)
  | .user => resolved.byUser
  | .item => resolved.byItem

def observations (counterparts : Numbering) (entries : Entries α) :
    Except (Error α) (Observations α) :=
  entries.mapM fun entry => do return (← counterparts.rowOf entry.1, entry.2)

def resolveSide (source : Ratings α) (side : Side) (numbering counterparts : Numbering) :
    Except (Error α) (List (Observations α)) :=
  numbering.ids.toList.mapM fun id => do observations counterparts (← source.entries side id)

-- Users come before items: of two unknown ids the one met first is reported.
def resolve (source : Ratings α) (users items : Numbering) : Except (Error α) (Resolved α) := do
  let byUser ← resolveSide source .user users items
  let byItem ← resolveSide source .item items users
  return ⟨byUser.toArray, byItem.toArray⟩

end Resolved
end LatentFactor
