import LatentFactor.Error

set_option autoImplicit false

namespace LatentFactor

structure Rating (α : Type) where
  user : EntityId
  item : EntityId
  value : α
deriving DecidableEq, Repr

abbrev Entries (α : Type) := List (EntityId × α)

structure Ratings (α : Type) where
  userIds : List EntityId
  itemIds : List EntityId
  ofUser : EntityId → Except (Error α) (Entries α)
  ofItem : EntityId → Except (Error α) (Entries α)

namespace Ratings

variable {α : Type}

def ids (source : Ratings α) : Side → List EntityId
  | .user => source.userIds
  | .item => source.itemIds

def entries (source : Ratings α) : Side → EntityId → Except (Error α) (Entries α)
  | .user => source.ofUser
  | .item => source.ofItem

def find (side : Side) (table : List (EntityId × Entries α)) (id : EntityId) :
    Except (Error α) (Entries α) :=
  match table.lookup id with
  | some entries => .ok entries
  | none => .error (.unknownId side id)

def ofTables (userIds itemIds : List EntityId) (byUser byItem : List (EntityId × Entries α)) :
    Ratings α where
  userIds
  itemIds
  ofUser := find .user byUser
  ofItem := find .item byItem

end Ratings
end LatentFactor
