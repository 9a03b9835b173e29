import LatentFactor.Ratings
import Std.Data.HashMap

set_option autoImplicit false

namespace LatentFactor

structure Table (α : Type) where
  ids : Array EntityId
  entries : Std.HashMap EntityId (Array (EntityId × α))

namespace Table

variable {α : Type}

def empty : Table α := ⟨#[], ∅⟩

def register (table : Table α) (id : EntityId) : Table α :=
  if table.entries.contains id then table
  else ⟨table.ids.push id, table.entries.insert id #[]⟩

def append (table : Table α) (id : EntityId) (entry : EntityId × α) : Table α :=
  let registered := table.register id
  { registered with entries := registered.entries.modify id (·.push entry) }

def get? (table : Table α) (id : EntityId) : Option (Entries α) :=
  table.entries[id]?.map Array.toList

def find (side : Side) (table : Table α) (id : EntityId) : Except (Error α) (Entries α) :=
  match table.get? id with
  | some entries => .ok entries
  | none => .error (.unknownId side id)

theorem get_register (table : Table α) (id other : EntityId) :
    (table.register id).get? other =
      if id = other then some ((table.get? id).getD []) else table.get? other := by
  by_cases known : id ∈ table.entries
  · by_cases same : id = other
    · subst same
      simp [register, get?, known]
    · simp [register, known, same]
  · by_cases same : id = other
    · subst same
      simp [register, get?, known]
    · simp [register, get?, known, same, Std.HashMap.getElem?_insert]

theorem get_append (table : Table α) (id other : EntityId) (entry : EntityId × α) :
    (table.append id entry).get? other =
      if id = other then some ((table.get? id).getD [] ++ [entry]) else table.get? other := by
  have registered := table.get_register id other
  by_cases same : id = other
  · subst same
    simp only [get?, if_true, Option.map_eq_some_iff] at registered
    obtain ⟨found, there, value⟩ := registered
    simp [append, get?, there, value]
  · simp only [same, if_false] at registered ⊢
    rw [← registered]
    simp [append, get?, Std.HashMap.getElem?_modify, same]

end Table

structure Store (α : Type) where
  users : Table α
  items : Table α
  size : Nat

-- The last value of each pair, and the pairs in the order in which they came up.
structure Latest (α : Type) where
  pairs : Array (EntityId × EntityId)
  values : Std.HashMap (EntityId × EntityId) α

namespace Latest

variable {α : Type}

def empty : Latest α := ⟨#[], ∅⟩

def add (latest : Latest α) (rating : Rating α) : Latest α :=
  let pair := (rating.user, rating.item)
  { pairs := if latest.values.contains pair then latest.pairs else latest.pairs.push pair
    values := latest.values.insert pair rating.value }

def ratings (latest : Latest α) : List (Rating α) :=
  latest.pairs.toList.filterMap fun pair =>
    latest.values[pair]?.map fun value => ⟨pair.1, pair.2, value⟩

end Latest

namespace Store

variable {α : Type}

def empty : Store α := ⟨.empty, .empty, 0⟩

def insert (store : Store α) (rating : Rating α) : Store α where
  users := store.users.append rating.user (rating.item, rating.value)
  items := store.items.append rating.item (rating.user, rating.value)
  size := store.size + 1

def ofList (ratings : List (Rating α)) : Store α :=
  (ratings.foldl Latest.add .empty).ratings.foldl insert empty

def addItems (store : Store α) (ids : List EntityId) : Store α :=
  { store with items := ids.foldl Table.register store.items }

def ratings (store : Store α) : List (Rating α) :=
  store.users.ids.toList.flatMap fun user =>
    ((store.users.get? user).getD []).map fun entry => ⟨user, entry.1, entry.2⟩

def toRatings (store : Store α) : Ratings α where
  userIds := store.users.ids.toList
  itemIds := store.items.ids.toList
  ofUser := store.users.find .user
  ofItem := store.items.find .item

end Store
end LatentFactor
