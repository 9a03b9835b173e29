import Mathlib.Data.List.Induction
import LatentFactor.Proofs.Grouping
import LatentFactor.Ratings.Split

set_option autoImplicit false

namespace LatentFactor

variable {α : Type}

namespace Rating

def id (rating : Rating α) : Side → EntityId
  | .user => rating.user
  | .item => rating.item

def pair (rating : Rating α) : EntityId × EntityId := (rating.user, rating.item)

def entry (side : Side) (rating : Rating α) : EntityId × α := (rating.id side.other, rating.value)

end Rating

def ratingsOf (side : Side) (ratings : List (Rating α)) (id : EntityId) : List (Rating α) :=
  ratings.filter fun rating => rating.id side = id

theorem ratings_of_append (side : Side) (ratings : List (Rating α)) (rating : Rating α)
    (id : EntityId) :
    ratingsOf side (ratings ++ [rating]) id =
      if rating.id side = id then ratingsOf side ratings id ++ [rating]
      else ratingsOf side ratings id := by
  unfold ratingsOf
  rw [List.filter_append]
  by_cases same : rating.id side = id
  · simp [same]
  · simp [same]

namespace Table

structure Holds (side : Side) (ratings : List (Rating α)) (table : Table α) : Prop where
  distinct : table.ids.toList.Nodup
  listed : ∀ id, id ∈ table.ids.toList ↔ (table.get? id).isSome = true
  entries : ∀ id entries, table.get? id = some entries →
    entries = (ratingsOf side ratings id).map (Rating.entry side)
  known : ∀ rating ∈ ratings, rating.id side ∈ table.ids.toList

theorem contains_iff (table : Table α) (id : EntityId) :
    table.entries.contains id = true ↔ (table.get? id).isSome = true := by
  rw [get?, Option.isSome_map, Std.HashMap.isSome_getElem?_eq_contains]

theorem register_of_known {table : Table α} {id : EntityId}
    (known : (table.get? id).isSome = true) : table.register id = table := by
  unfold register
  rw [if_pos ((contains_iff table id).mpr known)]

theorem ids_register {table : Table α} {id : EntityId} (unknown : ¬(table.get? id).isSome = true) :
    (table.register id).ids.toList = table.ids.toList ++ [id] := by
  unfold register
  rw [if_neg (mt (contains_iff table id).mp unknown)]
  exact Array.toList_push

theorem holds_empty (side : Side) : (empty : Table α).Holds side [] where
  distinct := List.nodup_nil
  listed := by simp [empty, get?]
  entries := by simp [empty, get?]
  known := by simp

theorem holds_register {side : Side} {ratings : List (Rating α)} {table : Table α}
    (holds : table.Holds side ratings) (id : EntityId) :
    (table.register id).Holds side ratings := by
  by_cases known : (table.get? id).isSome = true
  · rw [register_of_known known]
    exact holds
  · have ids := ids_register known
    have unlisted : id ∉ table.ids.toList := fun there => known ((holds.listed id).mp there)
    have unrated : ratingsOf side ratings id = [] := by
      apply List.filter_eq_nil_iff.mpr
      intro rating member same
      exact unlisted (of_decide_eq_true same ▸ holds.known rating member)
    refine ⟨?_, ?_, ?_, ?_⟩
    · rw [ids]
      exact List.nodup_append.mpr ⟨holds.distinct, List.nodup_singleton id, by
        intro other there _ member same
        rw [List.mem_singleton.mp member] at same
        exact unlisted (same ▸ there)⟩
    · intro other
      rw [ids, get_register, List.mem_append, List.mem_singleton]
      by_cases same : id = other
      · simp [same]
      · simp [same, Ne.symm same, holds.listed other]
    · intro other entries found
      rw [get_register] at found
      by_cases same : id = other
      · subst same
        rw [if_pos rfl, Option.not_isSome_iff_eq_none.mp known] at found
        rw [unrated, ← Option.some.inj found]
        rfl
      · rw [if_neg same] at found
        exact holds.entries other entries found
    · intro rating member
      rw [ids]
      exact List.mem_append_left _ (holds.known rating member)

theorem holds_fold_register {side : Side} {ratings : List (Rating α)} {table : Table α}
    (holds : table.Holds side ratings) (ids : List EntityId) :
    (ids.foldl register table).Holds side ratings := by
  induction ids generalizing table with
  | nil => exact holds
  | cons id ids ih => exact ih (holds_register holds id)

theorem holds_append {side : Side} {ratings : List (Rating α)} {table : Table α}
    (holds : table.Holds side ratings) (rating : Rating α) :
    (table.append (rating.id side) (rating.entry side)).Holds side (ratings ++ [rating]) := by
  have registered := holds_register holds (rating.id side)
  have ids : (table.append (rating.id side) (rating.entry side)).ids =
      (table.register (rating.id side)).ids := rfl
  refine ⟨?_, ?_, ?_, ?_⟩
  · rw [ids]
    exact registered.distinct
  · intro other
    rw [ids, registered.listed other, get_append, get_register]
    by_cases same : rating.id side = other
    · simp [same]
    · simp [same]
  · intro other entries found
    rw [get_append] at found
    rw [ratings_of_append]
    by_cases same : rating.id side = other
    · subst same
      have own : (table.register (rating.id side)).get? (rating.id side) =
          some ((table.get? (rating.id side)).getD []) := by
        rw [get_register, if_pos rfl]
      rw [if_pos rfl] at found ⊢
      rw [← Option.some.inj found, registered.entries _ _ own, List.map_append,
        List.map_singleton]
    · rw [if_neg same] at found ⊢
      exact holds.entries other entries found
  · intro other member
    rw [ids]
    rcases List.mem_append.mp member with old | new
    · exact registered.known other old
    · rw [List.mem_singleton.mp new]
      apply (registered.listed _).mpr
      rw [get_register, if_pos rfl]
      rfl

end Table

namespace Latest

structure Sound (latest : Latest α) : Prop where
  distinct : latest.pairs.toList.Nodup
  listed : ∀ pair, pair ∈ latest.pairs.toList ↔ latest.values.contains pair = true

theorem sound_empty : (empty : Latest α).Sound where
  distinct := List.nodup_nil
  listed := by simp [empty]

theorem sound_add {latest : Latest α} (sound : latest.Sound) (rating : Rating α) :
    (latest.add rating).Sound := by
  by_cases known : latest.values.contains (rating.user, rating.item) = true
  · have pairs : (latest.add rating).pairs = latest.pairs := by
      rw [add]
      exact if_pos known
    refine ⟨pairs ▸ sound.distinct, fun pair => ?_⟩
    rw [pairs, sound.listed]
    by_cases same : (rating.user, rating.item) = pair
    · subst same
      simp [add, known]
    · simp [add, Std.HashMap.contains_insert, same]
  · have pairs : (latest.add rating).pairs.toList =
        latest.pairs.toList ++ [(rating.user, rating.item)] := by
      rw [add]
      dsimp only
      rw [if_neg known]
      exact Array.toList_push
    refine ⟨?_, fun pair => ?_⟩
    · rw [pairs]
      refine List.nodup_append.mpr ⟨sound.distinct, List.nodup_singleton _, ?_⟩
      intro other there _ member same
      rw [List.mem_singleton.mp member] at same
      exact known ((sound.listed _).mp (same ▸ there))
    · rw [pairs, List.mem_append, List.mem_singleton, sound.listed]
      by_cases same : (rating.user, rating.item) = pair
      · simp [add, same]
      · simp [add, Std.HashMap.contains_insert, same, Ne.symm same]

theorem sound_fold (ratings : List (Rating α)) : (ratings.foldl add empty).Sound := by
  induction ratings using List.reverseRecOn with
  | nil => exact sound_empty
  | append_singleton ratings rating ih =>
      rw [List.foldl_append]
      exact sound_add ih rating

theorem map_pair_ratings {latest : Latest α} (sound : latest.Sound) :
    latest.ratings.map Rating.pair = latest.pairs.toList := by
  rw [ratings, List.map_filterMap]
  have each : ∀ pair ∈ latest.pairs.toList,
      ((latest.values[pair]?.map fun value => (⟨pair.1, pair.2, value⟩ : Rating α)).map
        Rating.pair) = some pair := by
    intro pair member
    have known := (sound.listed pair).mp member
    obtain ⟨value, found⟩ : ∃ value, latest.values[pair]? = some value :=
      Option.isSome_iff_exists.mp (by rwa [Std.HashMap.isSome_getElem?_eq_contains])
    rw [found]
    rfl
  rw [List.filterMap_congr each, List.filterMap_some]

theorem distinct_ratings {latest : Latest α} (sound : latest.Sound) :
    (latest.ratings.map Rating.pair).Nodup := by
  rw [map_pair_ratings sound]
  exact sound.distinct

end Latest

namespace Store

-- The list that the store was filled with, each pair once.
structure Holds (ratings : List (Rating α)) (store : Store α) : Prop where
  users : store.users.Holds .user ratings
  items : store.items.Holds .item ratings

theorem holds_insert {ratings : List (Rating α)} {store : Store α} (holds : store.Holds ratings)
    (rating : Rating α) : (store.insert rating).Holds (ratings ++ [rating]) where
  users := Table.holds_append holds.users rating
  items := Table.holds_append holds.items rating

theorem holds_fold_insert (inserted : List (Rating α)) :
    (inserted.foldl insert empty).Holds inserted := by
  induction inserted using List.reverseRecOn with
  | nil => exact ⟨Table.holds_empty .user, Table.holds_empty .item⟩
  | append_singleton inserted rating ih =>
      rw [List.foldl_append]
      exact holds_insert ih rating

theorem holds_of_list (ratings : List (Rating α)) :
    (ofList ratings).Holds (ratings.foldl Latest.add .empty).ratings :=
  holds_fold_insert _

theorem holds_add_items {ratings : List (Rating α)} {store : Store α} (holds : store.Holds ratings)
    (ids : List EntityId) : (store.addItems ids).Holds ratings :=
  ⟨holds.users, Table.holds_fold_register holds.items ids⟩

-- Every store is made of a list; items without ratings may be added.
inductive Built : Store α → Prop where
  | ofList (ratings : List (Rating α)) : Built (ofList ratings)
  | addItems (store : Store α) (ids : List EntityId) (built : Built store) :
      Built (store.addItems ids)

theorem holds_of_built {store : Store α} (built : store.Built) :
    ∃ ratings, store.Holds ratings ∧ (ratings.map Rating.pair).Nodup := by
  induction built with
  | ofList ratings =>
      exact ⟨_, holds_of_list ratings, Latest.distinct_ratings (Latest.sound_fold ratings)⟩
  | addItems store ids _ ih =>
      obtain ⟨ratings, holds, distinct⟩ := ih
      exact ⟨ratings, holds_add_items holds ids, distinct⟩

theorem built_of_split [Scalar α] {store : Store α} {fraction : α} {seed : UInt64}
    {halves : Split α} (split : store.split fraction seed = .ok halves) :
    halves.training.Built ∧ halves.test.Built := by
  unfold Store.split at split
  split at split
  · cases split
    exact ⟨.ofList _, .ofList _⟩
  · cases split

theorem ratings_eq_groups {store : Store α} {ratings : List (Rating α)}
    (holds : store.Holds ratings) :
    store.ratings = store.users.ids.toList.flatMap (ratingsOf .user ratings) := by
  apply List.flatMap_congr
  intro user member
  obtain ⟨entries, found⟩ := Option.isSome_iff_exists.mp ((holds.users.listed user).mp member)
  rw [found, Option.getD_some, holds.users.entries user entries found, List.map_map]
  refine (List.map_congr_left fun rating member => ?_).trans (List.map_id _)
  have own : rating.user = user := of_decide_eq_true (List.mem_filter.mp member).2
  subst own
  rfl

theorem perm_ratings {store : Store α} {ratings : List (Rating α)} (holds : store.Holds ratings) :
    store.ratings.Perm ratings := by
  rw [ratings_eq_groups holds]
  exact perm_groups (Rating.id · .user) holds.users.distinct ratings holds.users.known

end Store
end LatentFactor
