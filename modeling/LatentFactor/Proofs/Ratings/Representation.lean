import LatentFactor.Proofs.Distinct
import LatentFactor.Proofs.Ratings.Source
import LatentFactor.Proofs.Real.Scalar

set_option autoImplicit false

namespace LatentFactor

variable {α : Type}

def lastValue (records : List (Rating α)) (pair : EntityId × EntityId) : Option α :=
  (records.filter fun rating => rating.pair = pair).getLast?.map Rating.value

theorem last_value_concat (records : List (Rating α)) (rating : Rating α)
    (pair : EntityId × EntityId) :
    lastValue (records ++ [rating]) pair =
      if rating.pair = pair then some rating.value else lastValue records pair := by
  unfold lastValue
  rw [List.filter_append]
  by_cases same : rating.pair = pair
  · simp [same]
  · simp [same]

theorem mem_pairs_of_last_value {records : List (Rating α)} {pair : EntityId × EntityId} {value : α}
    (last : lastValue records pair = some value) : pair ∈ records.map Rating.pair := by
  obtain ⟨rating, found, -⟩ := Option.map_eq_some_iff.mp last
  obtain ⟨member, same⟩ := List.mem_filter.mp (List.mem_of_getLast? found)
  exact List.mem_map.mpr ⟨rating, member, of_decide_eq_true same⟩

def Side.pick : Side → EntityId × EntityId → EntityId
  | .user => Prod.fst
  | .item => Prod.snd

theorem Rating.id_eq_pick (rating : Rating α) (side : Side) :
    rating.id side = side.pick rating.pair := by
  cases side with
  | user | item => rfl

theorem Rating.eq_of_entry {rating other : Rating α} (side : Side)
    (own : rating.id side = other.id side) (entries : rating.entry side = other.entry side) :
    rating = other := by
  obtain ⟨user, item, value⟩ := rating
  cases side with
  | user | item =>
      cases own
      cases entries
      rfl

theorem Side.pick_other_injective (side : Side) (id : EntityId)
    (pairs : List (EntityId × EntityId)) :
    ∀ pair ∈ pairs.filter fun pair => side.pick pair = id,
      ∀ other ∈ pairs.filter fun pair => side.pick pair = id,
        side.other.pick pair = side.other.pick other → pair = other := by
  intro pair member other listed others
  have own : side.pick pair = side.pick other :=
    (of_decide_eq_true (List.mem_filter.mp member).2).trans
      (of_decide_eq_true (List.mem_filter.mp listed).2).symm
  cases side with
  | user => exact Prod.ext own others
  | item => exact Prod.ext others own

theorem ids_eq_picks (side : Side) (ratings : List (Rating α)) :
    ratings.map (Rating.id · side) = (ratings.map Rating.pair).map side.pick := by
  rw [List.map_map]
  exact List.map_congr_left fun rating _ => rating.id_eq_pick side

theorem ids_of_eq_picks (side : Side) (ratings : List (Rating α)) (id : EntityId) :
    (ratingsOf side ratings id).map (Rating.id · side.other) =
      ((ratings.map Rating.pair).filter fun pair => side.pick pair = id).map side.other.pick := by
  simp only [ratingsOf, List.filter_map, List.map_map, Function.comp_def, Rating.id_eq_pick]

namespace Latest

theorem pairs_fold (records : List (Rating α)) :
    (records.foldl add empty).pairs.toList = (records.map Rating.pair).eraseDups := by
  induction records using List.reverseRecOn with
  | nil => rfl
  | append_singleton records rating ih =>
      have listed := (sound_fold records).listed (rating.user, rating.item)
      rw [ih, List.mem_eraseDups] at listed
      rw [List.foldl_append, List.foldl_cons, List.foldl_nil, List.map_append, List.map_singleton]
      by_cases seen : rating.pair ∈ records.map Rating.pair
      · rw [erase_dups_concat_of_mem seen, add, if_pos (listed.mp seen)]
        exact ih
      · rw [erase_dups_concat_of_not_mem seen, add, if_neg (mt listed.mpr seen), ← ih]
        exact Array.toList_push

theorem values_fold (records : List (Rating α)) (pair : EntityId × EntityId) :
    (records.foldl add empty).values[pair]? = lastValue records pair := by
  induction records using List.reverseRecOn with
  | nil => simp [empty, lastValue]
  | append_singleton records rating ih =>
      rw [List.foldl_append, List.foldl_cons, List.foldl_nil, last_value_concat, ← ih, add]
      by_cases same : rating.pair = pair
      · subst same
        simp [Rating.pair]
      · have apart : ¬(rating.user, rating.item) = pair := same
        simp [Std.HashMap.getElem?_insert, apart, same]

theorem mem_ratings_fold {records : List (Rating α)} {rating : Rating α} :
    rating ∈ (records.foldl add empty).ratings ↔
      lastValue records rating.pair = some rating.value := by
  rw [ratings, List.mem_filterMap]
  constructor
  · rintro ⟨pair, -, found⟩
    obtain ⟨value, last, rfl⟩ := Option.map_eq_some_iff.mp found
    rw [values_fold] at last
    exact last
  · intro last
    refine ⟨rating.pair, ?_, ?_⟩
    · rw [pairs_fold, List.mem_eraseDups]
      exact mem_pairs_of_last_value last
    · rw [values_fold, last]
      rfl

end Latest

namespace Store

def Lists (store : Store α) (side : Side) (id : EntityId) (entry : EntityId × α) : Prop :=
  ∃ entries, (store.table side).get? id = some entries ∧ entry ∈ entries

structure Consistent (store : Store α) : Prop where
  distinct : ∀ side, (store.table side).ids.toList.Nodup
  keys : ∀ side id, id ∈ (store.table side).ids.toList ↔ id ∈ (store.table side).entries
  mirrored : ∀ user item value,
    store.Lists .user user (item, value) ↔ store.Lists .item item (user, value)
  once : ∀ side id entries, (store.table side).get? id = some entries →
    (entries.map Prod.fst).Nodup
  size : ∀ side, store.size = ((store.table side).ids.toList.map fun id =>
    (((store.table side).get? id).getD []).length).sum
  rated : ∀ user ∈ store.users.ids.toList, ∃ entry, store.Lists .user user entry

-- What a store keeps of the records that it has been filled with.
structure Keeps (records : List (Rating α)) (store : Store α) : Prop where
  ids : ∀ side, (store.table side).ids.toList = (records.map (Rating.id · side)).eraseDups
  order : ∀ side id entries, (store.table side).get? id = some entries →
    entries.map Prod.fst = ((ratingsOf side records id).map (Rating.id · side.other)).eraseDups
  values : ∀ user item value, store.Lists .user user (item, value) ↔
    lastValue records (user, item) = some value

/-- The stores that records lead to when items are added to them, and when one half of a random
split is kept. -/
inductive Derived [Scalar α] (records : List (Rating α)) : Store α → Prop where
  | ofList : Derived records (ofList records)
  | addItems (store : Store α) (ids : List EntityId) (derived : Derived records store) :
      Derived records (store.addItems ids)
  | training (store : Store α) (fraction : α) (seed : UInt64) (halves : Split α)
      (derived : Derived records store) (split : store.split fraction seed = .ok halves) :
      Derived records halves.training
  | test (store : Store α) (fraction : α) (seed : UInt64) (halves : Split α)
      (derived : Derived records store) (split : store.split fraction seed = .ok halves) :
      Derived records halves.test

theorem built_of_derived [Scalar α] {records : List (Rating α)} {store : Store α}
    (derived : Derived records store) : store.Built := by
  induction derived with
  | ofList => exact .ofList records
  | addItems store ids _ ih => exact .addItems store ids ih
  | training store fraction seed halves _ split _ => exact (built_of_split split).1
  | test store fraction seed halves _ split _ => exact (built_of_split split).2

theorem table_insert (store : Store α) (rating : Rating α) (side : Side) :
    (store.insert rating).table side =
      (store.table side).append (rating.id side) (rating.entry side) := by
  cases side with
  | user | item => rfl

theorem ids_fold_insert (inserted : List (Rating α)) (side : Side) :
    ((inserted.foldl insert empty).table side).ids.toList =
      (inserted.map (Rating.id · side)).eraseDups := by
  induction inserted using List.reverseRecOn with
  | nil =>
      cases side with
      | user | item => rfl
  | append_singleton inserted rating ih =>
      have listed := (table_holds (holds_fold_insert inserted) side).listed (rating.id side)
      rw [ih, List.mem_eraseDups] at listed
      rw [List.foldl_append, List.foldl_cons, List.foldl_nil, table_insert, List.map_append,
        List.map_singleton]
      change (((inserted.foldl insert empty).table side).register (rating.id side)).ids.toList = _
      by_cases seen : rating.id side ∈ inserted.map (Rating.id · side)
      · rw [erase_dups_concat_of_mem seen, Table.register_of_known (listed.mp seen), ih]
      · rw [erase_dups_concat_of_not_mem seen, Table.ids_register (mt listed.mpr seen), ih]

theorem size_fold_insert (inserted : List (Rating α)) :
    (inserted.foldl insert empty).size = inserted.length := by
  induction inserted using List.reverseRecOn with
  | nil => rfl
  | append_singleton inserted rating ih =>
      rw [List.foldl_append, List.length_append, ← ih]
      rfl

theorem lists_iff {ratings : List (Rating α)} {store : Store α} (holds : store.Holds ratings)
    (side : Side) (rating : Rating α) :
    store.Lists side (rating.id side) (rating.entry side) ↔ rating ∈ ratings := by
  have table := table_holds holds side
  constructor
  · rintro ⟨entries, found, listed⟩
    rw [table.entries _ entries found] at listed
    obtain ⟨other, own, same⟩ := List.mem_map.mp listed
    obtain ⟨member, at_id⟩ := List.mem_filter.mp own
    rw [← Rating.eq_of_entry side (of_decide_eq_true at_id) same]
    exact member
  · intro member
    have known := (table.listed _).mp (table.known rating member)
    obtain ⟨entries, found⟩ := Option.isSome_iff_exists.mp known
    refine ⟨entries, found, ?_⟩
    rw [table.entries _ entries found]
    exact List.mem_map_of_mem (List.mem_filter.mpr ⟨member, decide_eq_true rfl⟩)

theorem counterparts_eq {ratings : List (Rating α)} {store : Store α} (holds : store.Holds ratings)
    {side : Side} {id : EntityId} {entries : Entries α}
    (found : (store.table side).get? id = some entries) :
    entries.map Prod.fst = (ratingsOf side ratings id).map (Rating.id · side.other) := by
  rw [(table_holds holds side).entries id entries found, List.map_map]
  rfl

theorem keeps_of_list (records : List (Rating α)) : (ofList records).Keeps records := by
  have holds := holds_of_list records
  have pairs : (records.foldl Latest.add .empty).ratings.map Rating.pair =
      (records.map Rating.pair).eraseDups :=
    (Latest.map_pair_ratings (Latest.sound_fold records)).trans (Latest.pairs_fold records)
  refine ⟨fun side => ?_, fun side id entries found => ?_, fun user item value => ?_⟩
  · rw [ofList, ids_fold_insert, ids_eq_picks, pairs, erase_dups_map_erase_dups, ids_eq_picks]
  · rw [counterparts_eq holds found, ids_of_eq_picks, pairs, filter_erase_dups, ids_of_eq_picks]
    exact (erase_dups_map (side.pick_other_injective id _)).symm
  · exact (lists_iff holds .user ⟨user, item, value⟩).trans Latest.mem_ratings_fold

structure Filled (ratings : List (Rating α)) (store : Store α) : Prop where
  holds : store.Holds ratings
  pairs : (ratings.map Rating.pair).Nodup
  size : store.size = ratings.length
  rated : ∀ user ∈ store.users.ids.toList, ∃ rating ∈ ratings, rating.user = user

theorem filled_of_list (records : List (Rating α)) :
    (ofList records).Filled (records.foldl Latest.add .empty).ratings where
  holds := holds_of_list records
  pairs := Latest.distinct_ratings (Latest.sound_fold records)
  size := size_fold_insert _
  rated := by
    intro user member
    have ids := ids_fold_insert (records.foldl Latest.add .empty).ratings .user
    have listed : user ∈ ((ofList records).table .user).ids.toList := member
    rw [ofList, ids, List.mem_eraseDups] at listed
    exact List.mem_map.mp listed

theorem filled_of_built {store : Store α} (built : store.Built) :
    ∃ ratings, store.Filled ratings := by
  induction built with
  | ofList records => exact ⟨_, filled_of_list records⟩
  | addItems store ids _ ih =>
      obtain ⟨ratings, filled⟩ := ih
      exact ⟨ratings, holds_add_items filled.holds ids, filled.pairs, filled.size, filled.rated⟩

theorem size_of_filled {ratings : List (Rating α)} {store : Store α} (filled : store.Filled ratings)
    (side : Side) :
    store.size = ((store.table side).ids.toList.map fun id =>
      (((store.table side).get? id).getD []).length).sum := by
  have table := table_holds filled.holds side
  have each : ∀ id ∈ (store.table side).ids.toList,
      (((store.table side).get? id).getD []).length =
        ((ratingsOf side ratings id).map fun _ => 1).sum := by
    intro id member
    obtain ⟨entries, found⟩ := Option.isSome_iff_exists.mp ((table.listed id).mp member)
    rw [found, Option.getD_some, table.entries id entries found]
    simp
  rw [filled.size, List.map_congr_left each]
  have groups := sum_groups (Rating.id · side) table.distinct table.known fun _ => 1
  simpa [ratingsOf] using groups.symm

theorem consistent_of_filled {ratings : List (Rating α)} {store : Store α}
    (filled : store.Filled ratings) : store.Consistent where
  distinct side := (table_holds filled.holds side).distinct
  keys side id := by
    rw [(table_holds filled.holds side).listed, ← Table.contains_iff, Std.HashMap.contains_iff_mem]
  mirrored user item value :=
    (lists_iff filled.holds .user ⟨user, item, value⟩).trans
      (lists_iff filled.holds .item ⟨user, item, value⟩).symm
  once side id entries found := by
    rw [counterparts_eq filled.holds found, ids_of_eq_picks]
    exact (filled.pairs.filter _).map_on (side.pick_other_injective id _)
  size := size_of_filled filled
  rated user member := by
    obtain ⟨rating, there, rfl⟩ := filled.rated user member
    exact ⟨rating.entry .user, (lists_iff filled.holds .user rating).mpr there⟩

theorem consistent_of_derived [Scalar α] (records : List (Rating α)) :
    (∀ store, Derived records store → store.Consistent) ∧ (ofList records).Keeps records := by
  refine ⟨fun store derived => ?_, keeps_of_list records⟩
  obtain ⟨ratings, filled⟩ := filled_of_built (built_of_derived derived)
  exact consistent_of_filled filled

theorem consistent_of_derived_repeated_pair :
    let records : List (Rating ℝ) := [⟨1, 2, 3⟩, ⟨4, 2, 5⟩, ⟨1, 2, 6⟩]
    let store : Store ℝ := (ofList records).addItems [7]
    Derived records store ∧ store.Consistent ∧
      (∃ halves, store.split 1 0 = .ok halves ∧ Derived records halves.test ∧
        halves.test.Consistent) ∧
      (ofList records).users.ids.toList = [1, 4] ∧
      (ofList records).Lists .user 1 (2, 6) := by
  intro records store
  obtain ⟨consistent, keeps⟩ := consistent_of_derived records
  have derived : Derived records store := .addItems _ [7] .ofList
  obtain ⟨halves, split⟩ : ∃ halves, store.split 1 0 = .ok halves :=
    ⟨_, if_pos ⟨zero_le_one, le_refl _⟩⟩
  have kept : Derived records halves.test := .test store 1 0 halves derived split
  refine ⟨derived, consistent store derived, ⟨halves, split, kept, consistent _ kept⟩, ?_, ?_⟩
  · exact (keeps.ids .user).trans (by decide)
  · refine (keeps.values 1 2 6).mpr ?_
    simp [lastValue, records, Rating.pair]

end Store
end LatentFactor
