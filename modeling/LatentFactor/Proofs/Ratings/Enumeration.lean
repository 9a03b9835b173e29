import LatentFactor.Proofs.Contiguous
import LatentFactor.Proofs.Ratings.Permuted

set_option autoImplicit false

namespace LatentFactor

variable {α : Type}

theorem Latest.ratings_fold_of_distinct {records : List (Rating α)}
    (distinct : (records.map Rating.pair).Nodup) :
    (records.foldl add empty).ratings = records := by
  have found : ∀ rating ∈ records,
      ((records.foldl add empty).values[rating.pair]?.map fun value =>
        (⟨rating.pair.1, rating.pair.2, value⟩ : Rating α)) = some rating := by
    intro rating member
    rw [values_fold, last_value_of_distinct distinct member]
    rfl
  rw [ratings, pairs_fold, erase_dups_of_nodup distinct, List.filterMap_map]
  exact (List.filterMap_congr found).trans List.filterMap_some

theorem Table.get_of_holds {side : Side} {ratings : List (Rating α)} {table other : Table α}
    (own : table.Holds side ratings) (their : other.Holds side ratings)
    (same : table.ids.toList = other.ids.toList) (id : EntityId) :
    table.get? id = other.get? id := by
  have known : (table.get? id).isSome = (other.get? id).isSome := by
    rw [Bool.eq_iff_iff, ← own.listed, ← their.listed, same]
  cases found : table.get? id with
  | none =>
      rw [found] at known
      exact (Option.not_isSome_iff_eq_none.mp (by simp [← known])).symm
  | some entries =>
      rw [found] at known
      obtain ⟨others, there⟩ := Option.isSome_iff_exists.mp known.symm
      rw [there, own.entries id entries found, their.entries id others there]

structure Enumerated (ratings : List (Rating α)) : Prop where
  contiguous : Contiguous (Rating.id · .user) ratings
  pairs : (ratings.map Rating.pair).Nodup

theorem enumerated_of_sublist {ratings part : List (Rating α)} (enumerated : Enumerated ratings)
    (inside : part.Sublist ratings) : Enumerated part where
  contiguous := contiguous_of_sublist enumerated.contiguous inside
  pairs := enumerated.pairs.sublist (inside.map _)

namespace Store

theorem groups_of_holds {ratings : List (Rating α)} {store : Store α}
    (holds : store.Holds ratings) :
    Groups (Rating.id · .user) store.users.ids.toList (ratingsOf .user ratings) where
  distinct := holds.users.distinct
  own := fun _ _ _ member => of_decide_eq_true (List.mem_filter.mp member).2

theorem enumerated_of_filled {ratings : List (Rating α)} {store : Store α}
    (filled : store.Filled ratings) : Enumerated store.ratings where
  contiguous := by
    rw [ratings_eq_groups filled.holds]
    exact contiguous_of_groups (groups_of_holds filled.holds)
  pairs := ((perm_ratings filled.holds).map Rating.pair).nodup_iff.mpr filled.pairs

theorem ratings_of_list_of_enumerated {ratings : List (Rating α)}
    (enumerated : Enumerated ratings) : (ofList ratings).ratings = ratings := by
  have holds := holds_of_list ratings
  rw [Latest.ratings_fold_of_distinct enumerated.pairs] at holds
  have ids := (keeps_of_list ratings).ids .user
  rw [ratings_eq_groups holds]
  exact (congrArg _ ids).trans (groups_of_contiguous enumerated.contiguous)

theorem users_hold_ratings {ratings : List (Rating α)} {store : Store α}
    (holds : store.Holds ratings) : store.users.Holds .user store.ratings where
  distinct := holds.users.distinct
  listed := holds.users.listed
  entries := by
    intro user entries found
    have listed := (holds.users.listed user).mpr (by rw [found]; rfl)
    have own := filter_groups (groups_of_holds holds) listed
    rw [holds.users.entries user entries found, ratings_eq_groups holds]
    exact congrArg _ own.symm
  known := fun rating member => holds.users.known rating ((perm_ratings holds).mem_iff.mp member)

-- What becomes of a store when it is filled with the ratings that it lists itself.
structure Normalizes (store normal : Store α) : Prop where
  ratings : normal.ratings = store.ratings
  userIds : normal.users.ids = store.users.ids
  ofUser : ∀ user, normal.users.get? user = store.users.get? user
  itemIds : normal.items.ids.toList = (store.ratings.map Rating.item).eraseDups
  rated : ∀ item, item ∈ normal.items.ids.toList ↔ ∃ entry, store.Lists .item item entry
  ofItem : ∀ item entries, normal.items.get? item = some entries →
    entries = (ratingsOf .item store.ratings item).map (Rating.entry .item) ∧
      ∃ others, store.items.get? item = some others ∧ entries.Perm others
  size : normal.size = store.size
  again : ofList normal.ratings = normal

theorem filled_of_enumerated {ratings : List (Rating α)} (enumerated : Enumerated ratings) :
    (ofList ratings).Filled ratings := by
  have filled := filled_of_list ratings
  rwa [Latest.ratings_fold_of_distinct enumerated.pairs] at filled

theorem user_ids_of_filled {ratings : List (Rating α)} {store : Store α}
    (filled : store.Filled ratings) :
    (store.ratings.map (Rating.id · .user)).eraseDups = store.users.ids.toList := by
  rw [ratings_eq_groups filled.holds]
  refine keys_of_groups (groups_of_holds filled.holds) fun user member => ?_
  obtain ⟨rating, there, own⟩ := filled.rated user member
  exact List.ne_nil_of_mem (List.mem_filter.mpr ⟨there, decide_eq_true own⟩)

theorem rated_iff {ratings : List (Rating α)} {store : Store α} (holds : store.Holds ratings)
    (item : EntityId) :
    (∃ entry, store.Lists .item item entry) ↔ item ∈ ratings.map Rating.item := by
  rw [List.mem_map]
  constructor
  · rintro ⟨entry, listed⟩
    have own := (lists_iff holds .item ⟨entry.1, item, entry.2⟩).mp listed
    exact ⟨_, own, rfl⟩
  · rintro ⟨rating, member, rfl⟩
    exact ⟨_, (lists_iff holds .item rating).mpr member⟩

theorem normalizes_of_filled {ratings : List (Rating α)} {store : Store α}
    (filled : store.Filled ratings) : store.Normalizes (ofList store.ratings) := by
  have enumerated := enumerated_of_filled filled
  have normal := filled_of_enumerated enumerated
  have same := ratings_of_list_of_enumerated enumerated
  have keeps := keeps_of_list store.ratings
  have listed := perm_ratings filled.holds
  have userIds : (ofList store.ratings).users.ids.toList = store.users.ids.toList :=
    (keeps.ids .user).trans (user_ids_of_filled filled)
  have itemIds : (ofList store.ratings).items.ids.toList =
      (store.ratings.map Rating.item).eraseDups := keeps.ids .item
  refine ⟨same, Array.toList_inj.mp userIds, ?_, itemIds, ?_, ?_, ?_, congrArg ofList same⟩
  · exact Table.get_of_holds normal.holds.users (users_hold_ratings filled.holds) userIds
  · intro item
    rw [itemIds, List.mem_eraseDups, rated_iff filled.holds]
    exact (listed.map Rating.item).mem_iff
  · intro item entries found
    have own := normal.holds.items.entries item entries found
    have member := (normal.holds.items.listed item).mpr (by rw [found]; rfl)
    rw [itemIds, List.mem_eraseDups, (listed.map Rating.item).mem_iff, List.mem_map] at member
    obtain ⟨rating, there, rfl⟩ := member
    have known := (filled.holds.items.listed _).mp (filled.holds.items.known rating there)
    obtain ⟨others, given⟩ := Option.isSome_iff_exists.mp known
    refine ⟨own, others, given, ?_⟩
    rw [own, filled.holds.items.entries _ others given]
    exact (listed.filter _).map _
  · rw [normal.size, filled.size, listed.length_eq]

theorem normalizes_of_derived [Scalar α] (records : List (Rating α)) (store : Store α)
    (derived : Derived records store) : store.Normalizes (ofList store.ratings) := by
  obtain ⟨ratings, filled⟩ := filled_of_built (built_of_derived derived)
  exact normalizes_of_filled filled

theorem normalizes_of_derived_regrouped :
    let records : List (Rating ℝ) := [⟨1, 2, 3⟩, ⟨4, 5, 1⟩, ⟨1, 7, 2⟩]
    let store : Store ℝ := (ofList records).addItems [9]
    Derived records store ∧ store.Normalizes (ofList store.ratings) ∧
      (ofList records).items.ids.toList = [2, 5, 7] ∧
      (ofList store.ratings).items.ids.toList = [2, 7, 5] := by
  intro records store
  have derived : Derived records store := .addItems _ [9] .ofList
  have normalizes := normalizes_of_derived records store derived
  have distinct : (records.map Rating.pair).Nodup := by
    simp [records, Rating.pair]
  have holds := holds_of_list records
  rw [Latest.ratings_fold_of_distinct distinct] at holds
  have users : (ofList records).users.ids.toList = [1, 4] := (keeps_of_list records).ids .user
  have listed : store.ratings = [⟨1, 2, 3⟩, ⟨1, 7, 2⟩, ⟨4, 5, 1⟩] := by
    change (ofList records).ratings = _
    rw [ratings_eq_groups holds, users]
    simp [records, ratingsOf, Rating.id]
  refine ⟨derived, normalizes, (keeps_of_list records).ids .item, ?_⟩
  rw [normalizes.itemIds, listed]
  decide

end Store
end LatentFactor
