import LatentFactor.Proofs.Ratings.Representation

set_option autoImplicit false

namespace LatentFactor

variable {α : Type}

namespace Ratings

-- The users of a source, and the entries of every row, in another order.
structure Permuted (source other : Ratings α) : Prop where
  users : source.userIds.Perm other.userIds
  items : source.itemIds = other.itemIds
  entries : ∀ side, ∀ id ∈ source.ids side, ∀ entries others : Entries α,
    source.entries side id = .ok entries → other.entries side id = .ok others →
      entries.Perm others

variable {source other : Ratings α}

theorem ids_perm (permuted : source.Permuted other) (side : Side) :
    (source.ids side).Perm (other.ids side) := by
  cases side with
  | user => exact permuted.users
  | item => exact .of_eq permuted.items

theorem permuted_symm (permuted : source.Permuted other) : other.Permuted source where
  users := permuted.users.symm
  items := permuted.items.symm
  entries := fun side id member entries others given there =>
    (permuted.entries side id ((ids_perm permuted side).mem_iff.mpr member) others entries there
      given).symm

end Ratings

theorem last_value_of_distinct {records : List (Rating α)} {rating : Rating α}
    (distinct : (records.map Rating.pair).Nodup) (member : rating ∈ records) :
    lastValue records rating.pair = some rating.value := by
  induction records using List.reverseRecOn with
  | nil => cases member
  | append_singleton records last ih =>
      rw [List.map_append, List.map_singleton, List.nodup_append] at distinct
      obtain ⟨earlier, -, apart⟩ := distinct
      rw [last_value_concat]
      rcases List.mem_append.mp member with old | new
      · rw [if_neg fun same => apart rating.pair (List.mem_map_of_mem old) last.pair
          (List.mem_singleton_self _) same.symm]
        exact ih earlier old
      · rw [List.mem_singleton.mp new, if_pos rfl]

theorem mem_of_last_value {records : List (Rating α)} {rating : Rating α}
    (last : lastValue records rating.pair = some rating.value) : rating ∈ records := by
  obtain ⟨found, listed, value⟩ := Option.map_eq_some_iff.mp last
  obtain ⟨member, same⟩ := List.mem_filter.mp (List.mem_of_getLast? listed)
  obtain ⟨user, item⟩ := Prod.mk.inj (of_decide_eq_true same)
  obtain ⟨_, _, _⟩ := found
  cases user
  cases item
  cases value
  exact member

namespace Store

theorem ratings_of_list_perm {records : List (Rating α)}
    (distinct : (records.map Rating.pair).Nodup) : (ofList records).ratings.Perm records := by
  refine (perm_ratings (holds_of_list records)).trans ?_
  refine (List.perm_ext_iff_of_nodup ?_ distinct.of_map).mpr fun rating => ?_
  · exact (Latest.distinct_ratings (Latest.sound_fold records)).of_map
  · rw [Latest.mem_ratings_fold]
    exact ⟨mem_of_last_value, last_value_of_distinct distinct⟩

theorem ids_of_list (records : List (Rating α)) (side : Side) :
    (ofList records).toRatings.ids side = (records.map (Rating.id · side)).eraseDups := by
  rw [ids_to_ratings, (keeps_of_list records).ids]

theorem permuted_of_perm {records others : List (Rating α)} (same : records.Perm others)
    (distinct : (records.map Rating.pair).Nodup)
    (items : (records.map Rating.item).eraseDups = (others.map Rating.item).eraseDups) :
    (ofList records).toRatings.Permuted (ofList others).toRatings := by
  have agrees := (agrees_of_built (.ofList records)).1
  have agreesOther := (agrees_of_built (.ofList others)).1
  have ratings : (ofList records).ratings.Perm (ofList others).ratings :=
    (ratings_of_list_perm distinct).trans (same.trans
      (ratings_of_list_perm ((same.map Rating.pair).nodup_iff.mp distinct)).symm)
  refine ⟨?_, ?_, ?_⟩
  · refine (List.perm_ext_iff_of_nodup (agrees.distinct .user) (agreesOther.distinct .user)).mpr ?_
    intro id
    rw [ids_of_list, ids_of_list, List.mem_eraseDups, List.mem_eraseDups]
    exact (same.map _).mem_iff
  · exact (ids_of_list records .item).trans (items.trans (ids_of_list others .item).symm)
  · intro side id member entries rest given there
    obtain ⟨own, found, listed⟩ := agrees.entries side id member
    cases given.symm.trans found
    have memberOther : id ∈ (ofList others).toRatings.ids side := by
      rw [ids_of_list, List.mem_eraseDups, (same.map _).mem_iff] at member
      rw [ids_of_list, List.mem_eraseDups]
      exact member
    obtain ⟨own, found, listedOther⟩ := agreesOther.entries side id memberOther
    cases there.symm.trans found
    exact listed.trans (((ratings.filter _).map _).trans listedOther.symm)

end Store
end LatentFactor
