import LatentFactor.Proofs.Ratings.Source

set_option autoImplicit false

namespace LatentFactor

variable {α : Type} {added : List EntityId}

structure Ratings.Extends (wider source : Ratings α) (added : List EntityId) : Prop where
  userIds : wider.userIds = source.userIds
  itemIds : wider.itemIds = source.itemIds ++ added
  ofUser : wider.ofUser = source.ofUser
  ofItem : ∀ id ∈ source.itemIds, wider.ofItem id = source.ofItem id
  unrated : ∀ id ∈ added, wider.ofItem id = .ok []

theorem Ratings.entries_of_extends {wider source : Ratings α} {side : Side} {id : EntityId}
    (grown : wider.Extends source added) (known : id ∈ source.ids side) :
    wider.entries side id = source.entries side id := by
  cases side with
  | user => exact congrFun grown.ofUser id
  | item => exact grown.ofItem id known

namespace Table

theorem exists_added {side : Side} {ratings : List (Rating α)} {table : Table α}
    (holds : table.Holds side ratings) (ids : List EntityId) :
    ∃ added, (ids.foldl register table).ids.toList = table.ids.toList ++ added ∧
      (∀ id ∈ table.ids.toList, (ids.foldl register table).get? id = table.get? id) ∧
      (∀ id ∈ added, (ids.foldl register table).get? id = some []) ∧
      ∀ id ∈ ids, id ∈ table.ids.toList ++ added := by
  induction ids generalizing table with
  | nil => exact ⟨[], by simp, fun _ _ => rfl, by simp, by simp⟩
  | cons id ids ih =>
      by_cases known : (table.get? id).isSome = true
      · obtain ⟨added, listed, kept, fresh, all⟩ := ih holds
        rw [List.foldl_cons, register_of_known known]
        have own : id ∈ table.ids.toList ++ added :=
          List.mem_append_left added ((holds.listed id).mpr known)
        exact ⟨added, listed, kept, fresh, List.forall_mem_cons.mpr ⟨own, all⟩⟩
      · obtain ⟨added, listed, kept, fresh, all⟩ := ih (holds_register holds id)
        have ids_own := ids_register known
        have apart : ∀ other ∈ table.ids.toList, id ≠ other := by
          rintro other member rfl
          exact known ((holds.listed _).mp member)
        rw [ids_own, List.append_assoc] at listed all
        rw [ids_own] at kept
        refine ⟨id :: added, listed, ?_, ?_, ?_⟩
        · intro other member
          rw [List.foldl_cons, kept other (List.mem_append_left _ member), get_register,
            if_neg (apart other member)]
        · refine List.forall_mem_cons.mpr ⟨?_, fresh⟩
          rw [List.foldl_cons, kept id (List.mem_append_right _ (List.mem_singleton_self id)),
            get_register, if_pos rfl, Option.not_isSome_iff_eq_none.mp known, Option.getD_none]
        · refine List.forall_mem_cons.mpr ⟨?_, all⟩
          exact List.mem_append_right _ (List.mem_cons_self ..)

end Table

theorem Store.extends_add_items {store : Store α} (built : store.Built) (ids : List EntityId) :
    ∃ added, (store.addItems ids).toRatings.Extends store.toRatings added ∧
      ∀ id ∈ ids, id ∈ (store.addItems ids).toRatings.itemIds := by
  obtain ⟨ratings, holds, -⟩ := holds_of_built built
  obtain ⟨added, listed, kept, fresh, all⟩ := Table.exists_added holds.items ids
  refine ⟨added, ⟨rfl, listed, rfl, ?_, ?_⟩, ?_⟩
  · intro id member
    simp only [toRatings, addItems, Table.find, kept id member]
  · intro id member
    simp only [toRatings, addItems, Table.find, fresh id member]
  · intro id member
    rw [toRatings, addItems, listed]
    exact all id member

theorem Numbering.get_of_append {wider numbering : Numbering} {id : EntityId} {row : Nat}
    (ids : wider.ids.toList = numbering.ids.toList ++ added)
    (found : numbering.get? id = some row) : wider.get? id = some row := by
  have listed := (numbering.get_eq_some_iff id row).mp found
  refine (wider.get_eq_some_iff id row).mpr ?_
  rw [id?, ← Array.getElem?_toList] at listed ⊢
  obtain ⟨inside, -⟩ := List.getElem?_eq_some_iff.mp listed
  rw [ids, List.getElem?_append_left inside]
  exact listed

theorem Resolved.lists_of_append {wider numbering : Numbering} {entries : Entries α}
    {observations : Observations α} (ids : wider.ids.toList = numbering.ids.toList ++ added)
    (lists : Lists numbering entries observations) : Lists wider entries observations :=
  lists.imp fun _ _ own => ⟨Numbering.get_of_append ids own.1, own.2⟩

section

variable {source wider : Ratings α} {users items widerItems : Numbering}
  {rows : List (Observations α)}

theorem resolve_users_of_extends (grown : wider.Extends source added)
    (ids : widerItems.ids.toList = items.ids.toList ++ added)
    (resolved : Resolved.resolveSide source .user users items = .ok rows) :
    Resolved.resolveSide wider .user users widerItems = .ok rows := by
  refine resolve_side_eq_ok_iff.mpr ((resolve_side_eq_ok_iff.mp resolved).imp fun id _ row => ?_)
  obtain ⟨entries, given, lists⟩ := row
  exact ⟨entries, (congrFun grown.ofUser id).trans given, Resolved.lists_of_append ids lists⟩

theorem resolve_items_of_extends (grown : wider.Extends source added)
    (own : items.ids.toList = source.itemIds)
    (ids : widerItems.ids.toList = items.ids.toList ++ added)
    (resolved : Resolved.resolveSide source .item items users = .ok rows) :
    Resolved.resolveSide wider .item widerItems users =
      .ok (rows ++ List.replicate added.length []) := by
  refine resolve_side_eq_ok_iff.mpr ?_
  rw [ids]
  refine List.rel_append ?_ ?_
  · refine ((List.forall₂_and_left _ _).mpr
      ⟨fun id member => own ▸ member, resolve_side_eq_ok_iff.mp resolved⟩).imp fun id _ row => ?_
    obtain ⟨member, entries, given, lists⟩ := row
    exact ⟨entries, (grown.ofItem id member).trans given, lists⟩
  · refine List.forall₂_iff_get.mpr ⟨List.length_replicate.symm, fun i first second => ?_⟩
    refine ⟨[], grown.unrated _ (List.get_mem ..), ?_⟩
    simp [Resolved.Lists]

end

namespace Training

structure Prepared.Extends (wider prepared : Prepared α) (added : List EntityId) : Prop where
  users : wider.users = prepared.users
  items : wider.items.ids.toList = prepared.items.ids.toList ++ added
  byUser : wider.ratings.byUser = prepared.ratings.byUser
  byItem : wider.ratings.byItem.toList =
    prepared.ratings.byItem.toList ++ List.replicate added.length []

theorem extends_of_prepare {training wider : Training α} {prepared extended : Prepared α}
    (grown : wider.ratings.Extends training.ratings added)
    (resolved : training.prepare = .ok prepared) (resolvedWider : wider.prepare = .ok extended) :
    extended.Extends prepared added := by
  obtain ⟨numbered, -⟩ := prepare_eq_ok_iff.mp resolved
  obtain ⟨numberedWider, -⟩ := prepare_eq_ok_iff.mp resolvedWider
  have coherent := coherent_of_prepare resolved
  have coherentWider := coherent_of_prepare resolvedWider
  rw [grown.userIds] at numberedWider
  have users : extended.users = prepared.users :=
    Except.ok.inj (numberedWider.symm.trans numbered)
  have own : prepared.items.ids.toList = training.ratings.itemIds := coherent.ids .item
  have items : extended.items.ids.toList = prepared.items.ids.toList ++ added :=
    own ▸ (coherentWider.ids .item).trans grown.itemIds
  have rows := fun side => resolve_side_eq_ok_iff.mpr (coherent.rows side)
  have rowsWider := fun side => resolve_side_eq_ok_iff.mpr (coherentWider.rows side)
  have byUser := resolve_users_of_extends grown items (rows .user)
  have byItem := resolve_items_of_extends grown own items (rows .item)
  have byUserWider := rowsWider .user
  have byItemWider := rowsWider .item
  simp only [Prepared.numbering, Side.other, users] at byUser byItem byUserWider byItemWider
  refine ⟨users, items, ?_, ?_⟩
  · exact Array.toList_inj.mp (Except.ok.inj (byUserWider.symm.trans byUser))
  · exact Except.ok.inj (byItemWider.symm.trans byItem)

end Training
end LatentFactor
