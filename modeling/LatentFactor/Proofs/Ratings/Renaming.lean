import LatentFactor.Proofs.Ratings.Representation

set_option autoImplicit false

namespace LatentFactor

variable {α : Type}

-- New names for the ids of both sides. Different ids keep different names.
structure Renaming where
  name : Side → EntityId → EntityId
  injective : ∀ side, Function.Injective (name side)

namespace Renaming

def pair (naming : Renaming) (pair : EntityId × EntityId) : EntityId × EntityId :=
  (naming.name .user pair.1, naming.name .item pair.2)

def entry (naming : Renaming) (side : Side) (entry : EntityId × α) : EntityId × α :=
  (naming.name side.other entry.1, entry.2)

def shift (distance : EntityId) : Renaming where
  name := fun _ id => id + distance
  injective := fun _ _ _ same => (UInt64.add_left_inj distance).mp same

theorem pair_injective (naming : Renaming) : Function.Injective naming.pair := by
  rintro ⟨user, item⟩ ⟨other, another⟩ same
  obtain ⟨users, items⟩ := Prod.mk.inj same
  exact Prod.ext (naming.injective .user users) (naming.injective .item items)

end Renaming

variable {naming : Renaming}

def Rating.rename (naming : Renaming) (rating : Rating α) : Rating α :=
  ⟨naming.name .user rating.user, naming.name .item rating.item, rating.value⟩

theorem Rating.id_rename (rating : Rating α) (side : Side) :
    (rating.rename naming).id side = naming.name side (rating.id side) := by
  cases side with
  | user | item => rfl

theorem Rating.entry_rename (rating : Rating α) (side : Side) :
    (rating.rename naming).entry side = naming.entry side (rating.entry side) := by
  cases side with
  | user | item => rfl

theorem ratings_of_rename (side : Side) (ratings : List (Rating α)) (id : EntityId) :
    ratingsOf side (ratings.map (Rating.rename naming)) (naming.name side id) =
      (ratingsOf side ratings id).map (Rating.rename naming) := by
  simp only [ratingsOf, List.filter_map, Function.comp_def, Rating.id_rename,
    (naming.injective side).eq_iff]

theorem last_value_rename (records : List (Rating α)) (pair : EntityId × EntityId) :
    lastValue (records.map (Rating.rename naming)) (naming.pair pair) =
      lastValue records pair := by
  have own : ∀ rating : Rating α,
      (rating.rename naming).pair = naming.pair rating.pair := fun _ => rfl
  simp only [lastValue, List.filter_map, Function.comp_def, own, naming.pair_injective.eq_iff,
    List.getLast?_map, Option.map_map]
  rfl

theorem Latest.ratings_rename (records : List (Rating α)) :
    ((records.map (Rating.rename naming)).foldl add empty).ratings =
      (records.foldl add empty).ratings.map (Rating.rename naming) := by
  have pairs : ((records.map (Rating.rename naming)).map Rating.pair).eraseDups =
      (records.map Rating.pair).eraseDups.map naming.pair := by
    rw [List.map_map, ← erase_dups_map fun _ _ _ _ same => naming.pair_injective same,
      List.map_map]
    rfl
  rw [ratings, ratings, pairs_fold, pairs_fold, pairs, List.filterMap_map, List.map_filterMap]
  refine List.filterMap_congr fun pair _ => ?_
  rw [Function.comp_apply, values_fold, last_value_rename, values_fold, Option.map_map]
  rfl

theorem Table.ids_fold_register {side : Side} {ratings : List (Rating α)} {table : Table α}
    (holds : table.Holds side ratings) (ids : List EntityId) :
    (ids.foldl register table).ids.toList = (table.ids.toList ++ ids).eraseDups := by
  induction ids using List.reverseRecOn with
  | nil => rw [List.append_nil, erase_dups_of_nodup holds.distinct, List.foldl_nil]
  | append_singleton ids id ih =>
      have listed := (holds_fold_register holds ids).listed id
      rw [ih, List.mem_eraseDups] at listed
      rw [List.foldl_append, List.foldl_cons, List.foldl_nil, ← List.append_assoc]
      by_cases seen : id ∈ table.ids.toList ++ ids
      · rw [erase_dups_concat_of_mem seen, register_of_known (listed.mp seen), ih]
      · rw [erase_dups_concat_of_not_mem seen, ids_register (mt listed.mpr seen), ih]

structure Ratings.Renamed (naming : Renaming) (renamed source : Ratings α) : Prop where
  ids : ∀ side, renamed.ids side = (source.ids side).map (naming.name side)
  entries : ∀ side, ∀ id ∈ source.ids side, ∃ entries, source.entries side id = .ok entries ∧
    renamed.entries side (naming.name side id) = .ok (entries.map (naming.entry side))

namespace Store

theorem ids_rename (naming : Renaming) (records : List (Rating α)) (items : List EntityId)
    (side : Side) :
    (((ofList (records.map (Rating.rename naming))).addItems
        (items.map (naming.name .item))).table side).ids.toList =
      (((ofList records).addItems items).table side).ids.toList.map (naming.name side) := by
  have ids : ∀ side, ((ofList (records.map (Rating.rename naming))).table side).ids.toList =
      ((ofList records).table side).ids.toList.map (naming.name side) := by
    intro side
    rw [(keeps_of_list _).ids, (keeps_of_list _).ids,
      ← erase_dups_map fun _ _ _ _ same => naming.injective side same, List.map_map,
      List.map_map]
    simp only [Function.comp_def, Rating.id_rename]
  cases side with
  | user => exact ids .user
  | item =>
      have own : (ofList (records.map (Rating.rename naming))).items.ids.toList =
          (ofList records).items.ids.toList.map (naming.name .item) := ids .item
      simp only [table, addItems]
      rw [Table.ids_fold_register (holds_of_list _).items,
        Table.ids_fold_register (holds_of_list _).items, own, ← List.map_append,
        erase_dups_map fun _ _ _ _ same => naming.injective .item same]

theorem renamed_of_records (records : List (Rating α)) (items : List EntityId) :
    ((ofList (records.map (Rating.rename naming))).addItems
        (items.map (naming.name .item))).toRatings.Renamed naming
      ((ofList records).addItems items).toRatings := by
  have ids := ids_rename naming records items
  refine ⟨fun side => ?_, fun side id member => ?_⟩
  · rw [ids_to_ratings, ids_to_ratings, ids side]
  · have table := table_holds (holds_add_items (holds_of_list records) items) side
    have renamed := table_holds (holds_add_items
      (holds_of_list (records.map (Rating.rename naming))) (items.map (naming.name .item))) side
    rw [Latest.ratings_rename] at renamed
    rw [ids_to_ratings] at member
    obtain ⟨entries, found⟩ := Option.isSome_iff_exists.mp ((table.listed id).mp member)
    obtain ⟨others, known⟩ := Option.isSome_iff_exists.mp
      ((renamed.listed _).mp (ids side ▸ List.mem_map_of_mem member))
    refine ⟨entries, ?_, ?_⟩
    · rw [entries_to_ratings, Table.find, found]
    · rw [entries_to_ratings, Table.find, known, renamed.entries _ others known,
        ratings_of_rename, table.entries id entries found, List.map_map, List.map_map]
      simp only [Function.comp_def, Rating.entry_rename]

end Store

theorem Numbering.get_of_renamed {renamed numbering : Numbering} {f : EntityId → EntityId}
    (injective : Function.Injective f)
    (ids : renamed.ids.toList = numbering.ids.toList.map f) (id : EntityId) :
    renamed.get? (f id) = numbering.get? id := by
  apply Option.ext
  intro row
  rw [get_eq_some_iff, get_eq_some_iff, id?, id?, ← Array.getElem?_toList,
    ← Array.getElem?_toList, ids, List.getElem?_map, Option.map_eq_some_iff]
  constructor
  · rintro ⟨other, listed, same⟩
    rw [← injective same]
    exact listed
  · intro listed
    exact ⟨id, listed, rfl⟩

section

variable {source renamed : Ratings α} {users items renamedUsers renamedItems : Numbering}

theorem lists_of_renamed {side : Side} {counterparts renamedCounterparts : Numbering}
    {entries : Entries α} {observations : Observations α}
    (ids : renamedCounterparts.ids.toList =
      counterparts.ids.toList.map (naming.name side.other))
    (lists : Resolved.Lists counterparts entries observations) :
    Resolved.Lists renamedCounterparts (entries.map (naming.entry side)) observations := by
  refine List.forall₂_map_left_iff.mpr (lists.imp fun entry observation own => ?_)
  exact ⟨(Numbering.get_of_renamed (naming.injective side.other) ids entry.1).trans own.1, own.2⟩

theorem resolve_side_of_renamed {side : Side} {numbering counterparts : Numbering}
    {renamedNumbering renamedCounterparts : Numbering} {rows : List (Observations α)}
    (same : renamed.Renamed naming source) (own : numbering.ids.toList = source.ids side)
    (ids : renamedNumbering.ids.toList = numbering.ids.toList.map (naming.name side))
    (counterpartIds : renamedCounterparts.ids.toList =
      counterparts.ids.toList.map (naming.name side.other))
    (resolved : Resolved.resolveSide source side numbering counterparts = .ok rows) :
    Resolved.resolveSide renamed side renamedNumbering renamedCounterparts = .ok rows := by
  rw [resolve_side_eq_ok_iff] at resolved ⊢
  rw [ids, List.forall₂_map_left_iff]
  refine ((List.forall₂_and_left _ _).mpr
    ⟨fun id member => own ▸ member, resolved⟩).imp fun id observations row => ?_
  obtain ⟨member, entries, given, lists⟩ := row
  obtain ⟨others, there, renamedEntries⟩ := same.entries side id member
  cases given.symm.trans there
  exact ⟨_, renamedEntries, lists_of_renamed counterpartIds lists⟩

theorem HeldOut.create_of_renamed (same : renamed.Renamed naming source)
    (userIds : renamedUsers.ids.toList = users.ids.toList.map (naming.name .user))
    (itemIds : renamedItems.ids.toList = items.ids.toList.map (naming.name .item)) :
    create renamed renamedUsers renamedItems = create source users items := by
  have user := Numbering.get_of_renamed (naming.injective .user) userIds
  have item := Numbering.get_of_renamed (naming.injective .item) itemIds
  have step : ∀ id ∈ source.userIds, ∀ heldOut : HeldOut α,
      addUser renamedUsers renamedItems renamed heldOut (naming.name .user id) =
        addUser users items source heldOut id := by
    intro id member heldOut
    obtain ⟨entries, given, others⟩ := same.entries .user id member
    have own : source.ofUser id = .ok entries := given
    have their : renamed.ofUser (naming.name .user id) =
      .ok (entries.map (naming.entry .user)) := others
    have entry : ∀ (row : Nat) (heldOut : HeldOut α) (entry : EntityId × α),
        addEntry renamedItems row heldOut (naming.entry .user entry) =
          addEntry items row heldOut entry := by
      intro row heldOut entry
      simp only [addEntry, Renaming.entry, Side.other, item]
    rw [addUser, addUser, own, their, user]
    simp only [bind, Except.bind, List.foldl_map, entry, List.length_map]
  have fold : ∀ (ids : List EntityId), (∀ id ∈ ids, id ∈ source.userIds) → ∀ first : HeldOut α,
      (ids.map (naming.name .user)).foldlM (addUser renamedUsers renamedItems renamed) first =
        ids.foldlM (addUser users items source) first := by
    intro ids
    induction ids with
    | nil => exact fun _ _ => rfl
    | cons id ids ih =>
        intro members first
        obtain ⟨own, rest⟩ := List.forall_mem_cons.mp members
        rw [List.map_cons, List.foldlM_cons, List.foldlM_cons, step id own first]
        exact congrArg _ (funext (ih rest))
  have ids : renamed.userIds = source.userIds.map (naming.name .user) := same.ids .user
  rw [create, create, ids]
  exact fold source.userIds (fun _ member => member) empty

end

namespace Training

structure Renamed (naming : Renaming) (renamed training : Training α) : Prop where
  settings : renamed.settings = training.settings
  ratings : renamed.ratings.Renamed naming training.ratings
  test : Option.Rel (Ratings.Renamed naming) renamed.test training.test

structure Prepared.Renamed (naming : Renaming) (renamed prepared : Prepared α) : Prop where
  ids : ∀ side, (renamed.numbering side).ids.toList =
    (prepared.numbering side).ids.toList.map (naming.name side)
  sides : ∀ side, (renamed.numbering side).side = side ∧ (prepared.numbering side).side = side
  ratings : renamed.ratings = prepared.ratings
  heldOut : renamed.heldOut = prepared.heldOut

theorem exists_numbering_of_renamed {renamed training : Training α} {prepared : Prepared α}
    (same : renamed.Renamed naming training) (coherent : training.Coherent prepared)
    (side : Side) :
    ∃ numbering, (Numbering.ofIds side (renamed.ratings.ids side) :
          Except (Error α) Numbering) = .ok numbering ∧
      numbering.ids.toList = (prepared.numbering side).ids.toList.map (naming.name side) := by
  have distinct : (renamed.ratings.ids side).Nodup := by
    rw [same.ratings.ids side, ← coherent.ids side]
    exact (Numbering.nodup_ids _).map (naming.injective side)
  obtain ⟨numbering, made⟩ := Numbering.exists_of_ids (α := α) side distinct
  refine ⟨numbering, made, ?_⟩
  rw [(Numbering.of_ids_eq_ok made).2, same.ratings.ids side, coherent.ids side]

theorem prepare_of_renamed {renamed training : Training α} {prepared : Prepared α}
    (same : renamed.Renamed naming training) (resolved : training.prepare = .ok prepared) :
    ∃ other, renamed.prepare = .ok other ∧ other.Renamed naming prepared := by
  have coherent := coherent_of_prepare resolved
  obtain ⟨ofUsers, ofItems, byRow, created, staffed⟩ := prepare_eq_ok_iff.mp resolved
  obtain ⟨users, numberedUsers, userIds⟩ :=
    exists_numbering_of_renamed same coherent .user
  obtain ⟨items, numberedItems, itemIds⟩ :=
    exists_numbering_of_renamed same coherent .item
  obtain ⟨byUser, resolvedUsers, rest⟩ := bind_eq_ok_iff.mp byRow
  obtain ⟨byItem, resolvedItems, made⟩ := bind_eq_ok_iff.mp rest
  have rows : Resolved.resolve renamed.ratings users items = .ok prepared.ratings := by
    rw [← Except.ok.inj made]
    exact bind_eq_ok_iff.mpr ⟨byUser,
      resolve_side_of_renamed same.ratings (coherent.ids .user) userIds itemIds resolvedUsers,
      bind_eq_ok_iff.mpr ⟨byItem,
        resolve_side_of_renamed same.ratings (coherent.ids .item) itemIds userIds resolvedItems,
        rfl⟩⟩
  have heldOut : renamed.heldOutOf users items = .ok prepared.heldOut := by
    rw [← created, heldOutOf, heldOutOf]
    have test := same.test
    generalize renamed.test = rival at test ⊢
    generalize training.test = own at test ⊢
    cases test with
    | none => rfl
    | some alike => exact HeldOut.create_of_renamed alike userIds itemIds
  refine ⟨⟨users, items, prepared.ratings, prepared.heldOut⟩, prepare_eq_ok_iff.mpr
    ⟨numberedUsers, numberedItems, rows, heldOut, same.settings ▸ staffed⟩, ?_, ?_, rfl, rfl⟩
  · intro side
    cases side with
    | user => exact userIds
    | item => exact itemIds
  · intro side
    cases side with
    | user => exact ⟨(Numbering.of_ids_eq_ok numberedUsers).1, (Numbering.of_ids_eq_ok ofUsers).1⟩
    | item => exact ⟨(Numbering.of_ids_eq_ok numberedItems).1, (Numbering.of_ids_eq_ok ofItems).1⟩

end Training
end LatentFactor
