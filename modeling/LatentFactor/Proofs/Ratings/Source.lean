import LatentFactor.Proofs.Ratings.Store
import LatentFactor.Proofs.Training.Prepared

set_option autoImplicit false

namespace LatentFactor

variable {α : Type}

structure Ratings.Agrees (source : Ratings α) (ratings : List (Rating α)) : Prop where
  distinct : ∀ side, (source.ids side).Nodup
  known : ∀ side, ∀ rating ∈ ratings, rating.id side ∈ source.ids side
  entries : ∀ side, ∀ id ∈ source.ids side, ∃ entries, source.entries side id = .ok entries ∧
    entries.Perm ((ratingsOf side ratings id).map (Rating.entry side))

namespace Store

def table (store : Store α) : Side → Table α
  | .user => store.users
  | .item => store.items

theorem ids_to_ratings (store : Store α) (side : Side) :
    store.toRatings.ids side = (store.table side).ids.toList := by
  cases side with
  | user => rfl
  | item => rfl

theorem entries_to_ratings (store : Store α) (side : Side) (id : EntityId) :
    store.toRatings.entries side id = (store.table side).find side id := by
  cases side with
  | user => rfl
  | item => rfl

theorem ids_of_list_singleton (rating : Rating α) (side : Side) :
    (ofList [rating]).toRatings.ids side = [rating.id side] := by
  rw [ids_to_ratings]
  cases side with
  | user | item =>
      simp [table, ofList, Latest.add, Latest.ratings, Latest.empty, insert, Table.append,
        Table.register, Table.empty, empty, Rating.id]

theorem table_holds {ratings : List (Rating α)} {store : Store α} (holds : store.Holds ratings)
    (side : Side) : (store.table side).Holds side ratings := by
  cases side with
  | user => exact holds.users
  | item => exact holds.items

theorem agrees_of_holds {ratings : List (Rating α)} {store : Store α}
    (holds : store.Holds ratings) : store.toRatings.Agrees store.ratings := by
  have same := perm_ratings holds
  refine ⟨?_, ?_, ?_⟩
  · intro side
    rw [ids_to_ratings]
    exact (table_holds holds side).distinct
  · intro side rating member
    rw [ids_to_ratings]
    exact (table_holds holds side).known rating (same.mem_iff.mp member)
  · intro side id member
    rw [ids_to_ratings] at member
    have known := ((table_holds holds side).listed id).mp member
    obtain ⟨entries, found⟩ := Option.isSome_iff_exists.mp known
    refine ⟨entries, ?_, ?_⟩
    · rw [entries_to_ratings, Table.find, found]
    · rw [(table_holds holds side).entries id entries found]
      exact ((same.filter _).map _).symm

theorem agrees_of_built {store : Store α} (built : store.Built) :
    store.toRatings.Agrees store.ratings ∧ (store.ratings.map Rating.pair).Nodup := by
  obtain ⟨ratings, holds, distinct⟩ := holds_of_built built
  exact ⟨agrees_of_holds holds, ((perm_ratings holds).map Rating.pair).nodup_iff.mpr distinct⟩

theorem ratings_of_list_singleton (rating : Rating α) : (ofList [rating]).ratings = [rating] := by
  simp [ofList, Latest.add, Latest.ratings, Latest.empty, insert, Table.append, Table.register,
    Table.empty, empty, ratings, Table.get?]

theorem entries_of_list_singleton (rating : Rating α) (side : Side) :
    (ofList [rating]).toRatings.entries side (rating.id side) = .ok [rating.entry side] := by
  have agrees := (agrees_of_built (.ofList [rating])).1
  rw [ratings_of_list_singleton] at agrees
  have known := agrees.known side rating (List.mem_singleton_self rating)
  obtain ⟨entries, given, same⟩ := agrees.entries side (rating.id side) known
  have own : ratingsOf side [rating] (rating.id side) = [rating] :=
    List.filter_eq_self.mpr fun other member => by simp [List.mem_singleton.mp member]
  rw [own, List.map_singleton, List.perm_singleton] at same
  rw [given, same]

end Store

namespace Ratings

variable {source : Ratings α} {ratings : List (Rating α)}

theorem length_of_agrees (agrees : source.Agrees ratings) {side : Side} {id : EntityId}
    {entries : Entries α} (listed : id ∈ source.ids side)
    (given : source.entries side id = .ok entries) : entries.length ≤ ratings.length := by
  obtain ⟨_, again, same⟩ := agrees.entries side id listed
  cases given.symm.trans again
  rw [same.length_eq, List.length_map]
  exact List.length_filter_le ..

theorem exists_resolve_side (agrees : source.Agrees ratings) {side : Side}
    {numbering counterparts : Numbering} (own : numbering.ids.toList = source.ids side)
    (others : counterparts.ids.toList = source.ids side.other) :
    ∃ rows, Resolved.resolveSide source side numbering counterparts = .ok rows := by
  apply exists_map_m
  intro id member
  rw [own] at member
  obtain ⟨entries, found, same⟩ := agrees.entries side id member
  rw [found]
  apply exists_map_m
  intro entry there
  obtain ⟨rating, listed, rfl⟩ := List.mem_map.mp (same.mem_iff.mp there)
  have known := agrees.known side.other rating (List.mem_filter.mp listed).1
  rw [← others] at known
  obtain ⟨row, position⟩ := Numbering.exists_get known
  refine ⟨(row, rating.value), ?_⟩
  exact bind_eq_ok_iff.mpr ⟨row, Numbering.row_of_eq_ok_iff.mpr position, rfl⟩

-- Every id is listed once, has entries, and these name ids that are listed.
def Resolves (source : Ratings α) : Prop :=
  ∃ users items rows, (Numbering.ofIds .user source.userIds : Except (Error α) Numbering) =
      .ok users ∧
    (Numbering.ofIds .item source.itemIds : Except (Error α) Numbering) = .ok items ∧
    Resolved.resolve source users items = .ok rows

theorem exists_prepare_of_resolves {training : Training α} (resolves : training.ratings.Resolves)
    (readable : training.Readable) (staffed : training.settings.workers ≠ 0) :
    ∃ prepared, training.prepare = .ok prepared := by
  obtain ⟨users, items, rows, numberedUsers, numberedItems, byRow⟩ := resolves
  obtain ⟨heldOut, created⟩ : ∃ heldOut, training.heldOutOf users items = .ok heldOut :=
    Training.exists_held_out_iff.mpr readable
  exact ⟨⟨users, items, rows, heldOut⟩, Training.prepare_eq_ok_iff.mpr
    ⟨numberedUsers, numberedItems, byRow, created, staffed⟩⟩

theorem exists_resolve (agrees : source.Agrees ratings) :
    ∃ (numbering : Side → Numbering) (resolved : Resolved α),
      (∀ side, (Numbering.ofIds side (source.ids side) : Except (Error α) Numbering) =
        .ok (numbering side)) ∧
      Resolved.resolve source (numbering .user) (numbering .item) = .ok resolved := by
  choose numbering numbered using fun side =>
    Numbering.exists_of_ids (α := α) side (agrees.distinct side)
  have listed := fun side => (Numbering.of_ids_eq_ok (numbered side)).2
  choose rows resolved using fun side : Side =>
    exists_resolve_side agrees (listed side) (listed side.other)
  exact ⟨numbering, _, numbered, bind_eq_ok_iff.mpr ⟨_, resolved .user,
    bind_eq_ok_iff.mpr ⟨_, resolved .item, rfl⟩⟩⟩

theorem resolves_of_agrees (agrees : source.Agrees ratings) :
    source.Resolves := by
  obtain ⟨numbering, resolved, numbered, byRow⟩ := exists_resolve agrees
  exact ⟨_, _, resolved, numbered .user, numbered .item, byRow⟩

theorem exists_prepare_iff {training : Training α} (agrees : training.ratings.Agrees ratings) :
    (∃ prepared, training.prepare = .ok prepared) ↔
      training.settings.workers ≠ 0 ∧ training.Readable := by
  constructor
  · rintro ⟨prepared, resolved⟩
    obtain ⟨-, -, -, created, staffed⟩ := Training.prepare_eq_ok_iff.mp resolved
    exact ⟨staffed, Training.exists_held_out_iff.mp ⟨_, created⟩⟩
  · rintro ⟨staffed, readable⟩
    exact exists_prepare_of_resolves (resolves_of_agrees agrees) readable staffed

theorem exists_prepare (agrees : source.Agrees ratings) {settings : Settings α}
    (staffed : settings.workers ≠ 0) :
    ∃ prepared, (⟨settings, source, none⟩ : Training α).prepare = .ok prepared :=
  (exists_prepare_iff agrees).mpr ⟨staffed, nofun⟩

theorem listed_of_coherent {training : Training α} {prepared : Training.Prepared α}
    (agrees : training.ratings.Agrees ratings) (coherent : training.Coherent prepared)
    {side : Side} {id : EntityId} {r : Nat} {observations : Observations α}
    (position : (prepared.numbering side).ids[r]? = some id)
    (found : (prepared.ratings.bySide side)[r]? = some observations) :
    ∃ entries : Entries α, entries.Perm ((ratingsOf side ratings id).map (Rating.entry side)) ∧
      Resolved.Lists (prepared.numbering side.other) entries observations := by
  obtain ⟨_, entries, again, given, lists⟩ := Training.observed_of_coherent coherent
    (((prepared.numbering side).get_eq_some_iff id r).mpr position)
  cases again.symm.trans found
  have member : id ∈ training.ratings.ids side := by
    rw [← coherent.ids side]
    exact Array.mem_toList_iff.mpr (Array.mem_of_getElem? position)
  obtain ⟨other, same, perm⟩ := agrees.entries side id member
  have equal : entries = other := Except.ok.inj (given.symm.trans same)
  exact ⟨entries, equal ▸ perm, lists⟩

end Ratings
end LatentFactor
