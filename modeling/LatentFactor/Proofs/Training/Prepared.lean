import LatentFactor.Proofs.HeldOut
import LatentFactor.Proofs.Numbering
import LatentFactor.Training

set_option autoImplicit false

namespace LatentFactor

variable {α : Type}

def Resolved.Lists (counterparts : Numbering) (entries : Entries α)
    (observations : Observations α) : Prop :=
  List.Forall₂ (fun entry observation =>
    counterparts.get? entry.1 = some observation.1 ∧ entry.2 = observation.2) entries observations

theorem observations_eq_ok_iff {counterparts : Numbering} {entries : Entries α}
    {observations : Observations α} :
    Resolved.observations counterparts entries = .ok observations ↔
      Resolved.Lists counterparts entries observations := by
  rw [Resolved.observations, map_m_eq_ok_iff, Resolved.Lists]
  have same : (fun (entry : EntityId × α) (observation : Nat × α) =>
      (do return (← counterparts.rowOf entry.1, entry.2) : Except (Error α) (Nat × α)) =
        .ok observation) =
      fun entry observation =>
        counterparts.get? entry.1 = some observation.1 ∧ entry.2 = observation.2 := by
    funext entry observation
    rw [bind_eq_ok_iff, ← Numbering.row_of_eq_ok_iff (α := α)]
    apply propext
    constructor
    · rintro ⟨row, found, made⟩
      cases made
      exact ⟨found, rfl⟩
    · rintro ⟨found, value⟩
      exact ⟨observation.1, found, by rw [value]; rfl⟩
  rw [same]

theorem resolve_side_eq_ok_iff {source : Ratings α} {side : Side}
    {numbering counterparts : Numbering} {rows : List (Observations α)} :
    Resolved.resolveSide source side numbering counterparts = .ok rows ↔
      List.Forall₂ (fun id observations => ∃ entries, source.entries side id = .ok entries ∧
        Resolved.Lists counterparts entries observations) numbering.ids.toList rows := by
  rw [Resolved.resolveSide, map_m_eq_ok_iff]
  have same : (fun (id : EntityId) (observations : Observations α) =>
      (do Resolved.observations counterparts (← source.entries side id)) = .ok observations) =
      fun id observations => ∃ entries, source.entries side id = .ok entries ∧
        Resolved.Lists counterparts entries observations := by
    funext id observations
    rw [bind_eq_ok_iff]
    simp only [observations_eq_ok_iff]
  rw [same]

theorem resolve_eq_ok_iff (numbering : Side → Numbering) {source : Ratings α}
    {resolved : Resolved α} :
    Resolved.resolve source (numbering .user) (numbering .item) = .ok resolved ↔
      ∀ side, List.Forall₂ (fun id observations => ∃ entries,
          source.entries side id = .ok entries ∧
            Resolved.Lists (numbering side.other) entries observations)
        (numbering side).ids.toList (resolved.bySide side).toList := by
  constructor
  · intro done
    obtain ⟨byUser, users, rest⟩ := bind_eq_ok_iff.mp done
    obtain ⟨byItem, items, made⟩ := bind_eq_ok_iff.mp rest
    cases made
    intro side
    cases side with
    | user => exact resolve_side_eq_ok_iff.mp users
    | item => exact resolve_side_eq_ok_iff.mp items
  · intro rows
    refine bind_eq_ok_iff.mpr ⟨_, resolve_side_eq_ok_iff.mpr (rows .user), ?_⟩
    exact bind_eq_ok_iff.mpr ⟨_, resolve_side_eq_ok_iff.mpr (rows .item), rfl⟩

def Ratings.Readable (source : Ratings α) : Prop :=
  ∀ id ∈ source.userIds, ∃ entries, source.ofUser id = .ok entries

namespace HeldOut

theorem exists_add_user_iff (users items : Numbering) (test : Ratings α) (heldOut : HeldOut α)
    (id : EntityId) :
    (∃ next, addUser users items test heldOut id = .ok next) ↔
      ∃ entries, test.ofUser id = .ok entries := by
  constructor
  · rintro ⟨next, added⟩
    obtain ⟨entries, given, -⟩ := bind_eq_ok_iff.mp added
    exact ⟨entries, given⟩
  · rintro ⟨entries, given⟩
    rw [addUser, given]
    cases known : users.get? id with
    | some user => exact ⟨_, rfl⟩
    | none => exact ⟨_, rfl⟩

-- What is unknown to the training data is counted, so only the source itself can fail.
theorem exists_create_iff {test : Ratings α} {users items : Numbering} :
    (∃ heldOut, create test users items = .ok heldOut) ↔ test.Readable := by
  have fold : ∀ (ids : List EntityId) (first : HeldOut α),
      (∃ last, ids.foldlM (addUser users items test) first = .ok last) ↔
        ∀ id ∈ ids, ∃ entries, test.ofUser id = .ok entries := by
    intro ids
    induction ids with
    | nil => exact fun first => ⟨fun _ => List.forall_mem_nil _, fun _ => ⟨first, rfl⟩⟩
    | cons id ids ih =>
        intro first
        rw [List.forall_mem_cons, ← exists_add_user_iff users items test first id]
        constructor
        · rintro ⟨last, done⟩
          obtain ⟨next, own, others⟩ := bind_eq_ok_iff.mp done
          exact ⟨⟨next, own⟩, (ih next).mp ⟨last, others⟩⟩
        · rintro ⟨⟨next, own⟩, rest⟩
          obtain ⟨last, others⟩ := (ih next).mpr rest
          exact ⟨last, bind_eq_ok_iff.mpr ⟨next, own, others⟩⟩
  exact fold test.userIds empty

theorem inside_add_entry {users : Nat} {items : Numbering} {user : Nat} {heldOut : HeldOut α}
    (below : user < users) (inside : heldOut.Inside users items.size) (entry : EntityId × α) :
    (addEntry items user heldOut entry).Inside users items.size := by
  unfold addEntry
  split
  · rename_i item found
    intro sample member
    rcases Array.mem_push.mp member with old | rfl
    · exact inside sample old
    · exact ⟨below, items.lt_size_of_get found⟩
  · exact inside

theorem inside_add_entries {users : Nat} {items : Numbering} {user : Nat} (entries : Entries α)
    {heldOut : HeldOut α} (below : user < users) (inside : heldOut.Inside users items.size) :
    (entries.foldl (addEntry items user) heldOut).Inside users items.size := by
  induction entries generalizing heldOut with
  | nil => exact inside
  | cons entry entries ih => exact ih (inside_add_entry below inside entry)

theorem inside_add_user {users items : Numbering} {test : Ratings α} {heldOut next : HeldOut α}
    {id : EntityId} (inside : heldOut.Inside users.size items.size)
    (added : addUser users items test heldOut id = .ok next) :
    next.Inside users.size items.size := by
  obtain ⟨entries, -, rest⟩ := bind_eq_ok_iff.mp added
  split at rest
  · rename_i user found
    cases rest
    exact inside_add_entries entries (users.lt_size_of_get found) inside
  · cases rest
    exact inside

theorem inside_of_create {test : Ratings α} {users items : Numbering} {heldOut : HeldOut α}
    (created : create test users items = .ok heldOut) : heldOut.Inside users.size items.size := by
  have fold : ∀ (ids : List EntityId) (first : HeldOut α), first.Inside users.size items.size →
      ids.foldlM (addUser users items test) first = .ok heldOut →
      heldOut.Inside users.size items.size := by
    intro ids
    induction ids with
    | nil =>
        intro first inside done
        cases done
        exact inside
    | cons id ids ih =>
        intro first inside done
        obtain ⟨next, own, others⟩ := bind_eq_ok_iff.mp done
        exact ih next (inside_add_user inside own) others
  exact fold test.userIds empty (by simp [Inside, empty]) created

end HeldOut

namespace Training

def Prepared.numbering (prepared : Prepared α) : Side → Numbering
  | .user => prepared.users
  | .item => prepared.items

structure Coherent (training : Training α) (prepared : Prepared α) : Prop where
  ids : ∀ side, (prepared.numbering side).ids.toList = training.ratings.ids side
  rows : ∀ side, List.Forall₂ (fun id observations =>
      ∃ entries, training.ratings.entries side id = .ok entries ∧
        Resolved.Lists (prepared.numbering side.other) entries observations)
    (prepared.numbering side).ids.toList (prepared.ratings.bySide side).toList
  heldOut : prepared.heldOut.Inside prepared.users.size prepared.items.size

def heldOutOf (training : Training α) (users items : Numbering) :
    Except (Error α) (HeldOut α) :=
  match training.test with
  | some test => HeldOut.create test users items
  | none => .ok HeldOut.empty

def Readable (training : Training α) : Prop := ∀ test ∈ training.test, test.Readable

theorem exists_held_out_iff {training : Training α} {users items : Numbering} :
    (∃ heldOut, training.heldOutOf users items = .ok heldOut) ↔ training.Readable := by
  rw [heldOutOf, Readable]
  cases training.test with
  | none => simp
  | some test => simp [HeldOut.exists_create_iff]

theorem prepare_eq (training : Training α) :
    training.prepare = (do
      let users ← Numbering.ofIds .user training.ratings.userIds
      let items ← Numbering.ofIds .item training.ratings.itemIds
      let ratings ← Resolved.resolve training.ratings users items
      let heldOut ← training.heldOutOf users items
      Phase.checkWorkers training.settings.workers
      return ⟨users, items, ratings, heldOut⟩) := by
  rw [prepare]
  simp only [heldOutOf]
  cases training.test with
  | none => rfl
  | some test => rfl

theorem prepare_eq_ok_iff {training : Training α} {prepared : Prepared α} :
    training.prepare = .ok prepared ↔
      (Numbering.ofIds .user training.ratings.userIds : Except (Error α) Numbering) =
          .ok prepared.users ∧
        (Numbering.ofIds .item training.ratings.itemIds : Except (Error α) Numbering) =
          .ok prepared.items ∧
        Resolved.resolve training.ratings prepared.users prepared.items = .ok prepared.ratings ∧
        training.heldOutOf prepared.users prepared.items = .ok prepared.heldOut ∧
        training.settings.workers ≠ 0 := by
  have checked : (Phase.checkWorkers training.settings.workers : Except (Error α) Unit) = .ok () ↔
      training.settings.workers ≠ 0 := by
    by_cases idle : training.settings.workers = 0
    · simp [Phase.checkWorkers, idle]
    · simp [Phase.checkWorkers, idle]
  rw [← checked, prepare_eq]
  constructor
  · intro done
    obtain ⟨users, numberedUsers, rest⟩ := bind_eq_ok_iff.mp done
    obtain ⟨items, numberedItems, rest⟩ := bind_eq_ok_iff.mp rest
    obtain ⟨ratings, resolved, rest⟩ := bind_eq_ok_iff.mp rest
    obtain ⟨heldOut, created, rest⟩ := bind_eq_ok_iff.mp rest
    obtain ⟨_, workers, made⟩ := bind_eq_ok_iff.mp rest
    cases made
    exact ⟨numberedUsers, numberedItems, resolved, created, workers⟩
  · rintro ⟨numberedUsers, numberedItems, resolved, created, workers⟩
    refine bind_eq_ok_iff.mpr ⟨_, numberedUsers, bind_eq_ok_iff.mpr ⟨_, numberedItems, ?_⟩⟩
    refine bind_eq_ok_iff.mpr ⟨_, resolved, bind_eq_ok_iff.mpr ⟨_, created, ?_⟩⟩
    exact bind_eq_ok_iff.mpr ⟨(), workers, rfl⟩

theorem held_out_of_prepare {training : Training α} {prepared : Prepared α}
    (done : training.prepare = .ok prepared) :
    prepared.heldOut.Inside prepared.users.size prepared.items.size := by
  obtain ⟨-, -, -, created, -⟩ := prepare_eq_ok_iff.mp done
  rw [heldOutOf] at created
  split at created
  · exact HeldOut.inside_of_create created
  · rw [← Except.ok.inj created]
    simp [HeldOut.Inside, HeldOut.empty]

theorem coherent_of_prepare {training : Training α} {prepared : Prepared α}
    (done : training.prepare = .ok prepared) : training.Coherent prepared := by
  obtain ⟨numberedUsers, numberedItems, resolved, -, -⟩ := prepare_eq_ok_iff.mp done
  refine ⟨fun side => ?_, ?_, held_out_of_prepare done⟩
  · cases side with
    | user => exact (Numbering.of_ids_eq_ok numberedUsers).2
    | item => exact (Numbering.of_ids_eq_ok numberedItems).2
  · exact (resolve_eq_ok_iff prepared.numbering).mp resolved

theorem size_by_side {training : Training α} {prepared : Prepared α}
    (coherent : training.Coherent prepared) (side : Side) :
    (prepared.ratings.bySide side).size = (prepared.numbering side).size :=
  (coherent.rows side).length_eq.symm

theorem size_numbering {training : Training α} {prepared : Prepared α}
    (coherent : training.Coherent prepared) (side : Side) :
    (prepared.numbering side).size = (training.ratings.ids side).length := by
  rw [← coherent.ids side, Array.length_toList]
  rfl

theorem get_eq_none_iff {training : Training α} {prepared : Prepared α}
    (coherent : training.Coherent prepared) (side : Side) (id : EntityId) :
    (prepared.numbering side).get? id = none ↔ id ∉ training.ratings.ids side := by
  rw [Numbering.get_eq_none_iff, coherent.ids side]

theorem observed_of_coherent {training : Training α} {prepared : Prepared α}
    (coherent : training.Coherent prepared) {side : Side} {id : EntityId} {r : Nat}
    (position : (prepared.numbering side).get? id = some r) :
    ∃ observations entries, (prepared.ratings.bySide side)[r]? = some observations ∧
      training.ratings.entries side id = .ok entries ∧
      Resolved.Lists (prepared.numbering side.other) entries observations := by
  have listed := ((prepared.numbering side).get_eq_some_iff id r).mp position
  obtain ⟨inside, same⟩ := Array.getElem?_eq_some_iff.mp listed
  have within : r < (prepared.ratings.bySide side).size := by
    rw [size_by_side coherent]
    exact inside
  obtain ⟨entries, given, lists⟩ :=
    (List.forall₂_iff_get.mp (coherent.rows side)).2 r inside within
  refine ⟨_, entries, Array.getElem?_eq_getElem within, ?_, lists⟩
  rw [← same]
  exact given

theorem entries_of_coherent {training : Training α} {prepared : Prepared α}
    (coherent : training.Coherent prepared) {side : Side} {observations : Observations α}
    (member : observations ∈ (prepared.ratings.bySide side).toList) :
    ∃ id ∈ training.ratings.ids side, ∃ entries,
      training.ratings.entries side id = .ok entries ∧
        Resolved.Lists (prepared.numbering side.other) entries observations := by
  obtain ⟨r, within, rfl⟩ := List.mem_iff_getElem.mp member
  have rows := coherent.rows side
  have inside := rows.length_eq ▸ within
  refine ⟨(prepared.numbering side).ids.toList[r], ?_,
    (List.forall₂_iff_get.mp rows).2 r inside within⟩
  rw [← coherent.ids side]
  exact List.getElem_mem inside

theorem exists_entries {training : Training α} {prepared : Prepared α}
    (coherent : training.Coherent prepared) {side : Side} {id : EntityId}
    (listed : id ∈ training.ratings.ids side) :
    ∃ observations ∈ (prepared.ratings.bySide side).toList, ∃ entries,
      training.ratings.entries side id = .ok entries ∧
        Resolved.Lists (prepared.numbering side.other) entries observations := by
  obtain ⟨r, position⟩ := Option.ne_none_iff_exists'.mp
    (mt (get_eq_none_iff coherent side id).mp (not_not.mpr listed))
  obtain ⟨observations, entries, found, given, lists⟩ := observed_of_coherent coherent position
  have member := Array.mem_toList_iff.mpr (Array.mem_of_getElem? found)
  exact ⟨observations, member, entries, given, lists⟩

theorem inside_of_coherent {training : Training α} {prepared : Prepared α}
    (coherent : training.Coherent prepared) {side : Side} {observations : Observations α}
    (member : observations ∈ (prepared.ratings.bySide side).toList) :
    ∀ observation ∈ observations, observation.1 < (prepared.numbering side.other).size := by
  obtain ⟨_, -, entries, -, lists⟩ := entries_of_coherent coherent member
  intro observation listed
  obtain ⟨i, below, rfl⟩ := List.mem_iff_getElem.mp listed
  have found := (List.forall₂_iff_get.mp lists).2 i (lists.length_eq ▸ below) below
  exact (prepared.numbering side.other).lt_size_of_get found.1

end Training
end LatentFactor
