import LatentFactor.HeldOut
import LatentFactor.Proofs.Sequence

set_option autoImplicit false

namespace LatentFactor

def RowMatrix.rowAt {α : Type} (m : RowMatrix α) (r : Nat) : Row α := m.rows[r]?.getD []

theorem RowMatrix.get_row_at {α : Type} {m : RowMatrix α} {r : Nat} (inside : r < m.size) :
    m.rows[r]? = some (m.rowAt r) := by
  rw [rowAt, Array.getElem?_eq_getElem inside, Option.getD_some]

def Ratings.byUsers {α : Type} (source : Ratings α) : List (Rating α) :=
  source.userIds.flatMap fun id =>
    match source.ofUser id with
    | .ok entries => entries.map fun entry => ⟨id, entry.1, entry.2⟩
    | .error _ => []

namespace HeldOut

variable {α : Type}

def place? (users items : Numbering) (rating : Rating α) : Option (Sample α) :=
  match users.get? rating.user, items.get? rating.item with
  | some user, some item => some ⟨user, item, rating.value⟩
  | _, _ => none

/-- What becomes of ratings when they are read: samples, or a count of those that are left out. The
users that they are listed for are counted where they are unknown. -/
structure Reads (users items : Numbering) (ids : List EntityId) (ratings : List (Rating α))
    (before after : HeldOut α) : Prop where
  samples : after.samples.toList =
    before.samples.toList ++ ratings.filterMap (place? users items)
  count : after.samples.size + after.unknownRatings =
    before.samples.size + before.unknownRatings + ratings.length
  unknownUsers : after.unknownUsers =
    before.unknownUsers + ids.countP fun id => decide (users.get? id = none)

section

variable {users items : Numbering} {test : Ratings α}

theorem reads_refl (heldOut : HeldOut α) : Reads users items [] [] heldOut heldOut :=
  ⟨(List.append_nil _).symm, rfl, rfl⟩

theorem reads_append {ids more : List EntityId} {ratings others : List (Rating α)}
    {first second third : HeldOut α} (reads : Reads users items ids ratings first second)
    (rest : Reads users items more others second third) :
    Reads users items (ids ++ more) (ratings ++ others) first third where
  samples := by rw [rest.samples, reads.samples, List.filterMap_append, List.append_assoc]
  count := by rw [rest.count, reads.count, List.length_append, Nat.add_assoc]
  unknownUsers := by rw [rest.unknownUsers, reads.unknownUsers, List.countP_append, Nat.add_assoc]

theorem reads_entry {id : EntityId} {user : Nat} (known : users.get? id = some user)
    (entry : EntityId × α) (heldOut : HeldOut α) :
    Reads users items [] [⟨id, entry.1, entry.2⟩] heldOut (addEntry items user heldOut entry) := by
  cases found : items.get? entry.1 with
  | none =>
      rw [addEntry, found]
      exact ⟨by simp [place?, known, found], rfl, rfl⟩
  | some item =>
      rw [addEntry, found]
      refine ⟨by simp [place?, known, found], ?_, rfl⟩
      simp only [Array.size_push, List.length_singleton]
      omega

theorem reads_entries {id : EntityId} {user : Nat} (known : users.get? id = some user)
    (entries : Entries α) (heldOut : HeldOut α) :
    Reads users items [] (entries.map fun entry => ⟨id, entry.1, entry.2⟩) heldOut
      (entries.foldl (addEntry items user) heldOut) := by
  induction entries generalizing heldOut with
  | nil => exact reads_refl heldOut
  | cons entry entries ih => exact reads_append (reads_entry known entry heldOut) (ih _)

theorem reads_user {heldOut next : HeldOut α} {id : EntityId} {entries : Entries α}
    (given : test.ofUser id = .ok entries)
    (added : addUser users items test heldOut id = .ok next) :
    Reads users items [id] (entries.map fun entry => ⟨id, entry.1, entry.2⟩) heldOut next := by
  rw [addUser, given] at added
  cases known : users.get? id with
  | some user =>
      simp only [known] at added
      cases added
      obtain ⟨samples, count, same⟩ := reads_entries known entries heldOut
      exact ⟨samples, count, by simpa [known] using same⟩
  | none =>
      simp only [known] at added
      cases added
      have unplaced : (entries.map fun entry => (⟨id, entry.1, entry.2⟩ : Rating α)).filterMap
          (place? users items) = [] := by
        rw [List.filterMap_eq_nil_iff]
        intro rating member
        obtain ⟨entry, -, rfl⟩ := List.mem_map.mp member
        simp only [place?, known]
      refine ⟨?_, ?_, ?_⟩
      · rw [unplaced, List.append_nil]
      · rw [List.length_map, Nat.add_assoc]
      · simp [known]

theorem reads_of_create {heldOut : HeldOut α} (created : create test users items = .ok heldOut) :
    Reads users items test.userIds test.byUsers empty heldOut := by
  have fold : ∀ (ids : List EntityId) (first : HeldOut α),
      ids.foldlM (addUser users items test) first = .ok heldOut →
      Reads users items ids (ids.flatMap fun id => match test.ofUser id with
        | .ok entries => entries.map fun entry => ⟨id, entry.1, entry.2⟩
        | .error _ => []) first heldOut := by
    intro ids
    induction ids with
    | nil =>
        intro first done
        cases done
        exact reads_refl heldOut
    | cons id ids ih =>
        intro first done
        obtain ⟨next, own, others⟩ := bind_eq_ok_iff.mp done
        obtain ⟨entries, given, -⟩ := bind_eq_ok_iff.mp own
        rw [List.flatMap_cons, given]
        exact reads_append (reads_user given own) (ih next others)
  exact fold test.userIds empty created

theorem samples_of_create {heldOut : HeldOut α} (created : create test users items = .ok heldOut) :
    heldOut.samples.toList = test.byUsers.filterMap (place? users items) :=
  (reads_of_create created).samples

end

def Inside (users items : Nat) (heldOut : HeldOut α) : Prop :=
  ∀ sample ∈ heldOut.samples, sample.user < users ∧ sample.item < items

variable [Scalar α]

def total (heldOut : HeldOut α) (users items : RowMatrix α) : α :=
  Scalar.sum (heldOut.samples.toList.map fun sample =>
    Scalar.abs (Row.dot (users.rowAt sample.user) (items.rowAt sample.item) - sample.value))

def error? (heldOut : HeldOut α) (users items : RowMatrix α) : Option α :=
  if heldOut.samples.size = 0 then none else some (heldOut.total users items)

theorem absolute_error_eq_ok {users items : RowMatrix α} {sample : Sample α}
    (user : sample.user < users.size) (item : sample.item < items.size)
    (same : users.cols = items.cols) :
    absoluteError users items sample =
      .ok (Scalar.abs (Row.dot (users.rowAt sample.user) (items.rowAt sample.item)
        - sample.value)) := by
  obtain ⟨x, userRow⟩ : ∃ x, users.rows[sample.user]? = some x :=
    ⟨_, Array.getElem?_eq_getElem user⟩
  obtain ⟨y, itemRow⟩ : ∃ y, items.rows[sample.item]? = some y :=
    ⟨_, Array.getElem?_eq_getElem item⟩
  have lengths : x.length = y.length := by
    rw [RowMatrix.length_of_row userRow, RowMatrix.length_of_row itemRow, same]
  rw [absoluteError, RowMatrix.row_eq_ok_iff.mpr userRow, RowMatrix.row_eq_ok_iff.mpr itemRow]
  simp only [RowMatrix.rowAt, userRow, itemRow, Option.getD_some]
  simp [bind, Except.bind, pure, Except.pure, Row.dot?, lengths]

theorem measure_eq_ok {heldOut : HeldOut α} {users items : RowMatrix α}
    (inside : heldOut.Inside users.size items.size) (same : users.cols = items.cols) :
    heldOut.measure users items = .ok ⟨heldOut.total users items, heldOut.samples.size⟩ := by
  have each : heldOut.samples.toList.mapM (absoluteError users items) = .ok _ :=
    map_m_eq_map fun sample member =>
      absolute_error_eq_ok (inside sample (Array.mem_toList_iff.mp member)).1
        (inside sample (Array.mem_toList_iff.mp member)).2 same
  rw [measure, each]
  rfl

end HeldOut
end LatentFactor
