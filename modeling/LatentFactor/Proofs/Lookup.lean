import LatentFactor.Proofs.Projector
import LatentFactor.Proofs.Training.Model

set_option autoImplicit false

namespace LatentFactor

variable {α : Type}

namespace Numbering

/-- Ids and rows are each other's inverse. -/
structure Numbers (side : Side) (ids : List EntityId) (numbering : Numbering) : Prop where
  listed : ∀ row : Nat, numbering.id? row = ids[row]?
  inverse : ∀ id row, numbering.get? id = some row ↔ numbering.id? row = some id
  rows : ∀ row, (∃ id, numbering.get? id = some row) ↔ row < ids.length
  size : numbering.size = ids.length
  known : ∀ id, numbering.get? id ≠ none ↔ id ∈ ids
  contains : ∀ id, numbering.contains id = (numbering.get? id).isSome
  found : ∀ id row, numbering.get? id = some row →
    (numbering.rowOf id : Except (Error α) Nat) = .ok row
  missing : ∀ id, numbering.get? id = none →
    numbering.rowOf id = .error (.unknownId side id : Error α)

theorem numbers_of_ids {side : Side} {ids : List EntityId} {numbering : Numbering}
    (numbered : (ofIds side ids : Except (Error α) Numbering) = .ok numbering) :
    numbering.Numbers (α := α) side ids := by
  obtain ⟨rfl, rfl⟩ := of_ids_eq_ok numbered
  have listed : ∀ row : Nat, numbering.id? row = numbering.ids.toList[row]? :=
    fun row => Array.getElem?_toList.symm
  refine ⟨listed, numbering.get_eq_some_iff, ?_, rfl, ?_, numbering.contains_eq, ?_, ?_⟩
  · intro row
    constructor
    · rintro ⟨id, found⟩
      exact numbering.lt_size_of_get found
    · intro inside
      refine ⟨numbering.ids.toList[row], (numbering.get_eq_some_iff _ row).mpr ?_⟩
      rw [listed, List.getElem?_eq_getElem inside]
  · intro id
    rw [ne_eq, get_eq_none_iff, not_not]
  · intro id row found
    exact row_of_eq_ok_iff.mpr found
  · intro id absent
    rw [rowOf, absent]

/-- What becomes of a list of ids. -/
structure Decides (α : Type) (side : Side) (ids : List EntityId) : Prop where
  numbered : (∃ numbering, (ofIds side ids : Except (Error α) Numbering) = .ok numbering) ↔
    ids.Nodup
  repeated : ∀ error : Error α, ofIds side ids = .error error ↔
    ∃ earlier id, Repeats ids earlier id ∧ error = .repeatedId side id
  numbers : ∀ numbering, (ofIds side ids : Except (Error α) Numbering) = .ok numbering →
    numbering.Numbers (α := α) side ids

theorem decides_ids (side : Side) (ids : List EntityId) : Decides α side ids where
  numbered := by
    constructor
    · rintro ⟨numbering, made⟩
      obtain ⟨-, rfl⟩ := of_ids_eq_ok made
      exact numbering.nodup_ids
    · exact exists_of_ids side
  repeated := fun _ => of_ids_eq_error_iff
  numbers := fun _ => numbers_of_ids

end Numbering

namespace Model

/-- The rows of a model by id. `left` and `right` are the sides that its numberings speak of when
they do not know an id. -/
structure LooksUp [Scalar α] (left right : Side) (userIds itemIds : List EntityId)
    (users items : RowMatrix α) (model : Model α) : Prop where
  userRow : ∀ (r : Nat) id, userIds[r]? = some id →
    ∃ x, users.rows[r]? = some x ∧ model.userRow id = .ok x
  itemRow : ∀ (r : Nat) id, itemIds[r]? = some id →
    ∃ y, items.rows[r]? = some y ∧ model.itemRow id = .ok y
  unknownUser : ∀ id, id ∉ userIds → model.userRow id = .error (.error (.unknownId left id))
  unknownItem : ∀ id, id ∉ itemIds → model.itemRow id = .error (.error (.unknownId right id))
  product : ∀ (r q : Nat) user item, userIds[r]? = some user → itemIds[q]? = some item →
    ∃ x y, users.rows[r]? = some x ∧ items.rows[q]? = some y ∧ x.length = y.length ∧
      model.predict user item = .ok (Row.dot x y)
  noUser : ∀ user item, user ∉ userIds →
    model.predict user item = .error (.error (.unknownId left user))
  noItem : ∀ user item, user ∈ userIds → item ∉ itemIds →
    model.predict user item = .error (.error (.unknownId right item))

section

variable {numbering : Numbering} {m : RowMatrix α} {id : EntityId}

theorem numbered_row_of_listed (size : m.size = numbering.size) {r : Nat}
    (listed : numbering.ids.toList[r]? = some id) :
    ∃ x, m.rows[r]? = some x ∧
      (do m.row (← (numbering.rowOf id : Except (Error α) Nat)) : Except (Failure α) (Row α)) =
        .ok x := by
  rw [Array.getElem?_toList] at listed
  have found := (numbering.get_eq_some_iff id r).mpr listed
  have inside : r < m.rows.size := lt_of_lt_of_eq (numbering.lt_size_of_get found) size.symm
  have row := Array.getElem?_eq_getElem inside
  exact ⟨_, row, numbered_row_eq_ok_iff.mpr ⟨r, found, row⟩⟩

theorem numbered_row_of_unknown (unknown : id ∉ numbering.ids.toList) :
    (do m.row (← (numbering.rowOf id : Except (Error α) Nat)) : Except (Failure α) (Row α)) =
      .error (.error (.unknownId numbering.side id)) := by
  rw [Numbering.rowOf, (numbering.get_eq_none_iff id).mpr unknown]
  rfl

end

theorem looks_up_of_formed [Scalar α] {model : Model α} (formed : model.Formed) :
    model.LooksUp model.userNumbering.side model.itemNumbering.side
      model.userNumbering.ids.toList model.itemNumbering.ids.toList model.users model.items where
  userRow := fun _ _ => numbered_row_of_listed formed.users
  itemRow := fun _ _ => numbered_row_of_listed formed.items
  unknownUser := fun _ => numbered_row_of_unknown
  unknownItem := fun _ => numbered_row_of_unknown
  product := by
    intro r q user item own other
    obtain ⟨x, left, answered⟩ := numbered_row_of_listed formed.users own
    obtain ⟨y, right, answeredItem⟩ := numbered_row_of_listed formed.items other
    have same : x.length = y.length := by
      rw [RowMatrix.length_of_row left, RowMatrix.length_of_row right, formed.cols]
    exact ⟨x, y, left, right, same, predict_eq_ok answered answeredItem same⟩
  noUser := by
    intro user item unknown
    have failed : model.userRow user = _ := numbered_row_of_unknown unknown
    rw [predict, failed]
    rfl
  noItem := by
    intro user item known unknown
    obtain ⟨r, listed⟩ := List.mem_iff_getElem?.mp known
    obtain ⟨x, -, answered⟩ := numbered_row_of_listed formed.users listed
    have found : model.userRow user = .ok x := answered
    have failed : model.itemRow item = _ := numbered_row_of_unknown unknown
    rw [predict, found, failed]
    rfl

theorem eq_of_create {userNumbering itemNumbering : Numbering} {users items : RowMatrix α}
    {errors : List (Option α)} {model : Model α}
    (created : create userNumbering itemNumbering users items errors = .ok model) :
    model = ⟨userNumbering, itemNumbering, users, items, errors⟩ := by
  unfold create at created
  split at created
  · cases created
  · split at created
    · cases created
    · split at created
      · cases created
      · exact (Except.ok.inj created).symm

theorem looks_up_of_create [Scalar α] {left right : Side} {userIds itemIds : List EntityId}
    {userNumbering itemNumbering : Numbering} {users items : RowMatrix α}
    {errors : List (Option α)} {model : Model α}
    (ownIds : (Numbering.ofIds left userIds : Except (Error α) Numbering) = .ok userNumbering)
    (otherIds : (Numbering.ofIds right itemIds : Except (Error α) Numbering) = .ok itemNumbering)
    (created : create userNumbering itemNumbering users items errors = .ok model) :
    model.LooksUp left right userIds itemIds users items := by
  obtain ⟨rfl, rfl⟩ := Numbering.of_ids_eq_ok ownIds
  obtain ⟨rfl, rfl⟩ := Numbering.of_ids_eq_ok otherIds
  have formed := formed_of_create created
  have same := eq_of_create created
  subst same
  exact looks_up_of_formed formed

theorem numbers_and_looks_up [Scalar α] :
    (∀ side ids, Numbering.Decides α side ids) ∧
    ∀ left right userIds itemIds userNumbering itemNumbering (users items : RowMatrix α) errors
      (model : Model α),
      (Numbering.ofIds left userIds : Except (Error α) Numbering) = .ok userNumbering →
      (Numbering.ofIds right itemIds : Except (Error α) Numbering) = .ok itemNumbering →
      create userNumbering itemNumbering users items errors = .ok model →
        model.LooksUp left right userIds itemIds users items := by
  refine ⟨Numbering.decides_ids, ?_⟩
  intro left right userIds itemIds userNumbering itemNumbering users items errors model own other
    created
  exact looks_up_of_create own other created

-- Two users and two items; in the last list 4 is the first id to come up again, though 5 does too.
theorem numbers_and_looks_up_two_users :
    let users : RowMatrix Float := ⟨2, #[[1, 2], [3, 4]], by decide⟩
    let items : RowMatrix Float := ⟨2, #[[1, 1], [0, 5]], by decide⟩
    ∃ userNumbering itemNumbering model,
      (Numbering.ofIds .user [9, 7] : Except (Error Float) Numbering) = .ok userNumbering ∧
      (Numbering.ofIds .item [7, 3] : Except (Error Float) Numbering) = .ok itemNumbering ∧
      create userNumbering itemNumbering users items [] = .ok model ∧
      model.predict 7 3 = .ok 20 ∧
      model.predict 8 8 = .error (.error (.unknownId .user 8)) ∧
      model.predict 9 9 = .error (.error (.unknownId .item 9)) ∧
      (Numbering.ofIds .item [4, 5, 4, 5] : Except (Error Float) Numbering) =
        .error (.repeatedId .item 4) := by
  intro users items
  obtain ⟨decides, looks⟩ := numbers_and_looks_up (α := Float)
  obtain ⟨userNumbering, own⟩ := (decides .user [9, 7]).numbered.mpr (by decide)
  obtain ⟨itemNumbering, other⟩ := (decides .item [7, 3]).numbered.mpr (by decide)
  have userCount : users.size = userNumbering.size :=
    ((decides .user [9, 7]).numbers _ own).size.symm
  have itemCount : items.size = itemNumbering.size :=
    ((decides .item [7, 3]).numbers _ other).size.symm
  have created := create_of_sizes userCount itemCount rfl []
  have answers := looks _ _ _ _ _ _ _ _ _ _ own other created
  obtain ⟨x, y, left, right, -, product⟩ := answers.product 1 1 7 3 rfl rfl
  obtain rfl : [3, 4] = x := Option.some.inj left
  obtain rfl : [0, 5] = y := Option.some.inj right
  have repeated := ((decides .item [4, 5, 4, 5]).repeated (.repeatedId .item 4)).mpr
    ⟨[4, 5], 4, ⟨by decide, by decide, by decide⟩, rfl⟩
  refine ⟨userNumbering, itemNumbering, _, own, other, created, ?_, ?_, ?_, repeated⟩
  · exact product
  · exact answers.noUser 8 8 (by decide)
  · exact answers.noItem 9 9 (by decide) (by decide)

end Model
end LatentFactor
