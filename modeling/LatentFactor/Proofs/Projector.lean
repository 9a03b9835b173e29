import LatentFactor.Projector
import LatentFactor.Proofs.Block.Inverse
import LatentFactor.Proofs.Ends
import LatentFactor.Proofs.Numbering
import LatentFactor.Proofs.RowUpdate.Solve

set_option autoImplicit false

namespace LatentFactor

variable {α : Type}

theorem RowMatrix.sound_row {m : RowMatrix α} {r : Nat} (inside : r < m.size) :
    Sound (fun row => row.length = m.cols)
      ((m.row r).mapError (Failure.fault : Fault → Failure α)) := by
  refine ends_of_fault (fun row found => length_of_row (row_eq_ok_iff.mp found)) ?_
  intro fault failed
  rw [RowMatrix.row, Array.getElem?_eq_getElem inside] at failed
  cases failed

theorem Numbering.sound_row {numbering : Numbering} {m : RowMatrix α}
    (size : m.size = numbering.size) (id : EntityId) :
    Sound (fun row => row.length = m.cols)
      (do m.row (← (numbering.rowOf id : Except (Error α) Nat)) : Except (Failure α) (Row α)) := by
  have position : Sound (fun r => r < m.size)
      ((numbering.rowOf id).mapError (Failure.error : Error α → Failure α)) := by
    refine ends_of_error fun r found => ?_
    rw [size]
    exact numbering.lt_size_of_get (row_of_eq_ok_iff.mp found)
  exact ends_bind position fun r inside => RowMatrix.sound_row inside

namespace Model

structure Formed (model : Model α) : Prop where
  users : model.users.size = model.userNumbering.size
  items : model.items.size = model.itemNumbering.size
  cols : model.users.cols = model.items.cols

theorem formed_of_create {userNumbering itemNumbering : Numbering} {users items : RowMatrix α}
    {errors : List (Option α)} {model : Model α}
    (created : create userNumbering itemNumbering users items errors = .ok model) :
    model.Formed := by
  unfold create at created
  split at created
  · cases created
  · rename_i userCount
    split at created
    · cases created
    · rename_i itemCount
      split at created
      · cases created
      · rename_i cols
        cases created
        exact ⟨not_not.mp userCount, not_not.mp itemCount, not_not.mp cols⟩

theorem create_of_sizes {userNumbering itemNumbering : Numbering} {users items : RowMatrix α}
    (userCount : users.size = userNumbering.size) (itemCount : items.size = itemNumbering.size)
    (cols : users.cols = items.cols) (errors : List (Option α)) :
    create userNumbering itemNumbering users items errors =
      .ok ⟨userNumbering, itemNumbering, users, items, errors⟩ := by
  rw [create, if_neg (not_not.mpr userCount), if_neg (not_not.mpr itemCount),
    if_neg (not_not.mpr cols)]

variable {model : Model α}

theorem sound_user_row (formed : model.Formed) (id : EntityId) :
    Sound (fun row => row.length = model.rank) (model.userRow id) :=
  ends_mono (Numbering.sound_row formed.users id) fun _ length => length.trans formed.cols

theorem sound_item_row (formed : model.Formed) (id : EntityId) :
    Sound (fun row => row.length = model.rank) (model.itemRow id) :=
  Numbering.sound_row formed.items id

variable [Scalar α]

theorem sound_predict (formed : model.Formed) (user item : EntityId) :
    Sound (fun _ => True) (model.predict user item) := by
  refine ends_bind (sound_user_row formed user) fun x left => ?_
  refine ends_bind (sound_item_row formed item) fun y right => ?_
  refine ends_of_fault (fun _ _ => trivial) fun fault failed => ?_
  rw [Row.dot?, if_pos (left.trans right.symm)] at failed
  cases failed

end Model

theorem RowMatrix.sound_of_rows {cols : Nat} {rows : List (Row α)}
    (width : ∀ row ∈ rows, row.length = cols) :
    Sound (fun m : RowMatrix α => m.size = rows.length ∧ m.cols = cols)
      ((ofRows cols rows).mapError (Failure.fault : Fault → Failure α)) := by
  refine ends_of_fault (fun m made => ?_) fun fault failed => ?_
  · obtain ⟨same, listed⟩ := of_rows_eq_ok made
    exact ⟨by rw [← listed]; rfl, same⟩
  · obtain ⟨m, made⟩ := exists_of_rows width
    rw [made] at failed
    cases failed

variable [Scalar α]

theorem RowMatrix.sound_mul {m other : RowMatrix α} (fits : m.cols = other.size) :
    Sound (fun product : RowMatrix α => product.size = m.size ∧ product.cols = other.cols)
      ((m.mul other).mapError (Failure.fault : Fault → Failure α)) := by
  rw [mul, if_pos fits]
  have width : ∀ row ∈ m.rows.toList.map fun row => Row.combine other.cols row other.rows.toList,
      row.length = other.cols := by
    intro row member
    obtain ⟨factors, -, rfl⟩ := List.mem_map.mp member
    exact Row.length_combine _ _ (RowUpdate.widths_of_fixed other)
  refine ends_mono (sound_of_rows width) fun product shape => ⟨?_, shape.2⟩
  rw [shape.1, List.length_map]
  rfl

namespace Projector

theorem ends_of_project (items : RowMatrix α) :
    Ends (Memory.Lacks (items.cols * items.cols))
      (fun projection => projection.size = items.size ∧ projection.cols = items.cols)
      (project items) := by
  have square := Block.square_gram items.cols _
    (RowUpdate.widths_of_rows (RowUpdate.widths_of_fixed items))
  have inverted : Sound (Block.Square items.cols) ((Block.invert (Block.gram items.cols
      (items.rows.toList.map fun row => (row, row)))).mapError
        (Failure.error : Error α → Failure α)) :=
    ends_of_error fun inverse => Block.square_of_invert square
  refine ends_bind (Memory.ends_of_reserve _) fun _ _ => ends_of_sound ?_
  refine ends_bind inverted fun inverse shape => ?_
  refine ends_bind (RowMatrix.sound_of_rows shape.width) fun matrix sizes => ?_
  refine ends_mono (RowMatrix.sound_mul ?_) fun projection result => ?_
  · rw [sizes.1, shape.rows]
  · exact ⟨result.1, result.2.trans sizes.2⟩

structure Fitted (projector : Projector α) : Prop where
  size : projector.projection.size = projector.model.items.size
  cols : projector.projection.cols = projector.model.rank

theorem ends_of_create (model : Model α) :
    Ends (Memory.Lacks (model.rank * model.rank))
      (fun projector => projector.model = model ∧ projector.Fitted) (create model) := by
  unfold create
  split
  · rename_i none
    refine ⟨rfl, ?_, rfl⟩
    rw [none]
    simp [RowMatrix.zeros, RowMatrix.size]
  · exact ends_bind (ends_of_project model.items) fun projection shape => ⟨rfl, shape.1, shape.2⟩

variable {projector : Projector α}

theorem ends_of_accumulate (formed : projector.model.Formed) (chosen : List EntityId)
    {contribute : Row α → Nat → Except Fault (Row α)}
    (each : ∀ sum row, sum.length = projector.model.rank → row < projector.model.items.size →
      Sound (fun next => next.length = projector.model.rank)
        ((contribute sum row).mapError (Failure.fault : Fault → Failure α))) :
    Ends (Memory.Lacks projector.model.rank) (fun sum => sum.length = projector.model.rank)
      (projector.accumulate chosen contribute) := by
  refine ends_bind (Memory.ends_of_reserve _) fun _ _ => ?_
  refine ends_fold_m (fun sum id length => ?_) chosen (Row.length_zeros _)
  have resolved : Sound (fun found => ∀ row ∈ found, row < projector.model.items.size)
      ((projector.resolve chosen id).mapError (Failure.error : Error α → Failure α)) := by
    refine ends_of_error fun found resolved row member => ?_
    rw [resolve] at resolved
    rw [formed.items]
    split at resolved
    · rename_i position known
      cases resolved
      cases member
      exact projector.model.itemNumbering.lt_size_of_get known
    · split at resolved
      · cases resolved
      · cases resolved
        cases member
  refine ends_bind (ends_of_sound resolved) fun found inside => ?_
  cases found with
  | none => exact length
  | some row => exact ends_of_sound (each sum row length (inside row rfl))

theorem ends_of_embed (formed : projector.model.Formed) (fitted : projector.Fitted)
    (chosen : List EntityId) :
    Ends (Memory.Lacks projector.model.rank) (fun sum => sum.length = projector.model.rank)
      (projector.embed chosen) := by
  refine ends_of_accumulate formed chosen fun sum row length inside => ?_
  rw [← fitted.size] at inside
  obtain ⟨features, found⟩ : ∃ features, projector.projection.row row = .ok features :=
    ⟨_, RowMatrix.row_eq_ok_iff.mpr (Array.getElem?_eq_getElem inside)⟩
  have width := RowMatrix.length_of_row (RowMatrix.row_eq_ok_iff.mp found)
  rw [addProjection, found]
  change (sum.add features).length = projector.model.rank
  rw [Row.length_add, length, width, fitted.cols, Nat.min_self]

theorem ends_of_embed_anonymous (formed : projector.model.Formed) (chosen : List EntityId) :
    Ends (Memory.Lacks projector.model.rank) (fun sum => sum.length = projector.model.rank)
      (projector.embedAnonymous chosen) := by
  refine ends_bind (ends_of_accumulate formed chosen fun sum row length inside => ?_) ?_
  · obtain ⟨features, found⟩ : ∃ features, projector.model.items.row row = .ok features :=
      ⟨_, RowMatrix.row_eq_ok_iff.mpr (Array.getElem?_eq_getElem inside)⟩
    have width : features.length = projector.model.rank :=
      RowMatrix.length_of_row (RowMatrix.row_eq_ok_iff.mp found)
    rw [addUnit, found]
    change Sound _ (Except.mapError Failure.fault (if 0 < Projector.length features then
      .ok (sum.addScaled (1 / Projector.length features) features) else .ok sum))
    split
    · change (sum.addScaled _ features).length = projector.model.rank
      rw [Row.length_add_scaled, length, width, Nat.min_self]
    · exact length
  · intro sum length
    change (scaleToOne sum).length = projector.model.rank
    unfold scaleToOne
    dsimp only
    split
    · rw [List.length_map, length]
    · exact length

end Projector

-- What can be asked of a model, for all ids and lists of ids.
structure Model.Answers (model : Model α) : Prop where
  userRow : ∀ id, Sound (fun row => row.length = model.rank) (model.userRow id)
  itemRow : ∀ id, Sound (fun row => row.length = model.rank) (model.itemRow id)
  predict : ∀ user item, Sound (fun _ => True) (model.predict user item)
  projector : Ends (Memory.Lacks (model.rank * model.rank)) (fun projector : Projector α =>
      projector.model = model ∧ projector.Fitted ∧ ∀ chosen,
        Ends (Memory.Lacks model.rank) (fun sum => sum.length = model.rank)
            (projector.embed chosen) ∧
          Ends (Memory.Lacks model.rank) (fun sum => sum.length = model.rank)
            (projector.embedAnonymous chosen))
    (Projector.create model)

theorem Model.answers_of_formed {model : Model α} (formed : model.Formed) : model.Answers where
  userRow := sound_user_row formed
  itemRow := sound_item_row formed
  predict := sound_predict formed
  projector := by
    refine ends_mono (Projector.ends_of_create model) fun projector shape => ?_
    obtain ⟨rfl, fitted⟩ := shape
    exact ⟨rfl, fitted, fun chosen => ⟨Projector.ends_of_embed formed fitted chosen,
      Projector.ends_of_embed_anonymous formed chosen⟩⟩

end LatentFactor
