import LatentFactor.Proofs.Real.Explicit

set_option autoImplicit false

namespace LatentFactor

variable {α : Type}

namespace Model

def numbering (model : Model α) : Side → Numbering
  | .user => model.userNumbering
  | .item => model.itemNumbering

def features (model : Model α) : Features α := ⟨model.users, model.items⟩

theorem numbered_row_eq_ok_iff {numbering : Numbering} {m : RowMatrix α} {id : EntityId}
    {row : Row α} :
    (do m.row (← (numbering.rowOf id : Except (Error α) Nat)) : Except (Failure α) (Row α)) =
        .ok row ↔
      ∃ r, numbering.get? id = some r ∧ m.rows[r]? = some row := by
  rw [bind_eq_ok_iff]
  constructor
  · rintro ⟨r, found, rest⟩
    exact ⟨r, Numbering.row_of_eq_ok_iff.mp (map_error_eq_ok_iff.mp found),
      RowMatrix.row_eq_ok_iff.mp (map_error_eq_ok_iff.mp rest)⟩
  · rintro ⟨r, found, listed⟩
    exact ⟨r, map_error_eq_ok_iff.mpr (Numbering.row_of_eq_ok_iff.mpr found),
      map_error_eq_ok_iff.mpr (RowMatrix.row_eq_ok_iff.mpr listed)⟩

theorem user_row_eq_ok_iff {model : Model α} {id : EntityId} {row : Row α} :
    model.userRow id = .ok row ↔
      ∃ r, model.userNumbering.get? id = some r ∧ model.users.rows[r]? = some row :=
  numbered_row_eq_ok_iff

theorem item_row_eq_ok_iff {model : Model α} {id : EntityId} {row : Row α} :
    model.itemRow id = .ok row ↔
      ∃ r, model.itemNumbering.get? id = some r ∧ model.items.rows[r]? = some row :=
  numbered_row_eq_ok_iff

variable [Scalar α]

theorem predict_eq_ok {model : Model α} {user item : EntityId} {x y : Row α}
    (userRow : model.userRow user = .ok x) (itemRow : model.itemRow item = .ok y)
    (same : x.length = y.length) : model.predict user item = .ok (Row.dot x y) := by
  rw [predict, userRow, itemRow]
  simp [bind, Except.bind, Row.dot?, same]
  rfl

end Model

variable [Scalar α]

def RowMatrix.Finite (m : RowMatrix α) : Prop :=
  ∀ row ∈ m.rows, ∀ entry ∈ row, Scalar.isFinite entry = true

namespace Training

structure Describes (training : Training α) (model : Model α) : Prop where
  ids : ∀ side, (model.numbering side).ids.toList = training.ratings.ids side
  size : ∀ side, (model.features.bySide side).size = (training.ratings.ids side).length
  cols : ∀ side, (model.features.bySide side).cols = training.settings.rank
  finite : ∀ side, (model.features.bySide side).Finite
  errors : model.errors.length = training.settings.iterations

variable {environment : Environment α} {training : Training α} {cancelled : Bool}
  {prepared : Prepared α} {settings : Settings α}

theorem finite_of_half {side : Side} {fixed target : RowMatrix α}
    (solved : half settings prepared side fixed = .ok target) : target.Finite := by
  obtain ⟨update, -, -, answers⟩ := half_eq_ok_iff.mp solved
  intro row member
  obtain ⟨r, inside, rfl⟩ := List.mem_iff_getElem.mp (Array.mem_toList_iff.mpr member)
  exact RowUpdate.finite_of_solve
    ((List.forall₂_iff_get.mp answers).2 r (answers.length_eq ▸ inside) inside)

theorem finite_of_rounds {initial features : Features α} {errors : List (Option α)} {count : Nat}
    (done : rounds settings prepared initial count = .ok (features, errors)) (trained : count ≠ 0) :
    ∀ side, (features.bySide side).Finite := by
  obtain ⟨earlier, rfl⟩ := Nat.exists_eq_succ_of_ne_zero trained
  obtain ⟨before, errors, -, both, -⟩ := rounds_succ_eq_ok_iff.mp done
  obtain ⟨users, items⟩ := round_eq_ok_iff.mp both
  intro side
  cases side with
  | user => exact finite_of_half users
  | item => exact finite_of_half items

theorem describes_of_alternation {model : Model α} (trained : training.settings.iterations ≠ 0)
    (coherent : training.Coherent prepared) (whole : alternation training prepared = .ok model) :
    training.Describes model := by
  obtain ⟨initial, features, errors, made, -, solved, rfl⟩ := alternation_eq_ok_iff.mp whole
  have shaped := shaped_of_rounds coherent (shaped_of_initial coherent made) solved
  refine ⟨?_, ?_, shaped.cols, finite_of_rounds solved trained, length_of_rounds solved⟩
  · intro side
    rw [← coherent.ids side]
    cases side with
    | user => rfl
    | item => rfl
  · intro side
    rw [← size_numbering coherent]
    exact shaped.size side

theorem exists_row_of_describes {model : Model α} (side : Side) {id : EntityId}
    (describes : training.Describes model) (known : id ∈ training.ratings.ids side) :
    ∃ r row, (model.numbering side).get? id = some r ∧
      (model.features.bySide side).rows[r]? = some row ∧ row.length = training.settings.rank := by
  have size := describes.size side
  rw [← describes.ids side] at known size
  obtain ⟨r, found⟩ := Numbering.exists_get known
  have inside : r < (model.features.bySide side).size :=
    size.symm ▸ Numbering.lt_size_of_get _ found
  have listed := Array.getElem?_eq_getElem inside
  exact ⟨r, _, found, listed, (RowMatrix.length_of_row listed).trans (describes.cols side)⟩

theorem user_row_of_describes {model : Model α} {id : EntityId}
    (describes : training.Describes model) (known : id ∈ training.ratings.userIds) :
    ∃ row, model.userRow id = .ok row ∧ row.length = training.settings.rank := by
  obtain ⟨r, row, found, listed, length⟩ :=
    exists_row_of_describes .user describes known
  exact ⟨row, Model.user_row_eq_ok_iff.mpr ⟨r, found, listed⟩, length⟩

theorem item_row_of_describes {model : Model α} {id : EntityId}
    (describes : training.Describes model) (known : id ∈ training.ratings.itemIds) :
    ∃ row, model.itemRow id = .ok row ∧ row.length = training.settings.rank := by
  obtain ⟨r, row, found, listed, length⟩ :=
    exists_row_of_describes .item describes known
  exact ⟨row, Model.item_row_eq_ok_iff.mpr ⟨r, found, listed⟩, length⟩

theorem describes_of_run (lawful : Phase.Lawful environment.runPhase)
    (valid : (training.settings.check : Except (Error α) Unit) = .ok ()) :
    (∀ model, (run environment training cancelled).outcome = .ok model →
      training.Describes model) ∧
    ∀ prepared last, Passes environment training cancelled prepared .done last →
      result prepared (last.emit environment (.finished environment.elapsed)) =
        .ok (prepared.model last) := by
  have trained := (Settings.check_eq_ok_iff.mp valid).2.2.1
  constructor
  · intro model done
    obtain ⟨prepared, resolved, whole⟩ := alternation_of_ok lawful done
    exact describes_of_alternation trained (coherent_of_prepare resolved) whole
  · intro prepared last passes
    have shown : Shaped prepared training.settings.rank
        (last.emit environment (.finished environment.elapsed)).features :=
      (shaped_of_passes lawful passes).2
    exact result_eq_ok shown

theorem describes_of_run_one_rating :
    let training : Training ℝ := ⟨.create 1 1 1 1, (Store.ofList [⟨1, 2, 3⟩]).toRatings, none⟩
    Phase.Lawful (Environment.plain : Environment ℝ).runPhase ∧
      (training.settings.check : Except (Error ℝ) Unit) = .ok () ∧
      ∃ model, (run .plain training false).outcome = .ok model ∧ training.Describes model := by
  intro training
  have lawful := lawful_of_undisturbed (undisturbed_plain (α := ℝ))
  obtain ⟨model, done⟩ := ok_one_rating
  exact ⟨lawful, check_ones, model, done, (describes_of_run lawful check_ones).1 model done⟩

end Training
end LatentFactor
