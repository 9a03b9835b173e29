import LatentFactor.Projector
import LatentFactor.Proofs.Ratings.Renaming
import LatentFactor.Proofs.Training.Confluence
import LatentFactor.Proofs.Training.Model

set_option autoImplicit false

namespace LatentFactor

variable {α : Type} {naming : Renaming}

def Error.rename (naming : Renaming) : Error α → Error α
  | .unknownId side id => .unknownId side (naming.name side id)
  | .repeatedId side id => .repeatedId side (naming.name side id)
  | error => error

def Failure.rename (naming : Renaming) : Failure α → Failure α
  | .error cause => .error (cause.rename naming)
  | .fault cause => .fault cause

theorem Failure.rename_fault {β : Type} (naming : Renaming) (x : Except Fault β) :
    (x.mapError fault : Except (Failure α) β).mapError (rename naming) = x.mapError fault := by
  cases x with
  | ok b => rfl
  | error cause => rfl

structure Model.Renamed (naming : Renaming) (renamed model : Model α) : Prop where
  ids : ∀ side, (renamed.numbering side).ids.toList =
    (model.numbering side).ids.toList.map (naming.name side)
  sides : ∀ side, (renamed.numbering side).side = side ∧ (model.numbering side).side = side
  users : renamed.users = model.users
  items : renamed.items = model.items
  errors : renamed.errors = model.errors

section

variable {renamed model : Model α}

theorem Model.get_of_renamed (same : renamed.Renamed naming model) (side : Side) (id : EntityId) :
    (renamed.numbering side).get? (naming.name side id) = (model.numbering side).get? id :=
  Numbering.get_of_renamed (naming.injective side) (same.ids side) id

theorem Model.numbered_row_of_renamed (same : renamed.Renamed naming model) (side : Side)
    (m : RowMatrix α) (id : EntityId) :
    (do m.row (← ((renamed.numbering side).rowOf (naming.name side id) : Except (Error α) Nat)) :
        Except (Failure α) (Row α)) =
      (do m.row (← ((model.numbering side).rowOf id : Except (Error α) Nat)) :
        Except (Failure α) (Row α)).mapError (Failure.rename naming) := by
  obtain ⟨own, origin⟩ := same.sides side
  rw [Numbering.rowOf, Numbering.rowOf, get_of_renamed same, own, origin]
  cases (model.numbering side).get? id with
  | none => rfl
  | some r =>
      rw [map_error_bind]
      exact (Failure.rename_fault naming (m.row r)).symm

theorem Model.user_row_of_renamed (same : renamed.Renamed naming model) (id : EntityId) :
    renamed.userRow (naming.name .user id) =
      (model.userRow id).mapError (Failure.rename naming) := by
  have row := numbered_row_of_renamed same .user model.users id
  rw [userRow, same.users]
  exact row

theorem Model.item_row_of_renamed (same : renamed.Renamed naming model) (id : EntityId) :
    renamed.itemRow (naming.name .item id) =
      (model.itemRow id).mapError (Failure.rename naming) := by
  have row := numbered_row_of_renamed same .item model.items id
  rw [itemRow, same.items]
  exact row

variable [Scalar α]

theorem Model.predict_of_renamed (same : renamed.Renamed naming model) (user item : EntityId) :
    renamed.predict (naming.name .user user) (naming.name .item item) =
      (model.predict user item).mapError (Failure.rename naming) := by
  rw [predict, predict, user_row_of_renamed same, item_row_of_renamed same, map_error_bind]
  refine congrArg _ (funext fun x => ?_)
  rw [map_error_bind]
  refine congrArg _ (funext fun y => ?_)
  exact (Failure.rename_fault naming (Row.dot? x y)).symm

end

namespace Projector

variable {renamed projector : Projector α}

structure Renamed (naming : Renaming) (renamed projector : Projector α) : Prop where
  model : renamed.model.Renamed naming projector.model
  projection : renamed.projection = projector.projection

theorem resolve_of_renamed (same : renamed.Renamed naming projector) (chosen : List EntityId)
    (id : EntityId) :
    renamed.resolve (chosen.map (naming.name .item)) (naming.name .item id) =
      (projector.resolve chosen id).mapError (Error.rename naming) := by
  have get : renamed.model.itemNumbering.get? (naming.name .item id) =
      projector.model.itemNumbering.get? id := Model.get_of_renamed same.model .item id
  rw [resolve, resolve, get, List.length_map]
  cases projector.model.itemNumbering.get? id with
  | some row => rfl
  | none =>
      dsimp only
      split
      · rfl
      · rfl

variable [Scalar α]

theorem accumulate_of_renamed (same : renamed.Renamed naming projector) (chosen : List EntityId)
    (contribute : Row α → Nat → Except Fault (Row α)) :
    renamed.accumulate (chosen.map (naming.name .item)) contribute =
      (projector.accumulate chosen contribute).mapError (Failure.rename naming) := by
  have rank : renamed.model.rank = projector.model.rank :=
    congrArg RowMatrix.cols same.model.items
  rw [accumulate, accumulate, rank, map_error_bind]
  have reserved := Failure.rename_fault (α := α) naming (Memory.reserve projector.model.rank)
  refine (congrArg (· >>= _) reserved.symm).trans (congrArg _ (funext fun _ => ?_))
  refine fold_m_map (fun sum id => ?_) chosen (Row.zeros projector.model.rank)
  rw [resolve_of_renamed same, map_error_bind]
  cases projector.resolve chosen id with
  | error error => rfl
  | ok found =>
      cases found with
      | none => rfl
      | some row =>
          exact (Failure.rename_fault naming (contribute sum row)).symm

theorem embed_of_renamed (same : renamed.Renamed naming projector) (chosen : List EntityId) :
    renamed.embed (chosen.map (naming.name .item)) =
      (projector.embed chosen).mapError (Failure.rename naming) := by
  have contribute : renamed.addProjection = projector.addProjection := by
    funext sum row
    rw [addProjection, addProjection, same.projection]
  rw [embed, embed, contribute]
  exact accumulate_of_renamed same chosen _

theorem embed_anonymous_of_renamed (same : renamed.Renamed naming projector)
    (chosen : List EntityId) :
    renamed.embedAnonymous (chosen.map (naming.name .item)) =
      (projector.embedAnonymous chosen).mapError (Failure.rename naming) := by
  have contribute : renamed.addUnit = projector.addUnit := by
    funext sum row
    rw [addUnit, addUnit, same.model.items]
  rw [embedAnonymous, embedAnonymous, contribute, accumulate_of_renamed same, map_error_bind]
  rfl

theorem create_of_renamed {model other : Model α} (same : other.Renamed naming model) :
    Corresponds (Renamed naming) (create other) (create model) := by
  rw [create, create, Model.rank, Model.rank, same.items]
  split
  · exact ⟨same, rfl⟩
  · cases project model.items with
    | ok projection => exact ⟨same, rfl⟩
    | error failure => rfl

theorem answers_of_renamed {model other : Model α} (same : other.Renamed naming model) :
    Corresponds (fun renamed projector => ∀ chosen : List EntityId,
        renamed.embed (chosen.map (naming.name .item)) =
            (projector.embed chosen).mapError (Failure.rename naming) ∧
          renamed.embedAnonymous (chosen.map (naming.name .item)) =
            (projector.embedAnonymous chosen).mapError (Failure.rename naming))
      (create other) (create model) := by
  rcases corresponds_iff.mp (create_of_renamed same) with
    ⟨renamed, projector, own, origin, projects⟩ | ⟨failure, own, origin⟩
  · rw [own, origin]
    intro chosen
    exact ⟨embed_of_renamed projects chosen, embed_anonymous_of_renamed projects chosen⟩
  · rw [own, origin]
    rfl

end Projector

namespace Training

variable {training renamed : Training α} {prepared other : Prepared α}

-- The same run, to a model under new names or to the same failure.
structure Run.Renamed (naming : Renaming) (renamed run : Run α) : Prop where
  outcome : Corresponds (Model.Renamed naming) renamed.outcome run.outcome
  events : renamed.events = run.events
  cancelled : renamed.cancelled = run.cancelled
  calls : renamed.calls = run.calls

theorem size_of_renamed (same : other.Renamed naming prepared) (side : Side) :
    (other.numbering side).size = (prepared.numbering side).size := by
  have lengths := congrArg List.length (same.ids side)
  rw [List.length_map] at lengths
  exact lengths

theorem result_of_renamed (same : other.Renamed naming prepared) (state : State α) :
    Corresponds (Model.Renamed naming) (result other state) (result prepared state) := by
  have users : other.users.size = prepared.users.size := size_of_renamed same .user
  have items : other.items.size = prepared.items.size := size_of_renamed same .item
  rw [result, result, Model.create, Model.create, users, items]
  split
  · rfl
  · split
    · rfl
    · split
      · rfl
      · refine ⟨fun side => ?_, fun side => ?_, rfl, rfl, rfl⟩
        · cases side with
          | user => exact same.ids .user
          | item => exact same.ids .item
        · cases side with
          | user => exact same.sides .user
          | item => exact same.sides .item

-- Training on records, with a list of items of which there may be no record.
def ofRecords (settings : Settings α) (records : List (Rating α)) (items : List EntityId)
    (test : Option (List (Rating α))) : Training α where
  settings
  ratings := ((Store.ofList records).addItems items).toRatings
  test := test.map fun ratings => (Store.ofList ratings).toRatings

theorem renamed_of_records (naming : Renaming) (settings : Settings α)
    (records : List (Rating α)) (items : List EntityId) (test : Option (List (Rating α))) :
    (ofRecords settings (records.map (Rating.rename naming)) (items.map (naming.name .item))
        (test.map (List.map (Rating.rename naming)))).Renamed naming
      (ofRecords settings records items test) where
  settings := rfl
  ratings := Store.renamed_of_records records items
  test := by
    cases test with
    | none => exact .none
    | some ratings => exact .some (Store.renamed_of_records ratings [])

variable [Scalar α] {environment : Environment α}

section

variable {settings : Settings α}

theorem solve_phase_of_renamed (same : other.Renamed naming prepared) (phase : Phase)
    (state : State α) :
    solvePhase environment settings other phase state =
      solvePhase environment settings prepared phase state := by
  simp only [solvePhase, task, same.ratings]

theorem iterate_of_renamed (same : other.Renamed naming prepared) (iteration : Nat)
    (state : State α) :
    iterate environment settings other iteration state =
      iterate environment settings prepared iteration state := by
  simp only [iterate, evaluate, solve_phase_of_renamed same, same.heldOut]

theorem iterations_of_renamed (same : other.Renamed naming prepared) (count iteration : Nat)
    (state : State α) :
    iterations environment settings other count iteration state =
      iterations environment settings prepared count iteration state := by
  induction count generalizing iteration state with
  | zero => rfl
  | succ count ih => simp only [iterations, iterate_of_renamed same, ih]

end

theorem start_of_renamed {cancelled : Bool} (alike : renamed.Renamed naming training)
    (same : other.Renamed naming prepared) :
    start environment renamed other cancelled = start environment training prepared cancelled := by
  have users : other.users.size = prepared.users.size := size_of_renamed same .user
  have items : other.items.size = prepared.items.size := size_of_renamed same .item
  have tested : renamed.test.isSome = training.test.isSome := by
    have test := alike.test
    generalize renamed.test = rival at test ⊢
    generalize training.test = own at test ⊢
    cases test with
    | none => rfl
    | some _ => rfl
  simp only [start, opening, alike.settings, same.ratings, same.heldOut, users, items, tested]

theorem run_of_renamed (alike : renamed.Renamed naming training)
    (resolved : training.prepare = .ok prepared) (environment : Environment α)
    (cancelled : Bool) :
    (run environment renamed cancelled).Renamed naming (run environment training cancelled) := by
  obtain ⟨other, resolvedOther, same⟩ := prepare_of_renamed alike resolved
  simp only [run, resolved, resolvedOther, start_of_renamed alike same, alike.settings,
    iterations_of_renamed same]
  cases start environment training prepared cancelled with
  | error fault => exact ⟨rfl, rfl, rfl, rfl⟩
  | ok state =>
      dsimp only
      cases iterations environment training.settings prepared training.settings.iterations 0
        state with
      | error stopped => exact ⟨rfl, rfl, rfl, rfl⟩
      | ok last =>
          refine ⟨?_, rfl, rfl, rfl⟩
          have ends := result_of_renamed same
            (last.emit environment (.finished environment.elapsed))
          rcases corresponds_iff.mp ends with ⟨twin, model, own, origin, renames⟩ | failed
          · simp only [State.toRun, own, origin]
            exact renames
          · obtain ⟨error, own, origin⟩ := failed
            simp only [State.toRun, own, origin]
            rfl

theorem exists_prepare_of_records {settings : Settings α}
    (valid : (settings.check : Except (Error α) Unit) = .ok ()) (records : List (Rating α))
    (items : List EntityId) (test : Option (List (Rating α))) :
    ∃ prepared, (ofRecords settings records items test).prepare = .ok prepared := by
  refine (Ratings.exists_prepare_iff
    (Store.agrees_of_built (.addItems _ items (.ofList records))).1).mpr
    ⟨(Settings.check_eq_ok_iff.mp valid).2.2.2.1, ?_⟩
  intro source given id member
  obtain ⟨ratings, -, rfl⟩ := Option.mem_map.mp given
  obtain ⟨entries, listed, -⟩ :=
    (Store.agrees_of_built (.ofList ratings)).1.entries .user id member
  exact ⟨entries, listed⟩

theorem same_of_undisturbed {environment surroundings : Environment α}
    (undisturbed : environment.Undisturbed) (undisturbedRival : surroundings.Undisturbed)
    (unlimited : training.settings.timeLimit = none)
    (same : (run surroundings renamed false).Renamed naming (run surroundings training false)) :
    (run surroundings renamed false).events.map Event.untimed =
        (run environment training false).events.map Event.untimed ∧
      ((∃ twin, (run surroundings renamed false).outcome = .ok twin) ↔
        ∃ model, (run environment training false).outcome = .ok model) ∧
      ∀ twin model, (run surroundings renamed false).outcome = .ok twin →
        (run environment training false).outcome = .ok model → twin.Renamed naming model := by
  have calm : ∀ model, (run environment training false).outcome = .ok model ↔
      (run surroundings training false).outcome = .ok model :=
    same_model undisturbed undisturbedRival unlimited
  obtain ⟨outcome, events, -, -⟩ := same
  refine ⟨?_, ?_, ?_⟩
  · rw [events]
    exact same_events undisturbedRival undisturbed unlimited
  · simp only [calm]
    rcases corresponds_iff.mp outcome with ⟨twin, model, own, origin, -⟩ | ⟨error, own, origin⟩
    · exact ⟨fun _ => ⟨model, origin⟩, fun _ => ⟨twin, own⟩⟩
    · rw [own, origin]
  · intro twin model done doneOrigin
    rw [done, (calm model).mp doneOrigin] at outcome
    exact outcome

-- The surroundings may be the same, with a limit and cancellation and all, or different ones that
-- do not disturb: then only the times differ.
theorem run_renamed (naming : Renaming) (records : List (Rating α)) (items : List EntityId)
    (test : Option (List (Rating α))) {settings : Settings α}
    (valid : (settings.check : Except (Error α) Unit) = .ok ()) :
    let training := ofRecords settings records items test
    let renamed := ofRecords settings (records.map (Rating.rename naming))
      (items.map (naming.name .item)) (test.map (List.map (Rating.rename naming)))
    (∀ (environment : Environment α) (cancelled : Bool),
      (run environment renamed cancelled).Renamed naming (run environment training cancelled)) ∧
    (∀ environment surroundings : Environment α, environment.Undisturbed →
      surroundings.Undisturbed → settings.timeLimit = none →
        (run surroundings renamed false).events.map Event.untimed =
            (run environment training false).events.map Event.untimed ∧
          ((∃ twin, (run surroundings renamed false).outcome = .ok twin) ↔
            ∃ model, (run environment training false).outcome = .ok model) ∧
          ∀ twin model, (run surroundings renamed false).outcome = .ok twin →
            (run environment training false).outcome = .ok model →
              twin.Renamed naming model) ∧
    ∀ twin model : Model α, twin.Renamed naming model →
      (∀ user item, twin.predict (naming.name .user user) (naming.name .item item) =
        (model.predict user item).mapError (Failure.rename naming)) ∧
      Corresponds (fun other projector : Projector α => ∀ chosen : List EntityId,
          other.embed (chosen.map (naming.name .item)) =
              (projector.embed chosen).mapError (Failure.rename naming) ∧
            other.embedAnonymous (chosen.map (naming.name .item)) =
              (projector.embedAnonymous chosen).mapError (Failure.rename naming))
        (Projector.create twin) (Projector.create model) := by
  intro training renamed
  have alike : renamed.Renamed naming training :=
    renamed_of_records naming settings records items test
  obtain ⟨prepared, resolved⟩ := exists_prepare_of_records valid records items test
  have same := run_of_renamed alike resolved
  refine ⟨same, ?_, ?_⟩
  · intro environment surroundings undisturbed undisturbedRival unlimited
    exact same_of_undisturbed undisturbed undisturbedRival unlimited (same surroundings false)
  · intro twin model renames
    exact ⟨Model.predict_of_renamed renames, Projector.answers_of_renamed renames⟩

theorem run_renamed_one_rating :
    let settings : Settings ℝ := .create 1 1 1 1
    let records : List (Rating ℝ) := [⟨1, 2, 3⟩]
    let naming := Renaming.shift 5
    (settings.check : Except (Error ℝ) Unit) = .ok () ∧
      ∃ twin model,
        (run .plain (ofRecords settings (records.map (Rating.rename naming)) [] none)
            false).outcome = .ok twin ∧
        (run .plain (ofRecords settings records [] none) false).outcome = .ok model ∧
        twin.Renamed naming model ∧
        twin.predict (naming.name .user 1) (naming.name .item 2) =
          (model.predict 1 2).mapError (Failure.rename naming) := by
  intro settings records naming
  obtain ⟨model, done⟩ := ok_one_rating
  obtain ⟨-, calm, answers⟩ := run_renamed naming records [] none check_ones
  obtain ⟨-, both, alike⟩ := calm .plain .plain undisturbed_plain undisturbed_plain rfl
  obtain ⟨twin, doneTwin⟩ := both.mpr ⟨model, done⟩
  have renames := alike twin model doneTwin done
  exact ⟨check_ones, twin, model, doneTwin, done, renames, (answers twin model renames).1 1 2⟩

end Training
end LatentFactor
