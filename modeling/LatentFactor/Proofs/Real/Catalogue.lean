import LatentFactor.Proofs.Ratings.Catalogue
import LatentFactor.Proofs.Training.Model

set_option autoImplicit false

namespace LatentFactor

section

variable {α : Type}

def RowMatrix.Extends (wider m : RowMatrix α) : Prop :=
  wider.cols = m.cols ∧ m.rows.toList <+: wider.rows.toList

theorem RowMatrix.row_of_extends {wider m : RowMatrix α} {r : Nat} {row : Row α}
    (grown : wider.Extends m) (found : m.rows[r]? = some row) : wider.rows[r]? = some row := by
  obtain ⟨-, more, listed⟩ := grown
  rw [← Array.getElem?_toList] at found ⊢
  obtain ⟨inside, -⟩ := List.getElem?_eq_some_iff.mp found
  rw [← listed, List.getElem?_append_left inside]
  exact found

theorem RowMatrix.holds_system_of_extends {wider m : RowMatrix α} {count : Nat}
    (grown : wider.Extends m) (holds : m.HoldsSystem count) : wider.HoldsSystem count := by
  obtain ⟨cols, rows⟩ := grown
  obtain ⟨copies, square⟩ := holds
  have more : m.size ≤ wider.size := by
    rw [size, size, ← Array.length_toList, ← Array.length_toList]
    exact rows.length_le
  rw [← cols] at copies square
  exact ⟨copies.imp_left fun fewer => Nat.le_trans fewer more, square⟩

variable [Scalar α]

theorem RowUpdate.solve_of_extends {update wider : RowUpdate α} {observations : Observations α}
    {x : Row α} (grown : wider.fixed.Extends update.fixed) (explicit : update.feedback = .explicit)
    (feedback : wider.feedback = update.feedback) (lambda : wider.lambda = update.lambda)
    (passes : wider.passes = update.passes) (solved : update.solve observations = .ok x) :
    wider.solve observations = .ok x := by
  obtain ⟨rated, looked, holds, found⟩ := solve_eq_ok_iff.mp solved
  have system : wider.system rated = update.system rated := by
    simp only [RowUpdate.system, feedback, explicit, lambda, grown.1]
  refine solve_eq_ok_iff.mpr ⟨rated, ?_, RowMatrix.holds_system_of_extends grown holds, ?_⟩
  · exact rated_rows_eq_ok_iff.mpr ((rated_rows_eq_ok_iff.mp looked).imp fun _ _ own =>
      ⟨RowMatrix.row_of_extends grown own.1, own.2⟩)
  · rw [system, passes]
    exact found

end

namespace Training

section

variable {α : Type} [Scalar α] {settings : Settings α} {prepared extended : Prepared α}
  {added : List EntityId}

theorem half_users_of_extends {fixed wider target : RowMatrix α}
    (explicit : settings.feedback = .explicit) (grown : extended.Extends prepared added)
    (rows : wider.Extends fixed) (solved : half settings prepared .user fixed = .ok target) :
    half settings extended .user wider = .ok target := by
  obtain ⟨update, created, cols, answers⟩ := half_eq_ok_iff.mp solved
  obtain ⟨feedback, same, lambda, passes, -⟩ := RowUpdate.create_eq_ok created
  obtain ⟨other, createdWider⟩ : ∃ other, RowUpdate.create settings.feedback wider
      settings.lambda settings.passes = .ok other := by
    rw [explicit]
    exact ⟨_, rfl⟩
  obtain ⟨feedbackWider, sameWider, lambdaWider, passesWider, -⟩ :=
    RowUpdate.create_eq_ok createdWider
  have ratings : extended.ratings.bySide .user = prepared.ratings.bySide .user := grown.byUser
  refine half_eq_ok_iff.mpr ⟨other, createdWider, cols.trans rows.1.symm, ?_⟩
  rw [ratings]
  refine answers.imp fun observations row own => ?_
  refine RowUpdate.solve_of_extends ?_ (feedback.trans explicit)
    (feedbackWider.trans feedback.symm) (lambdaWider.trans lambda.symm)
    (passesWider.trans passes.symm) own
  rw [same, sameWider]
  exact rows

end

theorem zeros_of_unrated {update : RowUpdate ℝ} {x : Row ℝ}
    (shared : RowUpdate.SharedOf update.feedback update.fixed update.shared)
    (explicit : update.feedback = .explicit) (positive : 0 < update.lambda)
    (solved : update.solve [] = .ok x) : x = Row.zeros update.fixed.cols := by
  have loss : ∀ y, update.loss [] y = update.lambda * Row.dot y y := by
    intro y
    simp [RowUpdate.loss, explicit, Feedback.spread, Feedback.weight]
  obtain ⟨rated, looked, length, least⟩ := RowUpdate.least_of_solve shared solved
  rw [RowUpdate.rated_rows_eq_ok_iff, List.forall₂_nil_left_iff] at looked
  subst looked
  have below := (least (Row.zeros update.fixed.cols) List.length_replicate).1
  rw [loss, loss, Row.dot_zeros, mul_zero] at below
  have null : Row.dot x x = 0 :=
    le_antisymm (nonpos_of_mul_nonpos_right below positive) (Row.dot_self_nonneg x)
  rw [← length]
  exact Row.eq_zeros_of_dot_self null

section

variable {settings : Settings ℝ} {prepared extended : Prepared ℝ} {added : List EntityId}
  {initial initialWider features wider : Features ℝ} {rank : Nat}

theorem rows_of_unrated {fixed target targetWider : RowMatrix ℝ}
    (explicit : settings.feedback = .explicit) (positive : 0 < settings.lambda)
    (grown : extended.Extends prepared added)
    (solved : half settings prepared .item fixed = .ok target)
    (solvedWider : half settings extended .item fixed = .ok targetWider) :
    targetWider.rows.toList =
      target.rows.toList ++ List.replicate added.length (Row.zeros fixed.cols) := by
  obtain ⟨update, created, -, answers⟩ := half_eq_ok_iff.mp solved
  obtain ⟨other, createdWider, -, answersWider⟩ := half_eq_ok_iff.mp solvedWider
  cases created.symm.trans createdWider
  obtain ⟨feedback, same, lambda, -, shared⟩ := RowUpdate.create_eq_ok created
  have byItem : (extended.ratings.bySide .item).toList =
      (prepared.ratings.bySide .item).toList ++ List.replicate added.length [] := grown.byItem
  rw [byItem] at answersWider
  have rated := List.forall₂_take (prepared.ratings.bySide .item).toList.length answersWider
  have unrated := List.forall₂_drop (prepared.ratings.bySide .item).toList.length answersWider
  rw [List.take_left] at rated
  rw [List.drop_left] at unrated
  have old : targetWider.rows.toList.take (prepared.ratings.bySide .item).toList.length =
      target.rows.toList := by
    rw [← map_eq_map_ok_iff] at rated answers
    exact List.map_injective_iff.mpr (fun _ _ => Except.ok.inj) (rated.symm.trans answers)
  have new : targetWider.rows.toList.drop (prepared.ratings.bySide .item).toList.length =
      List.replicate added.length (Row.zeros fixed.cols) := by
    refine List.eq_replicate_iff.mpr
      ⟨unrated.length_eq.symm.trans List.length_replicate, fun row member => ?_⟩
    obtain ⟨i, inside, rfl⟩ := List.mem_iff_getElem.mp member
    have own := (List.forall₂_iff_get.mp unrated).2 i (unrated.length_eq ▸ inside) inside
    rw [List.get_eq_getElem, List.getElem_replicate] at own
    rw [← same]
    exact zeros_of_unrated shared (feedback.trans explicit) (lambda ▸ positive) own
  rw [← old, ← new, List.take_append_drop]

-- The same features with a row of zeros for each of the items added.
structure Widened (added : List EntityId) (wider features : Features ℝ) : Prop where
  users : wider.users = features.users
  cols : wider.items.cols = features.items.cols
  items : wider.items.rows.toList =
    features.items.rows.toList ++ List.replicate added.length (Row.zeros features.items.cols)

theorem extends_of_widened (widened : Widened added wider features) :
    wider.items.Extends features.items :=
  ⟨widened.cols, _, widened.items.symm⟩

theorem widened_of_round {items itemsWider : RowMatrix ℝ}
    (explicit : settings.feedback = .explicit) (positive : 0 < settings.lambda)
    (grown : extended.Extends prepared added) (rows : itemsWider.Extends items)
    (solved : round settings prepared items = .ok features)
    (solvedWider : round settings extended itemsWider = .ok wider) :
    Widened added wider features := by
  obtain ⟨users, second⟩ := round_eq_ok_iff.mp solved
  obtain ⟨usersWider, secondWider⟩ := round_eq_ok_iff.mp solvedWider
  have same : wider.users = features.users :=
    Except.ok.inj (usersWider.symm.trans (half_users_of_extends explicit grown rows users))
  rw [same] at secondWider
  obtain ⟨-, -, cols, -⟩ := half_eq_ok_iff.mp second
  obtain ⟨-, -, colsWider, -⟩ := half_eq_ok_iff.mp secondWider
  refine ⟨same, colsWider.trans cols.symm, ?_⟩
  rw [cols]
  exact rows_of_unrated explicit positive grown second secondWider

theorem widened_of_rounds {count : Nat} {errors errorsWider : List (Option ℝ)}
    (explicit : settings.feedback = .explicit) (positive : 0 < settings.lambda)
    (grown : extended.Extends prepared added)
    (rows : initialWider.items.Extends initial.items)
    (solved : rounds settings prepared initial count = .ok (features, errors))
    (solvedWider : rounds settings extended initialWider count = .ok (wider, errorsWider)) :
    wider.items.Extends features.items ∧ (count ≠ 0 → Widened added wider features) := by
  induction count generalizing features wider errors errorsWider with
  | zero =>
      cases solved
      cases solvedWider
      exact ⟨rows, fun trained => absurd rfl trained⟩
  | succ count ih =>
      obtain ⟨before, earlier, prior, both, -⟩ := rounds_succ_eq_ok_iff.mp solved
      obtain ⟨beforeWider, earlierWider, priorWider, bothWider, -⟩ :=
        rounds_succ_eq_ok_iff.mp solvedWider
      have widened :=
        widened_of_round explicit positive grown (ih prior priorWider).1 both bothWider
      exact ⟨extends_of_widened widened, fun _ => widened⟩

end

section

variable {training wider : Training ℝ} {prepared extended : Prepared ℝ}
  {model modelWider : Model ℝ} {added : List EntityId} {id : EntityId}

structure Enlarged (added : List EntityId) (wider model : Model ℝ) : Prop where
  features : Widened added wider.features model.features
  userNumbering : wider.userNumbering = model.userNumbering
  itemIds : wider.itemNumbering.ids.toList = model.itemNumbering.ids.toList ++ added

theorem enlarged_of_alternation (same : wider.settings = training.settings)
    (grown : wider.ratings.Extends training.ratings added)
    (explicit : training.settings.feedback = .explicit) (positive : 0 < training.settings.lambda)
    (trained : training.settings.iterations ≠ 0) (resolved : training.prepare = .ok prepared)
    (resolvedWider : wider.prepare = .ok extended)
    (whole : alternation training prepared = .ok model)
    (wholeWider : alternation wider extended = .ok modelWider) :
    Enlarged added modelWider model := by
  obtain ⟨initial, features, errors, made, -, solved, rfl⟩ := alternation_eq_ok_iff.mp whole
  obtain ⟨initialWider, featuresWider, errorsWider, madeWider, -, solvedWider, rfl⟩ :=
    alternation_eq_ok_iff.mp wholeWider
  have larger := extends_of_prepare grown resolved resolvedWider
  rw [same] at madeWider solvedWider
  rw [larger.byItem, larger.users] at madeWider
  have cols : initialWider.items.cols = initial.items.cols := by
    rw [(Features.initial_eq_ok madeWider).2.2, (Features.initial_eq_ok made).2.2]
  have start : initialWider.items.Extends initial.items :=
    ⟨cols, Features.items_of_initial_append made madeWider⟩
  have widened := (widened_of_rounds explicit positive larger start solved solvedWider).2 trained
  exact ⟨widened, larger.users, larger.items⟩

theorem item_row_of_known (describes : training.Describes model)
    (enlarged : Enlarged added modelWider model) (known : id ∈ training.ratings.itemIds) :
    ∃ row, model.itemRow id = .ok row ∧ modelWider.itemRow id = .ok row := by
  obtain ⟨row, own, -⟩ := item_row_of_describes describes known
  obtain ⟨r, found, listed⟩ := Model.item_row_eq_ok_iff.mp own
  have foundWider := Numbering.get_of_append enlarged.itemIds found
  have listedWider := RowMatrix.row_of_extends (extends_of_widened enlarged.features) listed
  exact ⟨row, own, Model.item_row_eq_ok_iff.mpr ⟨r, foundWider, listedWider⟩⟩

theorem item_row_of_added (describes : training.Describes model)
    (enlarged : Enlarged added modelWider model) (fresh : id ∈ added) :
    modelWider.itemRow id = .ok (Row.zeros training.settings.rank) := by
  obtain ⟨i, inside, rfl⟩ := List.mem_iff_getElem.mp fresh
  have ids : model.itemNumbering.ids.toList = training.ratings.itemIds := describes.ids .item
  have size : model.items.rows.toList.length = training.ratings.itemIds.length :=
    describes.size .item
  have cols : model.items.cols = training.settings.rank := describes.cols .item
  have rows : modelWider.items.rows.toList =
      model.items.rows.toList ++ List.replicate added.length (Row.zeros model.items.cols) :=
    enlarged.features.items
  refine Model.item_row_eq_ok_iff.mpr ⟨training.ratings.itemIds.length + i, ?_, ?_⟩
  · refine (Numbering.get_eq_some_iff ..).mpr ?_
    rw [Numbering.id?, ← Array.getElem?_toList, enlarged.itemIds, ids,
      List.getElem?_append_right (Nat.le_add_right ..), Nat.add_sub_cancel_left]
    exact List.getElem?_eq_getElem inside
  · rw [← Array.getElem?_toList, rows, ← size,
      List.getElem?_append_right (Nat.le_add_right ..), Nat.add_sub_cancel_left,
      List.getElem?_replicate, if_pos inside, cols]

theorem predict_of_added {user : EntityId} (describes : wider.Describes modelWider)
    (known : user ∈ wider.ratings.userIds)
    (zero : modelWider.itemRow id = .ok (Row.zeros wider.settings.rank)) :
    modelWider.predict user id = .ok 0 := by
  obtain ⟨x, row, length⟩ := user_row_of_describes describes known
  rw [Model.predict_eq_ok row zero (length.trans List.length_replicate.symm), Row.dot_comm,
    Row.dot_zeros]

theorem affords_iff_of_extends (same : wider.settings = training.settings)
    (grown : wider.ratings.Extends training.ratings added) :
    wider.Affords ↔ training.Affords ∧
      Memory.HoldsMatrix wider.ratings.itemIds.length training.settings.rank ∧
      (wider.ratings.itemIds ≠ [] →
        Memory.Holds (training.settings.rank * training.settings.rank)) := by
  have fewer : training.ratings.itemIds.length ≤ wider.ratings.itemIds.length := by
    rw [grown.itemIds, List.length_append]
    exact Nat.le_add_right ..
  have users : wider.ratings.ids .user = training.ratings.ids .user := grown.userIds
  have items : wider.ratings.ids .item = training.ratings.ids .item ++ added := grown.itemIds
  constructor
  · intro affords
    obtain ⟨matrices, errors, copies, systems⟩ := affords
    rw [same] at matrices errors copies systems
    refine ⟨⟨fun side => ?_, errors, fun side id listed entries given => ?_, fun side some => ?_⟩,
      matrices .item, systems .item⟩
    · cases side with
      | user => exact users ▸ matrices .user
      | item => exact Memory.holds_matrix_of_le fewer (matrices .item)
    · have still : id ∈ wider.ratings.ids side := by
        cases side with
        | user => exact users.symm ▸ listed
        | item => exact items.symm ▸ List.mem_append_left added listed
      exact copies side id still entries ((Ratings.entries_of_extends grown listed).trans given)
    · cases side with
      | user => exact systems .user (users.symm ▸ some)
      | item =>
          refine systems .item fun none => some ?_
          exact (List.append_eq_nil_iff.mp (items.symm.trans none)).1
  · rintro ⟨affords, matrix, system⟩
    have copied : ∀ side, ∀ id ∈ wider.ratings.ids side, ∀ entries,
        wider.ratings.entries side id = .ok entries →
          Memory.HoldsMatrix entries.length training.settings.rank := by
      intro side id listed entries given
      by_cases known : id ∈ training.ratings.ids side
      · rw [Ratings.entries_of_extends grown known] at given
        exact affords.copies side id known entries given
      · cases side with
        | user => exact absurd (users ▸ listed) known
        | item =>
            rw [items, List.mem_append] at listed
            cases given.symm.trans (grown.unrated id (listed.resolve_left known))
            exact Memory.holds_matrix_of_le (Nat.zero_le _) matrix
    refine ⟨fun side => ?_, same ▸ affords.errors, same ▸ copied, fun side some => ?_⟩
    · rw [same]
      cases side with
      | user => exact users.symm ▸ affords.matrices .user
      | item => exact matrix
    · rw [same]
      cases side with
      | user => exact affords.systems .user (users ▸ some)
      | item => exact system some

end

theorem run_add_items {environment surroundings : Environment ℝ} {store : Store ℝ}
    (built : store.Built) (ids : List EntityId) (settings : Settings ℝ)
    (test : Option (Ratings ℝ)) (valid : (settings.check : Except (Error ℝ) Unit) = .ok ())
    (explicit : settings.implicit = false) (unlimited : settings.timeLimit = none)
    (undisturbed : environment.Undisturbed) (undisturbedWider : surroundings.Undisturbed) :
    let source := store.toRatings
    let wider := (store.addItems ids).toRatings
    let outcome := (run environment ⟨settings, source, test⟩ false).outcome
    let outcomeWider := (run surroundings ⟨settings, wider, test⟩ false).outcome
    ((∃ model, outcomeWider = .ok model) ↔
      (∃ model, outcome = .ok model) ∧ Memory.HoldsMatrix wider.itemIds.length settings.rank ∧
        (wider.itemIds ≠ [] → Memory.Holds (settings.rank * settings.rank))) ∧
    ∀ model modelWider, outcome = .ok model → outcomeWider = .ok modelWider →
      modelWider.users = model.users ∧ modelWider.userNumbering = model.userNumbering ∧
      (∀ id ∈ source.itemIds, ∃ row, model.itemRow id = .ok row ∧
        modelWider.itemRow id = .ok row) ∧
      ∀ id ∈ ids, id ∉ source.itemIds →
        modelWider.itemRow id = .ok (Row.zeros settings.rank) ∧
        ∀ user ∈ source.userIds, modelWider.predict user id = .ok 0 := by
  intro source wider outcome outcomeWider
  have feedback : settings.feedback = .explicit := if_neg (by simp [explicit])
  obtain ⟨-, ⟨-, positive⟩, trained, -⟩ := Settings.check_eq_ok_iff.mp valid
  obtain ⟨added, grown, all⟩ := Store.extends_add_items built ids
  have agrees := (Store.agrees_of_built built).1
  have agreesWider := (Store.agrees_of_built (.addItems store ids built)).1
  have same : (⟨settings, wider, test⟩ : Training ℝ).settings =
      (⟨settings, source, test⟩ : Training ℝ).settings := rfl
  constructor
  · have plain : (∃ model, outcome = .ok model) ↔
        (⟨settings, source, test⟩ : Training ℝ).Readable ∧
          (⟨settings, source, test⟩ : Training ℝ).Affords :=
      run_ok_iff_affords agrees undisturbed unlimited feedback valid
    have extended : (∃ model, outcomeWider = .ok model) ↔
        (⟨settings, wider, test⟩ : Training ℝ).Readable ∧
          (⟨settings, wider, test⟩ : Training ℝ).Affords :=
      run_ok_iff_affords agreesWider undisturbedWider unlimited feedback valid
    rw [plain, extended, affords_iff_of_extends same grown]
    exact and_assoc.symm
  · intro model modelWider done doneWider
    obtain ⟨prepared, resolved, whole⟩ := alternation_of_ok (lawful_of_undisturbed undisturbed) done
    obtain ⟨extended, resolvedWider, wholeWider⟩ :=
      alternation_of_ok (lawful_of_undisturbed undisturbedWider) doneWider
    have enlarged := enlarged_of_alternation same grown feedback positive trained resolved
      resolvedWider whole wholeWider
    have describes := describes_of_alternation trained (coherent_of_prepare resolved) whole
    have describesWider :=
      describes_of_alternation trained (coherent_of_prepare resolvedWider) wholeWider
    refine ⟨enlarged.features.users, enlarged.userNumbering, fun id known => ?_,
      fun id listed unknown => ?_⟩
    · exact item_row_of_known describes enlarged known
    · have member := all id listed
      rw [grown.itemIds] at member
      have fresh : id ∈ added := (List.mem_append.mp member).resolve_left unknown
      have zero := item_row_of_added describes enlarged fresh
      exact ⟨zero, fun user known =>
        predict_of_added describesWider (grown.userIds.symm ▸ known) zero⟩

theorem run_add_items_one_rating :
    let store : Store ℝ := .ofList [⟨1, 2, 3⟩]
    let settings : Settings ℝ := .create 1 1 1 1
    store.Built ∧ (settings.check : Except (Error ℝ) Unit) = .ok () ∧
      settings.implicit = false ∧ settings.timeLimit = none ∧
      (Environment.plain : Environment ℝ).Undisturbed ∧
      ∃ model modelWider,
        (run .plain ⟨settings, store.toRatings, none⟩ false).outcome = .ok model ∧
        (run .plain ⟨settings, (store.addItems [7]).toRatings, none⟩ false).outcome =
          .ok modelWider ∧
        modelWider.users = model.users ∧ modelWider.predict 1 7 = .ok 0 := by
  intro store settings
  have built : store.Built := .ofList _
  have undisturbed := undisturbed_plain (α := ℝ)
  have items : store.toRatings.itemIds = [2] := Store.ids_of_list_singleton _ .item
  have users : store.toRatings.userIds = [1] := Store.ids_of_list_singleton _ .user
  have itemsWider : (store.addItems [7]).toRatings.itemIds = [2, 7] := by
    simp [Store.toRatings, store, Store.addItems, Store.ofList, Latest.add, Latest.ratings,
      Latest.empty, Store.insert, Table.append, Table.register, Table.empty, Store.empty]
  obtain ⟨both, rows⟩ := run_add_items built [7] settings none check_ones rfl rfl undisturbed
    undisturbed
  obtain ⟨model, done⟩ := ok_one_rating
  obtain ⟨modelWider, doneWider⟩ := both.mpr ⟨⟨model, done⟩, by rw [itemsWider]; decide,
    fun _ => by decide⟩
  obtain ⟨same, -, -, zero⟩ := rows model modelWider done doneWider
  refine ⟨built, check_ones, rfl, rfl, undisturbed, model, modelWider, done, doneWider, same, ?_⟩
  refine (zero 7 (List.mem_singleton_self 7) ?_).2 1 ?_
  · rw [items]
    decide
  · rw [users]
    exact List.mem_singleton_self 1

-- A row for the item added would take more memory than there is, although the matrix that has no
-- rows is as wide.
theorem not_run_add_items_wide :
    let settings : Settings ℝ := .create 1 (2 ^ 60) 1 1
    let store : Store ℝ := .ofList []
    store.Built ∧ (settings.check : Except (Error ℝ) Unit) = .ok () ∧
      settings.implicit = false ∧ settings.timeLimit = none ∧
      (∃ model, (run .plain ⟨settings, store.toRatings, none⟩ false).outcome = .ok model) ∧
      ¬∃ model,
        (run .plain ⟨settings, (store.addItems [7]).toRatings, none⟩ false).outcome =
          .ok model := by
  intro settings store
  have built : store.Built := .ofList []
  have valid : (settings.check : Except (Error ℝ) Unit) = .ok () :=
    Settings.check_of_ranked (by decide)
  have agrees := (Store.agrees_of_built built).1
  have agreesWider := (Store.agrees_of_built (.addItems store [7] built)).1
  refine ⟨built, valid, rfl, rfl, ?_, ?_⟩
  · refine (run_ok_iff_affords agrees undisturbed_plain rfl rfl valid).mpr ⟨nofun, ?_⟩
    refine affords_of_rowless (fun side => ?_) (by decide) (by decide)
    cases side with
    | user | item => rfl
  · intro done
    obtain ⟨-, affords⟩ :=
      (run_ok_iff_affords agreesWider undisturbed_plain rfl rfl valid).mp done
    have items : (store.addItems [7]).toRatings.ids .item = [7] := by
      simp [Ratings.ids, Store.toRatings, Store.addItems, store, Store.ofList, Latest.ratings,
        Latest.empty, Store.empty, Table.register, Table.empty]
    have matrix := affords.matrices .item
    rw [items] at matrix
    exact absurd matrix (by decide)

end Training
end LatentFactor
