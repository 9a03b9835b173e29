import LatentFactor.Proofs.Real.Objective
import LatentFactor.Proofs.Training.Alternation

set_option autoImplicit false

namespace LatentFactor.Training

variable {ratings : List (Rating ℝ)} {training : Training ℝ} {prepared : Prepared ℝ}
  {features : Features ℝ}

def featureRow (prepared : Prepared ℝ) (features : Features ℝ) (side : Side) (id : EntityId) :
    Row ℝ :=
  match (prepared.numbering side).get? id with
  | some r => (features.bySide side).rowAt r
  | none => []

noncomputable def objective (settings : Settings ℝ) (store : Store ℝ) (prepared : Prepared ℝ)
    (features : Features ℝ) : ℝ :=
  Objective.ofFeedback settings.lambda store.ratings store.toRatings.ids
    (featureRow prepared features) settings.feedback

theorem feature_row_eq {side : Side} {id : EntityId} {r : Nat}
    (position : (prepared.numbering side).get? id = some r) :
    featureRow prepared features side id = (features.bySide side).rowAt r := by
  rw [featureRow, position]

theorem feature_rows_eq {rank : Nat} (coherent : training.Coherent prepared)
    (shaped : Shaped prepared rank features) (side : Side) :
    (training.ratings.ids side).map (featureRow prepared features side) =
      (features.bySide side).rows.toList := by
  rw [← coherent.ids side]
  have size := shaped.size side
  refine List.ext_getElem ?_ fun r first second => ?_
  · simp only [List.length_map, Array.length_toList]
    exact size.symm
  · have inside : r < (prepared.numbering side).ids.size := by simpa using first
    have within : r < (features.bySide side).rows.size := by simpa using second
    have position : (prepared.numbering side).get? (prepared.numbering side).ids[r] = some r :=
      ((prepared.numbering side).get_eq_some_iff _ r).mpr (Array.getElem?_eq_getElem inside)
    rw [List.getElem_map, Array.getElem_toList, Array.getElem_toList, feature_row_eq position,
      RowMatrix.rowAt, Array.getElem?_eq_getElem within, Option.getD_some]

theorem rated_eq {side : Side} {update : RowUpdate ℝ} {entries : Entries ℝ}
    {observations : Observations ℝ} {rated : List (Row ℝ × ℝ)}
    (fixed : update.fixed = features.bySide side)
    (lists : Resolved.Lists (prepared.numbering side) entries observations)
    (looked : update.ratedRows observations = .ok rated) :
    rated = entries.map fun entry => (featureRow prepared features side entry.1, entry.2) := by
  rw [RowUpdate.rated_rows_eq_ok_iff] at looked
  unfold Resolved.Lists at lists
  induction lists generalizing rated with
  | nil =>
      cases looked
      rfl
  | cons own _ ih =>
      cases looked with
      | cons found rest =>
          rw [List.map_cons, ← ih rest, feature_row_eq own.1, RowMatrix.rowAt, ← fixed, found.1,
            own.2, found.2]
          rfl

theorem share_eq_loss {rank : Nat} {side : Side} {update : RowUpdate ℝ} {id : EntityId} {r : Nat}
    {observations : Observations ℝ} {rated : List (Row ℝ × ℝ)}
    (agrees : training.ratings.Agrees ratings) (coherent : training.Coherent prepared)
    (shaped : Shaped prepared rank features) (fixed : update.fixed = features.bySide side.other)
    (position : (prepared.numbering side).ids[r]? = some id)
    (found : (prepared.ratings.bySide side)[r]? = some observations)
    (looked : update.ratedRows observations = .ok rated) (x : Row ℝ) :
    Objective.share update.lambda ratings training.ratings.ids (featureRow prepared features)
      update.feedback side id x = update.loss rated x := by
  obtain ⟨entries, same, lists⟩ := Ratings.listed_of_coherent agrees coherent position found
  have rated_entries := rated_eq fixed lists looked
  have count : rated.length = (ratingsOf side ratings id).length := by
    rw [rated_entries, List.length_map, same.length_eq, List.length_map]
  have misfits : (rated.map fun entry =>
      update.feedback.misfit entry.2 (Row.dot entry.1 x)).sum =
      ((ratingsOf side ratings id).map fun rating => update.feedback.misfit rating.value
        (Row.dot (featureRow prepared features side.other (rating.id side.other)) x)).sum := by
    rw [rated_entries, List.map_map, (same.map _).sum_eq, List.map_map]
    rfl
  rw [Objective.share, RowUpdate.loss, misfits, count, feature_rows_eq coherent shaped, fixed]

section

variable {environment : Environment ℝ} {phase : Phase} {before after : State ℝ} {rank : Nat}

theorem feature_row_replace_other (matrix : RowMatrix ℝ) (side : Side) :
    featureRow prepared (features.replace side matrix) side.other =
      featureRow prepared features side.other := by
  funext id
  simp only [featureRow, Features.by_side_replace_other]

theorem share_of_phase (agrees : training.ratings.Agrees ratings)
    (coherent : training.Coherent prepared) (shaped : Shaped prepared rank before.features)
    (lawful : Phase.Lawful environment.runPhase)
    (done : solvePhase environment training.settings prepared phase before = .ok after) :
    ∃ matrix, after.features = before.features.replace phase.side matrix ∧
      ∀ id ∈ training.ratings.ids phase.side,
        let share := Objective.share training.settings.lambda ratings training.ratings.ids
          (featureRow prepared before.features) training.settings.feedback phase.side id
        let old := featureRow prepared before.features phase.side id
        let new := featureRow prepared after.features phase.side id
        share new ≤ share old ∧ (share new = share old → new = old) := by
  obtain ⟨task, elapsed, made, complete, rfl⟩ := solve_phase_eq_ok lawful done
  obtain ⟨update, created, -, -, solves⟩ := task_eq_ok made
  obtain ⟨feedback, fixed, lambda, -, shared⟩ := RowUpdate.create_eq_ok created
  refine ⟨(environment.outcome phase before task).target, rfl, fun id member => ?_⟩
  rw [← coherent.ids phase.side, List.mem_iff_getElem?] at member
  obtain ⟨r, position⟩ := member
  rw [Array.getElem?_toList] at position
  have numbered := ((prepared.numbering phase.side).get_eq_some_iff id r).mpr position
  have inside : r < (before.features.bySide phase.side).size := by
    rw [shaped.size]
    exact (prepared.numbering phase.side).lt_size_of_get numbered
  obtain ⟨row, ⟨answer, -⟩, written⟩ := complete.rows r inside
  rw [solves r, solve_row_eq_ok_iff] at answer
  obtain ⟨observations, found, solved⟩ := answer
  obtain ⟨rated, looked, -, least⟩ := RowUpdate.least_of_solve shared solved
  have old : featureRow prepared before.features phase.side id =
      (before.features.bySide phase.side).rowAt r := feature_row_eq numbered
  have new : featureRow prepared (before.features.replace phase.side
      (environment.outcome phase before task).target) phase.side id = row := by
    rw [feature_row_eq numbered, Features.by_side_replace, RowMatrix.rowAt, written,
      Option.getD_some]
  have width : ((before.features.bySide phase.side).rowAt r).length = update.fixed.cols := by
    rw [fixed, shaped.cols phase.side.other, ← shaped.cols phase.side, RowMatrix.rowAt,
      Array.getElem?_eq_getElem inside]
    exact RowMatrix.length_of_row (Array.getElem?_eq_getElem inside)
  have loss := share_eq_loss agrees coherent shaped fixed position found looked
  rw [feedback, lambda] at loss
  simp only [State.emit, State.absorb, new, old, loss]
  obtain ⟨below, tight⟩ := least _ width
  exact ⟨below, fun equal => (tight equal.symm).symm⟩

theorem descends_of_phase (agrees : training.ratings.Agrees ratings)
    (pairs : (ratings.map Rating.pair).Nodup) (coherent : training.Coherent prepared)
    (shaped : Shaped prepared rank before.features) (lawful : Phase.Lawful environment.runPhase)
    (done : solvePhase environment training.settings prepared phase before = .ok after) :
    let objective := fun features => Objective.ofFeedback training.settings.lambda ratings
      training.ratings.ids (featureRow prepared features) training.settings.feedback
    objective after.features ≤ objective before.features ∧
      (objective after.features = objective before.features →
        after.features = before.features) := by
  have shaped_after := shaped_of_phase lawful shaped done
  obtain ⟨matrix, replaced, least⟩ := share_of_phase agrees coherent shaped lawful done
  have others : featureRow prepared after.features phase.side.other =
      featureRow prepared before.features phase.side.other := by
    rw [replaced]
    exact feature_row_replace_other matrix phase.side
  obtain ⟨less, tight⟩ := Objective.objective_le agrees.distinct agrees.known pairs others least
  refine ⟨less, fun equal => ?_⟩
  have rows : (after.features.bySide phase.side).rows.toList =
      (before.features.bySide phase.side).rows.toList := by
    rw [← feature_rows_eq coherent shaped_after, ← feature_rows_eq coherent shaped]
    exact List.map_congr_left (tight equal)
  have cols : (after.features.bySide phase.side).cols =
      (before.features.bySide phase.side).cols := by
    rw [shaped_after.cols, shaped.cols]
  have same := RowMatrix.ext cols (Array.toList_inj.mp rows)
  rw [replaced, Features.by_side_replace] at same
  rw [replaced, same, Features.replace_by_side]

theorem exists_half_of_definite {settings : Settings ℝ} {side : Side} {fixed : RowMatrix ℝ}
    {update : RowUpdate ℝ} (created : RowUpdate.create settings.feedback fixed settings.lambda
      settings.passes = .ok update)
    (coherent : training.Coherent prepared)
    (size : fixed.size = (prepared.numbering side.other).size)
    (holds : ∀ observations ∈ (prepared.ratings.bySide side).toList,
      fixed.HoldsSystem observations.length)
    (definite : ∀ observations ∈ (prepared.ratings.bySide side).toList, ∀ rated,
      update.ratedRows observations = .ok rated →
        Block.Definite update.fixed.cols (update.system rated).1) :
    ∃ matrix, half settings prepared side fixed = .ok matrix := by
  obtain ⟨-, same, -, -, shared⟩ := RowUpdate.create_eq_ok created
  refine exists_half created fun observations member => ?_
  have inside := inside_of_coherent coherent member
  rw [← size, ← same] at inside
  obtain ⟨rated, looked⟩ := RowUpdate.exists_rated inside
  exact RowUpdate.exists_solve shared looked (same.symm ▸ holds observations member)
    (definite observations member rated looked)

-- With explicit feedback the regularisation alone makes every system definite.
theorem exists_half_of_explicit {settings : Settings ℝ} (side : Side) {fixed : RowMatrix ℝ}
    (explicit : settings.feedback = .explicit) (positive : 0 < settings.lambda)
    (coherent : training.Coherent prepared)
    (size : fixed.size = (prepared.numbering side.other).size)
    (holds : ∀ observations ∈ (prepared.ratings.bySide side).toList,
      fixed.HoldsSystem observations.length) :
    ∃ matrix, half settings prepared side fixed = .ok matrix := by
  obtain ⟨update, created⟩ : ∃ update, RowUpdate.create settings.feedback fixed settings.lambda
      settings.passes = .ok update := by
    rw [explicit]
    exact ⟨_, rfl⟩
  obtain ⟨feedback, -, lambda, -, shared⟩ := RowUpdate.create_eq_ok created
  refine exists_half_of_definite created coherent size holds fun _ _ rated looked => ?_
  exact RowUpdate.definite_of_explicit shared (RowUpdate.length_of_rated looked)
    (feedback.trans explicit) (lambda ▸ positive)

theorem exists_phase (undisturbed : environment.Undisturbed)
    (unlimited : training.settings.timeLimit = none)
    (explicit : training.settings.feedback = .explicit) (positive : 0 < training.settings.lambda)
    (clear : before.cancelled = false)
    (holds : ∀ observations ∈ (prepared.ratings.bySide phase.side).toList,
      (before.features.bySide phase.side.other).HoldsSystem observations.length)
    (coherent : training.Coherent prepared) (shaped : Shaped prepared rank before.features) :
    ∃ after, solvePhase environment training.settings prepared phase before = .ok after := by
  obtain ⟨matrix, solved⟩ := exists_half_of_explicit phase.side explicit positive coherent
    (shaped.size phase.side.other) holds
  cases ended : solvePhase environment training.settings prepared phase before with
  | ok after => exact ⟨after, rfl⟩
  | error stopped =>
      obtain ⟨others, failed, -⟩ :=
        half_of_phase_error undisturbed unlimited clear coherent shaped ended
      rw [solved] at failed
      cases failed

theorem phase_descends {store : Store ℝ} (built : store.Built) (settings : Settings ℝ)
    (test : Option (Ratings ℝ)) (cancelled : Bool) (lawful : Phase.Lawful environment.runPhase)
    (passes : Passes environment ⟨settings, store.toRatings, test⟩ cancelled prepared
      (.solving phase) before)
    (done : solvePhase environment settings prepared phase before = .ok after) :
    objective settings store prepared after.features ≤
        objective settings store prepared before.features ∧
      (objective settings store prepared after.features =
          objective settings store prepared before.features →
        after.features = before.features) := by
  obtain ⟨agrees, pairs⟩ := Store.agrees_of_built built
  obtain ⟨coherent, shaped⟩ := shaped_of_passes lawful passes
  exact descends_of_phase agrees pairs coherent shaped lawful done

theorem phase_descends_one_rating :
    let store : Store ℝ := .ofList [⟨1, 2, -3⟩]
    let settings : Settings ℝ := .create 1 1 1 1
    store.Built ∧ Phase.Lawful (Environment.plain : Environment ℝ).runPhase ∧
      ∃ prepared before after,
        Passes .plain ⟨settings, store.toRatings, none⟩ false prepared (.solving ⟨0, .user⟩)
          before ∧
        solvePhase .plain settings prepared ⟨0, .user⟩ before = .ok after ∧
        objective settings store prepared after.features ≤
          objective settings store prepared before.features := by
  intro store settings
  have built : store.Built := .ofList _
  have undisturbed := undisturbed_plain (α := ℝ)
  have lawful := lawful_of_undisturbed undisturbed
  obtain ⟨prepared, resolved⟩ : ∃ prepared,
      (⟨settings, store.toRatings, none⟩ : Training ℝ).prepare = .ok prepared :=
    Ratings.exists_prepare (Store.agrees_of_built built).1 Nat.one_ne_zero
  have coherent := coherent_of_prepare resolved
  have sizes : ∀ side, (prepared.numbering side).size = 1 := by
    intro side
    rw [size_numbering coherent]
    exact congrArg List.length (Store.ids_of_list_singleton _ side)
  have fits : Fits (⟨settings, store.toRatings, none⟩ : Training ℝ) prepared := by
    have users := sizes .user
    have items := sizes .item
    simp only [Prepared.numbering] at users items
    refine ⟨?_, ?_, ?_⟩
    · rw [users]
      decide
    · rw [items]
      decide
    · decide
  obtain ⟨before, started⟩ := exists_start .plain false coherent Nat.one_ne_zero fits
  have passes : Passes .plain _ false prepared (.solving ⟨0, .user⟩) before :=
    Passes.start before resolved started
  have shaped := (shaped_of_passes lawful passes).2
  have clear := clear_of_start undisturbed started
  have items : before.features.items.size = 1 := (shaped.size .item).trans (sizes .item)
  have cols : before.features.items.cols = 1 := shaped.cols .item
  have holds : ∀ observations ∈ (prepared.ratings.bySide .user).toList,
      before.features.items.HoldsSystem observations.length := by
    intro observations member
    obtain ⟨id, listed, entries, given, lists⟩ := entries_of_coherent coherent member
    have few := Ratings.length_of_agrees (Store.agrees_of_built built).1 listed given
    rw [Store.ratings_of_list_singleton, lists.length_eq] at few
    refine ⟨.inl (few.trans (Nat.le_of_eq items.symm)), ?_⟩
    rw [cols]
    decide
  obtain ⟨after, done⟩ : ∃ after,
      solvePhase .plain settings prepared ⟨0, .user⟩ before = .ok after :=
    exists_phase undisturbed rfl rfl zero_lt_one clear holds coherent shaped
  exact ⟨built, lawful, prepared, before, after, passes, done,
    (phase_descends built settings none false lawful passes done).1⟩

end

end LatentFactor.Training
