import LatentFactor.Proofs.Ratings.Transposed
import LatentFactor.Proofs.Real.Descent
import LatentFactor.Proofs.Real.Implicit
import LatentFactor.Proofs.Training.Room

set_option autoImplicit false

namespace LatentFactor

section

variable {counterparts : Numbering} {entries : Entries ℝ} {observations : Observations ℝ}
  {alpha : ℝ}

theorem confidence_at_of_lists (lists : Resolved.Lists counterparts entries observations)
    {id : EntityId} {r : Nat} (position : counterparts.get? id = some r) :
    confidenceAt alpha observations r = confidenceAt alpha entries id := by
  have terms : ((observations.filter fun observation => observation.1 = r).map fun observation =>
      alpha * observation.2) =
      (entries.filter fun entry => entry.1 = id).map fun entry => alpha * entry.2 := by
    unfold Resolved.Lists at lists
    induction lists with
    | nil => rfl
    | @cons entry observation _ _ own _ ih =>
        obtain ⟨found, value⟩ := own
        by_cases here : entry.1 = id
        · have there : observation.1 = r := Option.some.inj (found.symm.trans (here ▸ position))
          rw [List.filter_cons_of_pos (by simpa using there),
            List.filter_cons_of_pos (by simpa using here), List.map_cons, List.map_cons, ih, value]
        · have apart : observation.1 ≠ r := by
            intro same
            have own := (counterparts.get_eq_some_iff _ _).mp found
            have other := (counterparts.get_eq_some_iff _ _).mp position
            rw [same, other] at own
            exact here (Option.some.inj own).symm
          rw [List.filter_cons_of_neg (by simpa using apart),
            List.filter_cons_of_neg (by simpa using here), ih]
  rw [confidenceAt, confidenceAt, terms]

theorem confident_of_lists (lists : Resolved.Lists counterparts entries observations)
    (confident : ∀ id, 0 ≤ confidenceAt alpha entries id) (r : Nat) :
    0 ≤ confidenceAt alpha observations r := by
  by_cases rated : ∃ observation ∈ observations, observation.1 = r
  · obtain ⟨⟨_, value⟩, member, rfl⟩ := rated
    obtain ⟨id, named, -⟩ := (Resolved.mem_of_lists lists _ value).mp member
    rw [confidence_at_of_lists lists ((counterparts.get_eq_some_iff _ _).mpr named)]
    exact confident id
  · have unrated : (observations.filter fun observation => observation.1 = r) = [] := by
      apply List.filter_eq_nil_iff.mpr
      intro observation member same
      exact rated ⟨observation, member, of_decide_eq_true same⟩
    rw [confidenceAt, unrated, List.map_nil, List.sum_nil, add_zero]
    exact zero_le_one

end

def RowMatrix.single (v : ℝ) : RowMatrix ℝ := ⟨1, #[[v]], by simp⟩

namespace Training

-- With implicit feedback all ratings of a pair together take no more than its confidence of one.
def Confident (training : Training ℝ) : Prop :=
  ∀ alpha, training.settings.feedback = .implicit alpha → ∀ side, ∀ id ∈ training.ratings.ids side,
    ∀ entries, training.ratings.entries side id = .ok entries →
      ∀ other, 0 ≤ confidenceAt alpha entries other

theorem confident_of_explicit {training : Training ℝ}
    (explicit : training.settings.feedback = .explicit) : training.Confident := by
  intro alpha implicit
  rw [explicit] at implicit
  cases implicit

theorem confident_of_built {store : Store ℝ} (built : store.Built) {settings : Settings ℝ}
    (test : Option (Ratings ℝ))
    (each : ∀ rating ∈ store.ratings, 0 ≤ 1 + settings.alpha * rating.value) :
    Confident ⟨settings, store.toRatings, test⟩ := by
  intro alpha implicit side id member entries given
  obtain ⟨-, rfl⟩ := Settings.feedback_eq_implicit_iff.mp implicit
  obtain ⟨ratings, filled⟩ := Store.filled_of_built built
  have once := (Store.consistent_of_filled filled).once side id entries
    (Store.entries_eq_ok_iff.mp given)
  refine confidence_at_nonneg once fun entry listed => ?_
  obtain ⟨others, same, perm⟩ := (Store.agrees_of_built built).1.entries side id member
  cases given.symm.trans same
  obtain ⟨rating, own, rfl⟩ := List.mem_map.mp (perm.mem_iff.mp listed)
  exact each rating (List.mem_filter.mp own).1

section

variable {training : Training ℝ} {prepared : Prepared ℝ} {side : Side} {fixed : RowMatrix ℝ}
  {update : RowUpdate ℝ}

theorem definite_of_confident (positive : 0 < training.settings.lambda)
    (confident : training.Confident) (coherent : training.Coherent prepared)
    (size : fixed.size = (prepared.numbering side.other).size)
    (created : RowUpdate.create training.settings.feedback fixed training.settings.lambda
      training.settings.passes = .ok update)
    {observations : Observations ℝ}
    (member : observations ∈ (prepared.ratings.bySide side).toList) {rated : List (Row ℝ × ℝ)}
    (looked : update.ratedRows observations = .ok rated) :
    Block.Definite update.fixed.cols (update.system rated).1 := by
  obtain ⟨feedback, rfl, lambda, -, shared⟩ := RowUpdate.create_eq_ok created
  rw [← lambda] at positive
  cases kind : training.settings.feedback with
  | explicit =>
      exact RowUpdate.definite_of_explicit shared (RowUpdate.length_of_rated looked)
        (feedback.trans kind) positive
  | implicit alpha =>
      have inside := inside_of_coherent coherent member
      rw [← size] at inside
      obtain ⟨id, listed, entries, given, lists⟩ := entries_of_coherent coherent member
      exact RowUpdate.definite_of_implicit shared (feedback.trans kind) positive inside looked
        (confident_of_lists lists (confident alpha kind side id listed entries given))

end

section

variable {training : Training ℝ} {environment : Environment ℝ} {cancelled : Bool}
  {prepared : Prepared ℝ}

theorem regular_of_passes {phase : Phase} {state : State ℝ} {update : RowUpdate ℝ}
    (positive : 0 < training.settings.lambda) (confident : training.Confident)
    (lawful : Phase.Lawful environment.runPhase)
    (passes : Passes environment training cancelled prepared (.solving phase) state)
    (created : RowUpdate.create training.settings.feedback
      (state.features.bySide phase.side.other) training.settings.lambda
        training.settings.passes = .ok update)
    {observations : Observations ℝ}
    (member : observations ∈ (prepared.ratings.bySide phase.side).toList) :
    ∃ rated, update.ratedRows observations = .ok rated ∧
      (Block.matrix update.fixed.cols (update.system rated).1).PosDef ∧
      ∀ error, update.solve observations ≠ .error (.error error) := by
  obtain ⟨coherent, shaped⟩ := shaped_of_passes lawful passes
  obtain ⟨-, fixed, -, -, shared⟩ := RowUpdate.create_eq_ok created
  have size := shaped.size phase.side.other
  have inside := inside_of_coherent coherent member
  rw [← size, ← fixed] at inside
  obtain ⟨rated, looked⟩ := RowUpdate.exists_rated inside
  have widths := RowUpdate.length_of_rated looked
  have definite := definite_of_confident positive confident coherent size created member looked
  refine ⟨rated, looked, ?_, RowUpdate.no_error_of_definite shared looked definite⟩
  rwa [← Block.definite_iff_pos_def (RowUpdate.square_system shared widths).1
    (RowUpdate.symmetric_system shared widths)]

theorem not_singular_of_passes {phase : Phase} {state : State ℝ} {stopped : Stopped ℝ}
    {cause : Singularity} (positive : 0 < training.settings.lambda) (confident : training.Confident)
    (lawful : Phase.Lawful environment.runPhase)
    (passes : Passes environment training cancelled prepared (.solving phase) state)
    (failed : solvePhase environment training.settings prepared phase state = .error stopped) :
    stopped.failure ≠ .error (.singular cause) := by
  intro singular
  rcases solve_phase_eq_error failed with ⟨_, -, rfl⟩ | ⟨task, made, ended, -⟩
  · cases singular
  · rw [singular] at ended
    obtain ⟨clock, actions, possible⟩ :=
      lawful task (state.features.bySide phase.side) state.cancelled
    obtain ⟨update, created, -, -, solves⟩ := task_eq_ok made
    rcases Phase.met_of_error possible ended with overrun | met
    · cases overrun.1
    · cases met with
      | unsolved r _ _ answer =>
          rw [solves r, solveRow] at answer
          cases found : (prepared.ratings.bySide phase.side)[r]? with
          | none => simp [found] at answer
          | some observations =>
              simp only [found] at answer
              obtain ⟨-, -, -, regular⟩ := regular_of_passes positive confident lawful passes
                created (Array.mem_toList_iff.mpr (Array.mem_of_getElem? found))
              exact regular _ answer

theorem not_singular_of_run {cause : Singularity} (positive : 0 < training.settings.lambda)
    (confident : training.Confident) (lawful : Phase.Lawful environment.runPhase)
    (resolved : training.prepare = .ok prepared) :
    (run environment training cancelled).outcome ≠ .error (.error (.singular cause)) := by
  intro singular
  rcases run_cases environment training cancelled with ⟨error, failed, -⟩ | ⟨other, same, rest⟩
  · rw [resolved] at failed
    cases failed
  · rcases rest with ⟨fault, -, ran⟩ | ⟨stage, stopped, stops, ran⟩ | ⟨last, passes, ran⟩
    · rw [ran] at singular
      cases singular
    · obtain ⟨phase, before, -, passes, failed⟩ := stops_at_phase lawful stops
      rw [ran] at singular
      exact not_singular_of_passes positive confident lawful passes failed
        (Except.error.inj singular)
    · have shown : Shaped other training.settings.rank
          (last.emit environment (.finished environment.elapsed)).features :=
        (shaped_of_passes lawful passes).2
      rw [ran, result_eq_ok shown] at singular
      cases singular

theorem ok_of_accommodates (undisturbed : environment.Undisturbed)
    (unlimited : training.settings.timeLimit = none) (ranked : training.settings.rank ≠ 0)
    (positive : 0 < training.settings.lambda) (confident : training.Confident)
    (resolved : training.prepare = .ok prepared) (accommodates : training.Accommodates) :
    ∃ model, (run environment training false).outcome = .ok model := by
  have coherent := coherent_of_prepare resolved
  refine ok_of_halves undisturbed unlimited ranked resolved
    (fits_of_affords coherent accommodates.affords) fun side fixed size cols => ?_
  obtain ⟨update, created⟩ := exists_create_of_accommodates accommodates cols
  exact exists_half_of_definite created coherent size
    (fun observations member => holds_of_affords coherent accommodates.affords cols member)
    fun observations member rated looked =>
      definite_of_confident positive confident coherent size created member looked

theorem run_ok_iff_accommodates
    (valid : (training.settings.check : Except (Error ℝ) Unit) = .ok ())
    (resolves : training.ratings.Resolves) (confident : training.Confident)
    (unlimited : training.settings.timeLimit = none) (undisturbed : environment.Undisturbed) :
    (∃ model, (run environment training false).outcome = .ok model) ↔
      training.Readable ∧ training.Accommodates := by
  obtain ⟨ranked, ⟨-, positive⟩, trained, staffed, -⟩ := Settings.check_eq_ok_iff.mp valid
  constructor
  · rintro ⟨model, done⟩
    obtain ⟨prepared, resolved, whole⟩ :=
      alternation_of_ok (lawful_of_undisturbed undisturbed) done
    obtain ⟨-, -, -, created, -⟩ := prepare_eq_ok_iff.mp resolved
    exact ⟨exists_held_out_iff.mp ⟨_, created⟩,
      accommodates_of_alternation trained (coherent_of_prepare resolved) whole⟩
  · rintro ⟨readable, accommodates⟩
    obtain ⟨prepared, resolved⟩ := Ratings.exists_prepare_of_resolves resolves readable staffed
    exact ok_of_accommodates undisturbed unlimited ranked positive confident resolved accommodates

end

theorem check_implicit_ones :
    (((.create 1 1 1 1 : Settings ℝ).withImplicit 1).check : Except (Error ℝ) Unit) = .ok () :=
  Settings.check_eq_ok_iff.mpr ⟨Nat.one_ne_zero, ⟨rfl, zero_lt_one⟩, Nat.one_ne_zero,
    Nat.one_ne_zero, fun _ => ⟨rfl, zero_le_one⟩⟩

theorem accommodates_singleton {settings : Settings ℝ} {rating : Rating ℝ}
    {test : Option (Ratings ℝ)} (rank : settings.rank = 1)
    (holds : Memory.Holds settings.iterations) :
    Accommodates ⟨settings, (Store.ofList [rating]).toRatings, test⟩ := by
  have square : Memory.Holds (settings.rank * settings.rank) := by
    rw [rank]
    decide
  have row : Memory.HoldsMatrix 1 settings.rank := by
    rw [rank]
    decide
  refine ⟨⟨fun side => ?_, holds, fun side id listed entries given => ?_, fun _ _ => square⟩,
    fun _ => square⟩
  · rw [Store.ids_of_list_singleton]
    exact row
  · have agrees := (Store.agrees_of_built (.ofList [rating])).1
    have few := Ratings.length_of_agrees agrees listed given
    rw [Store.ratings_of_list_singleton] at few
    exact Memory.holds_matrix_of_le few row

/-- The regularisation keeps the systems of all rows definite if no confidence is negative, so no
row of such a run is singular, and an undisturbed run only needs memory. -/
theorem regular_of_confident {training : Training ℝ}
    (valid : (training.settings.check : Except (Error ℝ) Unit) = .ok ())
    (resolves : training.ratings.Resolves) (confident : training.Confident) :
    (∀ environment cancelled prepared phase state update,
      Phase.Lawful environment.runPhase →
      Passes environment training cancelled prepared (.solving phase) state →
      RowUpdate.create training.settings.feedback (state.features.bySide phase.side.other)
        training.settings.lambda training.settings.passes = .ok update →
      ∀ observations ∈ (prepared.ratings.bySide phase.side).toList,
        ∃ rated, update.ratedRows observations = .ok rated ∧
          (Block.matrix update.fixed.cols (update.system rated).1).PosDef ∧
          ∀ error, update.solve observations ≠ .error (.error error)) ∧
    (training.Readable → ∀ environment cancelled cause, Phase.Lawful environment.runPhase →
      (run environment training cancelled).outcome ≠ .error (.error (.singular cause))) ∧
    (training.settings.timeLimit = none → ∀ environment, environment.Undisturbed →
      ((∃ model, (run environment training false).outcome = .ok model) ↔
        training.Readable ∧ training.Accommodates)) := by
  obtain ⟨-, ⟨-, positive⟩, -, staffed, -⟩ := Settings.check_eq_ok_iff.mp valid
  refine ⟨?_, ?_, ?_⟩
  · intro environment cancelled prepared phase state update lawful passes created observations
    exact regular_of_passes positive confident lawful passes created
  · intro readable environment cancelled cause lawful
    obtain ⟨prepared, resolved⟩ := Ratings.exists_prepare_of_resolves resolves readable staffed
    exact not_singular_of_run positive confident lawful resolved
  · intro unlimited environment undisturbed
    exact run_ok_iff_accommodates valid resolves confident unlimited undisturbed

theorem regular_of_confident_minus_one :
    let settings : Settings ℝ := (.create 1 1 1 1 : Settings ℝ).withImplicit 1
    let training : Training ℝ := ⟨settings, (Store.ofList [⟨1, 2, -1⟩]).toRatings, none⟩
    (settings.check : Except (Error ℝ) Unit) = .ok () ∧ training.ratings.Resolves ∧
      training.Confident ∧ ∃ model, (run .plain training false).outcome = .ok model := by
  intro settings training
  have built : (Store.ofList [(⟨1, 2, -1⟩ : Rating ℝ)]).Built := .ofList _
  have resolves := Ratings.resolves_of_agrees (Store.agrees_of_built built).1
  have confident : training.Confident := by
    refine confident_of_built built none fun rating member => ?_
    rw [Store.ratings_of_list_singleton, List.mem_singleton] at member
    subst member
    norm_num [settings, Settings.withImplicit]
  have accommodates : training.Accommodates := accommodates_singleton rfl (by decide)
  obtain ⟨-, -, completes⟩ := regular_of_confident check_implicit_ones resolves confident
  exact ⟨check_implicit_ones, resolves, confident,
    (completes rfl .plain undisturbed_plain).mpr ⟨nofun, accommodates⟩⟩

section

variable {settings : Settings ℝ} {rating : Rating ℝ}

theorem by_side_of_singleton {test : Option (Ratings ℝ)} {prepared : Prepared ℝ}
    (coherent : Coherent ⟨settings, (Store.ofList [rating]).toRatings, test⟩ prepared)
    (side : Side) : (prepared.ratings.bySide side).toList = [[(0, rating.value)]] := by
  have rows := coherent.rows side
  rw [coherent.ids side, Store.ids_of_list_singleton] at rows
  have one : (prepared.numbering side.other).size = 1 := by
    rw [size_numbering coherent, Store.ids_of_list_singleton, List.length_singleton]
  generalize (prepared.ratings.bySide side).toList = byRow at rows ⊢
  cases rows with
  | cons own rest =>
      cases rest
      obtain ⟨entries, given, lists⟩ := own
      cases given.symm.trans (Store.entries_of_list_singleton rating side)
      cases lists with
      | @cons _ observation _ _ own rest =>
          cases rest
          obtain ⟨row, value⟩ := observation
          have inside : row < 1 := one ▸ (prepared.numbering side.other).lt_size_of_get own.1
          have same : rating.value = value := own.2
          rw [Nat.lt_one_iff.mp inside, same]

theorem items_of_singleton {test : Option (Ratings ℝ)} {prepared : Prepared ℝ} {users : Nat}
    {seed : UInt64} {features : Features ℝ}
    (coherent : Coherent ⟨settings, (Store.ofList [rating]).toRatings, test⟩ prepared)
    (made : Features.initial users prepared.ratings.byItem.toList 1 seed = .ok features) :
    features.items = .single rating.value := by
  obtain ⟨-, cols, rows⟩ := Features.rows_of_initial made
  have byItem : prepared.ratings.byItem.toList = [[(0, rating.value)]] :=
    by_side_of_singleton coherent .item
  have mean : Features.mean [((0 : Nat), rating.value)] = rating.value := by
    change (-0 + rating.value) / ((1 : Nat) : ℝ) = rating.value
    rw [neg_zero, zero_add, Nat.cast_one, div_one]
  rw [byItem, Features.itemRows, mean] at rows
  exact RowMatrix.ext cols (Array.toList_inj.mp rows)

theorem solve_of_low {v alpha lambda : ℝ} {passes : Nat} {update : RowUpdate ℝ}
    (created : RowUpdate.create (.implicit alpha) (.single v) lambda passes = .ok update)
    (low : (1 + alpha * v) * (v * v) + lambda ≤ 0) :
    update.solve [(0, v)] = .error (.error (.singular (.notPositiveDefinite 1 1))) := by
  have inside : ∀ observation ∈ [((0 : Nat), v)], observation.1 < (RowMatrix.single v).size := by
    intro observation member
    rw [List.mem_singleton.mp member]
    exact Nat.one_pos
  rcases RowUpdate.solve_implicit_cases created inside (List.nodup_singleton 0) with
    ⟨definite, -⟩ | ⟨-, singular⟩
  · have unit : ([1] : Row ℝ).length = (RowMatrix.single v).cols := rfl
    have nonzero : Row.vector (RowMatrix.single v).cols [1] ≠ 0 := by
      rw [Ne, Row.vector_eq_zero_iff unit]
      exact fun same => one_ne_zero (List.cons.inj same).1
    have one : ∀ f : Fin (RowMatrix.single v).size → ℝ, ∑ r, f r = f ⟨0, Nat.one_pos⟩ :=
      fun f => Fin.sum_univ_one f
    have rated : List.lookup 0 [((0 : Nat), v)] = some v := rfl
    have row : (RowMatrix.single v).rowAt 0 = [v] := rfl
    have form := definite.dotProduct_mulVec_pos nonzero
    rw [star_trivial, RowUpdate.form_dense unit, one, rated, row] at form
    norm_num [Row.dot, confidence] at form
    exact absurd form (not_lt.mpr low)
  · exact singular

-- One negative rating is enough: its user cannot be solved against the mean that its item has.
theorem singular_of_low {environment : Environment ℝ} {alpha : ℝ}
    (valid : (settings.check : Except (Error ℝ) Unit) = .ok ())
    (implicit : settings.feedback = .implicit alpha) (rank : settings.rank = 1)
    (unlimited : settings.timeLimit = none) (holds : Memory.Holds settings.iterations)
    (undisturbed : environment.Undisturbed)
    (low : (1 + alpha * rating.value) * (rating.value * rating.value) + settings.lambda ≤ 0) :
    (run environment ⟨settings, (Store.ofList [rating]).toRatings, none⟩ false).outcome =
      .error (.error (.singular (.notPositiveDefinite 1 1))) := by
  obtain ⟨ranked, -, trained, staffed, -⟩ := Settings.check_eq_ok_iff.mp valid
  obtain ⟨prepared, resolved⟩ :=
    Ratings.exists_prepare (Store.agrees_of_built (.ofList [rating])).1 staffed
  have coherent := coherent_of_prepare resolved
  have accommodates : Accommodates ⟨settings, (Store.ofList [rating]).toRatings, none⟩ :=
    accommodates_singleton rank holds
  obtain ⟨first, started⟩ :=
    exists_start environment false coherent ranked (fits_of_affords coherent accommodates.affords)
  have shaped := shaped_of_start coherent started
  have clear := clear_of_start undisturbed started
  have items : first.features.items = .single rating.value := by
    obtain ⟨features, made, -, rfl⟩ := start_eq_ok started
    obtain ⟨flag, same⟩ := emit_all environment (opening ⟨settings, _, none⟩ prepared)
      (.fresh features false)
    rw [rank] at made
    rw [same]
    exact items_of_singleton coherent made
  obtain ⟨update, created⟩ : ∃ update, RowUpdate.create settings.feedback (.single rating.value)
      settings.lambda settings.passes = .ok update :=
    exists_create_of_accommodates accommodates rank.symm
  have unsolved : half settings prepared .user first.features.items =
      .error [.error (.singular (.notPositiveDefinite 1 1))] := by
    rw [items, half, created]
    rw [implicit] at created
    simp only [by_side_of_singleton coherent .user, List.map_cons, solve_of_low created low]
    rfl
  cases ended : solvePhase environment settings prepared ⟨0, .user⟩ first with
  | ok after =>
      obtain ⟨_, solved, -⟩ :=
        half_of_phase_ok (lawful_of_undisturbed undisturbed) coherent shaped ended
      cases unsolved.symm.trans solved
  | error stopped =>
      obtain ⟨others, failed, member⟩ :=
        half_of_phase_error undisturbed unlimited clear coherent shaped ended
      cases unsolved.symm.trans failed
      rw [run_of_first_stopped resolved started trained ended, State.toRun,
        List.mem_singleton.mp member]

end

theorem singular_of_low_minus_three :
    let settings : Settings ℝ := (.create 1 1 1 1 : Settings ℝ).withImplicit 1
    let training : Training ℝ := ⟨settings, (Store.ofList [⟨1, 1, -3⟩]).toRatings, none⟩
    (settings.check : Except (Error ℝ) Unit) = .ok () ∧ training.ratings.Resolves ∧
      (run .plain training false).outcome =
        .error (.error (.singular (.notPositiveDefinite 1 1))) := by
  intro settings training
  have built : (Store.ofList [(⟨1, 1, -3⟩ : Rating ℝ)]).Built := .ofList _
  have low : (1 + (1 : ℝ) * -3) * (-3 * -3) + settings.lambda ≤ 0 := by
    norm_num [settings, Settings.withImplicit, Settings.create]
  exact ⟨check_implicit_ones, Ratings.resolves_of_agrees (Store.agrees_of_built built).1,
    singular_of_low check_implicit_ones rfl rfl rfl (by decide) undisturbed_plain low⟩

end Training
end LatentFactor
