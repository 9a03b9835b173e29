import LatentFactor.Proofs.Projector
import LatentFactor.Proofs.Real.Explicit

set_option autoImplicit false

namespace LatentFactor

variable {α : Type}

namespace Phase

-- Some order of the rows, under a clock that can show the deadline.
def Timely (runner : Runner α) (limit : Option Duration) : Prop :=
  ∀ task target cancelled, task.limit = limit → ∃ clock actions, task.unreachable clock = false ∧
    Possible clock task target cancelled (runner task target cancelled) actions

theorem timely_of_unlimited {runner : Runner α} (lawful : Lawful runner) : Timely runner none := by
  intro task target cancelled unlimited
  obtain ⟨clock, actions, possible⟩ := lawful task target cancelled
  exact ⟨clock, actions, by rw [Task.unreachable, unlimited, Option.any_none], possible⟩

theorem overflow_of_far {runner : Runner α} {limit : Duration} {task : Task α}
    (lawful : Lawful runner) (limited : task.limit = some limit)
    (far : clockLimit ≤ limit.nanoseconds) (target : RowMatrix α) (cancelled : Bool) :
    runner task target cancelled = Task.overflow target cancelled := by
  obtain ⟨clock, actions, possible⟩ := lawful task target cancelled
  have unreachable : task.unreachable clock = true := by
    rw [Task.unreachable, limited, Option.any_some, decide_eq_true_iff]
    exact Nat.le_trans far (Nat.le_add_left _ _)
  rwa [Possible, if_pos unreachable] at possible

end Phase

namespace RowUpdate

variable [Scalar α] {update : RowUpdate α}

theorem ends_of_solve {observations : Observations α}
    (shared : SharedOf update.feedback update.fixed update.shared)
    (inside : ∀ observation ∈ observations, observation.1 < update.fixed.size) :
    Ends (update.fixed.LacksSystem observations.length)
      (fun row => row.length = update.fixed.cols) (update.solve observations) := by
  obtain ⟨rated, looked⟩ := exists_rated inside
  refine ends_iff.mpr ⟨fun row solved => length_of_solve shared solved, fun fault failed => ?_⟩
  by_cases holds : update.fixed.HoldsSystem observations.length
  · rw [solve_eq looked holds] at failed
    obtain ⟨_, -, impossible⟩ := map_error_eq_error_iff.mp failed
    cases impossible
  · obtain ⟨rows, cols, lacks⟩ := solve_of_lacks looked holds
    cases lacks.symm.trans failed
    exact ⟨⟨rows, cols, rfl⟩, holds⟩

-- The rows that a system is made of are there, and all products in it are of one width.
structure Fitting (update : RowUpdate α) (cols : Nat) (observations : Observations α) : Prop where
  width : update.fixed.cols = cols
  rated : ∃ rated, update.ratedRows observations = .ok rated ∧
    rated.length = observations.length ∧ (∀ pair ∈ rated, pair.1.length = cols) ∧
      Block.Square cols (update.system rated).1 ∧ (update.system rated).2.length = cols

theorem fitting_of_inside {observations : Observations α}
    (shared : SharedOf update.feedback update.fixed update.shared)
    (inside : ∀ observation ∈ observations, observation.1 < update.fixed.size) :
    update.Fitting update.fixed.cols observations where
  width := rfl
  rated := by
    obtain ⟨rated, looked⟩ := exists_rated inside
    have widths := length_of_rated looked
    obtain ⟨square, right⟩ := square_system shared widths
    exact ⟨rated, looked, (rated_rows_eq_ok_iff.mp looked).length_eq.symm, widths, square, right⟩

end RowUpdate

namespace Training

structure Roomy (training : Training α) : Prop where
  affords : training.Affords
  system : Memory.Holds (training.settings.rank * training.settings.rank)

def Excuses (training : Training α) (runner : Phase.Runner α) : Fault → Prop
  | .beyondMemory _ _ => ¬training.Roomy
  | .deadlineOverflow => ¬Phase.Timely runner training.settings.timeLimit
  | .rowOutOfRange _ _ => False
  | .lengthMismatch _ _ => False
  | .missingColumn => False

section

variable {training : Training α} {runner : Phase.Runner α} {prepared : Prepared α} {fault : Fault}

theorem excused_of_lacks {count : Nat} (lacks : Memory.Lacks count fault)
    (needed : training.Roomy → Memory.Holds count) : training.Excuses runner fault := by
  obtain ⟨rfl, beyond⟩ := lacks
  exact fun roomy => beyond (needed roomy)

theorem excused_of_lacks_matrix {rows cols : Nat} (lacks : Memory.LacksMatrix rows cols fault)
    (needed : training.Roomy → Memory.HoldsMatrix rows cols) : training.Excuses runner fault := by
  obtain ⟨rfl, beyond⟩ := lacks
  exact fun roomy => beyond (needed roomy)

theorem exists_observations {features : Features α} {rank : Nat} (side : Side)
    (coherent : training.Coherent prepared) (shaped : Shaped prepared rank features) {r : Nat}
    (inside : r < (features.bySide side).size) :
    ∃ observations, (prepared.ratings.bySide side)[r]? = some observations ∧
      ∀ observation ∈ observations, observation.1 < (features.bySide side.other).size := by
  rw [shaped.size, ← size_by_side coherent] at inside
  refine ⟨_, Array.getElem?_eq_getElem inside, ?_⟩
  rw [shaped.size]
  exact inside_of_coherent coherent (Array.mem_toList_iff.mpr (Array.getElem_mem inside))

theorem not_excused (roomy : training.Roomy)
    (timely : Phase.Timely runner training.settings.timeLimit) :
    ¬training.Excuses runner fault := by
  intro excused
  cases fault with
  | beyondMemory _ _ => exact excused roomy
  | deadlineOverflow => exact excused timely
  | rowOutOfRange _ _ => exact excused
  | lengthMismatch _ _ => exact excused
  | missingColumn => exact excused

theorem sound_of_roomy {x : Except (Failure α) (Model α)}
    (roomy : training.Roomy) (timely : Phase.Timely runner training.settings.timeLimit)
    (ends : Ends (training.Excuses runner) (fun _ => True) x) : Sound (fun _ => True) x :=
  ends_iff.mpr ⟨fun _ _ => trivial, fun fault failed =>
    not_excused roomy timely ((ends_iff.mp ends).2 fault failed)⟩

end

variable [Scalar α] {environment : Environment α} {training : Training α} {cancelled : Bool}
  {prepared : Prepared α}

theorem excused_of_start {fault : Fault} (coherent : training.Coherent prepared)
    (ranked : training.settings.rank ≠ 0)
    (failed : start environment training prepared cancelled = .error fault) :
    training.Excuses environment.runPhase fault := by
  rcases lacks_of_start ranked failed with items | users | errors
  · refine excused_of_lacks_matrix items fun roomy => ?_
    rw [Array.length_toList]
    exact (size_by_side coherent .item).symm ▸ (fits_of_affords coherent roomy.affords).items
  · exact excused_of_lacks_matrix users fun roomy => (fits_of_affords coherent roomy.affords).users
  · exact excused_of_lacks errors fun roomy => roomy.affords.errors

section

variable {phase : Phase} {state : State α}

theorem fitting_of_created {update : RowUpdate α} (coherent : training.Coherent prepared)
    (shaped : Shaped prepared training.settings.rank state.features)
    (created : RowUpdate.create training.settings.feedback
      (state.features.bySide phase.side.other) training.settings.lambda
        training.settings.passes = .ok update) {r : Nat}
    (inside : r < (state.features.bySide phase.side).size) :
    ∃ observations, (prepared.ratings.bySide phase.side)[r]? = some observations ∧
      update.Fitting training.settings.rank observations := by
  obtain ⟨-, fixed, -, -, shared⟩ := RowUpdate.create_eq_ok created
  obtain ⟨observations, found, named⟩ := exists_observations phase.side coherent shaped inside
  rw [← fixed] at named
  have cols : update.fixed.cols = training.settings.rank := by
    rw [fixed, shaped.cols]
  exact ⟨observations, found, cols ▸ RowUpdate.fitting_of_inside shared named⟩

theorem ends_of_row {task : Phase.Task α} (coherent : training.Coherent prepared)
    (shaped : Shaped prepared training.settings.rank state.features)
    (made : Training.task training.settings prepared state.features phase = .ok task) {r : Nat}
    (inside : r < (state.features.bySide phase.side).size) :
    Ends (training.Excuses environment.runPhase) (fun row => row.length = training.settings.rank)
      (task.solve r).result := by
  obtain ⟨update, created, -, -, solves⟩ := task_eq_ok made
  obtain ⟨-, fixed, -, -, shared⟩ := RowUpdate.create_eq_ok created
  obtain ⟨observations, found, named⟩ := exists_observations phase.side coherent shaped inside
  rw [← fixed] at named
  have cols : update.fixed.cols = training.settings.rank := by
    rw [fixed, shaped.cols]
  have member := Array.mem_toList_iff.mpr (Array.mem_of_getElem? found)
  obtain ⟨length, lacking⟩ := ends_iff.mp (RowUpdate.ends_of_solve shared named)
  rw [cols] at length
  rw [solves r, solveRow, found]
  refine ends_iff.mpr ⟨length, fun fault failed => ?_⟩
  obtain ⟨⟨_, _, rfl⟩, lacks⟩ := lacking fault failed
  exact fun roomy => lacks (holds_of_affords coherent roomy.affords cols member)

theorem lacks_of_task {fault : Fault}
    (shaped : Shaped prepared training.settings.rank state.features)
    (unmade : Training.task training.settings prepared state.features phase = .error fault) :
    Memory.Lacks (training.settings.rank * training.settings.rank) fault := by
  rcases bind_eq_error_iff.mp unmade with uncreated | ⟨_, _, impossible⟩
  · have lacks := RowUpdate.lacks_of_create uncreated
    rwa [shaped.cols] at lacks
  · cases impossible

theorem excused_of_task {fault : Fault}
    (shaped : Shaped prepared training.settings.rank state.features)
    (unmade : Training.task training.settings prepared state.features phase = .error fault) :
    training.Excuses environment.runPhase fault :=
  excused_of_lacks (lacks_of_task shaped unmade) Roomy.system

theorem ends_of_task (coherent : training.Coherent prepared)
    (shaped : Shaped prepared training.settings.rank state.features) :
    Ends (training.Excuses environment.runPhase)
      (fun task => ∀ r < (state.features.bySide phase.side).size,
        Ends (training.Excuses environment.runPhase)
          (fun row => row.length = training.settings.rank) (task.solve r).result)
      ((Training.task training.settings prepared state.features phase).mapError
        (Failure.fault : Fault → Failure α)) :=
  ends_of_fault (fun _ made _ inside => ends_of_row coherent shaped made inside)
    fun _ unmade => excused_of_task shaped unmade

theorem overrun_or_excused {task : Phase.Task α} {clock : Phase.Clock}
    {actions : List Phase.Action} {outcome : Phase.Outcome α} {fault : Fault}
    (coherent : training.Coherent prepared)
    (shaped : Shaped prepared training.settings.rank state.features)
    (made : Training.task training.settings prepared state.features phase = .ok task)
    (possible : Phase.Possible clock task (state.features.bySide phase.side) state.cancelled
      outcome actions)
    (ended : outcome.result = .error (.fault fault)) :
    task.Overrun clock (.fault fault) ∨ training.Excuses environment.runPhase fault := by
  rcases Phase.met_of_error possible ended with overrun | met
  · exact .inl overrun
  · cases met with
    | unsolved r _ called answer =>
        have ends : Ends (training.Excuses environment.runPhase)
            (fun row => row.length = training.settings.rank) (task.solve r).result :=
          ends_of_row coherent shaped made (Phase.lt_size_of_called possible called)
        exact .inr ((ends_iff.mp ends).2 fault answer)

theorem excused_of_phase {stopped : Stopped α} {fault : Fault}
    (lawful : Phase.Lawful environment.runPhase) (coherent : training.Coherent prepared)
    (shaped : Shaped prepared training.settings.rank state.features)
    (failed : solvePhase environment training.settings prepared phase state = .error stopped)
    (faulted : stopped.failure = .fault fault) : training.Excuses environment.runPhase fault := by
  rcases solve_phase_eq_error failed with ⟨_, unmade, rfl⟩ | ⟨task, made, ended, -⟩
  · cases faulted
    exact excused_of_task shaped unmade
  · obtain ⟨-, -, -, limit, -⟩ := task_eq_ok made
    rw [faulted] at ended
    obtain ⟨clock, actions, possible⟩ :=
      lawful task (state.features.bySide phase.side) state.cancelled
    rcases overrun_or_excused coherent shaped made possible ended with overrun | excused
    · obtain ⟨rfl, -⟩ := overrun
      -- Under a clock that shows the deadline the same outcome needs another reason.
      intro timely
      obtain ⟨other, others, reachable, again⟩ :=
        timely task (state.features.bySide phase.side) state.cancelled limit
      rcases overrun_or_excused coherent shaped made again ended with overrun | excused
      · rw [overrun.2] at reachable
        cases reachable
      · exact excused timely
    · exact excused

end

theorem ends_of_run (lawful : Phase.Lawful environment.runPhase)
    (ranked : training.settings.rank ≠ 0) :
    Ends (training.Excuses environment.runPhase) (fun _ => True)
      (run environment training cancelled).outcome := by
  refine ends_iff.mpr ⟨fun _ _ => trivial, fun fault ended => ?_⟩
  rcases run_cases environment training cancelled with ⟨error, -, ran⟩ | ⟨prepared, resolved, rest⟩
  · rw [ran] at ended
    cases ended
  · have coherent := coherent_of_prepare resolved
    rcases rest with ⟨own, failed, ran⟩ | ⟨stage, stopped, stops, ran⟩ | ⟨last, passes, ran⟩
    · rw [ran] at ended
      cases ended
      exact excused_of_start coherent ranked failed
    · obtain ⟨phase, before, -, passes, failed⟩ := stops_at_phase lawful stops
      rw [ran] at ended
      exact excused_of_phase lawful coherent (shaped_of_passes lawful passes).2 failed
        (Except.error.inj ended)
    · have shown : Shaped prepared training.settings.rank
          (last.emit environment (.finished environment.elapsed)).features :=
        (shaped_of_passes lawful passes).2
      rw [ran, result_eq_ok shown] at ended
      cases ended

theorem faults_of_wide (resolved : training.prepare = .ok prepared) {side : Side}
    (wide : ¬Memory.HoldsMatrix (training.ratings.ids side).length training.settings.rank) :
    ∃ rows, (run environment training cancelled).outcome =
      .error (.fault (.beyondMemory rows training.settings.rank)) := by
  have coherent := coherent_of_prepare resolved
  rw [← size_numbering coherent] at wide
  obtain ⟨rows, unmade⟩ : ∃ rows, Features.initial prepared.users.size
      prepared.ratings.byItem.toList training.settings.rank training.settings.seedInUse =
        .error (.beyondMemory rows training.settings.rank) := by
    refine Features.initial_of_wide ?_
    cases side with
    | user => exact .inr wide
    | item =>
        rw [← size_by_side coherent, ← Array.length_toList] at wide
        exact .inl wide
  have failed : start environment training prepared cancelled =
      .error (.beyondMemory rows training.settings.rank) :=
    bind_eq_error_iff.mpr (.inl unmade)
  refine ⟨rows, ?_⟩
  simp only [run, resolved, failed, Run.unstarted]

section

variable {limit : Duration}

theorem solve_phase_of_far {phase : Phase} {state : State α} {task : Phase.Task α}
    (lawful : Phase.Lawful environment.runPhase)
    (limited : training.settings.timeLimit = some limit)
    (far : Phase.clockLimit ≤ limit.nanoseconds)
    (made : Training.task training.settings prepared state.features phase = .ok task) :
    ∃ stopped, solvePhase environment training.settings prepared phase state = .error stopped ∧
      stopped.failure = .fault .deadlineOverflow := by
  obtain ⟨-, -, -, limit, -⟩ := task_eq_ok made
  have overflow := Phase.overflow_of_far lawful (limit.trans limited) far
  simp only [solvePhase, made, overflow, Phase.Task.overflow, State.stop]
  exact ⟨_, rfl, rfl⟩

theorem overflows_of_far (lawful : Phase.Lawful environment.runPhase)
    (valid : (training.settings.check : Except (Error α) Unit) = .ok ())
    (resolved : training.prepare = .ok prepared) (roomy : training.Roomy)
    (limited : training.settings.timeLimit = some limit)
    (far : Phase.clockLimit ≤ limit.nanoseconds) :
    (run environment training cancelled).outcome = .error (.fault .deadlineOverflow) := by
  obtain ⟨ranked, -, trained, -, -⟩ := Settings.check_eq_ok_iff.mp valid
  have coherent := coherent_of_prepare resolved
  obtain ⟨first, started⟩ :=
    exists_start environment cancelled coherent ranked (fits_of_affords coherent roomy.affords)
  obtain ⟨task, made⟩ : ∃ task, Training.task training.settings prepared first.features
      ⟨0, .user⟩ = .ok task := by
    cases attempt : Training.task training.settings prepared first.features ⟨0, .user⟩ with
    | ok task => exact ⟨task, rfl⟩
    | error fault =>
        have lacks := lacks_of_task (shaped_of_start coherent started) attempt
        exact absurd roomy.system lacks.2
  obtain ⟨stopped, failed, overflow⟩ := solve_phase_of_far lawful limited far made
  simp only [run_of_first_stopped resolved started trained failed, State.toRun, overflow]

end

def Served (runner : Phase.Runner α) (training : Training α) (prepared : Prepared α)
    (state : State α) : Stage → Prop
  | .solving phase =>
      (∀ update, RowUpdate.create training.settings.feedback
          (state.features.bySide phase.side.other) training.settings.lambda
            training.settings.passes = .ok update →
          ∀ r < (state.features.bySide phase.side).size,
            ∃ observations, (prepared.ratings.bySide phase.side)[r]? = some observations ∧
              update.Fitting training.settings.rank observations) ∧
        Ends (training.Excuses runner)
          (fun task => ∀ r < (state.features.bySide phase.side).size,
            Ends (training.Excuses runner) (fun row => row.length = training.settings.rank)
              (task.solve r).result)
          ((Training.task training.settings prepared state.features phase).mapError
            (Failure.fault : Fault → Failure α))
  | .measuring _ => ∃ measurement,
      prepared.heldOut.measure state.features.users state.features.items = .ok measurement
  | .done => ∃ model, result prepared state = .ok model

theorem served_of_shaped {stage : Stage} {state : State α} (coherent : training.Coherent prepared)
    (shaped : Shaped prepared training.settings.rank state.features) :
    Served environment.runPhase training prepared state stage := by
  cases stage with
  | solving phase =>
      refine ⟨fun update created r inside => ?_, ends_of_task coherent shaped⟩
      exact fitting_of_created coherent shaped created inside
  | measuring _ => exact ⟨_, measure_of_shaped coherent shaped⟩
  | done => exact ⟨_, result_eq_ok shaped⟩

-- Memory and the clock alone bound what a run can be given: no row is missing, and no two rows
-- that are multiplied differ in length.
theorem run_ends (environment : Environment α) (training : Training α) (cancelled : Bool)
    (lawful : Phase.Lawful environment.runPhase)
    (valid : (training.settings.check : Except (Error α) Unit) = .ok ()) :
    Ends (training.Excuses environment.runPhase) (fun _ => True)
        (run environment training cancelled).outcome ∧
      (training.Roomy → training.settings.timeLimit = none →
        Sound (fun _ => True) (run environment training cancelled).outcome) ∧
      (∀ prepared, training.prepare = .ok prepared →
        (∀ side, ¬Memory.HoldsMatrix (training.ratings.ids side).length training.settings.rank →
          ∃ rows, (run environment training cancelled).outcome =
            .error (.fault (.beyondMemory rows training.settings.rank))) ∧
        ∀ limit, training.Roomy → training.settings.timeLimit = some limit →
          Phase.clockLimit ≤ limit.nanoseconds →
            (run environment training cancelled).outcome = .error (.fault .deadlineOverflow)) ∧
      (∀ prepared stage state, Passes environment training cancelled prepared stage state →
        Served environment.runPhase training prepared state stage) ∧
      ∀ userNumbering itemNumbering users items errors (model : Model α),
        Model.create userNumbering itemNumbering users items errors = .ok model →
          model.Answers := by
  have ranked := (Settings.check_eq_ok_iff.mp valid).1
  have ends : Ends (training.Excuses environment.runPhase) (fun _ => True)
      (run environment training cancelled).outcome := ends_of_run lawful ranked
  refine ⟨ends, fun roomy unlimited => ?_, fun prepared resolved => ⟨?_, ?_⟩, ?_, ?_⟩
  · exact sound_of_roomy roomy (unlimited ▸ Phase.timely_of_unlimited lawful) ends
  · exact fun side wide => faults_of_wide resolved wide
  · exact fun limit roomy limited far =>
      overflows_of_far lawful valid resolved roomy limited far
  · intro prepared stage state passes
    obtain ⟨coherent, shaped⟩ := shaped_of_passes lawful passes
    exact served_of_shaped coherent shaped
  · intro userNumbering itemNumbering users items errors model created
    exact Model.answers_of_formed (Model.formed_of_create created)

noncomputable def beyondClock : Settings ℝ :=
  { Settings.create 1 1 1 1 with timeLimit := some ⟨Phase.clockLimit, by decide⟩ }

noncomputable def beyondMemory : Settings ℝ := .create 1 (Nat.pow 2 63) 1 1

theorem run_ends_beyond_clock_and_memory :
    Phase.Lawful (Environment.plain : Environment ℝ).runPhase ∧
      (beyondClock.check : Except (Error ℝ) Unit) = .ok () ∧
      (run .plain ⟨beyondClock, (Store.ofList [⟨1, 2, 3⟩]).toRatings, none⟩ false).outcome =
        .error (.fault .deadlineOverflow) ∧
      (beyondMemory.check : Except (Error ℝ) Unit) = .ok () ∧
      ∃ rows, (run .plain ⟨beyondMemory, (Store.ofList []).toRatings, none⟩ false).outcome =
        .error (.fault (.beyondMemory rows beyondMemory.rank)) := by
  have lawful : Phase.Lawful (Environment.plain : Environment ℝ).runPhase :=
    lawful_of_undisturbed undisturbed_plain
  have rated := (Store.agrees_of_built (.ofList [(⟨1, 2, 3⟩ : Rating ℝ)])).1
  have empty := (Store.agrees_of_built (.ofList ([] : List (Rating ℝ)))).1
  have clock : (beyondClock.check : Except (Error ℝ) Unit) = .ok () := check_ones
  have memory : (beyondMemory.check : Except (Error ℝ) Unit) = .ok () :=
    Settings.check_of_ranked (by decide)
  have staffed : beyondClock.workers ≠ 0 ∧ beyondMemory.workers ≠ 0 :=
    ⟨Nat.one_ne_zero, Nat.one_ne_zero⟩
  obtain ⟨prepared, resolved⟩ := Ratings.exists_prepare rated staffed.1
  obtain ⟨nothing, none⟩ := Ratings.exists_prepare empty staffed.2
  refine ⟨lawful, clock, ?_, memory, ?_⟩
  · have far := ((run_ends .plain _ false lawful clock).2.2.1 prepared resolved).2
    exact far _ ⟨(accommodates_singleton rfl (by decide)).affords, by decide⟩ rfl (Nat.le_refl _)
  · exact ((run_ends .plain _ false lawful memory).2.2.1 nothing none).1 .user (by decide)

end Training
end LatentFactor
