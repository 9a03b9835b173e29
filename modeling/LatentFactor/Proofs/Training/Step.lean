import LatentFactor.Proofs.Features
import LatentFactor.Proofs.Phase.Outcome
import LatentFactor.Proofs.RowUpdate.Solve
import LatentFactor.Proofs.Training.Prepared
import LatentFactor.Proofs.Training.Stage

set_option autoImplicit false

namespace LatentFactor

variable {α : Type}

-- Whatever is made of a task, some order of its rows leads to it.
def Phase.Lawful (runner : Phase.Runner α) : Prop :=
  ∀ task target cancelled, ∃ clock actions,
    Phase.Possible clock task target cancelled (runner task target cancelled) actions

-- Some order of its rows in which nobody cancels from outside.
def Phase.Calm (runner : Phase.Runner α) : Prop :=
  ∀ task target cancelled, ∃ clock actions, .cancel ∉ actions ∧
    Phase.Possible clock task target cancelled (runner task target cancelled) actions

theorem Phase.lawful_of_calm {runner : Phase.Runner α} (calm : Phase.Calm runner) :
    Phase.Lawful runner := by
  intro task target cancelled
  obtain ⟨clock, actions, -, possible⟩ := calm task target cancelled
  exact ⟨clock, actions, possible⟩

namespace Training

structure Shaped (prepared : Prepared α) (rank : Nat) (features : Features α) : Prop where
  size : ∀ side, (features.bySide side).size = (prepared.numbering side).size
  cols : ∀ side, (features.bySide side).cols = rank

theorem shaped_replace {prepared : Prepared α} {rank : Nat} {features : Features α} {side : Side}
    {matrix : RowMatrix α} (shaped : Shaped prepared rank features)
    (size : matrix.size = (features.bySide side).size)
    (cols : matrix.cols = (features.bySide side).cols) :
    Shaped prepared rank (features.replace side matrix) := by
  refine ⟨side.forall_of_both ?_ ?_, side.forall_of_both ?_ ?_⟩
  · rw [Features.by_side_replace, size, shaped.size]
  · rw [Features.by_side_replace_other, shaped.size]
  · rw [Features.by_side_replace, cols, shaped.cols]
  · rw [Features.by_side_replace_other, shaped.cols]

theorem ids_eq_nil_iff {training : Training α} {prepared : Prepared α} {rank : Nat}
    {features : Features α} (coherent : training.Coherent prepared)
    (shaped : Shaped prepared rank features) (side : Side) :
    training.ratings.ids side = [] ↔ (features.bySide side).size = 0 := by
  rw [← coherent.ids side, shaped.size side, Numbering.size, ← Array.length_toList,
    List.length_eq_zero_iff]

structure Fits (training : Training α) (prepared : Prepared α) : Prop where
  users : Memory.HoldsMatrix prepared.users.size training.settings.rank
  items : Memory.HoldsMatrix prepared.items.size training.settings.rank
  errors : Memory.Holds training.settings.iterations

theorem not_fits_of_wide {training : Training α} {prepared : Prepared α}
    (coherent : training.Coherent prepared) (side : Side)
    (wide : ¬Memory.HoldsMatrix (training.ratings.ids side).length training.settings.rank) :
    ¬training.Fits prepared := by
  intro fits
  rw [← size_numbering coherent] at wide
  cases side with
  | user => exact wide fits.users
  | item => exact wide fits.items

def Environment.outcome (environment : Environment α) (phase : Phase) (state : State α)
    (task : Phase.Task α) : Phase.Outcome α :=
  environment.runPhase task (state.features.bySide phase.side) state.cancelled

def State.fresh (features : Features α) (cancelled : Bool) : State α :=
  ⟨features, #[], #[], cancelled, []⟩

theorem emit_all (environment : Environment α) (events : List (Event α)) (state : State α) :
    ∃ cancelled, events.foldl (fun state event => state.emit environment event) state =
      { state with events := state.events ++ events.toArray, cancelled } := by
  induction events generalizing state with
  | nil => exact ⟨state.cancelled, by simp⟩
  | cons event events ih =>
      obtain ⟨cancelled, rest⟩ := ih (state.emit environment event)
      exact ⟨cancelled, by rw [List.foldl_cons, rest]; simp [State.emit]⟩

theorem emits_induction {environment : Environment α} (holds : State α → Prop)
    {events : List (Event α)}
    (step : ∀ event ∈ events, ∀ state, holds state → holds (state.emit environment event))
    {state : State α} (first : holds state) :
    holds (events.foldl (fun state event => state.emit environment event) state) := by
  induction events generalizing state with
  | nil => exact first
  | cons event events ih =>
      obtain ⟨own, rest⟩ := List.forall_mem_cons.mp step
      exact ih rest (own state first)

theorem result_eq_ok {prepared : Prepared α} {state : State α} {rank : Nat}
    (shaped : Shaped prepared rank state.features) :
    result prepared state = .ok ⟨prepared.users, prepared.items, state.features.users,
      state.features.items, state.errors.toList⟩ := by
  have users := shaped.size .user
  have items := shaped.size .item
  have cols : state.features.users.cols = state.features.items.cols :=
    (shaped.cols .user).trans (shaped.cols .item).symm
  simp only [Features.bySide, Prepared.numbering] at users items
  simp [result, Model.create, users, items, cols]

variable [Scalar α]

theorem task_eq_ok {settings : Settings α} {prepared : Prepared α} {features : Features α}
    {phase : Phase} {task : Phase.Task α}
    (made : Training.task settings prepared features phase = .ok task) :
    ∃ update, RowUpdate.create settings.feedback (features.bySide phase.side.other)
        settings.lambda settings.passes = .ok update ∧
      task.phase = phase ∧ task.limit = settings.timeLimit ∧
      ∀ r, task.solve r = ⟨false, solveRow update (prepared.ratings.bySide phase.side) r⟩ := by
  obtain ⟨update, created, same⟩ := bind_eq_ok_iff.mp made
  cases same
  exact ⟨update, created, rfl, rfl, fun _ => rfl⟩

theorem solve_row_eq_ok_iff {update : RowUpdate α} {ratings : Array (Observations α)} {r : Nat}
    {row : Row α} :
    solveRow update ratings r = .ok row ↔
      ∃ observations, ratings[r]? = some observations ∧ update.solve observations = .ok row := by
  unfold solveRow
  cases ratings[r]? with
  | none => simp
  | some observations => simp

section

variable {environment : Environment α} {settings : Settings α} {prepared : Prepared α}
  {phase : Phase} {before after : State α}

theorem solve_phase_eq_ok (lawful : Phase.Lawful environment.runPhase)
    (done : solvePhase environment settings prepared phase before = .ok after) :
    ∃ task elapsed, Training.task settings prepared before.features phase = .ok task ∧
      (environment.outcome phase before task).Complete task (before.features.bySide phase.side) ∧
      after = (before.absorb phase (environment.outcome phase before task)).emit environment
        (.phaseDone phase (before.features.bySide phase.side).size elapsed) := by
  unfold solvePhase at done
  split at done
  · cases done
  · rename_i task made
    dsimp only at done
    split at done
    · rename_i report ended
      obtain ⟨clock, actions, possible⟩ := lawful task (before.features.bySide phase.side)
        before.cancelled
      obtain ⟨complete, rows⟩ := Phase.complete_of_ok possible ended
      rw [rows] at done
      exact ⟨task, report.elapsed, made, complete, (Except.ok.inj done).symm⟩
    · cases done

theorem solve_phase_eq_error {stopped : Stopped α}
    (failed : solvePhase environment settings prepared phase before = .error stopped) :
    (∃ fault, Training.task settings prepared before.features phase = .error fault ∧
      stopped = ⟨before, .fault fault⟩) ∨
    ∃ task, Training.task settings prepared before.features phase = .ok task ∧
      (environment.outcome phase before task).result = .error stopped.failure ∧
      stopped.state = before.absorb phase (environment.outcome phase before task) := by
  unfold solvePhase at failed
  split at failed
  · rename_i fault unmade
    exact .inl ⟨fault, unmade, (Except.error.inj failed).symm⟩
  · rename_i task made
    dsimp only at failed
    split at failed
    · cases failed
    · rename_i failure ended
      cases failed
      exact .inr ⟨task, made, ended, rfl⟩

theorem kept_of_phase_error {stopped : Stopped α}
    (failed : solvePhase environment settings prepared phase before = .error stopped) :
    stopped.state.events = before.events ∧ stopped.state.errors = before.errors := by
  rcases solve_phase_eq_error failed with ⟨fault, -, rfl⟩ | ⟨task, -, -, state⟩
  · exact ⟨rfl, rfl⟩
  · rw [state]
    exact ⟨rfl, rfl⟩

theorem shaped_of_phase {rank : Nat} (lawful : Phase.Lawful environment.runPhase)
    (shaped : Shaped prepared rank before.features)
    (done : solvePhase environment settings prepared phase before = .ok after) :
    Shaped prepared rank after.features := by
  obtain ⟨task, report, -, complete, rfl⟩ := solve_phase_eq_ok lawful done
  exact shaped_replace shaped complete.size complete.cols

end

theorem start_eq_ok {environment : Environment α} {training : Training α} {prepared : Prepared α}
    {cancelled : Bool} {state : State α}
    (started : start environment training prepared cancelled = .ok state) :
    ∃ features, Features.initial prepared.users.size prepared.ratings.byItem.toList
        training.settings.rank training.settings.seedInUse = .ok features ∧
      Memory.reserve training.settings.iterations = .ok () ∧
      state = (training.opening prepared).foldl (fun state event => state.emit environment event)
        (.fresh features cancelled) := by
  obtain ⟨features, made, rest⟩ := bind_eq_ok_iff.mp started
  obtain ⟨_, reserved, same⟩ := bind_eq_ok_iff.mp rest
  exact ⟨features, made, reserved, (Except.ok.inj same).symm⟩

theorem start_of_initial {training : Training α} {prepared : Prepared α} {initial : Features α}
    (environment : Environment α) (cancelled : Bool)
    (made : Features.initial prepared.users.size prepared.ratings.byItem.toList
      training.settings.rank training.settings.seedInUse = .ok initial)
    (reserved : Memory.reserve training.settings.iterations = .ok ()) :
    ∃ state, start environment training prepared cancelled = .ok state :=
  ⟨_, bind_eq_ok_iff.mpr ⟨initial, made, bind_eq_ok_iff.mpr ⟨(), reserved, rfl⟩⟩⟩

section

variable {environment : Environment α} {training : Training α} {cancelled : Bool}
  {prepared : Prepared α}

theorem shaped_of_initial {rank : Nat} {seed : UInt64} {features : Features α}
    (coherent : training.Coherent prepared)
    (made : Features.initial prepared.users.size prepared.ratings.byItem.toList rank seed =
      .ok features) : Shaped prepared rank features := by
  obtain ⟨users, items⟩ := Features.initial_eq_ok made
  constructor
  · intro side
    cases side with
    | user => exact users.1
    | item => rw [← size_by_side coherent]; exact items.1
  · intro side
    cases side with
    | user => exact users.2
    | item => exact items.2

theorem fits_of_initial {initial : Features α} (coherent : training.Coherent prepared)
    (made : Features.initial prepared.users.size prepared.ratings.byItem.toList
      training.settings.rank training.settings.seedInUse = .ok initial)
    (reserved : Memory.reserve training.settings.iterations = .ok ()) :
    training.Fits prepared := by
  obtain ⟨items, users⟩ := Features.holds_of_initial made
  rw [Array.length_toList] at items
  exact ⟨users, size_by_side coherent .item ▸ items, Memory.reserve_eq_ok_iff.mp reserved⟩

theorem shaped_of_start {state : State α} (coherent : training.Coherent prepared)
    (started : start environment training prepared cancelled = .ok state) :
    Shaped prepared training.settings.rank state.features := by
  obtain ⟨features, made, -, rfl⟩ := start_eq_ok started
  obtain ⟨flag, same⟩ := emit_all environment (training.opening prepared)
    (.fresh features cancelled)
  rw [same]
  exact shaped_of_initial coherent made

theorem fits_of_start {state : State α} (coherent : training.Coherent prepared)
    (started : start environment training prepared cancelled = .ok state) :
    training.Fits prepared := by
  obtain ⟨features, made, reserved, -⟩ := start_eq_ok started
  exact fits_of_initial coherent made reserved

theorem lacks_of_start {fault : Fault} (ranked : training.settings.rank ≠ 0)
    (failed : start environment training prepared cancelled = .error fault) :
    Memory.LacksMatrix prepared.ratings.byItem.toList.length training.settings.rank fault ∨
      Memory.LacksMatrix prepared.users.size training.settings.rank fault ∨
      Memory.Lacks training.settings.iterations fault := by
  rcases bind_eq_error_iff.mp failed with unmade | ⟨_, _, rest⟩
  · rcases Features.lacks_of_initial ranked unmade with items | users
    · exact .inl items
    · exact .inr (.inl users)
  · rcases bind_eq_error_iff.mp rest with errors | ⟨_, _, impossible⟩
    · exact .inr (.inr (Memory.reserve_eq_error_iff.mp errors))
    · cases impossible

theorem beyond_of_start {fault : Fault} (ranked : training.settings.rank ≠ 0)
    (failed : start environment training prepared cancelled = .error fault) :
    ∃ rows cols, fault = .beyondMemory rows cols := by
  rcases lacks_of_start ranked failed with items | users | errors
  · exact ⟨_, _, items.1⟩
  · exact ⟨_, _, users.1⟩
  · exact ⟨_, _, errors.1⟩

theorem exists_start (environment : Environment α) (cancelled : Bool)
    (coherent : training.Coherent prepared) (ranked : training.settings.rank ≠ 0)
    (fits : training.Fits prepared) :
    ∃ state, start environment training prepared cancelled = .ok state := by
  have items : Memory.HoldsMatrix prepared.ratings.byItem.toList.length training.settings.rank := by
    rw [Array.length_toList]
    exact (size_by_side coherent .item).symm ▸ fits.items
  obtain ⟨features, made⟩ := Features.exists_initial prepared.ratings.byItem.toList
    training.settings.seedInUse ranked items fits.users
  exact start_of_initial environment cancelled made (Memory.reserve_eq_ok_iff.mpr fits.errors)

theorem measure_of_shaped {features : Features α} {rank : Nat}
    (coherent : training.Coherent prepared) (shaped : Shaped prepared rank features) :
    prepared.heldOut.measure features.users features.items =
      .ok ⟨prepared.heldOut.total features.users features.items,
        prepared.heldOut.samples.size⟩ := by
  have inside : prepared.heldOut.Inside features.users.size features.items.size := by
    have users := shaped.size .user
    have items := shaped.size .item
    simp only [Features.bySide, Prepared.numbering] at users items
    rw [users, items]
    exact coherent.heldOut
  have same : features.users.cols = features.items.cols :=
    (shaped.cols .user).trans (shaped.cols .item).symm
  exact HeldOut.measure_eq_ok inside same

theorem evaluate_eq_ok {state : State α} {rank iteration : Nat}
    (coherent : training.Coherent prepared) (shaped : Shaped prepared rank state.features) :
    evaluate environment prepared iteration state =
      .ok ((state.record
          (prepared.heldOut.error? state.features.users state.features.items)).emit environment
        (measurementEvent iteration
          ⟨prepared.heldOut.total state.features.users state.features.items,
            prepared.heldOut.samples.size⟩)) := by
  rw [evaluate, measure_of_shaped coherent shaped]
  rfl

theorem unstarted_of_unfit (resolved : training.prepare = .ok prepared)
    (ranked : training.settings.rank ≠ 0) (large : ¬training.Fits prepared) :
    ∃ rows cols, run environment training cancelled =
      .unstarted (.fault (.beyondMemory rows cols)) cancelled := by
  cases attempt : start environment training prepared cancelled with
  | ok state => exact absurd (fits_of_start (coherent_of_prepare resolved) attempt) large
  | error fault =>
      obtain ⟨rows, cols, rfl⟩ := beyond_of_start ranked attempt
      exact ⟨rows, cols, by simp only [run, resolved, attempt]⟩

theorem unstarted_of_wide (resolved : training.prepare = .ok prepared)
    (ranked : training.settings.rank ≠ 0) (side : Side)
    (wide : ¬Memory.HoldsMatrix (training.ratings.ids side).length training.settings.rank) :
    ∃ rows cols, run environment training cancelled =
      .unstarted (.fault (.beyondMemory rows cols)) cancelled :=
  unstarted_of_unfit resolved ranked (not_fits_of_wide (coherent_of_prepare resolved) side wide)

theorem shaped_of_passes {stage : Stage} {state : State α}
    (lawful : Phase.Lawful environment.runPhase)
    (passes : Passes environment training cancelled prepared stage state) :
    training.Coherent prepared ∧ Shaped prepared training.settings.rank state.features := by
  induction passes with
  | start state resolved started =>
      have coherent := coherent_of_prepare resolved
      exact ⟨coherent, shaped_of_start coherent started⟩
  | step stage before after _ advanced ih =>
      obtain ⟨coherent, shaped⟩ := ih
      refine ⟨coherent, ?_⟩
      cases stage with
      | solving phase => exact shaped_of_phase lawful shaped advanced
      | measuring iteration =>
          rw [advance, evaluate_eq_ok coherent shaped] at advanced
          cases advanced
          exact ⟨shaped.size, shaped.cols⟩
      | done =>
          cases advanced
          exact shaped

-- A measurement cannot stop a run, so what stops it is a phase.
theorem stops_at_phase {stage : Stage} {stopped : Stopped α}
    (lawful : Phase.Lawful environment.runPhase)
    (stops : StopsAt environment training cancelled prepared stage stopped) :
    ∃ phase state, stage = .solving phase ∧
      Passes environment training cancelled prepared (.solving phase) state ∧
      solvePhase environment training.settings prepared phase state = .error stopped := by
  obtain ⟨state, passes, failed⟩ := stops
  obtain ⟨coherent, shaped⟩ := shaped_of_passes lawful passes
  cases stage with
  | solving phase => exact ⟨phase, state, rfl, passes, failed⟩
  | measuring iteration =>
      rw [advance, evaluate_eq_ok coherent shaped] at failed
      cases failed
  | done => cases failed

end

end Training
end LatentFactor
