import LatentFactor.Proofs.Ratings.Source
import LatentFactor.Proofs.Real.Scalar
import LatentFactor.Proofs.Training.Undisturbed

set_option autoImplicit false

namespace LatentFactor

variable {α : Type}

def Event.untimed (event : Event α) : Event α := event.withElapsed .zero

namespace Training

section

variable (prepared : Prepared α)

def phaseEvent (phase : Phase) : Event α :=
  .phaseDone phase (prepared.numbering phase.side).size .zero

def errorEvent (iteration : Nat) : Option α → Event α
  | some error => .evaluated iteration error prepared.heldOut.samples.size
  | none => .unevaluated iteration

def Stage.heard : Stage → List (Event α)
  | .solving ⟨_, .user⟩ => []
  | .solving ⟨iteration, .item⟩ => [phaseEvent prepared ⟨iteration, .user⟩]
  | .measuring iteration =>
      [phaseEvent prepared ⟨iteration, .user⟩, phaseEvent prepared ⟨iteration, .item⟩]
  | .done => []

def roundEvents (iteration : Nat) (error : Option α) : List (Event α) :=
  (Stage.measuring iteration).heard prepared ++ [errorEvent prepared iteration error]

def roundsEvents (errors : List (Option α)) : List (Event α) :=
  errors.zipIdx.flatMap fun entry => roundEvents prepared entry.2 entry.1

-- There is an error in every iteration, or in none.
def Measured (errors : List (Option α)) : Prop :=
  ∀ error ∈ errors, error.isSome = true ↔ 0 < prepared.heldOut.samples.size

theorem heard_of_iteration (iterations iteration : Nat) :
    (Stage.ofIteration iterations iteration).heard prepared = [] := by
  unfold Stage.ofIteration
  split <;> rfl

theorem rounds_events_append (errors : List (Option α)) (error : Option α) :
    roundsEvents prepared (errors ++ [error]) =
      roundsEvents prepared errors ++ roundEvents prepared errors.length error := by
  simp [roundsEvents, List.zipIdx_append]

end

theorem untimed_opening (training : Training α) (prepared : Prepared α) [Scalar α] :
    (training.opening prepared).map Event.untimed = training.opening prepared := by
  unfold opening
  by_cases tested : training.test.isSome = true
  · simp [tested, Event.untimed, Event.withElapsed]
  · simp [tested, Event.untimed, Event.withElapsed]

theorem untimed_emit (environment : Environment α) (event : Event α) (state : State α) :
    (state.emit environment event).events.toList.map Event.untimed =
      state.events.toList.map Event.untimed ++ [event.untimed] := by
  simp [State.emit]

variable [Scalar α]

structure Heard (training : Training α) (prepared : Prepared α) (stage : Stage) (state : State α) :
    Prop where
  events : state.events.toList.map Event.untimed =
    training.opening prepared ++ roundsEvents prepared state.errors.toList ++ stage.heard prepared
  count : state.errors.toList.length = stage.completed training.settings.iterations
  measured : Measured prepared state.errors.toList

theorem untimed_measurement (prepared : Prepared α) (iteration : Nat) (users items : RowMatrix α) :
    (measurementEvent iteration ⟨prepared.heldOut.total users items,
      prepared.heldOut.samples.size⟩).untimed =
        errorEvent prepared iteration (prepared.heldOut.error? users items) := by
  unfold measurementEvent Measurement.error? HeldOut.error?
  by_cases none : prepared.heldOut.samples.size = 0
  · simp only [none, if_true]
    rfl
  · simp only [none, if_false]
    rfl

theorem is_some_error (heldOut : HeldOut α) (users items : RowMatrix α) :
    (heldOut.error? users items).isSome = true ↔ 0 < heldOut.samples.size := by
  unfold HeldOut.error?
  by_cases none : heldOut.samples.size = 0
  · simp [none]
  · simp [none, Nat.pos_of_ne_zero none]

section

variable {environment : Environment α} {training : Training α} {cancelled : Bool}
  {prepared : Prepared α}

theorem heard_of_start {state : State α}
    (started : start environment training prepared cancelled = .ok state) :
    Heard training prepared (.ofIteration training.settings.iterations 0) state := by
  obtain ⟨features, -, -, rfl⟩ := start_eq_ok started
  obtain ⟨flag, same⟩ := emit_all environment (training.opening prepared)
    (.fresh features cancelled)
  rw [same]
  refine ⟨?_, ?_, ?_⟩
  · rw [heard_of_iteration]
    simp [State.fresh, roundsEvents, untimed_opening]
  · rw [Stage.completed_of_iteration (Nat.zero_le _)]
    rfl
  · simp [Measured, State.fresh]

theorem heard_of_phase {phase : Phase} {before after : State α}
    (lawful : Phase.Lawful environment.runPhase)
    (shaped : Shaped prepared training.settings.rank before.features)
    (heard : Heard training prepared (.solving phase) before)
    (done : solvePhase environment training.settings prepared phase before = .ok after) :
    Heard training prepared ((Stage.solving phase).next training.settings.iterations) after := by
  obtain ⟨task, elapsed, -, -, rfl⟩ := solve_phase_eq_ok lawful done
  obtain ⟨iteration, side⟩ := phase
  have size := shaped.size side
  cases side with
  | user =>
      refine ⟨?_, heard.count, heard.measured⟩
      rw [untimed_emit, size]
      simp only [State.absorb, heard.events]
      simp [Stage.heard, Stage.next, phaseEvent, Event.untimed, Event.withElapsed, State.emit]
  | item =>
      refine ⟨?_, heard.count, heard.measured⟩
      rw [untimed_emit, size]
      simp only [State.absorb, heard.events]
      simp [Stage.heard, Stage.next, phaseEvent, Event.untimed, Event.withElapsed, State.emit]

theorem heard_of_measurement {iteration : Nat} {before after : State α}
    (coherent : training.Coherent prepared)
    (shaped : Shaped prepared training.settings.rank before.features)
    (within : iteration < training.settings.iterations)
    (heard : Heard training prepared (.measuring iteration) before)
    (done : evaluate environment prepared iteration before = .ok after) :
    Heard training prepared (.ofIteration training.settings.iterations (iteration + 1)) after := by
  rw [evaluate_eq_ok coherent shaped] at done
  cases done
  have count : before.errors.toList.length = iteration := heard.count
  refine ⟨?_, ?_, ?_⟩
  · rw [untimed_emit, untimed_measurement, heard_of_iteration]
    simp only [State.record, heard.events, State.emit, Array.toList_push, rounds_events_append,
      count, roundEvents, List.append_assoc, List.append_nil]
  · rw [Stage.completed_of_iteration within]
    simpa [State.emit, State.record] using count
  · intro error member
    simp only [State.emit, State.record, Array.toList_push, List.mem_append,
      List.mem_singleton] at member
    rcases member with old | rfl
    · exact heard.measured error old
    · exact is_some_error prepared.heldOut _ _

theorem heard_of_passes {stage : Stage} {state : State α}
    (lawful : Phase.Lawful environment.runPhase)
    (passes : Passes environment training cancelled prepared stage state) :
    Heard training prepared stage state := by
  induction passes with
  | start state _ started => exact heard_of_start started
  | step stage before after earlier advanced ih =>
      obtain ⟨coherent, shaped⟩ := shaped_of_passes lawful earlier
      cases stage with
      | solving phase => exact heard_of_phase lawful shaped ih advanced
      | measuring iteration =>
          exact heard_of_measurement coherent shaped (within_of_passes earlier) ih advanced
      | done =>
          cases advanced
          exact ih

end

/-- The ways a run can end, each with the events that were heard until then. -/
inductive Transcript (environment : Environment α) (training : Training α) (cancelled : Bool) :
    Except (Failure α) (Model α) → List (Event α) → Prop where
  | unprepared (error : Error α) (unprepared : training.prepare = .error error) :
      Transcript environment training cancelled (.error (.error error)) []
  | tooLarge (prepared : Prepared α) (rows cols : Nat) (resolved : training.prepare = .ok prepared)
      (large : ¬training.Fits prepared) :
      Transcript environment training cancelled (.error (.fault (.beyondMemory rows cols))) []
  | stopped (prepared : Prepared α) (phase : Phase) (stopped : Stopped α)
      (resolved : training.prepare = .ok prepared) (fits : training.Fits prepared)
      (stops : StopsAt environment training cancelled prepared (.solving phase) stopped)
      (within : phase.iteration < training.settings.iterations)
      (count : stopped.state.errors.size = phase.iteration)
      (measured : Measured prepared stopped.state.errors.toList) :
      Transcript environment training cancelled (.error stopped.failure)
        (training.opening prepared ++ roundsEvents prepared stopped.state.errors.toList ++
          (Stage.solving phase).heard prepared)
  | finished (prepared : Prepared α) (model : Model α) (resolved : training.prepare = .ok prepared)
      (fits : training.Fits prepared)
      (count : model.errors.length = training.settings.iterations)
      (measured : Measured prepared model.errors) :
      Transcript environment training cancelled (.ok model)
        (training.opening prepared ++ roundsEvents prepared model.errors ++ [.finished .zero])

end Training
end LatentFactor
