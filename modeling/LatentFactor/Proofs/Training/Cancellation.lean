import Mathlib.Data.List.TakeWhile
import LatentFactor.Proofs.Phase.Cancelled
import LatentFactor.Proofs.Real.Explicit
import LatentFactor.Proofs.Training.Transcript

set_option autoImplicit false

namespace LatentFactor

variable {α : Type}

-- The phase that has come to its end with an event, if it had rows.
def Event.solved? (source : Ratings α) : Event α → Option Phase
  | .phaseDone phase _ _ => if (source.ids phase.side).isEmpty then none else some phase
  | _ => none

namespace Training

-- No event falls into a phase, so the phases that end after an event are those that start after it.
def firstPhaseAfter (source : Ratings α) (heard : Nat) (events : List (Event α)) : Option Phase :=
  (events.drop (heard + 1)).findSome? (Event.solved? source)

def eventsBefore (source : Ratings α) (heard : Nat) (events : List (Event α)) :
    List (Event α) :=
  events.take (heard + 1) ++
    (events.drop (heard + 1)).takeWhile fun event => (event.solved? source).isNone

-- The observer cancels at the event with that number; what it does later is open.
structure Environment.CancelsAt (environment : Environment α) (heard : Nat) : Prop where
  runner : Phase.Calm environment.runPhase
  before : ∀ count < heard, ∀ event, environment.observe count event = false
  cancels : ∀ event, environment.observe heard event = true

section

variable {source : Ratings α} {heard : Nat} {events rest : List (Event α)} {event : Event α}

theorem cut_of_phase {phase : Phase} (within : heard < events.length)
    (harmless : ∀ event ∈ events.drop (heard + 1), event.solved? source = none)
    (solved : event.solved? source = some phase) :
    eventsBefore source heard (events ++ event :: rest) = events ∧
      firstPhaseAfter source heard (events ++ event :: rest) = some phase := by
  have dropped : (events ++ event :: rest).drop (heard + 1) =
      events.drop (heard + 1) ++ event :: rest := List.drop_append_of_le_length within
  have taken : (events ++ event :: rest).take (heard + 1) = events.take (heard + 1) :=
    List.take_append_of_le_length within
  have passed : ∀ event ∈ events.drop (heard + 1), (event.solved? source).isNone = true := by
    intro event member
    rw [harmless event member]
    rfl
  constructor
  · rw [eventsBefore, dropped, taken, List.takeWhile_append_of_pos passed,
      List.takeWhile_cons_of_neg (by rw [solved]; exact Bool.false_ne_true), List.append_nil,
      List.take_append_drop]
  · rw [firstPhaseAfter, dropped, List.findSome?_append,
      List.findSome?_eq_none_iff.mpr harmless, Option.none_or, List.findSome?_cons, solved]

theorem solved_untimed (event : Event α) :
    event.untimed.solved? source = event.solved? source := by
  cases event with
  | started | testResolved | phaseDone | evaluated | unevaluated | finished => rfl

end

-- Nothing has come to an end since the cancellation but phases without rows.
structure Interrupted (source : Ratings α) (heard : Nat) (state : State α) : Prop where
  flag : state.cancelled = true ↔ heard < state.events.size
  later : ∀ event ∈ state.events.toList.drop (heard + 1), event.solved? source = none

theorem harmless_of_interrupted {source : Ratings α} {heard : Nat} {state : State α}
    (interrupted : Interrupted source heard state) :
    ∀ event ∈ (state.events.toList.map Event.untimed).drop (heard + 1),
      event.solved? source = none := by
  intro event member
  rw [← List.map_drop, List.mem_map] at member
  obtain ⟨timed, there, rfl⟩ := member
  rw [solved_untimed]
  exact interrupted.later timed there

theorem interrupted_emit {environment : Environment α} {source : Ratings α} {heard : Nat}
    {state : State α} {event : Event α} (cancels : environment.CancelsAt heard)
    (interrupted : Interrupted source heard state)
    (harmless : heard < state.events.size → event.solved? source = none) :
    Interrupted source heard (state.emit environment event) where
  flag := by
    simp only [State.emit, Array.size_push, Bool.or_eq_true, interrupted.flag]
    rcases Nat.lt_trichotomy state.events.size heard with earlier | same | later
    · rw [cancels.before _ earlier]
      simp
      omega
    · rw [same, cancels.cancels]
      simp
    · simp [later]
      omega
  later := by
    intro other member
    simp only [State.emit, Array.toList_push, List.drop_append, List.mem_append] at member
    rcases member with old | new
    · exact interrupted.later other old
    · have within : heard + 1 - state.events.toList.length = 0 := by
        by_contra beyond
        rw [List.drop_eq_nil_of_le (by rw [List.length_singleton]; omega)] at new
        cases new
      rw [within, List.drop_zero, List.mem_singleton] at new
      subst new
      rw [Array.length_toList] at within
      exact harmless (by omega)

theorem rounds_events_cut (prepared : Prepared α) {phase : Phase} {errors : List (Option α)}
    (within : phase.iteration < errors.length) :
    ∃ rest, roundsEvents prepared errors =
      roundsEvents prepared (errors.take phase.iteration) ++ (Stage.solving phase).heard prepared ++
        phaseEvent prepared phase :: rest := by
  obtain ⟨iteration, side⟩ := phase
  have split : errors =
      errors.take iteration ++ errors[iteration] :: errors.drop (iteration + 1) := by
    rw [← List.drop_eq_getElem_cons within, List.take_append_drop]
  have round : ∃ rest, roundsEvents prepared errors =
      roundsEvents prepared (errors.take iteration) ++
        (roundEvents prepared iteration errors[iteration] ++ rest) := by
    have length : (errors.take iteration).length = iteration :=
      List.length_take_of_le (Nat.le_of_lt within)
    refine ⟨((errors.drop (iteration + 1)).zipIdx (iteration + 1)).flatMap fun entry =>
      roundEvents prepared entry.2 entry.1, ?_⟩
    conv => lhs; rw [split]
    rw [roundsEvents, List.zipIdx_append, List.flatMap_append, List.zipIdx_cons,
      List.flatMap_cons, length, Nat.zero_add]
    rfl
  obtain ⟨rest, same⟩ := round
  cases side with
  | user => exact ⟨_, by rw [same, Stage.heard, List.append_nil]; rfl⟩
  | item => exact ⟨_, by rw [same, List.append_assoc]; rfl⟩

def allEvents (training : Training α) (prepared : Prepared α) (errors : List (Option α)) :
    List (Event α) :=
  training.opening prepared ++ roundsEvents prepared errors ++ [.finished .zero]

variable [Scalar α]

section

variable {environment : Environment α} {training : Training α} {cancelled : Bool}
  {prepared : Prepared α}

-- A phase that is over although it started cancelled had no rows.
theorem rowless_of_cancelled {rank : Nat} {phase : Phase} {before after : State α}
    (lawful : Phase.Lawful environment.runPhase) (set : before.cancelled = true)
    (coherent : training.Coherent prepared)
    (shaped : Shaped prepared rank before.features)
    (done : solvePhase environment training.settings prepared phase before = .ok after) :
    training.ratings.ids phase.side = [] := by
  rw [ids_eq_nil_iff coherent shaped]
  by_contra rows
  obtain ⟨task, elapsed, made, complete, -⟩ := solve_phase_eq_ok lawful done
  obtain ⟨clock, actions, possible⟩ :=
    lawful task (before.features.bySide phase.side) before.cancelled
  rw [set] at possible
  have calls := complete.calls.length_eq
  rw [Environment.outcome, set, (Phase.untouched_of_cancelled possible).2,
    List.length_range] at calls
  exact rows calls.symm

theorem stopped_of_cancelled {phase : Phase} {before : State α} {stopped : Stopped α}
    {task : Phase.Task α} (calm : Phase.Calm environment.runPhase)
    (unlimited : training.settings.timeLimit = none) (set : before.cancelled = true)
    (made : Training.task training.settings prepared before.features phase = .ok task)
    (failed : solvePhase environment training.settings prepared phase before = .error stopped) :
    stopped.failure = .error (.cancelled phase) ∧ stopped.state.calls = before.calls ∧
      (before.features.bySide phase.side).size ≠ 0 := by
  obtain ⟨update, -, same, limit, -⟩ := task_eq_ok made
  rcases solve_phase_eq_error failed with ⟨fault, unmade, -⟩ | ⟨other, own, ended, state⟩
  · rw [made] at unmade
    cases unmade
  · cases made.symm.trans own
    obtain ⟨clock, actions, -, possible⟩ :=
      calm task (before.features.bySide phase.side) before.cancelled
    have rows : (before.features.bySide phase.side).size ≠ 0 := by
      intro none
      obtain ⟨report, ok⟩ := Phase.ok_of_no_rows (limit.trans unlimited) possible none
      rw [Environment.outcome, ok] at ended
      cases ended
    rw [set] at possible
    have error := Phase.error_of_cancelled (limit.trans unlimited) possible rows
    have calls := (Phase.untouched_of_cancelled possible).2
    rw [Environment.outcome, set] at ended state
    rw [error, same] at ended
    refine ⟨(Except.error.inj ended).symm, ?_, rows⟩
    rw [state, State.absorb, calls]
    rfl

theorem task_of_half {settings : Settings α} {features : Features α} {phase : Phase}
    {matrix : RowMatrix α}
    (solved : half settings prepared phase.side (features.bySide phase.side.other) = .ok matrix) :
    ∃ task, Training.task settings prepared features phase = .ok task := by
  unfold half at solved
  split at solved
  · cases solved
  · rename_i update created
    exact ⟨_, bind_eq_ok_iff.mpr ⟨update, created, rfl⟩⟩

theorem interrupted_of_passes {heard : Nat} {stage : Stage} {state : State α}
    (cancels : environment.CancelsAt heard)
    (passes : Passes environment training false prepared stage state) :
    Interrupted training.ratings heard state := by
  have lawful := Phase.lawful_of_calm cancels.runner
  induction passes with
  | start state _ started =>
      obtain ⟨features, -, -, rfl⟩ := start_eq_ok started
      refine emits_induction (Interrupted training.ratings heard) ?_ ?_
      · intro event member state interrupted
        refine interrupted_emit cancels interrupted fun _ => ?_
        rcases List.mem_cons.mp member with rfl | tested
        · rfl
        · split at tested
          · rw [List.mem_singleton.mp tested]
            rfl
          · cases tested
      · exact ⟨by simp [State.fresh], by simp [State.fresh]⟩
  | step stage before after earlier advanced interrupted =>
      obtain ⟨coherent, shaped⟩ := shaped_of_passes lawful earlier
      cases stage with
      | solving phase =>
          have rowless := fun set =>
            rowless_of_cancelled lawful set coherent shaped advanced
          obtain ⟨task, elapsed, made, -, rfl⟩ := solve_phase_eq_ok lawful advanced
          obtain ⟨update, -, -, -, solves⟩ := task_eq_ok made
          have flag : (environment.outcome phase before task).cancelled = before.cancelled :=
            flag_of_outcome cancels.runner fun r => by rw [solves r]
          refine interrupted_emit cancels ⟨?_, interrupted.later⟩ fun within => ?_
          · exact (Bool.eq_iff_iff.mp flag).trans interrupted.flag
          · rw [Event.solved?, rowless (interrupted.flag.mpr within)]
            rfl
      | measuring iteration =>
          rw [advance, evaluate_eq_ok coherent shaped] at advanced
          cases advanced
          refine interrupted_emit cancels ⟨interrupted.flag, interrupted.later⟩ fun _ => ?_
          unfold measurementEvent
          split <;> rfl
      | done =>
          cases advanced
          exact interrupted

theorem earlier_of_passes {stage : Stage} {state : State α}
    (lawful : Phase.Lawful environment.runPhase)
    (passes : Passes environment training cancelled prepared stage state) :
    ∀ call ∈ state.calls, call.phase.place < stage.place training.settings.iterations := by
  induction passes with
  | start state _ started =>
      obtain ⟨features, -, -, rfl⟩ := start_eq_ok started
      obtain ⟨flag, same⟩ := emit_all environment (training.opening prepared)
        (.fresh features cancelled)
      rw [same]
      simp [State.fresh]
  | step stage before after earlier advanced calls =>
      obtain ⟨coherent, shaped⟩ := shaped_of_passes lawful earlier
      cases stage with
      | solving phase =>
          obtain ⟨task, elapsed, -, -, rfl⟩ := solve_phase_eq_ok lawful advanced
          intro call member
          rw [Stage.place_next_phase]
          rcases List.mem_append.mp member with own | old
          · obtain ⟨r, -, rfl⟩ := List.mem_map.mp own
            exact Nat.lt_succ_self _
          · exact Nat.lt_succ_of_lt (calls call old)
      | measuring iteration =>
          rw [advance, evaluate_eq_ok coherent shaped] at advanced
          cases advanced
          rw [Stage.next, Stage.place_of_iteration (within_of_passes earlier)]
          exact calls
      | done =>
          cases advanced
          exact calls

theorem events_of_done {last : State α} (lawful : Phase.Lawful environment.runPhase)
    (passes : Passes environment training cancelled prepared .done last) :
    (last.emit environment (.finished environment.elapsed)).events.toList.map Event.untimed =
      training.allEvents prepared last.errors.toList := by
  rw [untimed_emit, (heard_of_passes lawful passes).events, Stage.heard, List.append_nil]
  rfl

theorem stopped_while_heard {heard : Nat} {phase : Phase} {before : State α} {stopped : Stopped α}
    {initial features : Features α} {errors : List (Option α)}
    (cancels : environment.CancelsAt heard) (unlimited : training.settings.timeLimit = none)
    (made : Features.initial prepared.users.size prepared.ratings.byItem.toList
      training.settings.rank training.settings.seedInUse = .ok initial)
    (solved : rounds training.settings prepared initial training.settings.iterations =
      .ok (features, errors))
    (reached : Passes environment training false prepared (.solving phase) before)
    (failed : solvePhase environment training.settings prepared phase before = .error stopped) :
    stopped.state.events.toList.map Event.untimed =
        eventsBefore training.ratings heard (training.allEvents prepared errors) ∧
      firstPhaseAfter training.ratings heard (training.allEvents prepared errors) = some phase ∧
      stopped.failure = .error (.cancelled phase) ∧
      ∀ call ∈ stopped.state.calls, call.phase.place < phase.place := by
  have calm := cancels.runner
  have lawful := Phase.lawful_of_calm calm
  have within : phase.iteration < training.settings.iterations := within_of_passes reached
  have interrupted := interrupted_of_passes cancels reached
  obtain ⟨coherent, shaped⟩ := shaped_of_passes lawful reached
  obtain ⟨earlier, matrix, done⟩ :=
    half_of_rounds solved (abreast_of_lawful lawful made reached) within
  have set : before.cancelled = true := by
    by_contra clear
    exact unstopped_of_rounds calm unlimited made solved reached (Bool.eq_false_iff.mpr clear)
      failed
  obtain ⟨task, own⟩ := task_of_half done
  obtain ⟨failure, calls, rows⟩ := stopped_of_cancelled calm unlimited set own failed
  have count : phase.iteration < errors.length := by
    rw [length_of_rounds solved]
    exact within
  obtain ⟨rest, cut⟩ := rounds_events_cut prepared count
  have split : training.allEvents prepared errors = before.events.toList.map Event.untimed ++
      phaseEvent prepared phase :: (rest ++ [.finished .zero]) := by
    rw [allEvents, cut, (heard_of_passes lawful reached).events, earlier]
    simp only [List.append_assoc, List.cons_append]
  have ended : (phaseEvent prepared phase).solved? training.ratings = some phase := by
    rw [phaseEvent, Event.solved?, if_neg]
    rw [List.isEmpty_iff, ids_eq_nil_iff coherent shaped]
    exact rows
  have heard_before : heard < (before.events.toList.map Event.untimed).length := by
    rw [List.length_map, Array.length_toList]
    exact interrupted.flag.mp set
  obtain ⟨events, first⟩ :=
    cut_of_phase heard_before (harmless_of_interrupted interrupted) ended
  rw [split, (kept_of_phase_error failed).1, calls]
  exact ⟨events.symm, first, failure, earlier_of_passes lawful reached⟩

theorem done_while_heard {heard : Nat} {last : State α} (cancels : environment.CancelsAt heard)
    (reached : Passes environment training false prepared .done last) :
    firstPhaseAfter training.ratings heard
      (training.allEvents prepared last.errors.toList) = none := by
  have finished : Interrupted training.ratings heard
      (last.emit environment (.finished environment.elapsed)) :=
    interrupted_emit cancels (interrupted_of_passes cancels reached) fun _ => rfl
  rw [← events_of_done (Phase.lawful_of_calm cancels.runner) reached]
  exact List.findSome?_eq_none_iff.mpr (harmless_of_interrupted finished)

-- The same run twice: heard by one who never cancels, and by one who cancels at an event. The rows
-- may be solved in another order, too.
theorem run_cancelled_while_heard {quiet : Environment α} {model : Model α} {heard : Nat}
    (undisturbed : quiet.Undisturbed) (cancels : environment.CancelsAt heard)
    (unlimited : training.settings.timeLimit = none)
    (done : (run quiet training false).outcome = .ok model) :
    let events := (run quiet training false).events.map Event.untimed
    let interrupted := run environment training false
    match firstPhaseAfter training.ratings heard events with
    | some phase =>
        interrupted.outcome = .error (.error (.cancelled phase)) ∧
          interrupted.events.map Event.untimed = eventsBefore training.ratings heard events ∧
          ∀ call ∈ interrupted.calls, call.phase.place < phase.place
    | none =>
        interrupted.outcome = .ok model ∧ interrupted.events.map Event.untimed = events := by
  intro events interrupted
  have lawful := Phase.lawful_of_calm cancels.runner
  have quiet_lawful := lawful_of_undisturbed undisturbed
  obtain ⟨prepared, last, resolved, passes, rfl, ran⟩ := finished_of_ok quiet_lawful done
  obtain ⟨initial, made, reserved⟩ := started_of_passes passes
  have solved := abreast_of_lawful quiet_lawful made passes
  have all : events = training.allEvents prepared last.errors.toList := by
    simp only [events, ran]
    exact events_of_done quiet_lawful passes
  rw [all]
  rcases run_cases environment training false with ⟨error, failed, -⟩ | ⟨other, same, rest⟩
  · rw [resolved] at failed
    cases failed
  · cases resolved.symm.trans same
    rcases rest with ⟨fault, failed, -⟩ | ⟨stage, stopped, stops, own⟩ | ⟨ending, reached, own⟩
    · obtain ⟨state, started⟩ := start_of_initial environment false made reserved
      rw [started] at failed
      cases failed
    · obtain ⟨phase, before, rfl, reached, failed⟩ := stops_at_phase lawful stops
      obtain ⟨heard_until, first, failure, calls⟩ :=
        stopped_while_heard cancels unlimited made solved reached failed
      rw [first]
      simp only [interrupted, own]
      exact ⟨congrArg Except.error failure, heard_until, calls⟩
    · obtain ⟨features, errors⟩ := Prod.mk.inj
        (Except.ok.inj (solved.symm.trans (abreast_of_lawful lawful made reached)))
      have shown : Shaped prepared training.settings.rank
          (ending.emit environment (.finished environment.elapsed)).features :=
        (shaped_of_passes lawful reached).2
      rw [errors, done_while_heard cancels reached]
      simp only [interrupted, own]
      refine ⟨?_, events_of_done lawful reached⟩
      rw [result_eq_ok shown]
      simp only [State.toRun, Prepared.model, features, errors]
      rfl

end

theorem run_cancelled_while_heard_one_rating :
    let training : Training ℝ := ⟨.create 1 1 1 1, (Store.ofList [⟨1, 2, 3⟩]).toRatings, none⟩
    let environment : Environment ℝ :=
      { Environment.plain with observe := fun count _ => count == 0 }
    (Environment.plain : Environment ℝ).Undisturbed ∧ environment.CancelsAt 0 ∧
      training.settings.timeLimit = none ∧
      ∃ model, (run .plain training false).outcome = .ok model ∧
        let events := (run .plain training false).events.map Event.untimed
        let interrupted := run environment training false
        match firstPhaseAfter training.ratings 0 events with
        | some phase =>
            interrupted.outcome = .error (.error (.cancelled phase)) ∧
              interrupted.events.map Event.untimed = eventsBefore training.ratings 0 events ∧
              ∀ call ∈ interrupted.calls, call.phase.place < phase.place
        | none =>
            interrupted.outcome = .ok model ∧ interrupted.events.map Event.untimed = events := by
  intro training environment
  have undisturbed := undisturbed_plain (α := ℝ)
  have cancels : environment.CancelsAt 0 :=
    ⟨undisturbed.runner, fun _ below => absurd below (Nat.not_lt_zero _), fun _ => rfl⟩
  obtain ⟨model, done⟩ := ok_one_rating
  exact ⟨undisturbed, cancels, rfl, model, done,
    run_cancelled_while_heard undisturbed cancels rfl done⟩

end Training
end LatentFactor
