import LatentFactor.Proofs.Training.Cancellation
import LatentFactor.Proofs.Training.Faults

set_option autoImplicit false

namespace LatentFactor

variable {α : Type}

theorem Phase.side_eq_of_place {phase other : Phase} (same : phase.place = other.place) :
    phase.side = other.side := by
  obtain ⟨iteration, side⟩ := phase
  obtain ⟨round, counterpart⟩ := other
  cases side <;> cases counterpart <;> simp only [Phase.place] at same ⊢ <;> omega

namespace Ratings

def firstPhase (source : Ratings α) : Option Phase :=
  ([.user, .item].find? fun side => !(source.ids side).isEmpty).map (Phase.mk 0)

theorem first_phase_eq_none_iff {source : Ratings α} :
    source.firstPhase = none ↔ ∀ side, source.ids side = [] := by
  rw [firstPhase, Option.map_eq_none_iff, List.find?_eq_none]
  constructor
  · intro rowless side
    have listed : side ∈ [Side.user, Side.item] := by
      cases side <;> decide
    simpa using rowless side listed
  · intro rowless side _
    simp [rowless side]

theorem first_phase_eq_some_iff {source : Ratings α} {phase : Phase} :
    source.firstPhase = some phase ↔
      source.ids phase.side ≠ [] ∧
        ∀ other : Phase, other.place < phase.place → source.ids other.side = [] := by
  have first : source.firstPhase =
      if source.userIds = [] then
        if source.itemIds = [] then none else some ⟨0, .item⟩
      else some ⟨0, .user⟩ := by
    by_cases users : source.userIds = []
    · by_cases items : source.itemIds = []
      · simp [firstPhase, ids, users, items]
      · simp [firstPhase, ids, users, items]
    · simp [firstPhase, ids, users]
  constructor
  · intro found
    rw [first] at found
    split at found
    · rename_i users
      split at found
      · cases found
      · rename_i items
        cases found
        refine ⟨items, fun other earlier => ?_⟩
        obtain ⟨iteration, side⟩ := other
        cases side with
        | user => exact users
        | item => simp [Phase.place] at earlier
    · rename_i users
      cases found
      exact ⟨users, fun other earlier => absurd earlier (Nat.not_lt_zero _)⟩
  · rintro ⟨rows, earlier⟩
    obtain ⟨iteration, side⟩ := phase
    rw [first]
    cases side with
    | user =>
        have users : source.userIds ≠ [] := rows
        rw [if_neg users]
        cases iteration with
        | zero => rfl
        | succ iteration =>
            exact absurd (earlier ⟨0, .user⟩ (by simp [Phase.place])) users
    | item =>
        have items : source.itemIds ≠ [] := rows
        have users : source.userIds = [] :=
          earlier ⟨0, .user⟩ (by simp [Phase.place])
        rw [if_pos users, if_neg items]
        cases iteration with
        | zero => rfl
        | succ iteration =>
            exact absurd (earlier ⟨0, .item⟩ (by simp [Phase.place])) items

end Ratings

namespace Training

-- How a run ends that starts cancelled.
inductive Refused (training : Training α) (runner : Phase.Runner α) :
    Except (Failure α) (Model α) → Prop where
  | cancelled (phase : Phase) (first : training.ratings.firstPhase = some phase) :
      Refused training runner (.error (.error (.cancelled phase)))
  | late (phase : Phase) (limit elapsed : Duration)
      (limited : training.settings.timeLimit = some limit)
      (exceeded : limit.nanoseconds < elapsed.nanoseconds)
      (before : ∀ first, training.ratings.firstPhase = some first → phase.place < first.place) :
      Refused training runner (.error (.error (.timedOut phase elapsed)))
  | faulted (fault : Fault) (excused : training.Excuses runner fault) :
      Refused training runner (.error (.fault fault))
  | rowless (model : Model α) (none : training.ratings.firstPhase = none) :
      Refused training runner (.ok model)

section

variable {training : Training α} {runner : Phase.Runner α}
  {outcome : Except (Failure α) (Model α)}

theorem cancelled_of_refused (refused : training.Refused runner outcome)
    (roomy : training.Roomy) (timely : Phase.Timely runner training.settings.timeLimit)
    (users : training.ratings.userIds ≠ []) :
    outcome = .error (.error (.cancelled ⟨0, .user⟩)) := by
  have own : training.ratings.firstPhase = some ⟨0, .user⟩ :=
    Ratings.first_phase_eq_some_iff.mpr
      ⟨users, fun _ earlier => absurd earlier (Nat.not_lt_zero _)⟩
  cases refused with
  | cancelled phase first =>
      rw [own] at first
      cases first
      rfl
  | late phase limit elapsed limited exceeded before =>
      exact absurd (before _ own) (Nat.not_lt_zero _)
  | faulted fault excused => exact absurd excused (not_excused roomy timely)
  | rowless model none =>
      rw [own] at none
      cases none

theorem outcome_of_refused (refused : training.Refused runner outcome)
    (roomy : training.Roomy) (timely : Phase.Timely runner training.settings.timeLimit)
    (unlimited : training.settings.timeLimit = none) :
    match training.ratings.firstPhase with
    | some phase => outcome = .error (.error (.cancelled phase))
    | none => ∃ model, outcome = .ok model := by
  cases refused with
  | cancelled phase first => rw [first]
  | late phase limit elapsed limited =>
      rw [unlimited] at limited
      cases limited
  | faulted fault excused => exact absurd excused (not_excused roomy timely)
  | rowless model none =>
      rw [none]
      exact ⟨model, rfl⟩

end

-- A run that was cancelled before it started, at one of its stages.
structure Idle (training : Training α) (stage : Stage) (state : State α) : Prop where
  flag : state.cancelled = true
  calls : state.calls = []
  earlier : ∀ phase : Phase, phase.place < stage.place training.settings.iterations →
    training.ratings.ids phase.side = []

theorem idle_emit {environment : Environment α} {training : Training α} {stage : Stage}
    {state : State α} {event : Event α} (idle : Idle training stage state) :
    Idle training stage (state.emit environment event) where
  flag := by
    rw [State.emit, idle.flag]
    rfl
  calls := idle.calls
  earlier := idle.earlier

theorem untouched_of_outcome {environment : Environment α} {phase : Phase} {before : State α}
    {task : Phase.Task α} (lawful : Phase.Lawful environment.runPhase)
    (set : before.cancelled = true) (uncalled : before.calls = []) :
    (before.absorb phase (environment.outcome phase before task)).cancelled = true ∧
      (before.absorb phase (environment.outcome phase before task)).calls = [] := by
  obtain ⟨clock, actions, possible⟩ :=
    lawful task (before.features.bySide phase.side) before.cancelled
  rw [set] at possible
  obtain ⟨flag, calls⟩ := Phase.untouched_of_cancelled possible
  rw [Environment.outcome, set]
  refine ⟨flag, ?_⟩
  rw [State.absorb, calls, uncalled]
  rfl

variable [Scalar α]

section

variable {environment : Environment α} {training : Training α} {prepared : Prepared α}

theorem untouched_of_phase_error {phase : Phase} {before : State α} {stopped : Stopped α}
    (lawful : Phase.Lawful environment.runPhase) (set : before.cancelled = true)
    (uncalled : before.calls = [])
    (failed : solvePhase environment training.settings prepared phase before = .error stopped) :
    stopped.state.cancelled = true ∧ stopped.state.calls = [] := by
  rcases solve_phase_eq_error failed with ⟨fault, -, rfl⟩ | ⟨task, -, -, state⟩
  · exact ⟨set, uncalled⟩
  · rw [state]
    exact untouched_of_outcome lawful set uncalled

theorem idle_of_passes {stage : Stage} {state : State α}
    (lawful : Phase.Lawful environment.runPhase)
    (passes : Passes environment training true prepared stage state) :
    Idle training stage state := by
  induction passes with
  | start state _ started =>
      obtain ⟨features, -, -, rfl⟩ := start_eq_ok started
      have unreached : ∀ phase : Phase,
          phase.place < (Stage.ofIteration training.settings.iterations 0).place
            training.settings.iterations → training.ratings.ids phase.side = [] := by
        intro phase earlier
        rw [Stage.place_of_iteration (Nat.zero_le _)] at earlier
        exact absurd earlier (Nat.not_lt_zero _)
      refine emits_induction (Idle training _) ?_ ⟨rfl, rfl, unreached⟩
      exact fun event _ state idle => idle_emit idle
  | step stage before after passed advanced idle =>
      obtain ⟨coherent, shaped⟩ := shaped_of_passes lawful passed
      cases stage with
      | solving phase =>
          have rowless := rowless_of_cancelled lawful idle.flag coherent shaped advanced
          obtain ⟨task, elapsed, -, -, rfl⟩ := solve_phase_eq_ok lawful advanced
          obtain ⟨flag, calls⟩ := untouched_of_outcome lawful idle.flag idle.calls
          refine idle_emit ⟨flag, calls, fun other earlier => ?_⟩
          rw [Stage.place_next_phase] at earlier
          rcases Nat.lt_succ_iff_lt_or_eq.mp earlier with before | same
          · exact idle.earlier other before
          · rw [Phase.side_eq_of_place same]
            exact rowless
      | measuring iteration =>
          rw [advance, evaluate_eq_ok coherent shaped] at advanced
          cases advanced
          refine idle_emit ⟨idle.flag, idle.calls, ?_⟩
          rw [Stage.next, Stage.place_of_iteration (within_of_passes passed)]
          exact idle.earlier
      | done =>
          cases advanced
          exact idle

theorem refused_of_phase {phase : Phase} {before : State α} {stopped : Stopped α}
    (lawful : Phase.Lawful environment.runPhase) (coherent : training.Coherent prepared)
    (shaped : Shaped prepared training.settings.rank before.features)
    (idle : Idle training (.solving phase) before)
    (failed : solvePhase environment training.settings prepared phase before = .error stopped) :
    training.Refused environment.runPhase (.error stopped.failure) := by
  cases ending : stopped.failure with
  | fault fault => exact .faulted fault (excused_of_phase lawful coherent shaped failed ending)
  | error error =>
      rcases solve_phase_eq_error failed with ⟨fault, -, rfl⟩ | ⟨task, made, ended, -⟩
      · cases ending
      · obtain ⟨update, -, same, limit, -⟩ := task_eq_ok made
        obtain ⟨clock, actions, possible⟩ :=
          lawful task (before.features.bySide phase.side) before.cancelled
        rw [ending] at ended
        rw [Environment.outcome, idle.flag] at ended
        rw [idle.flag] at possible
        by_cases rows : (before.features.bySide phase.side).size = 0
        · obtain ⟨rfl, late⟩ := Phase.overrun_of_no_rows possible rows ended
          rw [same]
          have rowless := (ids_eq_nil_iff coherent shaped phase.side).mpr rows
          obtain ⟨bound, limited, exceeded⟩ := (Option.any_eq_true _ _).mp late
          refine .late phase bound clock.finish (limit.symm.trans limited)
            (of_decide_eq_true exceeded) fun first own => ?_
          obtain ⟨rated, -⟩ := Ratings.first_phase_eq_some_iff.mp own
          rcases Nat.lt_trichotomy phase.place first.place with earlier | here | later
          · exact earlier
          · rw [Phase.side_eq_of_place here] at rowless
            exact absurd rowless rated
          · exact absurd (idle.earlier first later) rated
        · have rated := mt (ids_eq_nil_iff coherent shaped phase.side).mp rows
          rcases Phase.ending_of_cancelled possible rows with ⟨-, overflow⟩ | cancelled
          · rw [overflow] at ended
            cases ended
          · rw [cancelled] at ended
            cases ended
            rw [same]
            exact .cancelled phase (Ratings.first_phase_eq_some_iff.mpr ⟨rated, idle.earlier⟩)

theorem untouched_of_run (training : Training α) (lawful : Phase.Lawful environment.runPhase) :
    (run environment training true).cancelled = true ∧
      (run environment training true).calls = [] := by
  rcases run_cases environment training true with ⟨error, -, ran⟩ | ⟨prepared, -, rest⟩
  · rw [ran]
    exact ⟨rfl, rfl⟩
  · rcases rest with ⟨fault, -, ran⟩ | ⟨stage, stopped, stops, ran⟩ | ⟨last, passes, ran⟩
    · rw [ran]
      exact ⟨rfl, rfl⟩
    · obtain ⟨phase, before, -, passes, failed⟩ := stops_at_phase lawful stops
      have idle := idle_of_passes lawful passes
      rw [ran]
      exact untouched_of_phase_error lawful idle.flag idle.calls failed
    · have idle := idle_of_passes lawful passes
      rw [ran]
      exact ⟨(idle_emit idle).flag, idle.calls⟩

theorem refused_of_run (lawful : Phase.Lawful environment.runPhase)
    (valid : (training.settings.check : Except (Error α) Unit) = .ok ())
    (resolves : training.ratings.Resolves) (readable : training.Readable) :
    training.Refused environment.runPhase (run environment training true).outcome := by
  obtain ⟨ranked, -, trained, staffed, -⟩ := Settings.check_eq_ok_iff.mp valid
  obtain ⟨ready, resolved⟩ := Ratings.exists_prepare_of_resolves resolves readable staffed
  rcases run_cases environment training true with ⟨error, failed, -⟩ | ⟨prepared, again, rest⟩
  · rw [resolved] at failed
    cases failed
  · have coherent := coherent_of_prepare again
    rcases rest with ⟨fault, failed, ran⟩ | ⟨stage, stopped, stops, ran⟩ | ⟨last, passes, ran⟩
    · rw [ran]
      exact .faulted fault (excused_of_start coherent ranked failed)
    · obtain ⟨phase, before, -, passes, failed⟩ := stops_at_phase lawful stops
      rw [ran]
      exact refused_of_phase lawful coherent (shaped_of_passes lawful passes).2
        (idle_of_passes lawful passes) failed
    · have idle := idle_of_passes lawful passes
      have shown : Shaped prepared training.settings.rank
          (last.emit environment (.finished environment.elapsed)).features :=
        (shaped_of_passes lawful passes).2
      rw [ran, result_eq_ok shown]
      -- Both phases of the first iteration lie behind.
      refine .rowless _ (Ratings.first_phase_eq_none_iff.mpr fun side => ?_)
      refine idle.earlier ⟨0, side⟩ ?_
      cases side with
      | user | item =>
          simp only [Phase.place, Stage.place]
          omega

end

inductive Turn (α : Type) where
  | run (environment : Environment α)
  | cancel

def Turn.Lawful : Turn α → Prop
  | .run environment => Phase.Lawful environment.runPhase
  | .cancel => True

def Command.turn (environment : Environment α) : Command → Turn α
  | .run => .run environment
  | .cancel => .cancel

def Turn.flag (training : Training α) (flag : Bool) : Turn α → Bool
  | .run environment => (Training.run environment training flag).cancelled
  | .cancel => true

def flagAfter (training : Training α) (flag : Bool) (turns : List (Turn α)) : Bool :=
  turns.foldl (Turn.flag training) flag

-- A session in which no two runs need to meet the same surroundings.
def turns (training : Training α) : Bool → List (Turn α) → List (Run α)
  | _, [] => []
  | _, .cancel :: rest => turns training true rest
  | flag, .run environment :: rest =>
      let done := run environment training flag
      done :: turns training done.cancelled rest

theorem session_eq_turns (environment : Environment α) (training : Training α) (flag : Bool)
    (commands : List Command) :
    session environment training flag commands =
      turns training flag (commands.map (Command.turn environment)) := by
  induction commands generalizing flag with
  | nil => rfl
  | cons command commands ih =>
      cases command with
      | run => exact congrArg (_ :: ·) (ih _)
      | cancel => exact ih true

theorem turns_append (training : Training α) (flag : Bool) (earlier later : List (Turn α)) :
    turns training flag (earlier ++ later) =
      turns training flag earlier ++
        turns training (flagAfter training flag earlier) later := by
  induction earlier generalizing flag with
  | nil => rfl
  | cons turn earlier ih =>
      cases turn with
      | run environment => exact congrArg (_ :: ·) (ih _)
      | cancel => exact ih true

theorem flag_after_set (training : Training α) {turns : List (Turn α)}
    (lawful : ∀ turn ∈ turns, turn.Lawful) : flagAfter training true turns = true := by
  induction turns with
  | nil => rfl
  | cons turn turns ih =>
      obtain ⟨own, others⟩ := List.forall_mem_cons.mp lawful
      have set : turn.flag training true = true := by
        cases turn with
        | run environment => exact (untouched_of_run training own).1
        | cancel => rfl
      rw [flagAfter, List.foldl_cons, set]
      exact ih others

theorem flag_after_cancel (training : Training α) (flag : Bool) {turns : List (Turn α)}
    (lawful : ∀ turn ∈ turns, turn.Lawful) (cancelled : .cancel ∈ turns) :
    flagAfter training flag turns = true := by
  obtain ⟨before, after, rfl⟩ := List.append_of_mem cancelled
  rw [flagAfter, List.foldl_append]
  exact flag_after_set training fun turn member =>
    lawful turn (List.mem_append_right _ (List.mem_cons_of_mem _ member))

/-- A run that comes after a cancellation finds the flag set, leaves it set and solves no row. With
users it is cancelled in its first phase, whatever its time limit. -/
theorem refused_after_cancel (training : Training α) (environment : Environment α)
    (earlier later : List (Turn α))
    (valid : (training.settings.check : Except (Error α) Unit) = .ok ())
    (resolves : training.ratings.Resolves) (readable : training.Readable)
    (lawful : ∀ turn ∈ earlier ++ .run environment :: later, turn.Lawful)
    (cancelled : .cancel ∈ earlier) :
    let done := run environment training true
    turns training false (earlier ++ .run environment :: later) =
        turns training false earlier ++ done :: turns training true later ∧
      (∀ more, (∀ turn ∈ more, turn.Lawful) → flagAfter training true more = true) ∧
      done.calls = [] ∧ training.Refused environment.runPhase done.outcome ∧
      (training.Roomy → Phase.Timely environment.runPhase training.settings.timeLimit →
        (training.ratings.userIds ≠ [] →
          done.outcome = .error (.error (.cancelled ⟨0, .user⟩))) ∧
        (training.settings.timeLimit = none →
          match training.ratings.firstPhase with
          | some phase => done.outcome = .error (.error (.cancelled phase))
          | none => ∃ model, done.outcome = .ok model)) := by
  intro done
  obtain ⟨before, own, -⟩ : (∀ turn ∈ earlier, turn.Lawful) ∧
      (Turn.run environment).Lawful ∧ ∀ turn ∈ later, turn.Lawful := by
    simpa only [List.forall_mem_append, List.forall_mem_cons] using lawful
  obtain ⟨flag, calls⟩ := untouched_of_run training own
  have refused := refused_of_run own valid resolves readable
  refine ⟨?_, fun more => flag_after_set training, calls, refused, fun roomy timely =>
    ⟨cancelled_of_refused refused roomy timely, outcome_of_refused refused roomy timely⟩⟩
  rw [turns_append, flag_after_cancel training false before cancelled, turns, flag]

theorem refused_after_cancel_one_rating :
    let training : Training ℝ := ⟨.create 1 1 1 1, (Store.ofList [⟨1, 2, 3⟩]).toRatings, none⟩
    let refused := run .plain training true
    (training.settings.check : Except (Error ℝ) Unit) = .ok () ∧
      training.ratings.Resolves ∧ training.Readable ∧
      refused.calls = [] ∧ refused.outcome = .error (.error (.cancelled ⟨0, .user⟩)) ∧
      turns training false [.run .plain, .cancel, .run .plain, .run .plain] =
        [run .plain training false, refused, refused] := by
  intro training refused
  have built : (Store.ofList [(⟨1, 2, 3⟩ : Rating ℝ)]).Built := .ofList _
  have resolves := Ratings.resolves_of_agrees (Store.agrees_of_built built).1
  have readable : training.Readable := nofun
  have lawful : Phase.Lawful (Environment.plain : Environment ℝ).runPhase :=
    lawful_of_undisturbed undisturbed_plain
  have one : ∀ side, training.ratings.ids side = [(⟨1, 2, 3⟩ : Rating ℝ).id side] := fun side =>
    Store.ids_of_list_singleton ⟨1, 2, 3⟩ side
  have roomy : training.Roomy := ⟨(accommodates_singleton rfl (by decide)).affords, by decide⟩
  have users : training.ratings.userIds ≠ [] := by
    have listed : training.ratings.userIds = [1] := one .user
    rw [listed]
    exact List.cons_ne_nil _ _
  obtain ⟨split, -, calls, -, ending⟩ := refused_after_cancel training .plain [.run .plain, .cancel]
    [.run .plain] check_ones resolves readable (by simp [Turn.Lawful, lawful]) (by simp)
  refine ⟨check_ones, resolves, readable, calls,
    (ending roomy (Phase.timely_of_unlimited lawful)).1 users, ?_⟩
  refine split.trans ?_
  rfl

-- Without rows a run succeeds that should have been cancelled.
theorem ok_after_cancel_no_rows :
    let training : Training ℝ := ⟨.create 1 1 1 1, (Store.ofList []).toRatings, none⟩
    ∃ done model, session .plain training false [.cancel, .run] = [done] ∧
      done.outcome = .ok model := by
  intro training
  have built : (Store.ofList ([] : List (Rating ℝ))).Built := .ofList _
  have resolves := Ratings.resolves_of_agrees (Store.agrees_of_built built).1
  have readable : training.Readable := nofun
  have lawful : Phase.Lawful (Environment.plain : Environment ℝ).runPhase :=
    lawful_of_undisturbed undisturbed_plain
  have rowless : ∀ side, training.ratings.ids side = [] := by
    intro side
    cases side with
    | user | item => rfl
  have roomy : training.Roomy :=
    ⟨affords_of_rowless rowless (by decide) (by decide), by decide⟩
  have ending := outcome_of_refused (refused_of_run lawful check_ones resolves readable) roomy
    (Phase.timely_of_unlimited lawful) rfl
  rw [Ratings.first_phase_eq_none_iff.mpr rowless] at ending
  obtain ⟨model, done⟩ := ending
  exact ⟨run .plain training true, model, rfl, done⟩

end Training
end LatentFactor
