import LatentFactor.Proofs.Phase.InOrder
import LatentFactor.Proofs.Training.Step

set_option autoImplicit false

namespace LatentFactor.Training

variable {α : Type}

-- The rows may come in any order, but nobody cancels.
structure Environment.Undisturbed (environment : Environment α) : Prop where
  runner : ∀ task target cancelled, ∃ clock actions, .cancel ∉ actions ∧
    Phase.Possible clock task target cancelled (environment.runPhase task target cancelled) actions
  observer : ∀ count event, environment.observe count event = false

theorem lawful_of_undisturbed {environment : Environment α}
    (undisturbed : environment.Undisturbed) : Phase.Lawful environment.runPhase :=
  Phase.lawful_of_calm undisturbed.runner

theorem flag_of_outcome {environment : Environment α} {phase : Phase} {before : State α}
    {task : Phase.Task α} (calm : Phase.Calm environment.runPhase)
    (quiet : ∀ r, (task.solve r).cancels = false) :
    (environment.outcome phase before task).cancelled = before.cancelled := by
  obtain ⟨clock, actions, outside, possible⟩ :=
    calm task (before.features.bySide phase.side) before.cancelled
  exact Phase.flag_of_possible possible outside quiet

def Environment.plain : Environment α where
  runPhase := Phase.inOrder fun _ => ⟨.zero, fun _ => .zero, .zero⟩
  observe := fun _ _ => false
  elapsed := .zero

theorem undisturbed_plain : (Environment.plain : Environment α).Undisturbed where
  runner := fun task target cancelled => ⟨_, Phase.in_order_possible _ task target cancelled⟩
  observer := fun _ _ => rfl

variable [Scalar α]

theorem clear_of_start {environment : Environment α} {training : Training α}
    {prepared : Prepared α} {state : State α} (undisturbed : environment.Undisturbed)
    (started : start environment training prepared false = .ok state) :
    state.cancelled = false := by
  obtain ⟨features, -, -, rfl⟩ := start_eq_ok started
  refine emits_induction (fun state => state.cancelled = false) (fun event _ state clear => ?_) rfl
  simp only [State.emit, clear, undisturbed.observer, Bool.or_false]

theorem clear_of_passes {environment : Environment α} {training : Training α}
    {prepared : Prepared α} {stage : Stage} {state : State α}
    (undisturbed : environment.Undisturbed)
    (passes : Passes environment training false prepared stage state) :
    state.cancelled = false := by
  have lawful := lawful_of_undisturbed undisturbed
  induction passes with
  | start state _ started => exact clear_of_start undisturbed started
  | step stage before after earlier advanced clear =>
      cases stage with
      | solving phase =>
          obtain ⟨task, elapsed, made, -, rfl⟩ := solve_phase_eq_ok lawful advanced
          obtain ⟨update, -, -, -, solves⟩ := task_eq_ok made
          have flag : (environment.outcome phase before task).cancelled = before.cancelled :=
            flag_of_outcome undisturbed.runner fun r => by rw [solves r]
          simp only [State.emit, State.absorb, flag, clear, undisturbed.observer, Bool.or_false]
      | measuring iteration =>
          obtain ⟨coherent, shaped⟩ := shaped_of_passes lawful earlier
          rw [advance, evaluate_eq_ok coherent shaped] at advanced
          cases advanced
          simp only [State.emit, State.record, clear, undisturbed.observer, Bool.or_false]
      | done =>
          cases advanced
          exact clear

theorem unsolved_of_error {environment : Environment α} {prepared : Prepared α} {phase : Phase}
    {before : State α} {task : Phase.Task α} {update : RowUpdate α}
    (calm : Phase.Calm environment.runPhase) (unlimited : task.limit = none)
    (clear : before.cancelled = false)
    (solves : ∀ r, task.solve r =
      ⟨false, solveRow update (prepared.ratings.bySide phase.side) r⟩)
    (widths : ∀ r row, (task.solve r).result = .ok row →
      row.length = (before.features.bySide phase.side).cols)
    {failure : Failure α}
    (failed : (environment.outcome phase before task).result = .error failure) :
    ∃ r < (before.features.bySide phase.side).size,
      solveRow update (prepared.ratings.bySide phase.side) r = .error failure := by
  obtain ⟨clock, actions, outside, possible⟩ :=
    calm task (before.features.bySide phase.side) before.cancelled
  rcases Phase.met_of_error possible failed with overrun | met
  · exact absurd overrun (Phase.not_overrun unlimited)
  · cases met with
    | cancelled set => simp [Phase.Flagged, clear, outside, solves] at set
    | timedOut r expired => simp [Phase.Task.expired, unlimited] at expired
    | unsolved r _ called answer =>
        rw [solves r] at answer
        exact ⟨r, Phase.lt_size_of_called possible called, answer⟩
    | misfit r row _ answer differ => exact absurd (widths r row answer) differ

end LatentFactor.Training
