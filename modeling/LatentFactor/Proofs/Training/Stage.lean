import LatentFactor.Proofs.Sequence
import LatentFactor.Training

set_option autoImplicit false

namespace LatentFactor

-- The number of a phase in the order in which a run comes to its phases.
def Phase.place (phase : Phase) : Nat :=
  match phase.side with
  | .user => 2 * phase.iteration
  | .item => 2 * phase.iteration + 1

namespace Training

inductive Stage where
  | solving (phase : Phase)
  | measuring (iteration : Nat)
  | done
deriving DecidableEq, Repr

namespace Stage

def ofIteration (iterations iteration : Nat) : Stage :=
  if iteration < iterations then .solving ⟨iteration, .user⟩ else .done

def next (iterations : Nat) : Stage → Stage
  | .solving ⟨iteration, .user⟩ => .solving ⟨iteration, .item⟩
  | .solving ⟨iteration, .item⟩ => .measuring iteration
  | .measuring iteration => ofIteration iterations (iteration + 1)
  | .done => .done

def completed (iterations : Nat) : Stage → Nat
  | .solving phase => phase.iteration
  | .measuring iteration => iteration
  | .done => iterations

def place (iterations : Nat) : Stage → Nat
  | .solving phase => phase.place
  | .measuring iteration => 2 * iteration + 2
  | .done => 2 * iterations

def Within (iterations : Nat) : Stage → Prop
  | .solving phase => phase.iteration < iterations
  | .measuring iteration => iteration < iterations
  | .done => True

theorem within_of_iteration (iterations iteration : Nat) :
    (ofIteration iterations iteration).Within iterations := by
  unfold ofIteration
  by_cases under : iteration < iterations
  · rw [if_pos under]
    exact under
  · rw [if_neg under]
    trivial

theorem within_next {iterations : Nat} {stage : Stage} (within : stage.Within iterations) :
    (stage.next iterations).Within iterations := by
  cases stage with
  | solving phase =>
      obtain ⟨iteration, side⟩ := phase
      cases side with
      | user => exact within
      | item => exact within
  | measuring iteration => exact within_of_iteration iterations (iteration + 1)
  | done => exact within

theorem completed_of_iteration {iterations iteration : Nat} (within : iteration ≤ iterations) :
    (ofIteration iterations iteration).completed iterations = iteration := by
  unfold ofIteration
  by_cases under : iteration < iterations
  · rw [if_pos under]
    rfl
  · rw [if_neg under]
    exact Nat.le_antisymm (Nat.le_of_not_lt under) within

theorem place_of_iteration {iterations iteration : Nat} (within : iteration ≤ iterations) :
    (ofIteration iterations iteration).place iterations = 2 * iteration := by
  unfold ofIteration
  by_cases under : iteration < iterations
  · rw [if_pos under]
    rfl
  · rw [if_neg under, Nat.le_antisymm within (Nat.le_of_not_lt under)]
    rfl

theorem place_next_phase (iterations : Nat) (phase : Phase) :
    ((Stage.solving phase).next iterations).place iterations = phase.place + 1 := by
  obtain ⟨iteration, side⟩ := phase
  cases side with
  | user | item => rfl

end Stage

variable {α : Type} [Scalar α]

def advance (environment : Environment α) (settings : Settings α) (prepared : Prepared α)
    (state : State α) : Stage → Except (Stopped α) (State α)
  | .solving phase => solvePhase environment settings prepared phase state
  | .measuring iteration => evaluate environment prepared iteration state
  | .done => .ok state

/-- The stages that a run comes to, each with its state at that moment. -/
inductive Passes (environment : Environment α) (training : Training α) (cancelled : Bool)
    (prepared : Prepared α) : Stage → State α → Prop where
  | start (state : State α) (resolved : training.prepare = .ok prepared)
      (started : start environment training prepared cancelled = .ok state) :
      Passes environment training cancelled prepared
        (.ofIteration training.settings.iterations 0) state
  | step (stage : Stage) (before after : State α)
      (earlier : Passes environment training cancelled prepared stage before)
      (advanced : advance environment training.settings prepared before stage = .ok after) :
      Passes environment training cancelled prepared
        (stage.next training.settings.iterations) after

def StopsAt (environment : Environment α) (training : Training α) (cancelled : Bool)
    (prepared : Prepared α) (stage : Stage) (stopped : Stopped α) : Prop :=
  ∃ state, Passes environment training cancelled prepared stage state ∧
    advance environment training.settings prepared state stage = .error stopped

section

variable {environment : Environment α} {training : Training α} {cancelled : Bool}
  {prepared : Prepared α}

theorem within_of_passes {stage : Stage} {state : State α}
    (passes : Passes environment training cancelled prepared stage state) :
    stage.Within training.settings.iterations := by
  induction passes with
  | start state _ _ => exact Stage.within_of_iteration _ 0
  | step stage before after _ _ ih => exact Stage.within_next ih

theorem passes_of_iterate {iteration : Nat} {state last : State α}
    (passes : Passes environment training cancelled prepared (.solving ⟨iteration, .user⟩) state)
    (done : iterate environment training.settings prepared iteration state = .ok last) :
    Passes environment training cancelled prepared
      (.ofIteration training.settings.iterations (iteration + 1)) last := by
  obtain ⟨second, users, rest⟩ := bind_eq_ok_iff.mp done
  obtain ⟨third, items, measured⟩ := bind_eq_ok_iff.mp rest
  have afterUsers := Passes.step _ state second passes users
  have afterItems := Passes.step _ second third afterUsers items
  exact Passes.step _ third last afterItems measured

theorem stops_of_iterate {iteration : Nat} {state : State α} {stopped : Stopped α}
    (passes : Passes environment training cancelled prepared (.solving ⟨iteration, .user⟩) state)
    (failed : iterate environment training.settings prepared iteration state = .error stopped) :
    ∃ stage, StopsAt environment training cancelled prepared stage stopped := by
  rcases bind_eq_error_iff.mp failed with users | ⟨second, users, rest⟩
  · exact ⟨_, state, passes, users⟩
  · have afterUsers := Passes.step _ state second passes users
    rcases bind_eq_error_iff.mp rest with items | ⟨third, items, measured⟩
    · exact ⟨_, second, afterUsers, items⟩
    · exact ⟨_, third, Passes.step _ second third afterUsers items, measured⟩

theorem iterations_cases (count iteration : Nat) {state : State α}
    (total : iteration + count = training.settings.iterations)
    (passes : Passes environment training cancelled prepared
      (.ofIteration training.settings.iterations iteration) state) :
    (∃ last, iterations environment training.settings prepared count iteration state = .ok last ∧
      Passes environment training cancelled prepared .done last) ∨
    (∃ stage stopped, iterations environment training.settings prepared count iteration state =
        .error stopped ∧ StopsAt environment training cancelled prepared stage stopped) := by
  induction count generalizing iteration state with
  | zero =>
      have past : ¬iteration < training.settings.iterations := by omega
      rw [Stage.ofIteration, if_neg past] at passes
      exact .inl ⟨state, rfl, passes⟩
  | succ count ih =>
      have under : iteration < training.settings.iterations := by omega
      rw [Stage.ofIteration, if_pos under] at passes
      rw [iterations]
      cases round : iterate environment training.settings prepared iteration state with
      | ok next => exact ih (iteration + 1) (by omega) (passes_of_iterate passes round)
      | error stopped =>
          obtain ⟨stage, stops⟩ := stops_of_iterate passes round
          exact .inr ⟨stage, stopped, rfl, stops⟩

theorem run_cases (environment : Environment α) (training : Training α) (cancelled : Bool) :
    (∃ error, training.prepare = .error error ∧
      run environment training cancelled = .unstarted (.error error) cancelled) ∨
    ∃ prepared, training.prepare = .ok prepared ∧
      ((∃ fault, start environment training prepared cancelled = .error fault ∧
          run environment training cancelled = .unstarted (.fault fault) cancelled) ∨
        (∃ stage stopped, StopsAt environment training cancelled prepared stage stopped ∧
          run environment training cancelled =
            stopped.state.toRun (.error stopped.failure)) ∨
        ∃ last, Passes environment training cancelled prepared .done last ∧
          run environment training cancelled =
            (last.emit environment (.finished environment.elapsed)).toRun
              ((result prepared (last.emit environment (.finished environment.elapsed))).mapError
                .error)) := by
  unfold run
  cases resolved : training.prepare with
  | error error => exact .inl ⟨error, rfl, rfl⟩
  | ok prepared =>
      refine .inr ⟨prepared, rfl, ?_⟩
      cases started : start environment training prepared cancelled with
      | error fault =>
          simp only [started]
          exact .inl ⟨fault, rfl, rfl⟩
      | ok state =>
          simp only [started]
          have passes := Passes.start state resolved started
          rcases iterations_cases training.settings.iterations 0 (Nat.zero_add _) passes with
            ⟨last, done, there⟩ | ⟨stage, stopped, failed, stops⟩
          · rw [done]
            exact .inr (.inr ⟨last, there, rfl⟩)
          · rw [failed]
            exact .inr (.inl ⟨stage, stopped, stops, rfl⟩)

theorem run_of_first_stopped {first : State α} {stopped : Stopped α}
    (resolved : training.prepare = .ok prepared)
    (started : start environment training prepared cancelled = .ok first)
    (trained : training.settings.iterations ≠ 0)
    (failed : solvePhase environment training.settings prepared ⟨0, .user⟩ first =
      .error stopped) :
    run environment training cancelled = stopped.state.toRun (.error stopped.failure) := by
  obtain ⟨more, counted⟩ := Nat.exists_eq_succ_of_ne_zero trained
  have stops : iterations environment training.settings prepared training.settings.iterations 0
      first = .error stopped := by
    rw [counted, iterations, iterate, failed]
    rfl
  simp only [run, resolved, started, stops]

end
end Training
end LatentFactor
