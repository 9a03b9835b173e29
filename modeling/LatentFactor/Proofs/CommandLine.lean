import LatentFactor.CommandLine
import LatentFactor.Proofs.Training.Stage

set_option autoImplicit false

namespace LatentFactor.CommandLine

open Training (Stopped)

variable {m : Type → Type} [Monad m]

/-- Programs that show these events in this order, each with a time of its own, and do nothing else
but read the clock. -/
inductive Shows (host : Host m) {β : Type} (result : β) : List (Event Float) → m β → Prop where
  | ends : Shows host result [] (pure result)
  | reads (events : List (Event Float)) (rest : Nat → m β)
      (later : ∀ now, Shows host result events (rest now)) :
      Shows host result events (host.now >>= rest)
  | shows (elapsed : Duration) (event : Event Float) (events : List (Event Float)) (rest : m β)
      (later : Shows host result events rest) :
      Shows host result (event :: events) (host.showEvents elapsed [event] >>= fun _ => rest)

variable [LawfulMonad m] {host : Host m}

theorem run_lift_bind {β γ : Type} (action : m γ) (next : γ → Program m β) :
    ((liftM action : Program m γ) >>= next).run = action >>= fun c => (next c).run := by
  rw [ExceptT.run_bind]
  change (ExceptT.lift action).run >>= _ = _
  rw [ExceptT.run_lift, map_eq_pure_bind, bind_assoc]
  simp only [pure_bind]

section

variable {β γ : Type} {result : β} {early late : List (Event Float)}

theorem shows_bind {c : γ} {program : m γ} {next : γ → m β} (first : Shows host c early program)
    (rest : Shows host result late (next c)) :
    Shows host result (early ++ late) (program >>= next) := by
  induction first with
  | ends =>
      rw [pure_bind]
      exact rest
  | reads events before _ ih =>
      rw [bind_assoc]
      exact .reads _ _ ih
  | shows elapsed event events before _ ih =>
      rw [bind_assoc]
      exact .shows elapsed event _ _ ih

theorem shows_events (elapsed : Duration) (events : List (Event Float)) :
    Shows host () events (host.showEvents elapsed events) := by
  induction events with
  | nil => exact .ends
  | cons event events ih =>
      have split : host.showEvents elapsed (event :: events) =
          host.showEvents elapsed [event] >>= fun _ => host.showEvents elapsed events := by
        simp [Host.showEvents]
      rw [split]
      exact .shows elapsed event events _ ih

theorem shows_since {begun : Nat} {next : Duration → m β}
    (rest : ∀ elapsed, Shows host result late (next elapsed)) :
    Shows host result late (host.since begun >>= next) := by
  rw [Host.since, bind_assoc]
  simp only [pure_bind]
  exact .reads _ _ fun now => rest _

theorem shows_then_ends {c : γ} {program : m γ} (first : Shows host c early program) :
    Shows host result early (program >>= fun _ => pure result) := by
  rw [← List.append_nil early]
  exact shows_bind first .ends

theorem shows_of_lift {c : γ} {action : m γ} {next : γ → Program m β}
    {ending : Except (Failure Float) β} (first : Shows host c early action)
    (rest : Shows host ending late (next c).run) :
    Shows host ending (early ++ late) ((liftM action : Program m γ) >>= next).run := by
  rw [run_lift_bind]
  exact shows_bind first rest

theorem shows_of_ok {ending : Except (Failure Float) β} {c : γ} {program : Program m γ}
    {next : γ → Program m β} (first : Shows host (.ok c) early program.run)
    (rest : Shows host ending late (next c).run) :
    Shows host ending (early ++ late) (program >>= next).run := by
  rw [ExceptT.run_bind]
  exact shows_bind first rest

theorem shows_of_error {failure : Failure Float} {program : Program m γ}
    {next : γ → Program m β} (first : Shows host (.error failure) early program.run) :
    Shows host (.error failure) early (program >>= next).run := by
  rw [ExceptT.run_bind, ← List.append_nil early]
  exact shows_bind first .ends

end

def reached : Except (Stopped Float) Progress → Progress
  | .ok state => state
  | .error stopped => stopped.state

-- A program that goes from state to state, failing where the steps of training stop.
def Mirrors (host : Host m) (before : Progress) (steps : Except (Stopped Float) Progress)
    (program : Program m Progress) : Prop :=
  ∃ shown, (reached steps).events.toList = before.events.toList ++ shown ∧
    Shows host (steps.mapError Stopped.failure) shown program.run

theorem mirrors_bind {before : Progress} {steps : Except (Stopped Float) Progress}
    {program : Program m Progress} {more : Step} {next : Progress → Program m Progress}
    (first : Mirrors host before steps program)
    (rest : ∀ after, Mirrors host after (more after) (next after)) :
    Mirrors host before (steps >>= more) (program >>= next) := by
  obtain ⟨early, events, shows⟩ := first
  cases steps with
  | error stopped => exact ⟨early, events, shows_of_error shows⟩
  | ok after =>
      obtain ⟨late, same, later⟩ := rest after
      refine ⟨early ++ late, ?_, shows_of_ok shows later⟩
      rw [← List.append_assoc, ← events]
      exact same

def Grows (step : Step) : Prop :=
  (∀ before after, step before = .ok after → before.events.toList <+: after.events.toList) ∧
    ∀ before stopped, step before = .error stopped → stopped.state.events = before.events

theorem mirrors_advance {step : Step} (grows : Grows step) (before : Progress) :
    Mirrors host before (step before) (advance host step before) := by
  cases done : step before with
  | error stopped =>
      refine ⟨[], ?_, ?_⟩
      · rw [reached, grows.2 before stopped done, List.append_nil]
      · rw [advance, run_lift_bind]
        refine .reads _ _ fun begun => ?_
        rw [done]
        exact .ends
  | ok after =>
      obtain ⟨shown, events⟩ := grows.1 before after done
      refine ⟨shown, events.symm, ?_⟩
      rw [advance, run_lift_bind]
      refine .reads _ _ fun begun => ?_
      simp only [done]
      rw [run_lift_bind]
      refine shows_since fun elapsed => ?_
      rw [run_lift_bind, ← events, ← Array.length_toList, List.drop_left]
      exact shows_then_ends (shows_events elapsed shown)

theorem grows_phase (settings : Settings Float) (prepared : Training.Prepared Float)
    (phase : Phase) : Grows (Training.solvePhase environment settings prepared phase) := by
  constructor
  · intro before after done
    unfold Training.solvePhase at done
    split at done
    · cases done
    · dsimp only at done
      split at done
      · rw [← Except.ok.inj done, Training.State.emit, Array.toList_push]
        exact List.prefix_append _ _
      · cases done
  · intro before stopped failed
    unfold Training.solvePhase at failed
    split at failed
    · cases failed
      rfl
    · dsimp only at failed
      split at failed
      · cases failed
      · cases failed
        rfl

theorem grows_evaluation (prepared : Training.Prepared Float) (iteration : Nat) :
    Grows (Training.evaluate environment prepared iteration) := by
  constructor
  · intro before after done
    unfold Training.evaluate at done
    split at done
    · cases done
    · rw [← Except.ok.inj done, Training.State.emit, Array.toList_push]
      exact List.prefix_append _ _
  · intro before stopped failed
    unfold Training.evaluate at failed
    split at failed
    · cases failed
      rfl
    · cases failed

theorem mirrors_iterations (settings : Settings Float) (prepared : Training.Prepared Float)
    (count iteration : Nat) (before : Progress) :
    Mirrors host before
      (Training.iterations environment settings prepared count iteration before)
      (iterations host settings prepared count iteration before) := by
  induction count generalizing iteration before with
  | zero =>
      refine ⟨[], (List.append_nil _).symm, ?_⟩
      change Shows host (Except.ok before) [] (pure (.ok before) : m (Except (Failure Float) _))
      exact .ends
  | succ count ih =>
      let solve := Training.solvePhase environment settings prepared
      have steps : Training.iterations environment settings prepared (count + 1) iteration before =
          (do
            let users ← solve ⟨iteration, .user⟩ before
            let items ← solve ⟨iteration, .item⟩ users
            let last ← Training.evaluate environment prepared iteration items
            Training.iterations environment settings prepared count (iteration + 1) last) := by
        rw [Training.iterations, Training.iterate]
        simp only [bind_assoc]
        rfl
      rw [steps, iterations]
      refine mirrors_bind (mirrors_advance (grows_phase ..) before) fun users => ?_
      refine mirrors_bind (mirrors_advance (grows_phase ..) users) fun items => ?_
      exact mirrors_bind (mirrors_advance (grows_evaluation ..) items) fun last => ih _ last

/-- What the program shows of training, and what comes of it, are the events and the outcome of a
run that nobody disturbs. -/
theorem train_shows_run (host : Host m) (training : Training Float) :
    Shows host (Training.run environment training false).outcome
      (Training.run environment training false).events (train host training).run := by
  rw [train, run_lift_bind]
  refine .reads _ _ fun begun => ?_
  unfold Training.run
  cases resolved : training.prepare with
  | error error => exact shows_of_error .ends
  | ok prepared =>
      refine shows_of_ok .ends ?_
      cases started : Training.start environment training prepared false with
      | error fault =>
          simp only [started]
          exact shows_of_error .ends
      | ok first =>
          simp only [started]
          have mirrors : Mirrors host first _ _ := mirrors_iterations training.settings prepared
            training.settings.iterations 0 first
          refine shows_of_ok .ends ?_
          cases passed : Training.iterations environment training.settings prepared
              training.settings.iterations 0 first with
          | error stopped =>
              rw [passed] at mirrors
              obtain ⟨shown, events, shows⟩ := mirrors
              rw [reached] at events
              simp only [Training.State.toRun, events]
              exact shows_of_lift (shows_events _ _) (shows_of_error shows)
          | ok last =>
              rw [passed] at mirrors
              obtain ⟨shown, events, shows⟩ := mirrors
              rw [reached] at events
              simp only [Training.State.toRun, Training.State.emit, Array.toList_push, events]
              rw [List.append_assoc]
              refine shows_of_lift (shows_events _ _) (shows_of_ok shows ?_)
              rw [run_lift_bind]
              refine shows_since fun elapsed => ?_
              rw [run_lift_bind]
              exact shows_then_ends (shows_events elapsed _)

end LatentFactor.CommandLine
