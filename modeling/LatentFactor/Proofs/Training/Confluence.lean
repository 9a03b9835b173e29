import LatentFactor.Proofs.Training.Cancellation

set_option autoImplicit false

namespace LatentFactor.Training

variable {α : Type} [Scalar α]

section

variable {settings : Settings α} {prepared : Prepared α} {initial : Features α}

-- The phase that the recursion does not get past, with the errors until then.
def FailsAt (settings : Settings α) (prepared : Prepared α) (initial : Features α)
    (errors : List (Option α)) (phase : Phase) : Prop :=
  ∃ features others, rounds settings prepared initial phase.iteration = .ok (features, errors) ∧
    match phase.side with
    | .user => half settings prepared .user features.items = .error others
    | .item => ∃ users, half settings prepared .user features.items = .ok users ∧
        half settings prepared .item users = .error others

theorem fails_at_of_abreast {phase : Phase} {state : State α} {others : List (Failure α)}
    (abreast : Abreast settings prepared initial state (.solving phase))
    (failed : half settings prepared phase.side (state.features.bySide phase.side.other) =
      .error others) :
    FailsAt settings prepared initial state.errors.toList phase := by
  obtain ⟨iteration, side⟩ := phase
  cases side with
  | user => exact ⟨state.features, others, abreast, failed⟩
  | item =>
      obtain ⟨features, done, users, -⟩ := abreast
      exact ⟨features, others, done, state.features.users, users, failed⟩

theorem round_of_fails_at {errors : List (Option α)} {phase : Phase}
    (fails : FailsAt settings prepared initial errors phase) :
    ∃ features others,
      rounds settings prepared initial phase.iteration = .ok (features, errors) ∧
        round settings prepared features.items = .error others := by
  obtain ⟨features, others, done, failed⟩ := fails
  refine ⟨features, others, done, ?_⟩
  obtain ⟨iteration, side⟩ := phase
  cases side with
  | user => exact bind_eq_error_iff.mpr (.inl failed)
  | item =>
      obtain ⟨users, solved, failed⟩ := failed
      exact bind_eq_error_iff.mpr (.inr ⟨users, solved, bind_eq_error_iff.mpr (.inl failed)⟩)

theorem le_of_fails_at {errors : List (Option α)} {phase : Phase} {count : Nat}
    {result : Features α × List (Option α)}
    (fails : FailsAt settings prepared initial errors phase)
    (done : rounds settings prepared initial count = .ok result) : count ≤ phase.iteration := by
  by_contra later
  obtain ⟨features, others, before, failed⟩ := round_of_fails_at fails
  rw [rounds_eq_error before failed (Nat.lt_of_not_le later)] at done
  cases done

theorem fails_at_unique {errors others : List (Option α)} {phase other : Phase}
    (fails : FailsAt settings prepared initial errors phase)
    (again : FailsAt settings prepared initial others other) :
    errors = others ∧ phase = other := by
  obtain ⟨features, _, done, failed⟩ := id fails
  obtain ⟨rivals, _, doneAgain, failedAgain⟩ := id again
  obtain ⟨iteration, side⟩ := phase
  obtain ⟨later, side'⟩ := other
  have same : iteration = later :=
    Nat.le_antisymm (le_of_fails_at again done) (le_of_fails_at fails doneAgain)
  subst same
  obtain ⟨rfl, rfl⟩ := Prod.mk.inj (Except.ok.inj (done.symm.trans doneAgain))
  cases side with
  | user =>
      cases side' with
      | user => exact ⟨rfl, rfl⟩
      | item =>
          obtain ⟨users, solved, -⟩ := failedAgain
          cases failed.symm.trans solved
  | item =>
      cases side' with
      | user =>
          obtain ⟨users, solved, -⟩ := failed
          cases failedAgain.symm.trans solved
      | item => exact ⟨rfl, rfl⟩

end

/-- What is heard of a run that nobody disturbs. -/
inductive Told (training : Training α) (prepared : Prepared α) : List (Event α) → Prop where
  | unstarted (never : ∀ initial, Features.initial prepared.users.size
        prepared.ratings.byItem.toList training.settings.rank training.settings.seedInUse =
          .ok initial → Memory.reserve training.settings.iterations ≠ .ok ()) :
      Told training prepared []
  | stopped (initial : Features α) (errors : List (Option α)) (phase : Phase)
      (made : Features.initial prepared.users.size prepared.ratings.byItem.toList
        training.settings.rank training.settings.seedInUse = .ok initial)
      (reserved : Memory.reserve training.settings.iterations = .ok ())
      (within : phase.iteration < training.settings.iterations)
      (fails : FailsAt training.settings prepared initial errors phase) :
      Told training prepared (training.opening prepared ++ roundsEvents prepared errors ++
        (Stage.solving phase).heard prepared)
  | finished (initial features : Features α) (errors : List (Option α))
      (made : Features.initial prepared.users.size prepared.ratings.byItem.toList
        training.settings.rank training.settings.seedInUse = .ok initial)
      (reserved : Memory.reserve training.settings.iterations = .ok ())
      (solved : rounds training.settings prepared initial training.settings.iterations =
        .ok (features, errors)) :
      Told training prepared (training.allEvents prepared errors)

variable {environment surroundings : Environment α} {training : Training α}
  {prepared : Prepared α}

theorem told_unique {events others : List (Event α)} (told : Told training prepared events)
    (again : Told training prepared others) : events = others := by
  cases told with
  | unstarted never =>
      cases again with
      | unstarted => rfl
      | stopped initial errors phase made reserved => exact absurd reserved (never initial made)
      | finished initial features errors made reserved =>
          exact absurd reserved (never initial made)
  | stopped initial errors phase made reserved within fails =>
      cases again with
      | unstarted never => exact absurd reserved (never initial made)
      | stopped other _ _ same _ _ failsAgain =>
          cases made.symm.trans same
          obtain ⟨rfl, rfl⟩ := fails_at_unique fails failsAgain
          rfl
      | finished other features others same _ solved =>
          cases made.symm.trans same
          exact absurd (le_of_fails_at fails solved) (Nat.not_le_of_lt within)
  | finished initial features errors made reserved solved =>
      cases again with
      | unstarted never => exact absurd reserved (never initial made)
      | stopped other _ _ same _ within fails =>
          cases made.symm.trans same
          exact absurd (le_of_fails_at fails solved) (Nat.not_le_of_lt within)
      | finished other _ others same _ solvedAgain =>
          cases made.symm.trans same
          obtain ⟨-, rfl⟩ := Prod.mk.inj (Except.ok.inj (solved.symm.trans solvedAgain))
          rfl

theorem told_of_run (undisturbed : environment.Undisturbed)
    (unlimited : training.settings.timeLimit = none) (resolved : training.prepare = .ok prepared) :
    Told training prepared ((run environment training false).events.map Event.untimed) := by
  have lawful := lawful_of_undisturbed undisturbed
  rcases run_cases environment training false with ⟨error, failed, -⟩ | ⟨other, same, rest⟩
  · rw [resolved] at failed
    cases failed
  · cases resolved.symm.trans same
    rcases rest with ⟨fault, failed, ran⟩ | ⟨stage, stopped, stops, ran⟩ | ⟨last, passes, ran⟩
    · rw [ran]
      refine .unstarted fun initial made reserved => ?_
      obtain ⟨state, started⟩ := start_of_initial environment false made reserved
      rw [started] at failed
      cases failed
    · obtain ⟨phase, before, rfl, passes, failed⟩ := stops_at_phase lawful stops
      obtain ⟨initial, made, reserved⟩ := started_of_passes passes
      obtain ⟨clear, abreast⟩ := abreast_of_passes undisturbed made passes
      obtain ⟨coherent, shaped⟩ := shaped_of_passes lawful passes
      obtain ⟨others, unsolved, -⟩ :=
        half_of_phase_error undisturbed unlimited clear coherent shaped failed
      rw [ran, State.toRun, (kept_of_phase_error failed).1, (heard_of_passes lawful passes).events]
      exact .stopped initial _ phase made reserved (within_of_passes passes)
        (fails_at_of_abreast abreast unsolved)
    · obtain ⟨initial, made, reserved⟩ := started_of_passes passes
      rw [ran, State.toRun, events_of_done lawful passes]
      exact .finished initial last.features _ made reserved
        (abreast_of_lawful lawful made passes)

theorem same_events (undisturbed : environment.Undisturbed)
    (undisturbedRival : surroundings.Undisturbed)
    (unlimited : training.settings.timeLimit = none) :
    (run environment training false).events.map Event.untimed =
      (run surroundings training false).events.map Event.untimed := by
  cases resolved : training.prepare with
  | error error => simp only [run, resolved, Run.unstarted]
  | ok prepared =>
      exact told_unique (told_of_run undisturbed unlimited resolved)
        (told_of_run undisturbedRival unlimited resolved)

theorem same_model (undisturbed : environment.Undisturbed)
    (undisturbedRival : surroundings.Undisturbed)
    (unlimited : training.settings.timeLimit = none) (model : Model α) :
    (run environment training false).outcome = .ok model ↔
      (run surroundings training false).outcome = .ok model := by
  rw [run_eq_ok_iff undisturbed unlimited, run_eq_ok_iff undisturbedRival unlimited]

end LatentFactor.Training
