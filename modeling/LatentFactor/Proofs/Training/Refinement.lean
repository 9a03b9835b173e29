import LatentFactor.Proofs.Training.Alternation

set_option autoImplicit false

namespace LatentFactor.Training

variable {α : Type} [Scalar α]

-- How far the recursion is when a run comes to a stage.
def Abreast (settings : Settings α) (prepared : Prepared α) (initial : Features α)
    (state : State α) : Stage → Prop
  | .solving ⟨iteration, .user⟩ =>
      rounds settings prepared initial iteration = .ok (state.features, state.errors.toList)
  | .solving ⟨iteration, .item⟩ => ∃ features,
      rounds settings prepared initial iteration = .ok (features, state.errors.toList) ∧
      half settings prepared .user features.items = .ok state.features.users ∧
      state.features.items = features.items
  | .measuring iteration => ∃ features,
      rounds settings prepared initial iteration = .ok (features, state.errors.toList) ∧
      round settings prepared features.items = .ok state.features
  | .done =>
      rounds settings prepared initial settings.iterations =
        .ok (state.features, state.errors.toList)

theorem abreast_of_iteration {settings : Settings α} {prepared : Prepared α}
    {initial : Features α} {state : State α} {iteration : Nat}
    (within : iteration ≤ settings.iterations)
    (solved : rounds settings prepared initial iteration =
      .ok (state.features, state.errors.toList)) :
    Abreast settings prepared initial state (.ofIteration settings.iterations iteration) := by
  unfold Stage.ofIteration
  by_cases under : iteration < settings.iterations
  · rw [if_pos under]
    exact solved
  · have last : iteration = settings.iterations :=
      Nat.le_antisymm within (Nat.le_of_not_lt under)
    rw [if_neg under]
    rw [last] at solved
    exact solved

section

variable {environment : Environment α} {training : Training α} {cancelled : Bool}
  {prepared : Prepared α} {initial : Features α}

theorem abreast_of_start {state : State α}
    (made : Features.initial prepared.users.size prepared.ratings.byItem.toList
      training.settings.rank training.settings.seedInUse = .ok initial)
    (started : start environment training prepared cancelled = .ok state) :
    Abreast training.settings prepared initial state
      (.ofIteration training.settings.iterations 0) := by
  obtain ⟨features, same, -, rfl⟩ := start_eq_ok started
  cases made.symm.trans same
  refine abreast_of_iteration (Nat.zero_le _) ?_
  obtain ⟨flag, emitted⟩ := emit_all environment (training.opening prepared)
    (.fresh initial cancelled)
  rw [emitted]
  rfl

-- Whoever cancels and whatever the limit: a stage that is reached has left nothing out.
theorem abreast_of_lawful {stage : Stage} {state : State α}
    (lawful : Phase.Lawful environment.runPhase)
    (made : Features.initial prepared.users.size prepared.ratings.byItem.toList
      training.settings.rank training.settings.seedInUse = .ok initial)
    (passes : Passes environment training cancelled prepared stage state) :
    Abreast training.settings prepared initial state stage := by
  induction passes with
  | start state _ started => exact abreast_of_start made started
  | step stage before after earlier advanced abreast =>
      obtain ⟨coherent, shaped⟩ := shaped_of_passes lawful earlier
      cases stage with
      | solving phase =>
          obtain ⟨matrix, solved, features, errors⟩ :=
            half_of_phase_ok lawful coherent shaped advanced
          obtain ⟨iteration, side⟩ := phase
          cases side with
          | user =>
              refine ⟨before.features, ?_, ?_, ?_⟩
              · rw [errors]
                exact abreast
              · rw [features]
                exact solved
              · rw [features]
                rfl
          | item =>
              obtain ⟨prior, done, users, items⟩ := abreast
              refine ⟨prior, ?_, ?_⟩
              · rw [errors]
                exact done
              · rw [features]
                exact bind_eq_ok_iff.mpr ⟨_, users, bind_eq_ok_iff.mpr ⟨matrix, solved, rfl⟩⟩
      | measuring iteration =>
          obtain ⟨prior, done, next⟩ := abreast
          rw [advance, evaluate_eq_ok coherent shaped] at advanced
          cases advanced
          refine abreast_of_iteration (within_of_passes earlier) ?_
          rw [rounds_succ_eq_ok done next]
          simp [State.emit, State.record]
      | done =>
          cases advanced
          exact abreast

theorem abreast_of_passes {stage : Stage} {state : State α}
    (undisturbed : environment.Undisturbed)
    (made : Features.initial prepared.users.size prepared.ratings.byItem.toList
      training.settings.rank training.settings.seedInUse = .ok initial)
    (passes : Passes environment training false prepared stage state) :
    state.cancelled = false ∧ Abreast training.settings prepared initial state stage :=
  ⟨clear_of_passes undisturbed passes,
    abreast_of_lawful (lawful_of_undisturbed undisturbed) made passes⟩

theorem started_of_passes {stage : Stage} {state : State α}
    (passes : Passes environment training cancelled prepared stage state) :
    ∃ initial, Features.initial prepared.users.size prepared.ratings.byItem.toList
        training.settings.rank training.settings.seedInUse = .ok initial ∧
      Memory.reserve training.settings.iterations = .ok () := by
  induction passes with
  | start state _ started =>
      obtain ⟨features, made, reserved, -⟩ := start_eq_ok started
      exact ⟨features, made, reserved⟩
  | step stage before after _ _ ih => exact ih

-- The model, or the failure of one of the rows that fail first.
def Matches (outcome : Except (Failure α) (Model α)) :
    Except (List (Failure α)) (Model α) → Prop
  | .ok model => outcome = .ok model
  | .error others => ∃ failure ∈ others, outcome = .error failure

theorem matches_alternation (undisturbed : environment.Undisturbed)
    (unlimited : training.settings.timeLimit = none) (resolved : training.prepare = .ok prepared) :
    Matches (run environment training false).outcome (alternation training prepared) := by
  have lawful := lawful_of_undisturbed undisturbed
  rcases run_cases environment training false with ⟨error, failed, -⟩ | ⟨other, same, rest⟩
  · rw [resolved] at failed
    cases failed
  · cases resolved.symm.trans same
    rcases rest with ⟨fault, failed, ran⟩ | ⟨stage, stopped, stops, ran⟩ | ⟨last, passes, ran⟩
    · have faulted : alternation training prepared = .error [.fault fault] := by
        rcases bind_eq_error_iff.mp failed with unmade | ⟨initial, made, rest⟩
        · exact bind_eq_error_iff.mpr (.inl (map_error_eq_error_iff.mpr ⟨fault, unmade, rfl⟩))
        · refine bind_eq_error_iff.mpr (.inr ⟨initial, map_error_eq_ok_iff.mpr made, ?_⟩)
          rcases bind_eq_error_iff.mp rest with unreserved | ⟨_, _, impossible⟩
          · exact bind_eq_error_iff.mpr
              (.inl (map_error_eq_error_iff.mpr ⟨fault, unreserved, rfl⟩))
          · cases impossible
      rw [faulted, ran]
      exact ⟨.fault fault, List.mem_singleton_self _, rfl⟩
    · obtain ⟨phase, before, rfl, passes, failed⟩ := stops_at_phase lawful stops
      obtain ⟨initial, made, reserved⟩ := started_of_passes passes
      obtain ⟨clear, abreast⟩ := abreast_of_passes undisturbed made passes
      obtain ⟨coherent, shaped⟩ := shaped_of_passes lawful passes
      obtain ⟨others, unsolved, member⟩ :=
        half_of_phase_error undisturbed unlimited clear coherent shaped failed
      have failing : rounds training.settings prepared initial training.settings.iterations =
          .error others := by
        obtain ⟨iteration, side⟩ := phase
        have within : iteration < training.settings.iterations := within_of_passes passes
        cases side with
        | user =>
            exact rounds_eq_error abreast (bind_eq_error_iff.mpr (.inl unsolved)) within
        | item =>
            obtain ⟨prior, done, users, items⟩ := abreast
            refine rounds_eq_error done (bind_eq_error_iff.mpr (.inr ⟨_, users, ?_⟩)) within
            exact bind_eq_error_iff.mpr (.inl unsolved)
      have stuck : alternation training prepared = .error others := by
        refine bind_eq_error_iff.mpr (.inr ⟨initial, map_error_eq_ok_iff.mpr made, ?_⟩)
        refine bind_eq_error_iff.mpr (.inr ⟨(), map_error_eq_ok_iff.mpr reserved, ?_⟩)
        exact bind_eq_error_iff.mpr (.inl failing)
      rw [stuck, ran]
      exact ⟨stopped.failure, member, rfl⟩
    · obtain ⟨initial, made, reserved⟩ := started_of_passes passes
      obtain ⟨-, abreast⟩ := abreast_of_passes undisturbed made passes
      have shaped := (shaped_of_passes lawful passes).2
      have shown : Shaped prepared training.settings.rank
          (last.emit environment (.finished environment.elapsed)).features := shaped
      have solved : alternation training prepared = .ok ⟨prepared.users, prepared.items,
          last.features.users, last.features.items, last.errors.toList⟩ := by
        refine bind_eq_ok_iff.mpr ⟨initial, map_error_eq_ok_iff.mpr made, ?_⟩
        refine bind_eq_ok_iff.mpr ⟨(), map_error_eq_ok_iff.mpr reserved, ?_⟩
        exact bind_eq_ok_iff.mpr ⟨_, abreast, rfl⟩
      rw [solved, ran, State.toRun, result_eq_ok shown]
      rfl

end

end LatentFactor.Training
