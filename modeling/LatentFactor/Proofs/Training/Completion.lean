import LatentFactor.Proofs.Training.Refinement

set_option autoImplicit false

namespace LatentFactor.Training

variable {α : Type}

def Prepared.model (prepared : Prepared α) (state : State α) : Model α :=
  ⟨prepared.users, prepared.items, state.features.users, state.features.items,
    state.errors.toList⟩

variable [Scalar α]

section

variable {environment : Environment α} {training : Training α} {cancelled : Bool}
  {prepared : Prepared α}

theorem finished_of_ok {model : Model α} (lawful : Phase.Lawful environment.runPhase)
    (done : (run environment training cancelled).outcome = .ok model) :
    ∃ prepared last, training.prepare = .ok prepared ∧
      Passes environment training cancelled prepared .done last ∧ model = prepared.model last ∧
      run environment training cancelled =
        (last.emit environment (.finished environment.elapsed)).toRun (.ok model) := by
  rcases run_cases environment training cancelled with ⟨error, -, ran⟩ | ⟨prepared, resolved, rest⟩
  · rw [ran] at done
    cases done
  · rcases rest with ⟨fault, -, ran⟩ | ⟨stage, stopped, -, ran⟩ | ⟨last, passes, ran⟩
    · rw [ran] at done
      cases done
    · rw [ran] at done
      cases done
    · have shown : Shaped prepared training.settings.rank
          (last.emit environment (.finished environment.elapsed)).features :=
        (shaped_of_passes lawful passes).2
      rw [result_eq_ok shown] at ran
      rw [ran] at done
      cases done
      exact ⟨prepared, last, resolved, passes, rfl, ran⟩

theorem ok_of_unstopped {first : State α} (lawful : Phase.Lawful environment.runPhase)
    (resolved : training.prepare = .ok prepared)
    (started : start environment training prepared cancelled = .ok first)
    (unstopped : ∀ phase before stopped,
      Passes environment training cancelled prepared (.solving phase) before →
        solvePhase environment training.settings prepared phase before ≠ .error stopped) :
    ∃ model, (run environment training cancelled).outcome = .ok model := by
  rcases run_cases environment training cancelled with ⟨error, failed, -⟩ | ⟨other, same, rest⟩
  · rw [resolved] at failed
    cases failed
  · cases resolved.symm.trans same
    rcases rest with ⟨fault, failed, -⟩ | ⟨stage, stopped, stops, -⟩ | ⟨last, passes, ran⟩
    · rw [started] at failed
      cases failed
    · obtain ⟨phase, before, -, passes, failed⟩ := stops_at_phase lawful stops
      exact absurd failed (unstopped phase before stopped passes)
    · have shown : Shaped prepared training.settings.rank
          (last.emit environment (.finished environment.elapsed)).features :=
        (shaped_of_passes lawful passes).2
      rw [ran, result_eq_ok shown]
      exact ⟨_, rfl⟩

end

section

variable {settings : Settings α} {prepared : Prepared α} {initial : Features α}

theorem round_eq_ok_iff {items : RowMatrix α} {next : Features α} :
    round settings prepared items = .ok next ↔
      half settings prepared .user items = .ok next.users ∧
        half settings prepared .item next.users = .ok next.items := by
  rw [round, bind_eq_ok_iff]
  constructor
  · rintro ⟨users, solvedUsers, rest⟩
    obtain ⟨items, solvedItems, same⟩ := bind_eq_ok_iff.mp rest
    cases same
    exact ⟨solvedUsers, solvedItems⟩
  · rintro ⟨solvedUsers, solvedItems⟩
    exact ⟨_, solvedUsers, bind_eq_ok_iff.mpr ⟨_, solvedItems, rfl⟩⟩

theorem rounds_succ_eq_ok_iff {count : Nat} {features : Features α} {errors : List (Option α)} :
    rounds settings prepared initial (count + 1) = .ok (features, errors) ↔
      ∃ before earlier, rounds settings prepared initial count = .ok (before, earlier) ∧
        round settings prepared before.items = .ok features ∧
        errors = earlier ++ [prepared.heldOut.error? features.users features.items] := by
  constructor
  · intro done
    obtain ⟨⟨before, earlier⟩, prior, rest⟩ := bind_eq_ok_iff.mp done
    obtain ⟨next, solved, same⟩ := bind_eq_ok_iff.mp rest
    cases same
    exact ⟨before, earlier, prior, solved, rfl⟩
  · rintro ⟨before, earlier, prior, solved, rfl⟩
    exact rounds_succ_eq_ok prior solved

theorem shaped_of_round {training : Training α} {rank : Nat} {items : RowMatrix α}
    {next : Features α} (coherent : training.Coherent prepared) (cols : items.cols = rank)
    (solved : round settings prepared items = .ok next) : Shaped prepared rank next := by
  obtain ⟨first, second⟩ := round_eq_ok_iff.mp solved
  obtain ⟨userSize, userCols⟩ := size_of_half coherent first
  obtain ⟨itemSize, itemCols⟩ := size_of_half coherent second
  constructor
  · intro side
    cases side with
    | user => exact userSize
    | item => exact itemSize
  · intro side
    cases side with
    | user => exact userCols.trans cols
    | item => exact itemCols.trans (userCols.trans cols)

theorem shaped_of_rounds {training : Training α} {rank count : Nat} {features : Features α}
    {errors : List (Option α)} (coherent : training.Coherent prepared)
    (shaped : Shaped prepared rank initial)
    (done : rounds settings prepared initial count = .ok (features, errors)) :
    Shaped prepared rank features := by
  induction count generalizing features errors with
  | zero =>
      cases done
      exact shaped
  | succ count ih =>
      obtain ⟨before, earlier, prior, solved, -⟩ := rounds_succ_eq_ok_iff.mp done
      exact shaped_of_round coherent ((ih prior).cols .item) solved

theorem length_of_rounds {count : Nat} {features : Features α} {errors : List (Option α)}
    (done : rounds settings prepared initial count = .ok (features, errors)) :
    errors.length = count := by
  induction count generalizing features errors with
  | zero =>
      cases done
      rfl
  | succ count ih =>
      obtain ⟨before, earlier, prior, -, rfl⟩ := rounds_succ_eq_ok_iff.mp done
      rw [List.length_append, ih prior, List.length_singleton]

theorem round_of_rounds {iteration total : Nat} {features : Features α} {errors : List (Option α)}
    (done : rounds settings prepared initial total = .ok (features, errors))
    (within : iteration < total) :
    ∃ before next, rounds settings prepared initial iteration =
        .ok (before, errors.take iteration) ∧
      round settings prepared before.items = .ok next := by
  induction total generalizing features errors with
  | zero => cases within
  | succ total ih =>
      obtain ⟨before, earlier, prior, solved, rfl⟩ := rounds_succ_eq_ok_iff.mp done
      have length := length_of_rounds prior
      by_cases last : iteration = total
      · subst last
        refine ⟨before, features, ?_, solved⟩
        rw [← length, List.take_left]
        rw [length]
        exact prior
      · have below : iteration < total := by omega
        rw [List.take_append_of_le_length (by omega)]
        exact ih prior below

end

section

variable {environment : Environment α} {training : Training α} {cancelled : Bool}
  {prepared : Prepared α} {initial : Features α} {result : Features α × List (Option α)}

theorem half_of_rounds {phase : Phase} {state : State α}
    (solved : rounds training.settings prepared initial training.settings.iterations = .ok result)
    (abreast : Abreast training.settings prepared initial state (.solving phase))
    (within : phase.iteration < training.settings.iterations) :
    state.errors.toList = result.2.take phase.iteration ∧
      ∃ matrix, half training.settings prepared phase.side
        (state.features.bySide phase.side.other) = .ok matrix := by
  obtain ⟨before, next, prior, both⟩ := round_of_rounds solved within
  obtain ⟨users, items⟩ := round_eq_ok_iff.mp both
  obtain ⟨iteration, side⟩ := phase
  cases side with
  | user =>
      obtain ⟨rfl, errors⟩ := Prod.mk.inj (Except.ok.inj (prior.symm.trans abreast))
      exact ⟨errors.symm, _, users⟩
  | item =>
      obtain ⟨features, same, own, -⟩ := abreast
      obtain ⟨rfl, errors⟩ := Prod.mk.inj (Except.ok.inj (prior.symm.trans same))
      rw [Except.ok.inj (users.symm.trans own)] at items
      exact ⟨errors.symm, _, items⟩

theorem unstopped_of_rounds {phase : Phase} {before : State α} {stopped : Stopped α}
    (calm : Phase.Calm environment.runPhase) (unlimited : training.settings.timeLimit = none)
    (made : Features.initial prepared.users.size prepared.ratings.byItem.toList
      training.settings.rank training.settings.seedInUse = .ok initial)
    (solved : rounds training.settings prepared initial training.settings.iterations = .ok result)
    (passes : Passes environment training cancelled prepared (.solving phase) before)
    (clear : before.cancelled = false) :
    solvePhase environment training.settings prepared phase before ≠ .error stopped := by
  intro failed
  have lawful := Phase.lawful_of_calm calm
  obtain ⟨coherent, shaped⟩ := shaped_of_passes lawful passes
  obtain ⟨others, unsolved, -⟩ :=
    half_of_clear_phase_error calm unlimited clear coherent shaped failed
  obtain ⟨-, matrix, done⟩ :=
    half_of_rounds solved (abreast_of_lawful lawful made passes) (within_of_passes passes)
  rw [done] at unsolved
  cases unsolved

theorem ok_of_rounds (undisturbed : environment.Undisturbed)
    (unlimited : training.settings.timeLimit = none) (resolved : training.prepare = .ok prepared)
    (made : Features.initial prepared.users.size prepared.ratings.byItem.toList
      training.settings.rank training.settings.seedInUse = .ok initial)
    (reserved : Memory.reserve training.settings.iterations = .ok ())
    (solved : rounds training.settings prepared initial training.settings.iterations =
      .ok result) :
    ∃ model, (run environment training false).outcome = .ok model := by
  obtain ⟨first, started⟩ := start_of_initial environment false made reserved
  refine ok_of_unstopped (lawful_of_undisturbed undisturbed) resolved started ?_
  intro phase before stopped passes
  exact unstopped_of_rounds undisturbed.runner unlimited made solved passes
    (clear_of_passes undisturbed passes)

theorem exists_rounds {settings : Settings α} {rank : Nat} (coherent : training.Coherent prepared)
    (shaped : Shaped prepared rank initial)
    (halves : ∀ side (fixed : RowMatrix α), fixed.size = (prepared.numbering side.other).size →
      fixed.cols = rank → ∃ matrix, half settings prepared side fixed = .ok matrix)
    (count : Nat) : ∃ result, rounds settings prepared initial count = .ok result := by
  induction count with
  | zero => exact ⟨_, rfl⟩
  | succ count ih =>
      obtain ⟨⟨before, errors⟩, prior⟩ := ih
      have earlier := shaped_of_rounds coherent shaped prior
      obtain ⟨users, solvedUsers⟩ :=
        halves .user before.items (earlier.size .item) (earlier.cols .item)
      obtain ⟨userSize, userCols⟩ := size_of_half coherent solvedUsers
      obtain ⟨items, solvedItems⟩ :=
        halves .item users userSize (userCols.trans (earlier.cols .item))
      have both : round settings prepared before.items = .ok ⟨users, items⟩ :=
        round_eq_ok_iff.mpr ⟨solvedUsers, solvedItems⟩
      exact ⟨_, rounds_succ_eq_ok prior both⟩

theorem ok_of_halves (undisturbed : environment.Undisturbed)
    (unlimited : training.settings.timeLimit = none) (ranked : training.settings.rank ≠ 0)
    (resolved : training.prepare = .ok prepared) (fits : training.Fits prepared)
    (halves : ∀ side (fixed : RowMatrix α), fixed.size = (prepared.numbering side.other).size →
      fixed.cols = training.settings.rank →
        ∃ matrix, half training.settings prepared side fixed = .ok matrix) :
    ∃ model, (run environment training false).outcome = .ok model := by
  have coherent := coherent_of_prepare resolved
  obtain ⟨first, started⟩ := exists_start environment false coherent ranked fits
  obtain ⟨initial, made, reserved, -⟩ := start_eq_ok started
  obtain ⟨result, solved⟩ := exists_rounds coherent (shaped_of_initial coherent made) halves
    training.settings.iterations
  exact ok_of_rounds undisturbed unlimited resolved made reserved solved

theorem alternation_eq_ok_iff {model : Model α} :
    alternation training prepared = .ok model ↔
      ∃ initial features errors,
        Features.initial prepared.users.size prepared.ratings.byItem.toList
            training.settings.rank training.settings.seedInUse = .ok initial ∧
          Memory.reserve training.settings.iterations = .ok () ∧
          rounds training.settings prepared initial training.settings.iterations =
            .ok (features, errors) ∧
          model = ⟨prepared.users, prepared.items, features.users, features.items, errors⟩ := by
  rw [alternation, bind_eq_ok_iff]
  constructor
  · rintro ⟨initial, made, rest⟩
    obtain ⟨_, reserved, rest⟩ := bind_eq_ok_iff.mp rest
    obtain ⟨⟨features, errors⟩, solved, same⟩ := bind_eq_ok_iff.mp rest
    exact ⟨initial, features, errors, map_error_eq_ok_iff.mp made,
      map_error_eq_ok_iff.mp reserved, solved, (Except.ok.inj same).symm⟩
  · rintro ⟨initial, features, errors, made, reserved, solved, rfl⟩
    refine ⟨initial, map_error_eq_ok_iff.mpr made, ?_⟩
    refine bind_eq_ok_iff.mpr ⟨(), map_error_eq_ok_iff.mpr reserved, ?_⟩
    exact bind_eq_ok_iff.mpr ⟨_, solved, rfl⟩

theorem alternation_of_ok {model : Model α} (lawful : Phase.Lawful environment.runPhase)
    (done : (run environment training cancelled).outcome = .ok model) :
    ∃ prepared, training.prepare = .ok prepared ∧ alternation training prepared = .ok model := by
  obtain ⟨prepared, last, resolved, passes, rfl, -⟩ := finished_of_ok lawful done
  obtain ⟨initial, made, reserved⟩ := started_of_passes passes
  exact ⟨prepared, resolved, alternation_eq_ok_iff.mpr
    ⟨initial, _, _, made, reserved, abreast_of_lawful lawful made passes, rfl⟩⟩

theorem run_eq_ok_iff {model : Model α} (undisturbed : environment.Undisturbed)
    (unlimited : training.settings.timeLimit = none) :
    (run environment training false).outcome = .ok model ↔
      ∃ prepared, training.prepare = .ok prepared ∧
        alternation training prepared = .ok model := by
  have lawful := lawful_of_undisturbed undisturbed
  constructor
  · exact alternation_of_ok lawful
  · rintro ⟨prepared, resolved, solved⟩
    obtain ⟨initial, features, errors, made, reserved, recursion, -⟩ :=
      alternation_eq_ok_iff.mp solved
    obtain ⟨other, done⟩ := ok_of_rounds undisturbed unlimited resolved made reserved recursion
    obtain ⟨again, same, own⟩ := alternation_of_ok lawful done
    cases resolved.symm.trans same
    rw [done, Except.ok.inj (own.symm.trans solved)]

end

end LatentFactor.Training
