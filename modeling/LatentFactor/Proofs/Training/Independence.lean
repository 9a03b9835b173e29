import LatentFactor.Proofs.Real.Explicit

set_option autoImplicit false

namespace LatentFactor

variable {α : Type}

-- The settings that training reads: of alpha nothing unless the feedback is implicit.
structure Settings.Alike (settings other : Settings α) : Prop where
  rank : settings.rank = other.rank
  lambda : settings.lambda = other.lambda
  iterations : settings.iterations = other.iterations
  seed : settings.seedInUse = other.seedInUse
  passes : settings.passes = other.passes
  feedback : settings.feedback = other.feedback

theorem Settings.alike_symm {settings other : Settings α} (alike : settings.Alike other) :
    other.Alike settings :=
  ⟨alike.rank.symm, alike.lambda.symm, alike.iterations.symm, alike.seed.symm,
    alike.passes.symm, alike.feedback.symm⟩

variable [Scalar α]

theorem Settings.check_of_alike {settings other : Settings α} (alike : settings.Alike other)
    (staffed : other.workers ≠ 0)
    (valid : (settings.check : Except (Error α) Unit) = .ok ()) :
    (other.check : Except (Error α) Unit) = .ok () := by
  obtain ⟨rank, lambda, iterations, -, alpha⟩ := check_eq_ok_iff.mp valid
  refine check_eq_ok_iff.mpr ⟨alike.rank ▸ rank, alike.lambda ▸ lambda,
    alike.iterations ▸ iterations, staffed, fun implicit => ?_⟩
  have same := alike.feedback.trans (feedback_eq_implicit_iff.mpr ⟨implicit, rfl⟩)
  obtain ⟨own, equal⟩ := feedback_eq_implicit_iff.mp same
  exact equal ▸ alpha own

namespace Training

variable {settings other : Settings α} {prepared sibling : Prepared α}

theorem half_of_alike (alike : settings.Alike other) (ratings : prepared.ratings = sibling.ratings)
    (side : Side) (fixed : RowMatrix α) :
    half settings prepared side fixed = half other sibling side fixed := by
  simp only [half, alike.feedback, alike.lambda, alike.passes, ratings]

theorem round_of_alike (alike : settings.Alike other)
    (ratings : prepared.ratings = sibling.ratings) (items : RowMatrix α) :
    round settings prepared items = round other sibling items := by
  simp only [round, half_of_alike alike ratings]

theorem rounds_of_alike {initial features : Features α} {errors : List (Option α)} {count : Nat}
    (alike : settings.Alike other) (ratings : prepared.ratings = sibling.ratings)
    (done : rounds settings prepared initial count = .ok (features, errors)) :
    ∃ others, rounds other sibling initial count = .ok (features, others) := by
  induction count generalizing features errors with
  | zero =>
      cases done
      exact ⟨[], rfl⟩
  | succ count ih =>
      obtain ⟨before, earlier, prior, both, -⟩ := rounds_succ_eq_ok_iff.mp done
      obtain ⟨others, again⟩ := ih prior
      rw [round_of_alike alike ratings] at both
      exact ⟨_, rounds_succ_eq_ok again both⟩

structure Unhindered (environment : Environment α) (training : Training α) : Prop where
  undisturbed : environment.Undisturbed
  unlimited : training.settings.timeLimit = none
  staffed : training.settings.workers ≠ 0
  readable : training.Readable

variable {environment surroundings : Environment α} {training rival : Training α}

theorem model_of_alike {model : Model α} (source : training.ratings = rival.ratings)
    (alike : training.settings.Alike rival.settings) (lawful : Phase.Lawful environment.runPhase)
    (unhindered : rival.Unhindered surroundings)
    (done : (run environment training false).outcome = .ok model) :
    ∃ errors, (run surroundings rival false).outcome = .ok { model with errors } := by
  obtain ⟨prepared, resolved, solved⟩ := alternation_of_ok lawful done
  obtain ⟨initial, features, errors, made, reserved, recursion, rfl⟩ :=
    alternation_eq_ok_iff.mp solved
  obtain ⟨numberedUsers, numberedItems, byRow, -, -⟩ := prepare_eq_ok_iff.mp resolved
  rw [source] at numberedUsers numberedItems byRow
  rw [alike.rank, alike.seed] at made
  rw [alike.iterations] at reserved recursion
  obtain ⟨heldOut, created⟩ : ∃ heldOut,
      rival.heldOutOf prepared.users prepared.items = .ok heldOut :=
    exists_held_out_iff.mpr unhindered.readable
  have sibling : rival.prepare = .ok { prepared with heldOut } :=
    prepare_eq_ok_iff.mpr ⟨numberedUsers, numberedItems, byRow, created, unhindered.staffed⟩
  have ratings : prepared.ratings = ({ prepared with heldOut } : Prepared α).ratings := rfl
  obtain ⟨others, again⟩ := rounds_of_alike alike ratings recursion
  refine ⟨others, (run_eq_ok_iff unhindered.undisturbed unhindered.unlimited).mpr
    ⟨{ prepared with heldOut }, sibling, ?_⟩⟩
  exact alternation_eq_ok_iff.mpr ⟨initial, features, others, made, reserved, again, rfl⟩

theorem run_independent (source : training.ratings = rival.ratings)
    (alike : training.settings.Alike rival.settings)
    (unhindered : training.Unhindered environment)
    (unhinderedRival : rival.Unhindered surroundings) :
    ((training.settings.check : Except (Error α) Unit) = .ok () ↔
        (rival.settings.check : Except (Error α) Unit) = .ok ()) ∧
      ((∃ model, (run environment training false).outcome = .ok model) ↔
        ∃ model, (run surroundings rival false).outcome = .ok model) ∧
      ∀ model twin, (run environment training false).outcome = .ok model →
        (run surroundings rival false).outcome = .ok twin →
          model.users = twin.users ∧ model.items = twin.items ∧
            model.userNumbering = twin.userNumbering ∧
            model.itemNumbering = twin.itemNumbering := by
  have lawful := lawful_of_undisturbed unhindered.undisturbed
  refine ⟨⟨?_, ?_⟩, ⟨?_, ?_⟩, ?_⟩
  · exact Settings.check_of_alike alike unhinderedRival.staffed
  · exact Settings.check_of_alike (Settings.alike_symm alike) unhindered.staffed
  · rintro ⟨model, done⟩
    obtain ⟨errors, again⟩ := model_of_alike source alike lawful unhinderedRival done
    exact ⟨_, again⟩
  · rintro ⟨model, done⟩
    obtain ⟨errors, again⟩ := model_of_alike source.symm (Settings.alike_symm alike)
      (lawful_of_undisturbed unhinderedRival.undisturbed) unhindered done
    exact ⟨_, again⟩
  · intro model twin done doneTwin
    obtain ⟨errors, again⟩ := model_of_alike source alike lawful unhinderedRival done
    rw [Except.ok.inj (doneTwin.symm.trans again)]
    exact ⟨rfl, rfl, rfl, rfl⟩

-- The rival has two workers, held-out data and an alpha that implicit feedback would refuse.
theorem run_independent_one_rating :
    let source : Ratings ℝ := (Store.ofList [⟨1, 2, 3⟩]).toRatings
    let training : Training ℝ := ⟨.create 1 1 1 1, source, none⟩
    let rival : Training ℝ := ⟨{ Settings.create 2 1 1 1 with alpha := -1 }, source, some source⟩
    training.ratings = rival.ratings ∧ training.settings.Alike rival.settings ∧
      training.Unhindered .plain ∧ rival.Unhindered .plain ∧
      ∃ model twin, (run .plain training false).outcome = .ok model ∧
        (run .plain rival false).outcome = .ok twin ∧
        model.users = twin.users ∧ model.items = twin.items ∧
        model.userNumbering = twin.userNumbering ∧ model.itemNumbering = twin.itemNumbering := by
  intro source training rival
  have same : training.ratings = rival.ratings := rfl
  have alike : training.settings.Alike rival.settings := ⟨rfl, rfl, rfl, rfl, rfl, rfl⟩
  have readable : source.Readable := by
    intro id member
    have agrees := (Store.agrees_of_built (.ofList [(⟨1, 2, 3⟩ : Rating ℝ)])).1
    obtain ⟨entries, given, -⟩ := agrees.entries .user id member
    exact ⟨entries, given⟩
  have unhindered : training.Unhindered .plain :=
    ⟨undisturbed_plain, rfl, Nat.one_ne_zero, nofun⟩
  have unhinderedRival : rival.Unhindered .plain :=
    ⟨undisturbed_plain, rfl, Nat.succ_ne_zero 1, fun test given => by
      rw [← Option.some.inj given]
      exact readable⟩
  obtain ⟨-, both, equal⟩ := run_independent same alike unhindered unhinderedRival
  obtain ⟨model, done⟩ := ok_one_rating
  obtain ⟨twin, doneTwin⟩ := both.mp ⟨model, done⟩
  exact ⟨same, alike, unhindered, unhinderedRival, model, twin, done, doneTwin,
    equal model twin done doneTwin⟩

end Training
end LatentFactor
