import LatentFactor.Proofs.Real.Confident

set_option autoImplicit false

namespace LatentFactor.Training

variable {training : Training ℝ} {environment : Environment ℝ}

theorem run_ok_iff_affords {ratings : List (Rating ℝ)} (agrees : training.ratings.Agrees ratings)
    (undisturbed : environment.Undisturbed) (unlimited : training.settings.timeLimit = none)
    (explicit : training.settings.feedback = .explicit)
    (valid : (training.settings.check : Except (Error ℝ) Unit) = .ok ()) :
    (∃ model, (run environment training false).outcome = .ok model) ↔
      training.Readable ∧ training.Affords := by
  have resolves := Ratings.resolves_of_agrees agrees
  have confident := confident_of_explicit explicit
  rw [run_ok_iff_accommodates valid resolves confident unlimited undisturbed,
    accommodates_iff_affords explicit]

theorem check_ones : ((.create 1 1 1 1 : Settings ℝ).check : Except (Error ℝ) Unit) = .ok () :=
  Settings.check_of_ranked Nat.one_ne_zero

theorem ok_of_one_rating {test : Option (Ratings ℝ)}
    (readable : ∀ source ∈ test, source.Readable) : ∃ model, (run .plain
      (⟨.create 1 1 1 1, (Store.ofList [⟨1, 2, 3⟩]).toRatings, test⟩ : Training ℝ) false).outcome =
        .ok model := by
  have agrees := (Store.agrees_of_built (.ofList [(⟨1, 2, 3⟩ : Rating ℝ)])).1
  exact (run_ok_iff_affords agrees undisturbed_plain rfl rfl check_ones).mpr
    ⟨readable, (accommodates_singleton rfl (by decide)).affords⟩

theorem ok_one_rating : ∃ model, (run .plain
    (⟨.create 1 1 1 1, (Store.ofList [⟨1, 2, 3⟩]).toRatings, none⟩ : Training ℝ) false).outcome =
      .ok model :=
  ok_of_one_rating nofun

end LatentFactor.Training
