import LatentFactor.Proofs.Real.Explicit

set_option autoImplicit false

namespace LatentFactor

variable {α : Type} [Scalar α]

def RowMatrix.rowOrZeros (m : RowMatrix α) (r : Nat) : Row α :=
  m.rows[r]?.getD (Row.zeros m.cols)

theorem RowMatrix.length_row_or_zeros (m : RowMatrix α) (r : Nat) :
    (m.rowOrZeros r).length = m.cols := by
  unfold rowOrZeros
  cases found : m.rows[r]? with
  | none => exact Row.length_zeros _
  | some row => exact length_of_row found

namespace RowUpdate

def square (fixed : RowMatrix α) : Feedback α → Block α
  | .explicit => []
  | .implicit _ => Block.gram fixed.cols (fixed.rows.toList.map fun row => (row, row))

-- What a row solve comes to where memory is of no account.
def answer (update : RowUpdate α) (observations : Observations α) : Except (Error α) (Row α) :=
  let (block, right) := update.system (observations.map fun entry =>
    (update.fixed.rowOrZeros entry.1, entry.2))
  Block.solve block right update.passes

variable {update : RowUpdate α} {observations : Observations α}

theorem length_of_answer (shared : SharedOf update.feedback update.fixed update.shared)
    {row : Row α} (answered : update.answer observations = .ok row) :
    row.length = update.fixed.cols := by
  have widths : ∀ pair ∈ observations.map fun entry =>
      (update.fixed.rowOrZeros entry.1, entry.2), pair.1.length = update.fixed.cols := by
    intro pair member
    obtain ⟨entry, -, rfl⟩ := List.mem_map.mp member
    exact update.fixed.length_row_or_zeros entry.1
  obtain ⟨square, right⟩ := square_system shared widths
  exact Block.length_of_solve square right answered

theorem answer_eq {rated : List (Row α × α)} (looked : update.ratedRows observations = .ok rated) :
    update.answer observations =
      Block.solve (update.system rated).1 (update.system rated).2 update.passes := by
  have same : (observations.map fun entry => (update.fixed.rowOrZeros entry.1, entry.2)) =
      rated := by
    rw [← List.forall₂_eq_eq_eq, List.forall₂_map_left_iff]
    refine (rated_rows_eq_ok_iff.mp looked).imp fun entry pair own => ?_
    obtain ⟨found, value⟩ := own
    rw [RowMatrix.rowOrZeros, found, value]
    rfl
  rw [answer, same]

theorem answer_of_solve {row : Row α} (solved : update.solve observations = .ok row) :
    update.answer observations = .ok row := by
  obtain ⟨rated, looked, -, found⟩ := solve_eq_ok_iff.mp solved
  rw [answer_eq looked, found]

theorem answer_of_unsolved {failure : Failure α}
    (inside : ∀ observation ∈ observations, observation.1 < update.fixed.size)
    (unsolved : update.solve observations = .error failure) :
    (¬update.fixed.HoldsSystem observations.length ∧
      ∃ rows cols, failure = .fault (.beyondMemory rows cols)) ∨
    ∃ error, failure = .error error ∧ update.answer observations = .error error := by
  obtain ⟨rated, looked⟩ := exists_rated inside
  by_cases holds : update.fixed.HoldsSystem observations.length
  · rw [solve_eq looked holds] at unsolved
    obtain ⟨error, failed, rfl⟩ := map_error_eq_error_iff.mp unsolved
    exact .inr ⟨error, rfl, (answer_eq looked).trans failed⟩
  · obtain ⟨rows, cols, lacks⟩ := solve_of_lacks looked holds
    cases lacks.symm.trans unsolved
    exact .inl ⟨holds, rows, cols, rfl⟩

end RowUpdate

namespace Training

def sideUpdate (settings : Settings α) (fixed : RowMatrix α) : RowUpdate α :=
  ⟨settings.feedback, fixed, RowUpdate.square fixed settings.feedback, settings.lambda,
    settings.passes⟩

theorem shared_of_side_update (settings : Settings α) (fixed : RowMatrix α) :
    RowUpdate.SharedOf (sideUpdate settings fixed).feedback (sideUpdate settings fixed).fixed
      (sideUpdate settings fixed).shared := by
  unfold sideUpdate RowUpdate.SharedOf
  cases settings.feedback with
  | explicit | implicit _ => rfl

theorem side_update_of_create {settings : Settings α} {fixed : RowMatrix α} {update : RowUpdate α}
    (created : RowUpdate.create settings.feedback fixed settings.lambda settings.passes =
      .ok update) : sideUpdate settings fixed = update := by
  obtain ⟨feedback, same, lambda, passes, shared⟩ := RowUpdate.create_eq_ok created
  obtain ⟨_, _, _, _, _⟩ := update
  subst feedback same lambda passes
  unfold sideUpdate
  unfold RowUpdate.SharedOf at shared
  cases kind : settings.feedback with
  | explicit | implicit _ =>
      simp only [kind] at shared
      rw [shared]
      rfl

def answers (settings : Settings α) (prepared : Prepared α) (side : Side) (fixed : RowMatrix α) :
    List (Except (Error α) (Row α)) :=
  (prepared.ratings.bySide side).toList.map (sideUpdate settings fixed).answer

def answered (settings : Settings α) (prepared : Prepared α) (side : Side) (fixed : RowMatrix α) :
    RowMatrix α where
  cols := fixed.cols
  rows := (values (answers settings prepared side fixed)).toArray
  width := by
    intro row member
    have given := mem_values_iff.mp (List.mem_toArray.mp member)
    obtain ⟨observations, -, own⟩ := List.mem_map.mp given
    exact RowUpdate.length_of_answer (shared_of_side_update settings fixed) own

-- All rows of a side against the whole other side, or the errors of all rows that fail.
def solveSide (settings : Settings α) (prepared : Prepared α) (side : Side) (fixed : RowMatrix α) :
    Except (List (Error α)) (RowMatrix α) :=
  match failures (answers settings prepared side fixed) with
  | [] => .ok (answered settings prepared side fixed)
  | errors => .error errors

def solveSides (settings : Settings α) (prepared : Prepared α) (items : RowMatrix α) :
    Except (List (Error α)) (Features α) := do
  let users ← solveSide settings prepared .user items
  let items ← solveSide settings prepared .item users
  return ⟨users, items⟩

def solveRounds (settings : Settings α) (prepared : Prepared α) (initial : Features α) :
    Nat → Except (List (Error α)) (Features α × List (Option α))
  | 0 => .ok (initial, [])
  | count + 1 => do
      let (features, errors) ← solveRounds settings prepared initial count
      let next ← solveSides settings prepared features.items
      return (next, errors ++ [prepared.heldOut.error? next.users next.items])

/-- Training as a recursion of row solves alone: the model after the last iteration, or the errors
of all rows that fail in the first phase that has such a row. -/
def recursion (training : Training α) (prepared : Prepared α) (initial : Features α) :
    Except (List (Error α)) (Model α) := do
  let (features, errors) ←
    solveRounds training.settings prepared initial training.settings.iterations
  return ⟨prepared.users, prepared.items, features.users, features.items, errors⟩

-- The results of the one are those of the other, and so are the errors; a fault comes of memory.
structure Follows {β : Type} (lacking : Prop) (x : Except (List (Failure α)) β)
    (y : Except (List (Error α)) β) : Prop where
  result : ∀ b, x = .ok b → y = .ok b
  failure : ∀ others, x = .error others → ∀ failure ∈ others,
    (lacking ∧ ∃ rows cols, failure = .fault (.beyondMemory rows cols)) ∨
      ∃ errors, y = .error errors ∧ ∃ error ∈ errors, failure = .error error

omit [Scalar α] in
theorem follows_bind {β γ : Type} {lacking : Prop} {x : Except (List (Failure α)) β}
    {y : Except (List (Error α)) β} {f : β → Except (List (Failure α)) γ}
    {g : β → Except (List (Error α)) γ} (first : Follows lacking x y)
    (rest : ∀ b, x = .ok b → Follows lacking (f b) (g b)) :
    Follows lacking (x >>= f) (y >>= g) := by
  cases x with
  | ok b =>
      rw [first.result b rfl]
      exact rest b rfl
  | error others =>
      refine ⟨nofun, fun _ same failure member => ?_⟩
      cases same
      rcases first.failure others rfl failure member with fault | ⟨errors, failed, own⟩
      · exact .inl fault
      · rw [failed]
        exact .inr ⟨errors, rfl, own⟩

omit [Scalar α] in
theorem follows_ok {β : Type} (lacking : Prop) (b : β) :
    Follows lacking (.ok b : Except (List (Failure α)) β) (.ok b) :=
  ⟨fun _ same => congrArg _ (Except.ok.inj same), nofun⟩

section

variable {training : Training α} {prepared : Prepared α} {initial : Features α}

theorem follows_half {side : Side} {fixed : RowMatrix α} (coherent : training.Coherent prepared)
    (size : fixed.size = (prepared.numbering side.other).size)
    (cols : fixed.cols = training.settings.rank) :
    Follows (¬training.Accommodates) (half training.settings prepared side fixed)
      (solveSide training.settings prepared side fixed) := by
  constructor
  · intro target done
    obtain ⟨update, created, width, rows⟩ := half_eq_ok_iff.mp done
    have given : answers training.settings prepared side fixed =
        target.rows.toList.map .ok := by
      rw [answers, side_update_of_create created]
      exact map_eq_map_ok_iff.mpr (rows.imp fun _ _ => RowUpdate.answer_of_solve)
    have listed : values (answers training.settings prepared side fixed) = target.rows.toList := by
      rw [given, values_map_ok]
    have whole : answered training.settings prepared side fixed = target :=
      RowMatrix.ext width.symm (congrArg List.toArray listed)
    rw [solveSide, given, failures_map_ok, whole]
  · intro others failed failure member
    rcases half_error_cases failed with ⟨fault, uncreated, rfl⟩ | ⟨update, created, rfl⟩
    · have beyond := (RowUpdate.lacks_of_create uncreated).1
      refine .inl ⟨fun accommodates => ?_, _, _,
        (List.mem_singleton.mp member).trans (congrArg Failure.fault beyond)⟩
      obtain ⟨update, created⟩ := exists_create_of_accommodates accommodates cols
      cases uncreated.symm.trans created
    · obtain ⟨observations, there, unsolved⟩ := List.mem_map.mp (mem_failures_iff.mp member)
      obtain ⟨-, same, -, -, -⟩ := RowUpdate.create_eq_ok created
      have inside := inside_of_coherent coherent there
      rw [← size, ← same] at inside
      rcases RowUpdate.answer_of_unsolved inside unsolved with ⟨lacks, fault⟩ | ⟨error, rfl, own⟩
      · refine .inl ⟨fun accommodates => lacks ?_, fault⟩
        rw [same]
        exact holds_of_affords coherent accommodates.affords cols there
      · have listed : error ∈ failures (answers training.settings prepared side fixed) := by
          rw [mem_failures_iff, answers, side_update_of_create created]
          exact List.mem_map.mpr ⟨observations, there, own⟩
        refine .inr ⟨_, ?_, error, listed, rfl⟩
        rw [solveSide]
        split
        · rename_i none
          rw [none] at listed
          cases listed
        · rfl

theorem follows_rounds (coherent : training.Coherent prepared)
    (shaped : Shaped prepared training.settings.rank initial) (count : Nat) :
    Follows (¬training.Accommodates) (rounds training.settings prepared initial count)
      (solveRounds training.settings prepared initial count) := by
  induction count with
  | zero => exact follows_ok _ _
  | succ count ih =>
      refine follows_bind ih fun earlier done => ?_
      have before := shaped_of_rounds coherent shaped done
      refine follows_bind ?_ fun _ _ => follows_ok _ _
      refine follows_bind ?_ fun users solved => ?_
      · exact follows_half coherent (before.size .item) (before.cols .item)
      · obtain ⟨size, cols⟩ := size_of_half coherent solved
        refine follows_bind ?_ fun _ _ => follows_ok _ _
        exact follows_half coherent size (cols.trans (before.cols .item))

theorem follows_alternation (coherent : training.Coherent prepared)
    (made : Features.initial prepared.users.size prepared.ratings.byItem.toList
      training.settings.rank training.settings.seedInUse = .ok initial)
    (reserved : Memory.reserve training.settings.iterations = .ok ()) :
    Follows (¬training.Accommodates) (alternation training prepared)
      (recursion training prepared initial) := by
  have same : alternation training prepared = (do
      let (features, errors) ←
        rounds training.settings prepared initial training.settings.iterations
      return ⟨prepared.users, prepared.items, features.users, features.items, errors⟩) := by
    rw [alternation, made, reserved]
    rfl
  rw [same]
  exact follows_bind (follows_rounds coherent (shaped_of_initial coherent made) _)
    fun _ _ => follows_ok _ _

end

-- The model of the recursion, or the error of one of the rows that fail first.
def Realizes (outcome : Except (Failure α) (Model α)) :
    Except (List (Error α)) (Model α) → Prop
  | .ok model => outcome = .ok model
  | .error errors => ∃ error ∈ errors, outcome = .error (.error error)

section

variable {environment : Environment α} {training : Training α} {prepared : Prepared α}

theorem run_refines_recursion (undisturbed : environment.Undisturbed)
    (unlimited : training.settings.timeLimit = none)
    (valid : (training.settings.check : Except (Error α) Unit) = .ok ())
    (resolved : training.prepare = .ok prepared) :
    let outcome := (run environment training false).outcome
    let start := Features.initial prepared.users.size prepared.ratings.byItem.toList
      training.settings.rank training.settings.seedInUse
    (training.Accommodates → ∃ initial, start = .ok initial ∧
      Realizes outcome (recursion training prepared initial)) ∧
    (¬training.Accommodates →
      (∃ rows cols, outcome = .error (.fault (.beyondMemory rows cols))) ∨
      ∃ initial errors, start = .ok initial ∧
        recursion training prepared initial = .error errors ∧
        ∃ error ∈ errors, outcome = .error (.error error)) := by
  intro outcome start
  obtain ⟨ranked, -, trained, -⟩ := Settings.check_eq_ok_iff.mp valid
  have coherent := coherent_of_prepare resolved
  by_cases fits : training.Fits prepared
  · obtain ⟨first, started⟩ := exists_start environment false coherent ranked fits
    obtain ⟨initial, made, reserved, -⟩ := start_eq_ok started
    obtain ⟨result, failure⟩ := follows_alternation coherent made reserved
    have reached := matches_alternation undisturbed unlimited resolved
    cases whole : alternation training prepared with
    | ok model =>
        rw [whole] at reached
        refine ⟨fun _ => ⟨initial, made, ?_⟩, fun lacking => ?_⟩
        · rw [result model whole]
          exact reached
        · exact absurd (accommodates_of_alternation trained coherent whole) lacking
    | error others =>
        rw [whole] at reached
        obtain ⟨own, member, ended⟩ := reached
        rcases failure others whole own member with
          ⟨lacking, rows, cols, rfl⟩ | ⟨errors, failed, error, listed, rfl⟩
        · exact ⟨fun accommodates => absurd accommodates lacking, fun _ => .inl ⟨rows, cols, ended⟩⟩
        · refine ⟨fun _ => ⟨initial, made, ?_⟩, fun _ => .inr ?_⟩
          · rw [failed]
            exact ⟨error, listed, ended⟩
          · exact ⟨initial, errors, made, failed, error, listed, ended⟩
  · refine ⟨fun accommodates => ?_, fun _ => .inl ?_⟩
    · exact absurd (fits_of_affords coherent accommodates.affords) fits
    · obtain ⟨rows, cols, ran⟩ := unstarted_of_unfit resolved ranked fits
      exact ⟨rows, cols, congrArg Run.outcome ran⟩

end

theorem run_refines_recursion_one_rating :
    let training : Training ℝ := ⟨.create 1 1 1 1, (Store.ofList [⟨1, 2, 3⟩]).toRatings, none⟩
    (Environment.plain : Environment ℝ).Undisturbed ∧ training.settings.timeLimit = none ∧
      (training.settings.check : Except (Error ℝ) Unit) = .ok () ∧ training.Accommodates ∧
      ∃ prepared initial, training.prepare = .ok prepared ∧
        Features.initial prepared.users.size prepared.ratings.byItem.toList 1
          training.settings.seedInUse = .ok initial ∧
        Realizes (run .plain training false).outcome (recursion training prepared initial) := by
  intro training
  have agrees := (Store.agrees_of_built (.ofList [(⟨1, 2, 3⟩ : Rating ℝ)])).1
  have accommodates : training.Accommodates := accommodates_singleton rfl (by decide)
  obtain ⟨prepared, resolved⟩ : ∃ prepared, training.prepare = .ok prepared :=
    Ratings.exists_prepare agrees Nat.one_ne_zero
  obtain ⟨realizes, -⟩ := run_refines_recursion undisturbed_plain rfl check_ones resolved
  obtain ⟨initial, made, realized⟩ := realizes accommodates
  exact ⟨undisturbed_plain, rfl, check_ones, accommodates, prepared, initial, resolved, made,
    realized⟩

theorem exists_recursion_of_rowless {training : Training α} {prepared : Prepared α}
    (rowless : ∀ side, (prepared.ratings.bySide side).toList = []) (initial : Features α) :
    ∃ model, recursion training prepared initial = .ok model := by
  have sides : ∀ side fixed, ∃ matrix,
      solveSide training.settings prepared side fixed = .ok matrix := by
    intro side fixed
    refine ⟨answered training.settings prepared side fixed, ?_⟩
    have none : answers training.settings prepared side fixed = [] := by
      rw [answers, rowless side, List.map_nil]
    rw [solveSide, none]
    rfl
  have solved : ∀ count, ∃ result,
      solveRounds training.settings prepared initial count = .ok result := by
    intro count
    induction count with
    | zero => exact ⟨_, rfl⟩
    | succ count ih =>
        obtain ⟨earlier, done⟩ := ih
        obtain ⟨users, first⟩ := sides .user earlier.1.items
        obtain ⟨items, second⟩ := sides .item users
        exact ⟨_, bind_eq_ok_iff.mpr ⟨earlier, done, bind_eq_ok_iff.mpr ⟨⟨users, items⟩,
          bind_eq_ok_iff.mpr ⟨users, first, bind_eq_ok_iff.mpr ⟨items, second, rfl⟩⟩, rfl⟩⟩⟩
  obtain ⟨result, done⟩ := solved training.settings.iterations
  exact ⟨_, bind_eq_ok_iff.mpr ⟨result, done, rfl⟩⟩

-- There is no row that could fail, but the matrices without rows are too wide for memory.
theorem not_run_refines_recursion_wide :
    let training : Training ℝ := ⟨.create 1 (Nat.pow 2 63) 1 1, (Store.ofList []).toRatings, none⟩
    (Environment.plain : Environment ℝ).Undisturbed ∧ training.settings.timeLimit = none ∧
      (training.settings.check : Except (Error ℝ) Unit) = .ok () ∧
      ∃ prepared, training.prepare = .ok prepared ∧
        (∀ initial, ∃ model, recursion training prepared initial = .ok model) ∧
        ∃ rows cols, (run .plain training false).outcome =
          .error (.fault (.beyondMemory rows cols)) := by
  intro training
  have agrees := (Store.agrees_of_built (.ofList ([] : List (Rating ℝ)))).1
  have valid : (training.settings.check : Except (Error ℝ) Unit) = .ok () :=
    Settings.check_of_ranked (by decide)
  obtain ⟨prepared, resolved⟩ : ∃ prepared, training.prepare = .ok prepared :=
    Ratings.exists_prepare agrees Nat.one_ne_zero
  have coherent := coherent_of_prepare resolved
  obtain ⟨rows, cols, ran⟩ := unstarted_of_wide resolved (by decide) .user (by decide)
  refine ⟨undisturbed_plain, rfl, valid, prepared, resolved, ?_, rows, cols,
    congrArg Run.outcome ran⟩
  refine exists_recursion_of_rowless fun side => ?_
  rw [← List.length_eq_zero_iff, Array.length_toList, size_by_side coherent,
    size_numbering coherent]
  cases side with
  | user | item => rfl

end Training
end LatentFactor
