import LatentFactor.Proofs.Ratings.Permuted
import LatentFactor.Proofs.Real.Descent
import LatentFactor.Proofs.Real.Order
import LatentFactor.Proofs.Training.Model

set_option autoImplicit false

namespace LatentFactor

namespace Training

variable {training rival : Training ℝ} {prepared other : Prepared ℝ}

theorem exists_id (side : Side) (coherent : training.Coherent prepared) {r : Nat}
    (within : r < (prepared.ratings.bySide side).size) :
    ∃ id, (prepared.numbering side).get? id = some r := by
  rw [size_by_side coherent] at within
  exact ⟨_, ((prepared.numbering side).get_eq_some_iff _ r).mpr (Array.getElem?_eq_getElem within)⟩

-- Matrices of both sources that have the same row for every id.
structure Beside (prepared other : Prepared ℝ) (rank : Nat) (features others : Features ℝ) :
    Prop where
  shaped : Shaped prepared rank features
  shapedOther : Shaped other rank others
  rows : ∀ side, featureRow prepared features side = featureRow other others side

section

variable {settings : Settings ℝ} {rank : Nat} {features others : Features ℝ} {side : Side}
  {update twin : RowUpdate ℝ}

theorem permuted_of_beside (permuted : training.ratings.Permuted rival.ratings)
    (coherent : training.Coherent prepared) (coherentRival : rival.Coherent other)
    (beside : Beside prepared other rank features others)
    (created : RowUpdate.create settings.feedback (features.bySide side.other) settings.lambda
      settings.passes = .ok update)
    (createdTwin : RowUpdate.create settings.feedback (others.bySide side.other) settings.lambda
      settings.passes = .ok twin) : update.Permuted twin := by
  obtain ⟨feedback, fixed, lambda, passes, shared⟩ := RowUpdate.create_eq_ok created
  obtain ⟨feedback', fixed', lambda', passes', shared'⟩ := RowUpdate.create_eq_ok createdTwin
  have cols : (features.bySide side.other).cols = (others.bySide side.other).cols :=
    (beside.shaped.cols side.other).trans (beside.shapedOther.cols side.other).symm
  have rows : (features.bySide side.other).rows.toList.Perm
      (others.bySide side.other).rows.toList := by
    rw [← feature_rows_eq coherent beside.shaped, ← feature_rows_eq coherentRival
      beside.shapedOther, beside.rows side.other]
    exact (Ratings.ids_perm permuted side.other).map _
  rw [feedback, fixed] at shared
  rw [feedback', fixed'] at shared'
  exact ⟨feedback.trans feedback'.symm, lambda.trans lambda'.symm, passes.trans passes'.symm,
    by rw [fixed, fixed', cols], RowUpdate.shared_perm cols rows shared shared'⟩

theorem solve_of_beside (permuted : training.ratings.Permuted rival.ratings)
    (coherent : training.Coherent prepared) (coherentRival : rival.Coherent other)
    (beside : Beside prepared other rank features others)
    (created : RowUpdate.create settings.feedback (features.bySide side.other) settings.lambda
      settings.passes = .ok update)
    (createdTwin : RowUpdate.create settings.feedback (others.bySide side.other) settings.lambda
      settings.passes = .ok twin)
    {id : EntityId} {r s : Nat} {observations observationsTwin : Observations ℝ} {row : Row ℝ}
    (position : (prepared.numbering side).get? id = some r)
    (positionTwin : (other.numbering side).get? id = some s)
    (found : (prepared.ratings.bySide side)[r]? = some observations)
    (foundTwin : (other.ratings.bySide side)[s]? = some observationsTwin)
    (solved : update.solve observations = .ok row) : twin.solve observationsTwin = .ok row := by
  have same := permuted_of_beside permuted coherent coherentRival beside created createdTwin
  have fixed := (RowUpdate.create_eq_ok created).2.1
  have fixedTwin := (RowUpdate.create_eq_ok createdTwin).2.1
  obtain ⟨_, entries, again, given, lists⟩ := observed_of_coherent coherent position
  cases again.symm.trans found
  obtain ⟨_, entriesTwin, again, givenTwin, listsTwin⟩ :=
    observed_of_coherent coherentRival positionTwin
  cases again.symm.trans foundTwin
  have listed : id ∈ training.ratings.ids side := by
    by_contra absent
    rw [(get_eq_none_iff coherent _ _).mpr absent] at position
    cases position
  obtain ⟨rated, looked, holds, whole⟩ := RowUpdate.solve_eq_ok_iff.mp solved
  obtain ⟨ratedTwin, lookedTwin⟩ : ∃ rated, twin.ratedRows observationsTwin = .ok rated := by
    refine RowUpdate.exists_rated ?_
    rw [fixedTwin, beside.shapedOther.size]
    exact inside_of_coherent coherentRival (Array.mem_toList_iff.mpr
      (Array.mem_of_getElem? foundTwin))
  have terms : rated.Perm ratedTwin := by
    rw [rated_eq fixed lists looked, rated_eq fixedTwin listsTwin lookedTwin,
      beside.rows side.other]
    exact (permuted.entries side id listed entries entriesTwin given givenTwin).map _
  rw [RowUpdate.system_perm same terms, same.passes] at whole
  have count := terms.length_eq
  rw [RowUpdate.length_of_rated_rows looked, RowUpdate.length_of_rated_rows lookedTwin] at count
  have size : twin.fixed.size = update.fixed.size := by
    rw [fixed, fixedTwin, beside.shaped.size, beside.shapedOther.size, size_numbering coherent,
      size_numbering coherentRival]
    exact (Ratings.ids_perm permuted side.other).length_eq.symm
  obtain ⟨copies, square⟩ := holds
  rw [same.cols] at square
  rw [same.cols, count, ← size] at copies
  exact RowUpdate.solve_eq_ok_iff.mpr ⟨ratedTwin, lookedTwin, ⟨copies, square⟩, whole⟩

theorem answer_of_half {fixed matrix : RowMatrix ℝ}
    (created : RowUpdate.create settings.feedback fixed settings.lambda settings.passes =
      .ok update)
    (solved : half settings prepared side fixed = .ok matrix) {r : Nat}
    {observations : Observations ℝ}
    (found : (prepared.ratings.bySide side)[r]? = some observations) :
    update.solve observations = .ok (matrix.rowAt r) := by
  obtain ⟨_, again, -, answers⟩ := half_eq_ok_iff.mp solved
  cases created.symm.trans again
  obtain ⟨within, rfl⟩ := Array.getElem?_eq_some_iff.mp found
  have inside : r < matrix.rows.size := by
    rw [← Array.length_toList, ← answers.length_eq]
    exact within
  rw [RowMatrix.rowAt, Array.getElem?_eq_getElem inside]
  exact (List.forall₂_iff_get.mp answers).2 r within inside

theorem exists_twin_get (side : Side) (permuted : training.ratings.Permuted rival.ratings)
    (coherent : training.Coherent prepared) (coherentRival : rival.Coherent other)
    {id : EntityId} {r : Nat} (position : (prepared.numbering side).get? id = some r) :
    ∃ s, (other.numbering side).get? id = some s := by
  rw [← Option.ne_none_iff_exists', Ne, get_eq_none_iff coherentRival _ _,
    ← (Ratings.ids_perm permuted side).mem_iff, ← get_eq_none_iff coherent _ _, position]
  nofun

theorem twin_get_eq_none (side : Side) (permuted : training.ratings.Permuted rival.ratings)
    (coherent : training.Coherent prepared) (coherentRival : rival.Coherent other)
    {id : EntityId} (absent : (prepared.numbering side).get? id = none) :
    (other.numbering side).get? id = none := by
  rw [get_eq_none_iff coherent _ _, (Ratings.ids_perm permuted side).mem_iff] at absent
  exact (get_eq_none_iff coherentRival _ _).mpr absent

theorem feature_row_congr (permuted : training.ratings.Permuted rival.ratings)
    (coherent : training.Coherent prepared) (coherentRival : rival.Coherent other)
    (rows : ∀ id r s, (prepared.numbering side).get? id = some r →
      (other.numbering side).get? id = some s →
        (features.bySide side).rowAt r = (others.bySide side).rowAt s) :
    featureRow prepared features side = featureRow other others side := by
  funext id
  cases position : (prepared.numbering side).get? id with
  | none =>
      have absent := twin_get_eq_none side permuted coherent coherentRival position
      rw [featureRow, featureRow, position, absent]
  | some r =>
      obtain ⟨s, positionTwin⟩ := exists_twin_get side permuted coherent coherentRival position
      rw [feature_row_eq position, feature_row_eq positionTwin, rows id r s position positionTwin]

theorem shaped_of_half (coherent : training.Coherent prepared)
    (shaped : Shaped prepared rank features) {matrix : RowMatrix ℝ}
    (solved : half settings prepared side (features.bySide side.other) = .ok matrix) :
    Shaped prepared rank (features.replace side matrix) := by
  obtain ⟨size, width⟩ := size_of_half coherent solved
  refine shaped_replace shaped (size.trans (shaped.size side).symm) ?_
  rw [width, shaped.cols, shaped.cols]

theorem half_of_beside (side : Side) (permuted : training.ratings.Permuted rival.ratings)
    (coherent : training.Coherent prepared) (coherentRival : rival.Coherent other)
    (beside : Beside prepared other rank features others) {matrix : RowMatrix ℝ}
    (solved : half settings prepared side (features.bySide side.other) = .ok matrix) :
    ∃ twin, half settings other side (others.bySide side.other) = .ok twin ∧
      Beside prepared other rank (features.replace side matrix) (others.replace side twin) := by
  obtain ⟨update, created, -, -⟩ := half_eq_ok_iff.mp solved
  have cols : (features.bySide side.other).cols = (others.bySide side.other).cols :=
    (beside.shaped.cols side.other).trans (beside.shapedOther.cols side.other).symm
  obtain ⟨updateTwin, createdTwin⟩ := RowUpdate.exists_create cols created
  -- A row of either source is the row of an id, so the other source has a row for it, too.
  have answer : ∀ id r s observations observationsTwin,
      (prepared.numbering side).get? id = some r → (other.numbering side).get? id = some s →
      (prepared.ratings.bySide side)[r]? = some observations →
      (other.ratings.bySide side)[s]? = some observationsTwin →
      updateTwin.solve observationsTwin = .ok (matrix.rowAt r) := by
    intro id r s observations observationsTwin position positionTwin found foundTwin
    exact solve_of_beside permuted coherent coherentRival beside created createdTwin position
      positionTwin found foundTwin (answer_of_half created solved found)
  obtain ⟨twin, solvedTwin⟩ : ∃ twin, half settings other side (others.bySide side.other) =
      .ok twin := by
    refine exists_half createdTwin fun observationsTwin member => ?_
    obtain ⟨s, within, rfl⟩ := List.mem_iff_getElem.mp member
    obtain ⟨id, positionTwin⟩ := exists_id side coherentRival within
    obtain ⟨r, position⟩ :=
      exists_twin_get side (Ratings.permuted_symm permuted) coherentRival coherent positionTwin
    obtain ⟨observations, -, found, -⟩ := observed_of_coherent coherent position
    exact ⟨_, answer id r s observations _ position positionTwin found
      (Array.getElem?_eq_getElem within)⟩
  refine ⟨twin, solvedTwin, ?_, ?_, ?_⟩
  · exact shaped_of_half coherent beside.shaped solved
  · exact shaped_of_half coherentRival beside.shapedOther solvedTwin
  · refine side.forall_of_both ?_ ?_
    · refine feature_row_congr permuted coherent coherentRival ?_
      intro id r s position positionTwin
      obtain ⟨observations, -, found, -⟩ := observed_of_coherent coherent position
      obtain ⟨observationsTwin, -, foundTwin, -⟩ :=
        observed_of_coherent coherentRival positionTwin
      have own := answer id r s observations observationsTwin position positionTwin found foundTwin
      rw [answer_of_half createdTwin solvedTwin foundTwin] at own
      rw [Features.by_side_replace, Features.by_side_replace]
      exact (Except.ok.inj own).symm
    · rw [feature_row_replace_other, feature_row_replace_other]
      exact beside.rows side.other

theorem round_of_beside (permuted : training.ratings.Permuted rival.ratings)
    (coherent : training.Coherent prepared) (coherentRival : rival.Coherent other)
    (beside : Beside prepared other rank features others) {next : Features ℝ}
    (solved : round settings prepared features.items = .ok next) :
    ∃ twin, round settings other others.items = .ok twin ∧
      Beside prepared other rank next twin := by
  obtain ⟨solvedUsers, solvedItems⟩ := round_eq_ok_iff.mp solved
  obtain ⟨users, twinUsers, besideUsers⟩ :=
    half_of_beside .user permuted coherent coherentRival beside solvedUsers
  obtain ⟨items, twinItems, besideItems⟩ :=
    half_of_beside .item permuted coherent coherentRival besideUsers solvedItems
  exact ⟨⟨users, items⟩, round_eq_ok_iff.mpr ⟨twinUsers, twinItems⟩, besideItems⟩

end

theorem values_of_lists {α : Type} {counterparts : Numbering} {entries : Entries α}
    {observations : Observations α} (lists : Resolved.Lists counterparts entries observations) :
    observations.map Prod.snd = entries.map Prod.snd := by
  unfold Resolved.Lists at lists
  induction lists with
  | nil => rfl
  | cons own _ ih => rw [List.map_cons, List.map_cons, ih, own.2]

theorem initial_of_permuted (permuted : training.ratings.Permuted rival.ratings)
    (coherent : training.Coherent prepared) (coherentRival : rival.Coherent other) (rank : Nat)
    (seed : UInt64) :
    Features.initial prepared.users.size prepared.ratings.byItem.toList rank seed =
      Features.initial other.users.size other.ratings.byItem.toList rank seed := by
  have users : prepared.users.size = other.users.size := by
    have own := size_numbering coherent .user
    rw [(Ratings.ids_perm permuted .user).length_eq, ← size_numbering coherentRival .user] at own
    exact own
  have ids : (prepared.numbering .item).ids.toList = (other.numbering .item).ids.toList := by
    rw [coherent.ids, coherentRival.ids]
    exact permuted.items
  have rows : (prepared.ratings.bySide .item).size = (other.ratings.bySide .item).size := by
    rw [size_by_side coherent, size_by_side coherentRival, Numbering.size, Numbering.size,
      ← Array.length_toList, ids, Array.length_toList]
  rw [users]
  refine Features.initial_perm (List.forall₂_iff_get.mpr ⟨rows, fun r first second => ?_⟩) _ _ _
  obtain ⟨id, position⟩ := exists_id .item coherent first
  obtain ⟨observations, entries, found, given, lists⟩ := observed_of_coherent coherent position
  rw [Numbering.get_of_ids ids] at position
  obtain ⟨others, entriesTwin, foundTwin, givenTwin, listsTwin⟩ :=
    observed_of_coherent coherentRival position
  have listed : id ∈ training.ratings.ids .item := by
    by_contra absent
    rw [(Ratings.ids_perm permuted .item).mem_iff, ← get_eq_none_iff coherentRival _ _, position]
      at absent
    cases absent
  obtain ⟨_, rfl⟩ := Array.getElem?_eq_some_iff.mp found
  obtain ⟨_, rfl⟩ := Array.getElem?_eq_some_iff.mp foundTwin
  have values := (permuted.entries .item id listed entries entriesTwin given givenTwin).map
    Prod.snd
  rw [← values_of_lists lists, ← values_of_lists listsTwin] at values
  exact values

theorem row_at_zeros {size cols r : Nat} (inside : r < size) :
    (RowMatrix.zeros size cols : RowMatrix ℝ).rowAt r = Row.zeros cols := by
  simp [RowMatrix.rowAt, RowMatrix.zeros, inside]

theorem beside_of_initial (permuted : training.ratings.Permuted rival.ratings)
    (coherent : training.Coherent prepared) (coherentRival : rival.Coherent other) {rank : Nat}
    {seed : UInt64} {initial : Features ℝ}
    (made : Features.initial prepared.users.size prepared.ratings.byItem.toList rank seed =
      .ok initial) : Beside prepared other rank initial initial := by
  have madeTwin := made
  rw [initial_of_permuted permuted coherent coherentRival] at madeTwin
  refine ⟨shaped_of_initial coherent made, shaped_of_initial coherentRival madeTwin, ?_⟩
  refine Side.forall_of_both .user ?_ ?_
  · refine feature_row_congr permuted coherent coherentRival ?_
    intro id r s position positionTwin
    have inside : r < prepared.users.size := Numbering.lt_size_of_get _ position
    have insideTwin : s < prepared.users.size := by
      have size := (Features.initial_eq_ok made).1.1
      rw [(Features.initial_eq_ok madeTwin).1.1] at size
      rw [← size]
      exact Numbering.lt_size_of_get _ positionTwin
    rw [Features.bySide, (Features.rows_of_initial made).1, row_at_zeros inside,
      row_at_zeros insideTwin]
  · refine feature_row_congr permuted coherent coherentRival ?_
    intro id r s position positionTwin
    have ids : (prepared.numbering .item).ids.toList = (other.numbering .item).ids.toList := by
      rw [coherent.ids, coherentRival.ids]
      exact permuted.items
    cases position.symm.trans ((Numbering.get_of_ids ids id).trans positionTwin)
    rfl

section

variable {rank : Nat} {features others initial : Features ℝ}

theorem row_at_of_beside (side : Side) (beside : Beside prepared other rank features others)
    {id : EntityId} {r s : Nat} (position : (prepared.numbering side).get? id = some r)
    (positionTwin : (other.numbering side).get? id = some s) :
    (features.bySide side).rowAt r = (others.bySide side).rowAt s := by
  have same := congrFun (beside.rows side) id
  rw [feature_row_eq position, feature_row_eq positionTwin] at same
  exact same

noncomputable def sampleError (features : Features ℝ) (sample : Sample ℝ) : ℝ :=
  Scalar.abs (Row.dot (features.users.rowAt sample.user) (features.items.rowAt sample.item)
    - sample.value)

theorem sample_error_of_beside (permuted : training.ratings.Permuted rival.ratings)
    (coherent : training.Coherent prepared) (coherentRival : rival.Coherent other)
    (beside : Beside prepared other rank features others) (rating : Rating ℝ) :
    (HeldOut.place? prepared.users prepared.items rating).map (sampleError features) =
      (HeldOut.place? other.users other.items rating).map (sampleError others) := by
  rw [HeldOut.place?, HeldOut.place?]
  cases user : prepared.users.get? rating.user with
  | none =>
      have absent : other.users.get? rating.user = none :=
        twin_get_eq_none .user permuted coherent coherentRival user
      rw [absent]
      rfl
  | some r =>
      obtain ⟨s, userTwin⟩ : ∃ s, other.users.get? rating.user = some s :=
        exists_twin_get .user permuted coherent coherentRival user
      have userRow : features.users.rowAt r = others.users.rowAt s :=
        row_at_of_beside .user beside user userTwin
      rw [userTwin]
      cases item : prepared.items.get? rating.item with
      | none =>
          have absent : other.items.get? rating.item = none :=
            twin_get_eq_none .item permuted coherent coherentRival item
          rw [absent]
          rfl
      | some k =>
          obtain ⟨l, itemTwin⟩ : ∃ l, other.items.get? rating.item = some l :=
            exists_twin_get .item permuted coherent coherentRival item
          have itemRow : features.items.rowAt k = others.items.rowAt l :=
            row_at_of_beside .item beside item itemTwin
          rw [itemTwin, Option.map_some, Option.map_some, sampleError, sampleError, userRow,
            itemRow]

theorem error_of_beside (permuted : training.ratings.Permuted rival.ratings)
    (test : training.test = rival.test) (resolved : training.prepare = .ok prepared)
    (resolvedRival : rival.prepare = .ok other)
    (beside : Beside prepared other rank features others) :
    prepared.heldOut.error? features.users features.items =
      other.heldOut.error? others.users others.items := by
  have coherent := coherent_of_prepare resolved
  have coherentRival := coherent_of_prepare resolvedRival
  obtain ⟨-, -, -, created, -⟩ := prepare_eq_ok_iff.mp resolved
  obtain ⟨-, -, -, createdRival, -⟩ := prepare_eq_ok_iff.mp resolvedRival
  have errors : prepared.heldOut.samples.toList.map (sampleError features) =
      other.heldOut.samples.toList.map (sampleError others) := by
    rw [heldOutOf] at created
    rw [heldOutOf, ← test] at createdRival
    cases given : training.test with
    | none =>
        rw [given] at created createdRival
        rw [← Except.ok.inj created, ← Except.ok.inj createdRival]
        rfl
    | some source =>
        rw [given] at created createdRival
        rw [HeldOut.samples_of_create created, HeldOut.samples_of_create createdRival,
          List.map_filterMap, List.map_filterMap]
        exact List.filterMap_congr fun rating _ =>
          sample_error_of_beside permuted coherent coherentRival beside rating
  have sizes := congrArg List.length errors
  rw [List.length_map, List.length_map, Array.length_toList, Array.length_toList] at sizes
  rw [HeldOut.error?, HeldOut.error?, sizes]
  exact if_congr Iff.rfl rfl (congrArg (fun terms => some (Scalar.sum terms)) errors)

theorem rounds_of_beside {settings : Settings ℝ}
    (permuted : training.ratings.Permuted rival.ratings) (test : training.test = rival.test)
    (resolved : training.prepare = .ok prepared) (resolvedRival : rival.prepare = .ok other)
    (beside : Beside prepared other rank initial initial) {count : Nat}
    {errors : List (Option ℝ)}
    (done : rounds settings prepared initial count = .ok (features, errors)) :
    ∃ others, rounds settings other initial count = .ok (others, errors) ∧
      Beside prepared other rank features others := by
  induction count generalizing features errors with
  | zero =>
      cases done
      exact ⟨initial, rfl, beside⟩
  | succ count ih =>
      obtain ⟨before, earlier, prior, both, rfl⟩ := rounds_succ_eq_ok_iff.mp done
      obtain ⟨twin, again, besideEarlier⟩ := ih prior
      obtain ⟨others, solved, besideNow⟩ := round_of_beside permuted
        (coherent_of_prepare resolved) (coherent_of_prepare resolvedRival) besideEarlier both
      refine ⟨others, ?_, besideNow⟩
      rw [error_of_beside permuted test resolved resolvedRival besideNow]
      exact rounds_succ_eq_ok again solved

end

structure SameRows (source : Ratings ℝ) (model twin : Model ℝ) : Prop where
  users : ∀ id ∈ source.userIds, ∃ row, model.userRow id = .ok row ∧ twin.userRow id = .ok row
  items : ∀ id ∈ source.itemIds, ∃ row, model.itemRow id = .ok row ∧ twin.itemRow id = .ok row
  errors : model.errors = twin.errors

theorem exists_row_of_beside {rank : Nat} {features others : Features ℝ} (side : Side)
    (permuted : training.ratings.Permuted rival.ratings) (coherent : training.Coherent prepared)
    (coherentRival : rival.Coherent other)
    (beside : Beside prepared other rank features others) {id : EntityId}
    (listed : id ∈ training.ratings.ids side) :
    ∃ row r s, ((prepared.numbering side).get? id = some r ∧
        (features.bySide side).rows[r]? = some row) ∧
      (other.numbering side).get? id = some s ∧ (others.bySide side).rows[s]? = some row := by
  rw [← coherent.ids side] at listed
  obtain ⟨r, position⟩ := Numbering.exists_get listed
  obtain ⟨s, positionTwin⟩ := exists_twin_get side permuted coherent coherentRival position
  have inside : r < (features.bySide side).size := by
    rw [beside.shaped.size]
    exact Numbering.lt_size_of_get _ position
  have insideTwin : s < (others.bySide side).size := by
    rw [beside.shapedOther.size]
    exact Numbering.lt_size_of_get _ positionTwin
  refine ⟨_, r, s, ⟨position, RowMatrix.get_row_at inside⟩, positionTwin, ?_⟩
  rw [row_at_of_beside side beside position positionTwin]
  exact RowMatrix.get_row_at insideTwin

theorem same_rows_of_beside {rank : Nat} {features others : Features ℝ}
    (permuted : training.ratings.Permuted rival.ratings) (coherent : training.Coherent prepared)
    (coherentRival : rival.Coherent other)
    (beside : Beside prepared other rank features others) (errors : List (Option ℝ)) :
    SameRows training.ratings
      ⟨prepared.users, prepared.items, features.users, features.items, errors⟩
      ⟨other.users, other.items, others.users, others.items, errors⟩ where
  users := fun id listed => by
    obtain ⟨row, r, s, own, twin⟩ :=
      exists_row_of_beside .user permuted coherent coherentRival beside listed
    exact ⟨row, Model.user_row_eq_ok_iff.mpr ⟨r, own⟩, Model.user_row_eq_ok_iff.mpr ⟨s, twin⟩⟩
  items := fun id listed => by
    obtain ⟨row, r, s, own, twin⟩ :=
      exists_row_of_beside .item permuted coherent coherentRival beside listed
    exact ⟨row, Model.item_row_eq_ok_iff.mpr ⟨r, own⟩, Model.item_row_eq_ok_iff.mpr ⟨s, twin⟩⟩
  errors := rfl

theorem alternation_of_permuted {model : Model ℝ}
    (permuted : training.ratings.Permuted rival.ratings) (test : training.test = rival.test)
    (settings : training.settings = rival.settings) (resolved : training.prepare = .ok prepared)
    (resolvedRival : rival.prepare = .ok other)
    (solved : alternation training prepared = .ok model) :
    ∃ twin, alternation rival other = .ok twin ∧ SameRows training.ratings model twin := by
  have coherent := coherent_of_prepare resolved
  have coherentRival := coherent_of_prepare resolvedRival
  obtain ⟨initial, features, errors, made, reserved, done, rfl⟩ := alternation_eq_ok_iff.mp solved
  obtain ⟨others, again, beside⟩ := rounds_of_beside permuted test resolved resolvedRival
    (beside_of_initial permuted coherent coherentRival made) done
  rw [initial_of_permuted permuted coherent coherentRival] at made
  rw [settings] at made reserved again
  exact ⟨_, alternation_eq_ok_iff.mpr ⟨initial, others, errors, made, reserved, again, rfl⟩,
    same_rows_of_beside permuted coherent coherentRival beside errors⟩

variable {environment surroundings : Environment ℝ}

theorem model_of_permuted (permuted : training.ratings.Permuted rival.ratings)
    (settings : training.settings = rival.settings) (test : training.test = rival.test)
    (resolves : rival.ratings.Resolves) (undisturbed : environment.Undisturbed)
    (undisturbedRival : surroundings.Undisturbed)
    (unlimited : training.settings.timeLimit = none) {model : Model ℝ}
    (done : (run environment training false).outcome = .ok model) :
    ∃ twin, (run surroundings rival false).outcome = .ok twin ∧
      SameRows training.ratings model twin := by
  obtain ⟨prepared, resolved, solved⟩ := (run_eq_ok_iff undisturbed unlimited).mp done
  obtain ⟨-, -, -, created, staffed⟩ := prepare_eq_ok_iff.mp resolved
  have readable : rival.Readable := by
    have own : training.Readable := exists_held_out_iff.mp ⟨_, created⟩
    rw [Readable, test] at own
    exact own
  rw [settings] at unlimited staffed
  obtain ⟨other, resolvedRival⟩ := Ratings.exists_prepare_of_resolves resolves readable staffed
  obtain ⟨twin, solvedTwin, same⟩ :=
    alternation_of_permuted permuted test settings resolved resolvedRival solved
  exact ⟨twin, (run_eq_ok_iff undisturbedRival unlimited).mpr ⟨other, resolvedRival, solvedTwin⟩,
    same⟩

theorem run_permuted (permuted : training.ratings.Permuted rival.ratings)
    (settings : training.settings = rival.settings) (test : training.test = rival.test)
    (resolves : training.ratings.Resolves) (resolvesRival : rival.ratings.Resolves)
    (undisturbed : environment.Undisturbed) (undisturbedRival : surroundings.Undisturbed)
    (unlimited : training.settings.timeLimit = none) :
    ((∃ model, (run environment training false).outcome = .ok model) ↔
        ∃ twin, (run surroundings rival false).outcome = .ok twin) ∧
      ∀ model twin, (run environment training false).outcome = .ok model →
        (run surroundings rival false).outcome = .ok twin →
          SameRows training.ratings model twin := by
  refine ⟨⟨?_, ?_⟩, ?_⟩
  · rintro ⟨model, done⟩
    obtain ⟨twin, doneTwin, -⟩ := model_of_permuted permuted settings test resolvesRival
      undisturbed undisturbedRival unlimited done
    exact ⟨twin, doneTwin⟩
  · rintro ⟨twin, doneTwin⟩
    obtain ⟨model, done, -⟩ := model_of_permuted (Ratings.permuted_symm permuted) settings.symm
      test.symm resolves undisturbedRival undisturbed (settings ▸ unlimited) doneTwin
    exact ⟨model, done⟩
  · intro model twin done doneTwin
    obtain ⟨_, again, same⟩ := model_of_permuted permuted settings test resolvesRival
      undisturbed undisturbedRival unlimited done
    rw [Except.ok.inj (doneTwin.symm.trans again)]
    exact same

theorem run_permuted_two_users :
    let records : List (Rating ℝ) := [⟨1, 3, 5⟩, ⟨2, 3, 4⟩]
    let source := (Store.ofList records).toRatings
    let training : Training ℝ := ⟨.create 1 1 1 1, source, some source⟩
    let rival : Training ℝ :=
      ⟨.create 1 1 1 1, (Store.ofList records.reverse).toRatings, some source⟩
    training.ratings.Permuted rival.ratings ∧ training.settings = rival.settings ∧
      training.test = rival.test ∧ training.ratings.Resolves ∧ rival.ratings.Resolves ∧
      (Environment.plain : Environment ℝ).Undisturbed ∧ training.settings.timeLimit = none ∧
      ∃ model twin, (run .plain training false).outcome = .ok model ∧
        (run .plain rival false).outcome = .ok twin ∧ SameRows training.ratings model twin := by
  intro records source training rival
  have agrees := (Store.agrees_of_built (.ofList records)).1
  have agreesRival := (Store.agrees_of_built (.ofList records.reverse)).1
  have permuted : training.ratings.Permuted rival.ratings := by
    refine Store.permuted_of_perm (List.reverse_perm records).symm ?_ rfl
    decide
  have resolves : training.ratings.Resolves := Ratings.resolves_of_agrees agrees
  have resolvesRival : rival.ratings.Resolves := Ratings.resolves_of_agrees agreesRival
  have undisturbed := undisturbed_plain (α := ℝ)
  obtain ⟨model, done⟩ : ∃ model, (run .plain training false).outcome = .ok model := by
    refine (run_ok_iff_affords agrees undisturbed rfl rfl check_ones).mpr ⟨?_, ?_⟩
    · intro test given id member
      rw [← Option.some.inj given] at member ⊢
      obtain ⟨entries, listed, -⟩ := agrees.entries .user id member
      exact ⟨entries, listed⟩
    · refine ⟨fun side => ?_, by decide, fun side id listed entries given => ?_,
        fun _ _ => by decide⟩
      · rw [Store.ids_of_list]
        cases side with
        | user | item => decide
      · have two : (Store.ofList records).ratings.length = 2 :=
          (Store.ratings_of_list_perm (by decide)).length_eq
        have few := Ratings.length_of_agrees agrees listed given
        rw [two] at few
        have rows : Memory.HoldsMatrix 2 1 := by decide
        exact Memory.holds_matrix_of_le few rows
  obtain ⟨both, same⟩ := run_permuted permuted rfl rfl resolves resolvesRival undisturbed
    undisturbed rfl
  obtain ⟨twin, doneTwin⟩ := both.mp ⟨model, done⟩
  exact ⟨permuted, rfl, rfl, resolves, resolvesRival, undisturbed, rfl, model, twin, done,
    doneTwin, same model twin done doneTwin⟩

end Training
end LatentFactor
