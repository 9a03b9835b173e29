import LatentFactor.Proofs.Phase.Outcome

set_option autoImplicit false

namespace LatentFactor.Phase

variable {α : Type}

-- At most this many writings remain until the row is settled.
def RowState.Within (cols count : Nat) : RowState α → Prop
  | .waiting | .admitted => False
  | .solved _ => cols + 2 ≤ count
  | .writing row next => row.length - next + 1 ≤ count
  | .written | .failed | .skipped => True

namespace Progress

variable {task : Task α} {clock : Clock}

theorem found_mark {progress : Progress α} {r : Nat} {before : RowState α} (after : RowState α)
    (found : progress.states[r]? = some before) :
    (progress.mark r after).states[r]? = some after := by
  rw [states_mark, if_pos rfl, found, Option.map_some]

theorem write_within (task : Task α) {progress : Progress α} {r cols count : Nat}
    {state : RowState α} (cols_eq : progress.target.cols = cols)
    (found : progress.states[r]? = some state) (within : state.Within cols (count + 1)) :
    (progress.write task r).target.cols = cols ∧
      ∃ after, (progress.write task r).states[r]? = some after ∧ after.Within cols count := by
  subst cols_eq
  cases state with
  | waiting | admitted => exact within.elim
  | written | failed | skipped =>
      rw [write, found]
      exact ⟨rfl, _, found, trivial⟩
  | solved row =>
      simp only [write, found]
      by_cases fits : row.length = progress.target.cols
      · rw [if_pos fits]
        refine ⟨rfl, _, found_mark _ found, ?_⟩
        simp only [RowState.Within] at within ⊢
        omega
      · rw [if_neg fits]
        exact ⟨rfl, _, found_mark _ found, trivial⟩
  | writing row next =>
      simp only [write, found]
      cases entry : row[next]? with
      | none => exact ⟨rfl, _, found_mark _ found, trivial⟩
      | some value =>
          have inside := (List.getElem?_eq_some_iff.mp entry).1
          refine ⟨rfl, _, found_mark (.writing row (next + 1)) found, ?_⟩
          simp only [RowState.Within] at within ⊢
          omega

theorem settled_of_within {cols : Nat} {state : RowState α} (within : state.Within cols 0) :
    state.isSettled = true := by
  cases state with
  | waiting | admitted => exact within.elim
  | written | failed | skipped => rfl
  | solved row => simp [RowState.Within] at within
  | writing row next => simp [RowState.Within] at within

theorem settled_of_writes {progress : Progress α} {r cols : Nat} (count : Nat)
    {state : RowState α} (cols_eq : progress.target.cols = cols)
    (found : progress.states[r]? = some state) (within : state.Within cols count) :
    ∃ after, (progress.play task clock (List.replicate count (.write r))).states[r]? = some after ∧
      after.isSettled = true := by
  induction count generalizing progress state with
  | zero => exact ⟨state, found, settled_of_within within⟩
  | succ count ih =>
      obtain ⟨kept, after, there, less⟩ := write_within task cols_eq found within
      exact ih kept there less

theorem settled_of_row {progress : Progress α} {r : Nat}
    (found : progress.states[r]? = some .waiting) :
    ∃ after, (progress.play task clock
      (Action.ofRow progress.target.cols r)).states[r]? = some after ∧ after.isSettled = true := by
  have checked : (progress.check task clock r).target.cols = progress.target.cols ∧
      ((progress.check task clock r).states[r]? = some .failed ∨
        (progress.check task clock r).states[r]? = some .admitted) := by
    rw [check, found]
    simp only
    split
    · exact ⟨rfl, .inl (found_mark _ found)⟩
    · split
      · exact ⟨rfl, .inl (found_mark _ found)⟩
      · exact ⟨rfl, .inr (found_mark _ found)⟩
  obtain ⟨cols, state⟩ := checked
  have called : ∃ state, ((progress.check task clock r).call task r).states[r]? = some state ∧
      ((progress.check task clock r).call task r).target.cols = progress.target.cols ∧
      state.Within progress.target.cols (progress.target.cols + 2) := by
    rcases state with failed | admitted
    · rw [call, failed]
      exact ⟨_, failed, cols, trivial⟩
    · simp only [call, admitted]
      cases answer : (task.solve r).result with
      | ok row => exact ⟨_, found_mark (.solved row) admitted, cols, Nat.le_refl _⟩
      | error failure => exact ⟨_, found_mark .failed admitted, cols, trivial⟩
  obtain ⟨state, there, kept, within⟩ := called
  exact settled_of_writes _ kept there within

theorem states_of_play {progress : Progress α} {q : Nat} (actions : List Action)
    (others : ∀ action ∈ actions, action.row? ≠ some q) :
    (progress.play task clock actions).states[q]? = progress.states[q]? := by
  induction actions generalizing progress with
  | nil => rfl
  | cons action actions ih =>
      obtain ⟨first, rest⟩ := List.forall_mem_cons.mp others
      exact (ih rest).trans (states_of_move (move_of_act progress action) first)

theorem step_eq_play (task : Task α) (clock : Clock) {progress : Progress α} {r : Nat}
    (found : progress.states[r]? = some .waiting) :
    ∃ actions, (∀ action ∈ actions, action.row? = some r) ∧
      progress.step task clock r = progress.play task clock actions ∧
      ∃ after, (progress.step task clock r).states[r]? = some after ∧ after.isSettled = true := by
  by_cases clean : progress.failures.isEmpty = true
  · refine ⟨Action.ofRow progress.target.cols r, ?_, ?_, ?_⟩
    · simp only [Action.ofRow, List.mem_cons, List.mem_replicate]
      rintro action (rfl | rfl | ⟨-, rfl⟩) <;> rfl
    · rw [step, if_pos clean]
    · rw [step, if_pos clean]
      exact settled_of_row found
  · refine ⟨[.skip r], by simp [Action.row?], ?_, ?_⟩
    · rw [step, if_neg clean]
      rfl
    · rw [step, if_neg clean, skip, found]
      cases failures : progress.failures with
      | nil => simp [failures] at clean
      | cons failure others => exact ⟨_, found_mark .skipped found, rfl⟩

theorem foldl_step_eq_play (task : Task α) (clock : Clock) (rows : List Nat)
    (distinct : rows.Nodup) {progress : Progress α}
    (waiting : ∀ r ∈ rows, progress.states[r]? = some .waiting) :
    ∃ actions, (∀ action ∈ actions, ∃ r ∈ rows, action.row? = some r) ∧
      rows.foldl (step task clock) progress = progress.play task clock actions ∧
      ∀ r ∈ rows, ∃ after, (progress.play task clock actions).states[r]? = some after ∧
        after.isSettled = true := by
  induction rows generalizing progress with
  | nil => exact ⟨[], by simp, rfl, by simp⟩
  | cons r rows ih =>
      obtain ⟨fresh, distinct⟩ := List.nodup_cons.mp distinct
      obtain ⟨first, others⟩ := List.forall_mem_cons.mp waiting
      obtain ⟨own, about, same, settled⟩ := step_eq_play task clock first
      have untouched : ∀ q ∈ rows, (progress.step task clock r).states[q]? = some .waiting := by
        intro q member
        rw [same, states_of_play own, others q member]
        intro action given equal
        have rq := Option.some.inj ((about action given).symm.trans equal)
        exact fresh (rq ▸ member)
      obtain ⟨rest, aboutRest, sameRest, settledRest⟩ := ih distinct untouched
      refine ⟨own ++ rest, ?_, ?_, ?_⟩
      · intro action member
        rcases List.mem_append.mp member with early | late
        · exact ⟨r, List.mem_cons_self .., about action early⟩
        · obtain ⟨q, there, equal⟩ := aboutRest action late
          exact ⟨q, List.mem_cons_of_mem r there, equal⟩
      · rw [List.foldl_cons, sameRest, same, play, play, play, List.foldl_append]
      · have joined : progress.play task clock (own ++ rest) =
            (progress.step task clock r).play task clock rest := by
          rw [same, play, play, play, List.foldl_append]
        rw [joined]
        intro q member
        rcases List.mem_cons.mp member with rfl | later
        · rw [states_of_play rest]
          · exact settled
          · intro action given equal
            obtain ⟨p, there, other⟩ := aboutRest action given
            exact fresh (Option.some.inj (other.symm.trans equal) ▸ there)
        · exact settledRest q later

end Progress

theorem in_order_possible (clock : Phase → Clock) (task : Task α) (target : RowMatrix α)
    (cancelled : Bool) :
    ∃ actions, .cancel ∉ actions ∧
      Possible (clock task.phase) task target cancelled (inOrder clock task target cancelled)
        actions := by
  have waiting : ∀ r ∈ List.range target.size,
      (Progress.start target cancelled).states[r]? = some .waiting := by
    intro r member
    simp [Progress.start, List.mem_range.mp member]
  obtain ⟨actions, about, same, settled⟩ :=
    Progress.foldl_step_eq_play task (clock task.phase) _ List.nodup_range waiting
  refine ⟨actions, ?_, ?_⟩
  · intro outside
    obtain ⟨r, -, own⟩ := about .cancel outside
    cases own
  · unfold Possible inOrder
    simp only
    split
    · rfl
    · rw [same]
      refine ⟨?_, rfl, rfl, rfl, ?_⟩
      · have sound := Progress.sound_play task (clock task.phase) target cancelled actions
        simp only [Progress.isSettled, Array.all_eq_true]
        intro r inside
        have within : r < target.size := sound.rows.states ▸ inside
        obtain ⟨after, found, done⟩ := settled r (List.mem_range.mpr within)
        rw [Array.getElem?_eq_getElem inside] at found
        rw [Option.some.inj found]
        exact done
      · cases failures : ((Progress.start target cancelled).play task (clock task.phase)
            actions).failures with
        | nil => rfl
        | cons failure others => exact ⟨failure, List.mem_cons_self .., rfl⟩

end LatentFactor.Phase
