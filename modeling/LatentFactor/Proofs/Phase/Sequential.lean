import LatentFactor.Proofs.Phase.Cancelled
import LatentFactor.Proofs.Phase.InOrder

set_option autoImplicit false

namespace LatentFactor.Phase

variable {α : Type}

namespace Task

-- The flag as row `r` finds it after the rows before it have been solved.
def flagAt (task : Task α) (cancelled : Bool) (r : Nat) : Bool :=
  cancelled || (List.range r).any fun q => (task.solve q).cancels

-- Why a row is refused that finds this flag: the flag itself, the failure of its function, or the
-- length of its answer.
def refusal? (task : Task α) (cols : Nat) (flag : Bool) (r : Nat) : Option (Failure α) :=
  if flag then some (.error (.cancelled task.phase))
  else
    match (task.solve r).result with
    | .error failure => some failure
    | .ok row =>
        if row.length = cols then none
        else some (.error (.mismatch (.solvedRow task.phase.side r row.length cols)))

def refusalAt? (task : Task α) (cols : Nat) (cancelled : Bool) (r : Nat) : Option (Failure α) :=
  task.refusal? cols (task.flagAt cancelled r) r

-- The first `count` rows hold their new vectors and the others are as they were.
structure Replaces (task : Task α) (before : RowMatrix α) (count : Nat) (after : RowMatrix α) :
    Prop where
  cols : after.cols = before.cols
  size : after.size = before.size
  earlier : ∀ r < count, ∃ row, task.Solves before.cols r row ∧ after.rows[r]? = some row
  later : ∀ r, count ≤ r → after.rows[r]? = before.rows[r]?

theorem flag_at_succ (task : Task α) (cancelled : Bool) (r : Nat) :
    task.flagAt cancelled (r + 1) = (task.flagAt cancelled r || (task.solve r).cancels) := by
  simp [flagAt, List.range_succ, Bool.or_assoc]

theorem solves_of_unrefused {task : Task α} {cols r : Nat} {flag : Bool}
    (unrefused : task.refusal? cols flag r = none) :
    flag = false ∧ ∃ row, task.Solves cols r row := by
  unfold refusal? at unrefused
  split at unrefused
  · cases unrefused
  · rename_i clear
    have clear : flag = false := by simpa using clear
    split at unrefused
    · cases unrefused
    · rename_i row answer
      split at unrefused
      · rename_i fits
        exact ⟨clear, row, answer, fits⟩
      · cases unrefused

theorem refusal_of_solves {task : Task α} {cols r : Nat} {row : Row α}
    (solves : task.Solves cols r row) : task.refusal? cols false r = none := by
  simp [refusal?, solves.1, solves.2]

theorem eq_of_replaces {task : Task α} {before after : RowMatrix α}
    (replaces : task.Replaces before 0 after) : after = before := by
  apply RowMatrix.ext replaces.cols
  apply Array.ext_getElem?
  intro r
  exact replaces.later r (Nat.zero_le r)

end Task

namespace Progress

variable {task : Task α} {clock : Clock} {target : RowMatrix α} {cancelled : Bool}

theorem act_of_settled {progress : Progress α} {r : Nat} {state : RowState α}
    (found : progress.states[r]? = some state) (settled : state.isSettled = true)
    {action : Action} (own : action.row? = some r) : progress.act task clock action = progress := by
  cases action with
  | cancel => cases own
  | check q | call q | write q | skip q =>
      cases own
      cases state with
      | waiting | admitted | solved | writing => cases settled
      | written | failed | skipped => simp [act, check, call, write, skip, found]

theorem found_fail {progress : Progress α} {r : Nat} {before : RowState α} (failure : Failure α)
    (found : progress.states[r]? = some before) :
    (progress.fail r failure).states[r]? = some .failed := found_mark .failed found

theorem play_cons (progress : Progress α) (action : Action) (actions : List Action) :
    progress.play task clock (action :: actions) =
      (progress.act task clock action).play task clock actions := rfl

theorem play_of_settled {progress : Progress α} {r : Nat} {state : RowState α}
    (found : progress.states[r]? = some state) (settled : state.isSettled = true)
    (actions : List Action) (own : ∀ action ∈ actions, action.row? = some r) :
    progress.play task clock actions = progress := by
  induction actions with
  | nil => rfl
  | cons action actions ih =>
      obtain ⟨first, rest⟩ := List.forall_mem_cons.mp own
      rw [play_cons, act_of_settled found settled first]
      exact ih rest

structure SameRecord (progress next : Progress α) : Prop where
  failures : next.failures = progress.failures
  cancelled : next.cancelled = progress.cancelled
  calls : next.calls = progress.calls

theorem own_writes (r count : Nat) :
    ∀ action ∈ List.replicate count (Action.write r), action.row? = some r :=
  fun _ member => List.eq_of_mem_replicate member ▸ rfl

theorem check_of_waiting (unlimited : task.limit = none) {progress : Progress α} {r : Nat}
    (found : progress.states[r]? = some .waiting) :
    progress.act task clock (.check r) =
      if progress.cancelled then progress.fail r (.error (.cancelled task.phase))
      else progress.mark r .admitted := by
  simp [act, check, found, Task.expired, unlimited]

def called (task : Task α) (r : Nat) (progress : Progress α) : Progress α :=
  { progress with
    cancelled := progress.cancelled || (task.solve r).cancels
    calls := r :: progress.calls }

theorem call_of_admitted {progress : Progress α} {r : Nat}
    (found : progress.states[r]? = some .admitted) :
    progress.act task clock (.call r) =
      match (task.solve r).result with
      | .ok row => (progress.called task r).mark r (.solved row)
      | .error failure => (progress.called task r).fail r failure := by
  simp only [act, call, found]
  rfl

theorem write_of_solved {progress : Progress α} {r : Nat} {row : Row α}
    (found : progress.states[r]? = some (.solved row)) :
    progress.act task clock (.write r) =
      if row.length = progress.target.cols then progress.mark r (.writing row 0)
      else progress.fail r (.error (.mismatch
        (.solvedRow task.phase.side r row.length progress.target.cols))) := by
  simp only [act, write, found]

variable (task clock) in
theorem same_record_of_writes {progress : Progress α} {r next : Nat} {row : Row α} (count : Nat)
    (found : progress.states[r]? = some (.writing row next)) :
    progress.SameRecord (progress.play task clock (List.replicate count (.write r))) := by
  induction count generalizing progress next with
  | zero => exact ⟨rfl, rfl, rfl⟩
  | succ count ih =>
      rw [List.replicate_succ, play_cons]
      cases entry : row[next]? with
      | none =>
          have written : progress.act task clock (.write r) = progress.mark r .written := by
            simp [act, write, found, entry]
          rw [written, play_of_settled (found_mark .written found) rfl _ (own_writes r count)]
          exact ⟨rfl, rfl, rfl⟩
      | some value =>
          have entered : progress.act task clock (.write r) =
              { progress.mark r (.writing row (next + 1)) with
                target := progress.target.setEntry r next value } := by
            simp [act, write, found, entry, mark]
          obtain ⟨failures, cancelled, calls⟩ := @ih
            { progress.mark r (.writing row (next + 1)) with
              target := progress.target.setEntry r next value }
            (next + 1) (found_mark (.writing row (next + 1)) found)
          rw [entered]
          exact ⟨failures, cancelled, calls⟩

structure Turn (task : Task α) (r : Nat) (progress next : Progress α) : Prop where
  failures : next.failures =
    (task.refusal? progress.target.cols progress.cancelled r).toList ++ progress.failures
  cancelled : next.cancelled = (progress.cancelled || (task.solve r).cancels)
  calls : next.calls = if progress.cancelled then progress.calls else r :: progress.calls

variable (task clock) in
theorem turn_of_admitted (progress : Progress α) {r : Nat}
    (clear : progress.cancelled = false) (found : progress.states[r]? = some .admitted) :
    Turn task r progress (progress.play task clock
      (.call r :: List.replicate (progress.target.cols + 2) (.write r))) := by
  have there : (progress.called task r).states[r]? = some .admitted := found
  have listed : r :: progress.calls = if progress.cancelled then progress.calls else
      r :: progress.calls := by simp [clear]
  rw [play_cons, call_of_admitted found]
  cases answer : (task.solve r).result with
  | error failure =>
      dsimp only
      rw [play_of_settled (found_fail failure there) rfl _ (own_writes r _)]
      exact ⟨by simp [Task.refusal?, clear, answer, fail, mark, called], rfl, listed⟩
  | ok row =>
      have solved := found_mark (.solved row) there
      have cols : ((progress.called task r).mark r (.solved row)).target.cols =
          progress.target.cols := rfl
      rw [List.replicate_succ, play_cons, write_of_solved solved, cols]
      by_cases fits : row.length = progress.target.cols
      · obtain ⟨failures, cancelled, calls⟩ := same_record_of_writes task clock
          (progress.target.cols + 1) (found_mark (.writing row 0) solved)
        have unrefused : task.refusal? progress.target.cols progress.cancelled r = none := by
          simp [Task.refusal?, clear, answer, fits]
        rw [if_pos fits]
        exact ⟨by rw [failures, unrefused]; rfl, cancelled, calls.trans listed⟩
      · rw [if_neg fits, play_of_settled (found_fail _ solved) rfl _ (own_writes r _)]
        exact ⟨by simp [Task.refusal?, clear, answer, fits, fail, mark, called], rfl, listed⟩

variable (clock) in
theorem turn_of_step (unlimited : task.limit = none) {progress : Progress α} {r : Nat}
    (found : progress.states[r]? = some .waiting) (clean : progress.failures = []) :
    Turn task r progress (progress.step task clock r) := by
  rw [step, if_pos (by simp [clean]), Action.ofRow, play_cons, check_of_waiting unlimited found]
  cases flag : progress.cancelled with
  | true =>
      have own : ∀ action ∈ Action.call r :: List.replicate (progress.target.cols + 2) (.write r),
          action.row? = some r := List.forall_mem_cons.mpr ⟨rfl, own_writes r _⟩
      rw [if_pos rfl, play_of_settled (found_fail _ found) rfl _ own]
      exact ⟨by simp [Task.refusal?, flag, fail, mark], by simp [flag, fail, mark],
        by simp [flag, fail, mark]⟩
  | false =>
      obtain ⟨failures, cancelled, calls⟩ := turn_of_admitted task clock
        (progress.mark r .admitted) flag (found_mark .admitted found)
      exact ⟨failures, cancelled, calls⟩

variable (clock) in
theorem rows_hold_play {progress : Progress α} (hold : RowsHold task target progress)
    (actions : List Action) : RowsHold task target (progress.play task clock actions) :=
  @play_induction _ task clock (fun _ progress => RowsHold task target progress) progress hold
    (fun _ _ _ _ => rows_hold_move) actions

variable (clock) in
theorem rows_hold_step {progress : Progress α} (hold : RowsHold task target progress) (r : Nat) :
    RowsHold task target (progress.step task clock r) := by
  unfold step
  split
  · exact rows_hold_play clock hold _
  · exact rows_hold_play clock hold [.skip r]

-- The first `count` rows have been written, and the others have not been touched.
structure Parted (task : Task α) (target : RowMatrix α) (count : Nat) (progress : Progress α) :
    Prop where
  hold : RowsHold task target progress
  written : ∀ r < count, progress.states[r]? = some .written
  untouched : ∀ r, count ≤ r → r < target.size →
    ∃ state, progress.states[r]? = some state ∧ state.isUntouched = true

theorem replaces_of_parted {progress : Progress α} {count : Nat}
    (parted : progress.Parted task target count) : task.Replaces target count progress.target where
  cols := parted.hold.cols
  size := parted.hold.size
  earlier := by
    intro r inside
    obtain ⟨old, row, oldRow, newRow, described, -⟩ :=
      parted.hold.row r .written (parted.written r inside)
    exact ⟨row, RowMatrix.length_of_row oldRow ▸ described.1, newRow⟩
  later := by
    intro r beyond
    by_cases inside : r < target.size
    · obtain ⟨state, found, untouched⟩ := parted.untouched r beyond inside
      obtain ⟨old, row, oldRow, newRow, described, -⟩ := parted.hold.row r state found
      have same : row = old := by
        cases state with
        | waiting | failed | skipped => exact described.1
        | admitted | solved | writing | written => cases untouched
      rw [oldRow, newRow, same]
    · have outside : target.rows.size ≤ r := Nat.le_of_not_lt inside
      have size : progress.target.rows.size = target.rows.size := parted.hold.size
      rw [Array.getElem?_eq_none outside, Array.getElem?_eq_none (size ▸ outside)]

structure Ongoing (task : Task α) (target : RowMatrix α) (cancelled : Bool) (count : Nat)
    (progress : Progress α) : Prop where
  parted : progress.Parted task target count
  waiting : ∀ r, count ≤ r → r < target.size → progress.states[r]? = some .waiting
  failures : progress.failures = []
  flag : progress.cancelled = task.flagAt cancelled count
  calls : progress.calls = (List.range count).reverse
  clear : ∀ r < count, task.refusalAt? target.cols cancelled r = none

structure Stopped (task : Task α) (target : RowMatrix α) (cancelled : Bool) (e : Nat)
    (failure : Failure α) (progress : Progress α) : Prop where
  parted : progress.Parted task target e
  failures : progress.failures = [failure]
  own : task.refusalAt? target.cols cancelled e = some failure
  earlier : ∀ r < e, task.refusalAt? target.cols cancelled r = none
  flag : progress.cancelled = task.flagAt cancelled progress.calls.length
  calls : progress.calls = (List.range (if task.flagAt cancelled e then e else e + 1)).reverse

theorem ongoing_start : (start target cancelled).Ongoing task target cancelled 0 where
  parted := by
    refine ⟨rows_hold_start, by simp, ?_⟩
    intro r _ inside
    exact ⟨.waiting, by simp [start, inside], rfl⟩
  waiting := by
    intro r _ inside
    simp [start, inside]
  failures := rfl
  flag := by simp [start, Task.flagAt]
  calls := rfl
  clear := by simp

theorem states_of_step {progress : Progress α} {r q : Nat} (other : r ≠ q) :
    (progress.step task clock r).states[q]? = progress.states[q]? := by
  unfold step
  split
  · refine states_of_play _ fun action member => ?_
    have own : action.row? = some r := by
      simp only [Action.ofRow, List.mem_cons, List.mem_replicate] at member
      rcases member with rfl | rfl | ⟨-, rfl⟩ <;> rfl
    simp [own, other]
  · have skipped : (progress.play task clock [.skip r]).states[q]? = progress.states[q]? :=
      states_of_play [.skip r] (by simp [Action.row?, other])
    exact skipped

theorem same_record_of_skip (progress : Progress α) (r : Nat) :
    progress.SameRecord (progress.skip r) := by
  unfold skip
  split <;> exact ⟨rfl, rfl, rfl⟩

theorem untouched_of_skip {progress : Progress α} {r : Nat} {state : RowState α}
    (found : progress.states[r]? = some state) (untouched : state.isUntouched = true) :
    ∃ after, (progress.skip r).states[r]? = some after ∧ after.isUntouched = true := by
  unfold skip
  split
  · exact ⟨.skipped, found_mark .skipped found, rfl⟩
  · exact ⟨state, found, untouched⟩

theorem stopped_step {progress : Progress α} {e r : Nat} {failure : Failure α}
    (stopped : progress.Stopped task target cancelled e failure) (later : e ≤ r) :
    (progress.step task clock r).Stopped task target cancelled e failure := by
  have skipped : progress.step task clock r = progress.skip r := by
    simp [step, stopped.failures]
  obtain ⟨failures, flag, calls⟩ := same_record_of_skip progress r
  refine ⟨⟨rows_hold_step clock stopped.parted.hold r, ?_, ?_⟩, ?_, stopped.own,
    stopped.earlier, ?_, ?_⟩
  · intro q before
    rw [states_of_step (by omega)]
    exact stopped.parted.written q before
  · intro q beyond inside
    obtain ⟨state, found, untouched⟩ := stopped.parted.untouched q beyond inside
    by_cases same : r = q
    · subst same
      rw [skipped]
      exact untouched_of_skip found untouched
    · rw [states_of_step same]
      exact ⟨state, found, untouched⟩
  · rw [skipped, failures, stopped.failures]
  · rw [skipped, flag, calls, stopped.flag]
  · rw [skipped, calls, stopped.calls]

theorem state_of_turn {progress next : Progress α} {r : Nat} {state : RowState α}
    (hold : RowsHold task target next) (turn : Turn task r progress next)
    (clean : progress.failures = []) (uncalled : r ∉ progress.calls)
    (cols : progress.target.cols = target.cols) (found : next.states[r]? = some state)
    (settled : state.isSettled = true) :
    match task.refusal? target.cols progress.cancelled r with
    | none => state = .written
    | some _ => state.isUntouched = true := by
  obtain ⟨old, row, oldRow, newRow, described, abandoned⟩ := hold.row r state found
  have width := RowMatrix.length_of_row oldRow
  have failures := turn.failures
  rw [clean, List.append_nil, cols] at failures
  cases refused : task.refusal? target.cols progress.cancelled r with
  | none =>
      rw [refused] at failures
      cases state with
      | waiting | admitted | solved | writing => cases settled
      | failed | skipped => exact absurd failures (abandoned rfl)
      | written => rfl
  | some failure =>
      cases state with
      | waiting | failed | skipped => rfl
      | admitted | solved | writing => cases settled
      | written =>
          obtain ⟨solves, called⟩ := described
          rw [width] at solves
          have listed := turn.calls
          cases flag : progress.cancelled with
          | true =>
              rw [flag, if_pos rfl] at listed
              rw [listed, List.count_eq_zero_of_not_mem uncalled] at called
              cases called
          | false =>
              rw [flag, Task.refusal_of_solves solves] at refused
              cases refused

section Next

variable {progress next : Progress α} {count : Nat}
  (ongoing : progress.Ongoing task target cancelled count) (hold : RowsHold task target next)
  (others : ∀ r, count ≠ r → next.states[r]? = progress.states[r]?)

include ongoing hold others

theorem parted_of_ongoing {state : RowState α} (own : next.states[count]? = some state)
    (untouched : state.isUntouched = true) : next.Parted task target count := by
  refine ⟨hold, ?_, ?_⟩
  · intro r before
    rw [others r (by omega)]
    exact ongoing.parted.written r before
  · intro r beyond within
    by_cases same : count = r
    · exact ⟨state, same ▸ own, untouched⟩
    · rw [others r same]
      exact ongoing.parted.untouched r beyond within

variable (turn : Turn task count progress next)

include turn

theorem ongoing_of_turn (own : next.states[count]? = some .written)
    (unrefused : task.refusalAt? target.cols cancelled count = none) :
    next.Ongoing task target cancelled (count + 1) := by
  have failures := turn.failures
  have calls := turn.calls
  rw [ongoing.flag, ongoing.failures, ongoing.parted.hold.cols, ← Task.refusalAt?,
    unrefused] at failures
  rw [ongoing.flag, (Task.solves_of_unrefused unrefused).1, ongoing.calls] at calls
  have waiting : ∀ r, count + 1 ≤ r → r < target.size → next.states[r]? = some .waiting := by
    intro r beyond within
    rw [others r (by omega)]
    exact ongoing.waiting r (by omega) within
  refine ⟨⟨hold, ?_, ?_⟩, waiting, failures, ?_, ?_, ?_⟩
  · intro r before
    rcases Nat.lt_succ_iff_lt_or_eq.mp before with earlier | rfl
    · rw [others r (by omega)]
      exact ongoing.parted.written r earlier
    · exact own
  · exact fun r beyond within => ⟨.waiting, waiting r beyond within, rfl⟩
  · rw [turn.cancelled, ongoing.flag, Task.flag_at_succ]
  · rw [calls, List.range_succ, List.reverse_append]
    rfl
  · intro r before
    rcases Nat.lt_succ_iff_lt_or_eq.mp before with earlier | rfl
    · exact ongoing.clear r earlier
    · exact unrefused

theorem stopped_of_turn {state : RowState α} (own : next.states[count]? = some state)
    (untouched : state.isUntouched = true) {failure : Failure α}
    (refused : task.refusalAt? target.cols cancelled count = some failure) :
    next.Stopped task target cancelled count failure := by
  have failures := turn.failures
  have flag := turn.cancelled
  have calls := turn.calls
  rw [ongoing.flag, ongoing.failures, ongoing.parted.hold.cols, ← Task.refusalAt?,
    refused] at failures
  rw [ongoing.flag] at flag calls
  rw [ongoing.calls] at calls
  have parted := parted_of_ongoing ongoing hold others own untouched
  refine ⟨parted, failures, refused, ongoing.clear, ?_, ?_⟩
  · rw [flag, calls]
    cases set : task.flagAt cancelled count with
    | true => simp [set]
    | false => simp [Task.flag_at_succ, set]
  · rw [calls]
    cases task.flagAt cancelled count with
    | true => rfl
    | false => simp [List.range_succ]

end Next

theorem ongoing_step (unlimited : task.limit = none) {progress : Progress α} {count : Nat}
    (ongoing : progress.Ongoing task target cancelled count) (inside : count < target.size) :
    (progress.step task clock count).Ongoing task target cancelled (count + 1) ∨
      ∃ failure, (progress.step task clock count).Stopped task target cancelled count failure := by
  have found := ongoing.waiting count (Nat.le_refl _) inside
  have turn := turn_of_step clock unlimited found ongoing.failures
  have hold := rows_hold_step clock ongoing.parted.hold count
  have others : ∀ r, count ≠ r →
      (progress.step task clock count).states[r]? = progress.states[r]? :=
    fun r other => states_of_step other
  have uncalled : count ∉ progress.calls := by simp [ongoing.calls]
  obtain ⟨-, -, -, after, there, settled⟩ := step_eq_play task clock found
  have state := state_of_turn hold turn ongoing.failures uncalled ongoing.parted.hold.cols there
    settled
  rw [ongoing.flag] at state
  cases refused : task.refusalAt? target.cols cancelled count with
  | none =>
      rw [← Task.refusalAt?, refused] at state
      exact .inl (ongoing_of_turn ongoing hold others turn (state ▸ there) refused)
  | some failure =>
      rw [← Task.refusalAt?, refused] at state
      exact .inr ⟨failure, stopped_of_turn ongoing hold others turn there state refused⟩

variable (clock cancelled) in
theorem in_turn (unlimited : task.limit = none) {count : Nat} (within : count ≤ target.size) :
    ((List.range count).foldl (step task clock) (start target cancelled)).Ongoing task target
        cancelled count ∨
      ∃ e < count, ∃ failure,
        ((List.range count).foldl (step task clock) (start target cancelled)).Stopped task target
          cancelled e failure := by
  induction count with
  | zero => exact .inl ongoing_start
  | succ count ih =>
      rw [List.range_succ, List.foldl_append, List.foldl_cons, List.foldl_nil]
      rcases ih (by omega) with ongoing | ⟨e, before, failure, stopped⟩
      · rcases ongoing_step unlimited ongoing (by omega) with next | ⟨failure, stopped⟩
        · exact .inl next
        · exact .inr ⟨count, Nat.lt_succ_self count, failure, stopped⟩
      · exact .inr ⟨e, by omega, failure, stopped_step stopped (by omega)⟩

end Progress

/-- How a run ends: at the first row that is refused, or after the last one. -/
inductive Outcome.EndsInTurn (task : Task α) (clock : Clock) (target : RowMatrix α)
    (cancelled : Bool) (outcome : Outcome α) : Prop where
  | refused (e : Nat) (failure : Failure α) (inside : e < target.size)
      (own : task.refusalAt? target.cols cancelled e = some failure)
      (earlier : ∀ r < e, task.refusalAt? target.cols cancelled r = none)
      (result : outcome.result = .error failure)
      (rows : task.Replaces target e outcome.target)
      (calls : outcome.calls =
        (List.range (if task.flagAt cancelled e then e else e + 1)).reverse)
  | completed
      (unrefused : ∀ r < target.size, task.refusalAt? target.cols cancelled r = none)
      (result : outcome.result = .ok ⟨target.size, clock.finish⟩)
      (rows : task.Replaces target target.size outcome.target)
      (calls : outcome.calls = (List.range target.size).reverse)

theorem ends_in_turn {task : Task α} (unlimited : task.limit = none) (clock : Phase → Clock)
    (target : RowMatrix α) (cancelled : Bool) :
    (inOrder clock task target cancelled).EndsInTurn task (clock task.phase) target cancelled ∧
      (inOrder clock task target cancelled).cancelled =
        task.flagAt cancelled (inOrder clock task target cancelled).calls.length := by
  have reachable : task.unreachable (clock task.phase) = false := by
    simp [Task.unreachable, unlimited]
  unfold inOrder
  simp only [reachable, Bool.false_eq_true, if_false]
  rcases Progress.in_turn (clock task.phase) cancelled unlimited
    (Nat.le_refl target.size) with ongoing | ⟨e, inside, failure, stopped⟩
  · refine ⟨.completed ongoing.clear ?_ (Progress.replaces_of_parted ongoing.parted)
      ongoing.calls, ?_⟩
    · simp [ongoing.failures, Task.finish, Task.late, unlimited]
    · simp [ongoing.calls, ongoing.flag]
  · refine ⟨.refused e failure inside stopped.own stopped.earlier ?_
      (Progress.replaces_of_parted stopped.parted) stopped.calls, stopped.flag⟩
    simp [stopped.failures]

inductive Request (α : Type) where
  | cancel
  | run (clock : Clock) (task : Task α) (target : RowMatrix α)

-- One worker carries out the requests in turn, and every run leaves its flag to the next one.
def serve : Bool → List (Request α) → List (Outcome α)
  | _, [] => []
  | _, .cancel :: rest => serve true rest
  | cancelled, .run clock task target :: rest =>
      let outcome := inOrder (fun _ => clock) task target cancelled
      outcome :: serve outcome.cancelled rest

def flagAfter : Bool → List (Request α) → Bool
  | cancelled, [] => cancelled
  | _, .cancel :: rest => flagAfter true rest
  | cancelled, .run clock task target :: rest =>
      flagAfter (inOrder (fun _ => clock) task target cancelled).cancelled rest

theorem serve_append (cancelled : Bool) (before after : List (Request α)) :
    serve cancelled (before ++ after) =
      serve cancelled before ++ serve (flagAfter cancelled before) after := by
  induction before generalizing cancelled with
  | nil => rfl
  | cons request before ih =>
      cases request with
      | cancel => exact ih true
      | run clock task target => exact congrArg (_ :: ·) (ih _)

theorem flag_after_true (requests : List (Request α)) : flagAfter true requests = true := by
  induction requests with
  | nil => rfl
  | cons request requests ih =>
      cases request with
      | cancel => exact ih
      | run clock task target =>
          obtain ⟨actions, -, possible⟩ := in_order_possible (fun _ => clock) task target true
          rw [flagAfter, (untouched_of_cancelled possible).1]
          exact ih

theorem flag_after_iff (cancelled : Bool) (requests : List (Request α)) :
    flagAfter cancelled requests = true ↔
      cancelled = true ∨ .cancel ∈ requests ∨
        ∃ outcome ∈ serve cancelled requests, outcome.cancelled = true := by
  induction requests generalizing cancelled with
  | nil => simp [flagAfter, serve]
  | cons request requests ih =>
      cases request with
      | cancel => simp [flagAfter, flag_after_true]
      | run clock task target =>
          have kept : cancelled = true →
              (inOrder (fun _ => clock) task target cancelled).cancelled = true := by
            rintro rfl
            obtain ⟨actions, -, possible⟩ := in_order_possible (fun _ => clock) task target true
            exact (untouched_of_cancelled possible).1
          simp only [flagAfter, serve, ih, List.mem_cons, reduceCtorEq, false_or,
            exists_eq_or_imp]
          constructor
          · rintro (own | request | earlier)
            · exact .inr (.inr (.inl own))
            · exact .inr (.inl request)
            · exact .inr (.inr (.inr earlier))
          · rintro (first | request | own | earlier)
            · exact .inl (kept first)
            · exact .inr (.inl request)
            · exact .inl own
            · exact .inr (.inr earlier)

/-- What one worker makes of a run that finds the flag as given. A row that sets the flag is solved
like any other (`unharmed`); the row after it is refused, if there is one. -/
structure Outcome.InTurn (task : Task α) (clock : Clock) (target : RowMatrix α) (flag : Bool)
    (outcome : Outcome α) : Prop where
  ends : outcome.EndsInTurn task clock target flag
  left : outcome.cancelled = task.flagAt flag outcome.calls.length
  unharmed : ∀ r row, task.flagAt flag r = false → task.Solves target.cols r row →
    task.refusalAt? target.cols flag r = none
  effective : ∀ r, r + 1 < target.size →
    (∀ q ≤ r, task.refusalAt? target.cols flag q = none) → (task.solve r).cancels = true →
      outcome.result = .error (.error (.cancelled task.phase)) ∧
        task.Replaces target (r + 1) outcome.target
  ineffective : flag = false → (∀ r < target.size, ∃ row, task.Solves target.cols r row) →
    (∀ r, r + 1 < target.size → (task.solve r).cancels = false) →
      outcome.result = .ok ⟨target.size, clock.finish⟩
  barred : flag = true → target.size ≠ 0 →
    outcome.result = .error (.error (.cancelled task.phase)) ∧ outcome.target = target ∧
      outcome.calls = []

theorem refused_at {task : Task α} {clock : Clock} {target : RowMatrix α} {flag : Bool}
    {outcome : Outcome α} (ends : outcome.EndsInTurn task clock target flag) {e : Nat}
    (failure : Failure α) (inside : e < target.size)
    (own : task.refusalAt? target.cols flag e = some failure)
    (earlier : ∀ r < e, task.refusalAt? target.cols flag r = none) :
    outcome.result = .error failure ∧ task.Replaces target e outcome.target ∧
      outcome.calls = (List.range (if task.flagAt flag e then e else e + 1)).reverse := by
  cases ends with
  | refused first found within met before result rows calls =>
      have same : first = e := by
        rcases Nat.lt_trichotomy first e with less | same | more
        · rw [earlier first less] at met
          cases met
        · exact same
        · rw [before e more] at own
          cases own
      subst same
      cases own.symm.trans met
      exact ⟨result, rows, calls⟩
  | completed unrefused =>
      rw [unrefused e inside] at own
      cases own

theorem in_turn_of_ends {task : Task α} {clock : Clock} {target : RowMatrix α} {flag : Bool}
    {outcome : Outcome α} (ends : outcome.EndsInTurn task clock target flag)
    (left : outcome.cancelled = task.flagAt flag outcome.calls.length) :
    outcome.InTurn task clock target flag where
  ends := ends
  left := left
  unharmed := by
    intro r row clear solves
    rw [Task.refusalAt?, clear]
    exact Task.refusal_of_solves solves
  effective := by
    intro r inside unrefused cancels
    have set : task.flagAt flag (r + 1) = true := by simp [Task.flag_at_succ, cancels]
    obtain ⟨result, rows, -⟩ := refused_at ends (.error (.cancelled task.phase)) inside
      (by simp [Task.refusalAt?, Task.refusal?, set])
      fun q before => unrefused q (Nat.le_of_lt_succ before)
    exact ⟨result, rows⟩
  ineffective := by
    intro clear solved quiet
    have unrefused : ∀ r < target.size, task.refusalAt? target.cols flag r = none := by
      intro r inside
      obtain ⟨row, solves⟩ := solved r inside
      have unset : task.flagAt flag r = false := by
        simp only [Task.flagAt, clear, Bool.false_or, List.any_eq_false, List.mem_range]
        intro q before
        simp [quiet q (by omega)]
      rw [Task.refusalAt?, unset]
      exact Task.refusal_of_solves solves
    cases ends with
    | refused e failure inside own =>
        rw [unrefused e inside] at own
        cases own
    | completed _ result => exact result
  barred := by
    intro set rows
    have start : task.flagAt flag 0 = true := by simp [Task.flagAt, set]
    obtain ⟨result, kept, calls⟩ := refused_at ends (.error (.cancelled task.phase))
      (Nat.pos_of_ne_zero rows) (by simp [Task.refusalAt?, Task.refusal?, start])
      fun r before => absurd before (Nat.not_lt_zero r)
    rw [start, if_pos rfl] at calls
    exact ⟨result, Task.eq_of_replaces kept, calls⟩

-- The run may stand anywhere among the requests to its executor.
theorem serve_in_turn (cancelled : Bool) (before after : List (Request α)) (clock : Clock)
    (task : Task α) (target : RowMatrix α) (unlimited : task.limit = none) :
    ∃ flag outcome,
      serve cancelled (before ++ .run clock task target :: after) =
        serve cancelled before ++ outcome :: serve outcome.cancelled after ∧
      (flag = true ↔ cancelled = true ∨ .cancel ∈ before ∨
        ∃ earlier ∈ serve cancelled before, earlier.cancelled = true) ∧
      outcome.InTurn task clock target flag := by
  obtain ⟨ends, left⟩ := ends_in_turn unlimited (fun _ => clock) target
    (flagAfter cancelled before)
  exact ⟨flagAfter cancelled before, _, serve_append .., flag_after_iff ..,
    in_turn_of_ends ends left⟩

-- Row 1 of the first run sets the flag and is solved; row 2 and the second run are refused.
theorem serve_in_turn_cancelling_row :
    let task : Task Nat := ⟨⟨0, .user⟩, fun r => ⟨decide (r = 1), .ok [r + 5]⟩, none⟩
    let target : RowMatrix Nat := ⟨1, #[[0], [0], [0]], by decide⟩
    let other : RowMatrix Nat := ⟨1, #[[8]], by decide⟩
    let clock : Clock := ⟨.zero, fun _ => .zero, .zero⟩
    task.limit = none ∧ ∃ first second,
      serve false [.run clock task target, .run clock task other] = [first, second] ∧
        first.result = .error (.error (.cancelled ⟨0, .user⟩)) ∧
        task.Replaces target 2 first.target ∧ first.calls = [1, 0] ∧
        second.result = .error (.error (.cancelled ⟨0, .user⟩)) ∧ second.target = other := by
  intro task target other clock
  obtain ⟨flag, first, alone, start, own⟩ := serve_in_turn false [] [] clock task target rfl
  obtain ⟨flag', second, both, before, later⟩ :=
    serve_in_turn false [.run clock task target] [] clock task other rfl
  have listed : serve false [.run clock task target] = [first] := alone
  have clear : flag = false := by simpa [serve] using start
  subst clear
  have unrefused : ∀ q ≤ 1, task.refusalAt? target.cols false q = none := by
    intro q inside
    rcases Nat.le_one_iff_eq_zero_or_eq_one.mp inside with rfl | rfl <;> rfl
  obtain ⟨result, rows⟩ := own.effective 1 (by decide) unrefused rfl
  obtain ⟨-, -, calls⟩ := refused_at own.ends (e := 2) _ (by decide) rfl
    fun q inside => unrefused q (Nat.le_of_lt_succ inside)
  have left : first.cancelled = true := by
    rw [own.left, calls]
    rfl
  rw [listed] at both before
  have set : flag' = true := before.mpr (.inr (.inr ⟨first, List.mem_singleton_self first, left⟩))
  obtain ⟨failed, kept, -⟩ := later.barred set (by decide)
  exact ⟨rfl, first, second, both, result, rows, calls, failed, kept⟩

end LatentFactor.Phase
