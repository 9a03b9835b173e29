import LatentFactor.Proofs.Phase.Move

set_option autoImplicit false

namespace LatentFactor.Phase

variable {α : Type}

def Task.Solves (task : Task α) (cols r : Nat) (row : Row α) : Prop :=
  (task.solve r).result = .ok row ∧ row.length = cols

def Flagged (task : Task α) (cancelled : Bool) (actions : List Action) (calls : List Nat) : Prop :=
  cancelled = true ∨ .cancel ∈ actions ∨ ∃ r ∈ calls, (task.solve r).cancels = true

inductive Task.Met (task : Task α) (clock : Clock) (cols : Nat) (flagged : Prop)
    (calls : List Nat) : Failure α → Prop where
  | cancelled (set : flagged) : Met task clock cols flagged calls (.error (.cancelled task.phase))
  | timedOut (r : Nat) (expired : task.expired (clock.atRow r) = true) :
      Met task clock cols flagged calls (.error (.timedOut task.phase (clock.atRow r)))
  | unsolved (r : Nat) (failure : Failure α) (called : r ∈ calls)
      (answer : (task.solve r).result = .error failure) : Met task clock cols flagged calls failure
  | misfit (r : Nat) (row : Row α) (called : r ∈ calls) (answer : (task.solve r).result = .ok row)
      (differ : row.length ≠ cols) : Met task clock cols flagged calls
        (.error (.mismatch (.solvedRow task.phase.side r row.length cols)))

theorem met_mono {task : Task α} {clock : Clock} {cols : Nat} {before after : Prop}
    {calls more : List Nat} {failure : Failure α} (met : task.Met clock cols before calls failure)
    (flag : before → after) (listed : ∀ r ∈ calls, r ∈ more) :
    task.Met clock cols after more failure := by
  cases met with
  | cancelled set => exact .cancelled (flag set)
  | timedOut r expired => exact .timedOut r expired
  | unsolved r _ called answer => exact .unsolved r _ (listed r called) answer
  | misfit r row called answer differ => exact .misfit r row (listed r called) answer differ

theorem flagged_append (task : Task α) (cancelled : Bool) (actions : List Action) (action : Action)
    (calls : List Nat) :
    Flagged task cancelled (actions ++ [action]) calls ↔
      Flagged task cancelled actions calls ∨ action = .cancel := by
  simp only [Flagged, List.mem_append, List.mem_singleton, or_assoc]
  rw [or_comm (b := action = .cancel), eq_comm (a := action)]

theorem flagged_cons (task : Task α) (cancelled : Bool) (actions : List Action) (r : Nat)
    (calls : List Nat) :
    Flagged task cancelled actions (r :: calls) ↔
      Flagged task cancelled actions calls ∨ (task.solve r).cancels = true := by
  simp only [Flagged, List.mem_cons, exists_eq_or_imp, or_assoc]
  rw [or_comm (a := (task.solve r).cancels = true)]

def RowState.isAbandoned : RowState α → Bool
  | .failed | .skipped => true
  | _ => false

-- Between two entries a row is part new and part old. A settled row is not in that state.
def RowState.Describes (task : Task α) (r : Nat) (old row : Row α) (count : Nat) :
    RowState α → Prop
  | .waiting | .admitted | .skipped => row = old ∧ count = 0
  | .solved new => (task.solve r).result = .ok new ∧ row = old ∧ count = 1
  | .writing new next => task.Solves old.length r new ∧ next ≤ old.length ∧
      row = new.take next ++ old.drop next ∧ count = 1
  | .written => task.Solves old.length r row ∧ count = 1
  | .failed => row = old ∧ count ≤ 1

namespace Progress

variable {task : Task α} {clock : Clock} {target : RowMatrix α} {cancelled : Bool}

-- What is known of one row: its state agrees with its entries and with the calls of its function,
-- and it is given up only after a failure.
def RowHolds (task : Task α) (target : RowMatrix α) (progress : Progress α) (r : Nat)
    (state : RowState α) : Prop :=
  ∃ old row, target.rows[r]? = some old ∧ progress.target.rows[r]? = some row ∧
    state.Describes task r old row (progress.calls.count r) ∧
    (state.isAbandoned = true → progress.failures ≠ [])

structure RowsHold (task : Task α) (target : RowMatrix α) (progress : Progress α) : Prop where
  cols : progress.target.cols = target.cols
  size : progress.target.size = target.size
  states : progress.states.size = target.size
  row : ∀ (r : Nat) (state : RowState α), progress.states[r]? = some state →
    progress.RowHolds task target r state

theorem RowsHold.inside {progress : Progress α} {r : Nat} {state : RowState α}
    (hold : RowsHold task target progress) (found : progress.states[r]? = some state) :
    r < target.size := by
  rw [← hold.states]
  exact (Array.getElem?_eq_some_iff.mp found).1

theorem rows_hold_start : RowsHold task target (start target cancelled) where
  cols := rfl
  size := rfl
  states := by simp [start]
  row := by
    intro r state found
    obtain ⟨inside, rfl⟩ := Array.getElem?_eq_some_iff.mp found
    have within : r < target.rows.size := by simpa [start, RowMatrix.size] using inside
    refine ⟨target.rows[r], target.rows[r], Array.getElem?_eq_getElem within,
      Array.getElem?_eq_getElem within, ?_, ?_⟩
    · simp [start, RowState.Describes]
    · simp [start, RowState.isAbandoned]

theorem rows_hold_of_row {progress next : Progress α} {r : Nat} {before after : RowState α}
    (hold : RowsHold task target progress) (found : progress.states[r]? = some before)
    (cols : next.target.cols = progress.target.cols)
    (size : next.target.size = progress.target.size)
    (states : next.states = progress.states.setIfInBounds r after)
    (entries : ∀ q, r ≠ q → next.target.rows[q]? = progress.target.rows[q]?)
    (calls : ∀ q, r ≠ q → next.calls.count q = progress.calls.count q)
    (failing : progress.failures ≠ [] → next.failures ≠ [])
    (row : progress.RowHolds task target r before → next.RowHolds task target r after) :
    RowsHold task target next where
  cols := cols.trans hold.cols
  size := size.trans hold.size
  states := by rw [states, Array.size_setIfInBounds, hold.states]
  row := by
    intro q state there
    rw [states, Array.getElem?_setIfInBounds] at there
    by_cases same : r = q
    · subst same
      have inside := (Array.getElem?_eq_some_iff.mp found).1
      simp only [inside, if_true, Option.some.injEq] at there
      subst there
      exact row (hold.row r before found)
    · rw [if_neg same] at there
      obtain ⟨old, new, oldRow, newRow, described, abandoned⟩ := hold.row q state there
      refine ⟨old, new, oldRow, ?_, ?_, fun given => failing (abandoned given)⟩
      · rw [entries q same, newRow]
      · rw [calls q same]
        exact described

theorem rows_hold_of_mark {progress : Progress α} {r : Nat} {before after : RowState α}
    (hold : RowsHold task target progress) (found : progress.states[r]? = some before)
    (row : progress.RowHolds task target r before → progress.RowHolds task target r after) :
    RowsHold task target (progress.mark r after) :=
  rows_hold_of_row hold found rfl rfl rfl (fun _ _ => rfl) (fun _ _ => rfl) id row

theorem rows_hold_of_fail {progress : Progress α} {r : Nat} {before : RowState α}
    {failure : Failure α} (hold : RowsHold task target progress)
    (found : progress.states[r]? = some before)
    (kept : ∀ old row count, before.Describes task r old row count → row = old ∧ count ≤ 1) :
    RowsHold task target (progress.fail r failure) := by
  refine rows_hold_of_row hold found rfl rfl rfl (fun _ _ => rfl) (fun _ _ => rfl)
    (fun _ => List.cons_ne_nil _ _) ?_
  rintro ⟨old, row, oldRow, newRow, described, -⟩
  exact ⟨old, row, oldRow, newRow, kept old row _ described, fun _ => List.cons_ne_nil _ _⟩

theorem rows_hold_of_call {progress next : Progress α} {r : Nat} {after : RowState α}
    (hold : RowsHold task target progress) (found : progress.states[r]? = some .admitted)
    (entries : next.target = progress.target)
    (states : next.states = progress.states.setIfInBounds r after)
    (calls : next.calls = r :: progress.calls)
    (failing : progress.failures ≠ [] → next.failures ≠ [])
    (row : ∀ old, after.Describes task r old old 1)
    (abandoned : after.isAbandoned = true → next.failures ≠ []) :
    RowsHold task target next := by
  refine rows_hold_of_row hold found (by rw [entries]) (by rw [entries]) states
    (fun _ _ => by rw [entries]) ?_ failing ?_
  · intro q other
    rw [calls, List.count_cons_of_ne other]
  · rintro ⟨old, row', oldRow, newRow, ⟨rfl, uncalled⟩, -⟩
    refine ⟨row', row', oldRow, by rw [entries, newRow], ?_, abandoned⟩
    rw [calls, List.count_cons_self, uncalled]
    exact row row'

structure Recorded (task : Task α) (clock : Clock) (target : RowMatrix α) (cancelled : Bool)
    (actions : List Action) (progress : Progress α) : Prop where
  bounded : ∀ r ∈ progress.calls, r < target.size
  flag : progress.cancelled = true ↔ Flagged task cancelled actions progress.calls
  met : ∀ failure ∈ progress.failures,
    task.Met clock target.cols (Flagged task cancelled actions progress.calls) progress.calls
      failure

theorem set_next_entry {new old : Row α} {next : Nat} {value : α}
    (entry : new[next]? = some value) (same : new.length = old.length) :
    (new.take next ++ old.drop next).set next value =
      new.take (next + 1) ++ old.drop (next + 1) := by
  obtain ⟨inside, rfl⟩ := List.getElem?_eq_some_iff.mp entry
  have taken : (new.take next).length = next := by simp; omega
  rw [List.set_append_right _ _ (by omega), taken, Nat.sub_self,
    List.drop_eq_getElem_cons (by omega), List.set_cons_zero,
    List.take_succ_eq_append_getElem inside, List.append_assoc, List.singleton_append]

theorem rows_hold_move {progress next : Progress α} {action : Action}
    (hold : RowsHold task target progress) (move : Move task clock progress action next) :
    RowsHold task target next := by
  cases move with
  | stay _ _ => exact hold
  | cancel => exact ⟨hold.cols, hold.size, hold.states, hold.row⟩
  | refuse r state _ =>
      exact rows_hold_of_fail hold state fun old row count described =>
        ⟨described.1, by simp [described.2]⟩
  | expire r state _ =>
      exact rows_hold_of_fail hold state fun old row count described =>
        ⟨described.1, by simp [described.2]⟩
  | accept r state _ =>
      exact rows_hold_of_mark hold state fun holds => holds
  | solve r row state answer =>
      exact rows_hold_of_call hold state rfl rfl rfl id (fun old => ⟨answer, rfl, rfl⟩)
        (by simp [RowState.isAbandoned])
  | unsolved r failure state _ =>
      exact rows_hold_of_call hold state rfl rfl rfl (fun _ => List.cons_ne_nil _ _)
        (fun old => ⟨rfl, Nat.le_refl 1⟩) fun _ => List.cons_ne_nil _ _
  | begin r new state fits =>
      apply rows_hold_of_mark hold state
      rintro ⟨old, row, oldRow, newRow, ⟨answer, rfl, called⟩, -⟩
      have length : new.length = row.length := by
        rw [fits, hold.cols, RowMatrix.length_of_row oldRow]
      exact ⟨row, row, oldRow, newRow, ⟨⟨answer, length⟩, Nat.zero_le _, by simp, called⟩,
        by simp [RowState.isAbandoned]⟩
  | misfit r new state _ =>
      refine rows_hold_of_fail hold state fun old row count described =>
        ⟨described.2.1, Nat.le_of_eq described.2.2⟩
  | enter r new next value state entry =>
      refine rows_hold_of_row hold state rfl (RowMatrix.size_set_entry ..) rfl ?_
        (fun _ _ => rfl) id ?_
      · intro q other
        simp [RowMatrix.setEntry, Array.getElem?_modify, other]
      · rintro ⟨old, row, oldRow, newRow, ⟨solves, within, rfl, called⟩, -⟩
        have below : next < new.length := (List.getElem?_eq_some_iff.mp entry).1
        refine ⟨old, new.take (next + 1) ++ old.drop (next + 1), oldRow, ?_,
          ⟨solves, by have := solves.2; omega, rfl, called⟩, by simp [RowState.isAbandoned]⟩
        simp [RowMatrix.setEntry, Array.getElem?_modify, newRow, set_next_entry entry solves.2]
  | finish r new next state entry =>
      apply rows_hold_of_mark hold state
      rintro ⟨old, row, oldRow, newRow, ⟨solves, within, rfl, called⟩, -⟩
      have last : new.length ≤ next := List.getElem?_eq_none_iff.mp entry
      have whole : new.take next ++ old.drop next = new := by
        rw [List.take_of_length_le last, List.drop_eq_nil_of_le (by rw [← solves.2]; exact last),
          List.append_nil]
      exact ⟨old, _, oldRow, newRow, ⟨by rw [whole]; exact solves, called⟩,
        by simp [RowState.isAbandoned]⟩
  | skip r state failing =>
      apply rows_hold_of_mark hold state
      rintro ⟨old, row, oldRow, newRow, described, -⟩
      exact ⟨old, row, oldRow, newRow, described, fun _ => failing⟩

theorem recorded_start : Recorded task clock target cancelled [] (start target cancelled) where
  bounded := by simp [start]
  flag := by simp [start, Flagged]
  met := by simp [start]

theorem recorded_of_same_calls {actions : List Action} {action : Action}
    {progress next : Progress α}
    (recorded : Recorded task clock target cancelled actions progress) (other : action ≠ .cancel)
    (flag : next.cancelled = progress.cancelled) (calls : next.calls = progress.calls)
    (met : ∀ failure ∈ next.failures, failure ∈ progress.failures ∨
      task.Met clock target.cols (progress.cancelled = true) progress.calls failure) :
    Recorded task clock target cancelled (actions ++ [action]) next where
  bounded := by rw [calls]; exact recorded.bounded
  flag := by rw [flag, calls, recorded.flag, flagged_append, or_iff_left other]
  met := by
    intro failure member
    rw [calls, flagged_append, or_iff_left other]
    rcases met failure member with old | new
    · exact recorded.met failure old
    · exact met_mono new recorded.flag.mp fun r listed => listed

theorem recorded_of_call {actions : List Action} {r : Nat} {progress next : Progress α}
    (recorded : Recorded task clock target cancelled actions progress) (inside : r < target.size)
    (flag : next.cancelled = (progress.cancelled || (task.solve r).cancels))
    (calls : next.calls = r :: progress.calls)
    (met : ∀ failure ∈ next.failures, failure ∈ progress.failures ∨
      (task.solve r).result = .error failure) :
    Recorded task clock target cancelled (actions ++ [.call r]) next where
  bounded := by
    rw [calls]
    exact List.forall_mem_cons.mpr ⟨inside, recorded.bounded⟩
  flag := by
    rw [flag, calls, flagged_append, flagged_cons, ← recorded.flag]
    simp
  met := by
    intro failure member
    rw [calls, flagged_append, flagged_cons]
    rcases met failure member with old | own
    · exact met_mono (recorded.met failure old) (fun set => .inl (.inl set))
        fun q listed => List.mem_cons_of_mem r listed
    · exact .unsolved r failure (List.mem_cons_self ..) own

theorem recorded_move {actions : List Action} {action : Action} {progress next : Progress α}
    (hold : RowsHold task target progress)
    (recorded : Recorded task clock target cancelled actions progress)
    (move : Move task clock progress action next) :
    Recorded task clock target cancelled (actions ++ [action]) next := by
  cases move with
  | stay _ other =>
      exact recorded_of_same_calls recorded other rfl rfl fun failure member => .inl member
  | cancel =>
      refine ⟨recorded.bounded, ?_, ?_⟩
      · rw [flagged_append]
        simp [cancel]
      · intro failure member
        exact met_mono (recorded.met failure member)
          (fun set => (flagged_append ..).mpr (.inl set)) fun r listed => listed
  | refuse r state flag =>
      refine recorded_of_same_calls recorded (by simp) rfl rfl fun failure member => ?_
      rcases List.mem_cons.mp member with rfl | old
      · exact .inr (.cancelled flag)
      · exact .inl old
  | expire r state _ expired =>
      refine recorded_of_same_calls recorded (by simp) rfl rfl fun failure member => ?_
      rcases List.mem_cons.mp member with rfl | old
      · exact .inr (.timedOut r expired)
      · exact .inl old
  | accept r state clear =>
      exact recorded_of_same_calls recorded (by simp) rfl rfl fun failure member => .inl member
  | solve r row state answer =>
      exact recorded_of_call recorded (hold.inside state) rfl rfl fun failure member => .inl member
  | unsolved r failure state answer =>
      refine recorded_of_call recorded (hold.inside state) rfl rfl fun other member => ?_
      rcases List.mem_cons.mp member with rfl | old
      · exact .inr answer
      · exact .inl old
  | begin r row state fits =>
      exact recorded_of_same_calls recorded (by simp) rfl rfl fun failure member => .inl member
  | misfit r row state differ =>
      refine recorded_of_same_calls recorded (by simp) rfl rfl fun failure member => ?_
      rcases List.mem_cons.mp member with rfl | old
      · obtain ⟨_, _, _, _, ⟨answer, _, called⟩, _⟩ := hold.row r _ state
        have listed : r ∈ progress.calls := List.count_pos_iff.mp (by omega)
        rw [hold.cols] at differ ⊢
        exact .inr (.misfit r row listed answer differ)
      · exact .inl old
  | enter r row next value state entry =>
      exact recorded_of_same_calls recorded (by simp) rfl rfl fun failure member => .inl member
  | finish r row next state entry =>
      exact recorded_of_same_calls recorded (by simp) rfl rfl fun failure member => .inl member
  | skip r state failing =>
      exact recorded_of_same_calls recorded (by simp) rfl rfl fun failure member => .inl member

structure Sound (task : Task α) (clock : Clock) (target : RowMatrix α) (cancelled : Bool)
    (actions : List Action) (progress : Progress α) : Prop where
  rows : RowsHold task target progress
  record : Recorded task clock target cancelled actions progress

theorem sound_play (task : Task α) (clock : Clock) (target : RowMatrix α) (cancelled : Bool)
    (actions : List Action) :
    Sound task clock target cancelled actions
      ((start target cancelled).play task clock actions) := by
  refine play_induction _ ⟨rows_hold_start, recorded_start⟩ ?_ actions
  intro actions before action after sound move
  exact ⟨rows_hold_move sound.rows move, recorded_move sound.rows sound.record move⟩

end Progress
end LatentFactor.Phase
