import Mathlib.Data.List.Forall2

set_option autoImplicit false

namespace LatentFactor

variable {ε δ α β : Type}

theorem bind_of_ok {x : Except ε α} {f : α → Except ε β} {a : α} (done : x = .ok a) :
    x >>= f = f a := by
  rw [done]
  rfl

theorem bind_eq_ok_iff {x : Except ε α} {f : α → Except ε β} {b : β} :
    x >>= f = .ok b ↔ ∃ a, x = .ok a ∧ f a = .ok b := by
  cases x with
  | ok a => simp [bind, Except.bind]
  | error e => simp [bind, Except.bind]

theorem bind_eq_error_iff {x : Except ε α} {f : α → Except ε β} {e : ε} :
    x >>= f = .error e ↔ x = .error e ∨ ∃ a, x = .ok a ∧ f a = .error e := by
  cases x with
  | ok a => simp [bind, Except.bind]
  | error e => simp [bind, Except.bind]

theorem map_error_eq_ok_iff {x : Except ε α} {f : ε → δ} {a : α} :
    x.mapError f = .ok a ↔ x = .ok a := by
  cases x <;> simp [Except.mapError]

theorem map_error_eq_error_iff {x : Except ε α} {f : ε → δ} {d : δ} :
    x.mapError f = .error d ↔ ∃ e, x = .error e ∧ f e = d := by
  cases x <;> simp [Except.mapError]

theorem map_error_bind {x : Except ε α} {f : α → Except ε β} {g : ε → δ} :
    (x >>= f).mapError g = x.mapError g >>= fun a => (f a).mapError g := by
  cases x with
  | ok a => rfl
  | error e => rfl

theorem fold_m_map {γ : Type} {f : β → α → Except ε β} {f' : β → γ → Except δ β} {g : ε → δ}
    {h : α → γ} (step : ∀ b a, f' b (h a) = (f b a).mapError g) (xs : List α) (b : β) :
    (xs.map h).foldlM f' b = (xs.foldlM f b).mapError g := by
  induction xs generalizing b with
  | nil => rfl
  | cons x xs ih =>
      rw [List.map_cons, List.foldlM_cons, List.foldlM_cons, map_error_bind, step]
      exact congrArg _ (funext ih)

theorem fold_m_eq_fold {f : β → α → Except ε β} {g : β → α → β} {xs : List α}
    (each : ∀ b, ∀ x ∈ xs, f b x = .ok (g b x)) (b : β) : xs.foldlM f b = .ok (xs.foldl g b) := by
  induction xs generalizing b with
  | nil => rfl
  | cons x xs ih =>
      rw [List.foldlM_cons, each b x (List.mem_cons_self ..)]
      exact ih (fun b x member => each b x (List.mem_cons_of_mem _ member)) _

-- Both fail, and in the same way, or both have results and these are alike.
def Corresponds (alike : α → β → Prop) : Except ε α → Except ε β → Prop
  | .ok a, .ok b => alike a b
  | .error e, .error other => e = other
  | _, _ => False

theorem corresponds_iff {alike : α → β → Prop} {x : Except ε α} {y : Except ε β} :
    Corresponds alike x y ↔
      (∃ a b, x = .ok a ∧ y = .ok b ∧ alike a b) ∨ ∃ e, x = .error e ∧ y = .error e := by
  cases x with
  | ok a =>
      cases y with
      | ok b => simp [Corresponds]
      | error other => simp [Corresponds]
  | error e =>
      cases y with
      | ok b => simp [Corresponds]
      | error other => simp [Corresponds, eq_comm]

def failures (answers : List (Except ε α)) : List ε :=
  answers.filterMap fun answer =>
    match answer with
    | .ok _ => none
    | .error e => some e

def values (answers : List (Except ε α)) : List α := answers.filterMap Except.toOption

theorem failures_map_ok (xs : List α) : failures (xs.map (.ok : α → Except ε α)) = [] := by
  induction xs with
  | nil => rfl
  | cons x xs ih => exact ih

theorem values_map_ok (xs : List α) : values (xs.map (.ok : α → Except ε α)) = xs := by
  induction xs with
  | nil => rfl
  | cons x xs ih => exact congrArg (x :: ·) ih

theorem eq_map_values {answers : List (Except ε α)} (none : failures answers = []) :
    answers = (values answers).map .ok := by
  induction answers with
  | nil => rfl
  | cons answer answers ih =>
      cases answer with
      | ok x => exact congrArg (.ok x :: ·) (ih none)
      | error e => cases none

theorem mem_failures_iff {answers : List (Except ε α)} {e : ε} :
    e ∈ failures answers ↔ .error e ∈ answers := by
  rw [failures, List.mem_filterMap]
  constructor
  · rintro ⟨answer, member, found⟩
    cases answer with
    | ok a => cases found
    | error e' =>
        cases found
        exact member
  · intro member
    exact ⟨.error e, member, rfl⟩

theorem mem_values_iff {answers : List (Except ε α)} {x : α} :
    x ∈ values answers ↔ .ok x ∈ answers := by
  rw [values, List.mem_filterMap]
  constructor
  · rintro ⟨answer, member, found⟩
    cases answer with
    | ok a =>
        cases found
        exact member
    | error e => cases found
  · intro member
    exact ⟨.ok x, member, rfl⟩

theorem map_eq_map_ok_iff {f : α → Except ε β} {xs : List α} {ys : List β} :
    xs.map f = ys.map .ok ↔ List.Forall₂ (fun x y => f x = .ok y) xs ys := by
  rw [← List.forall₂_eq_eq_eq, List.forall₂_map_left_iff, List.forall₂_map_right_iff]

theorem map_m_eq_ok_iff {f : α → Except ε β} {xs : List α} {ys : List β} :
    xs.mapM f = .ok ys ↔ List.Forall₂ (fun x y => f x = .ok y) xs ys := by
  induction xs generalizing ys with
  | nil => simp [pure, Except.pure, eq_comm]
  | cons x xs ih =>
      rw [List.mapM_cons, bind_eq_ok_iff, List.forall₂_cons_left_iff]
      constructor
      · rintro ⟨y, first, others⟩
        obtain ⟨rest, later, same⟩ := bind_eq_ok_iff.mp others
        exact ⟨y, rest, first, ih.mp later, (Except.ok.inj same).symm⟩
      · rintro ⟨y, rest, first, later, rfl⟩
        exact ⟨y, first, bind_eq_ok_iff.mpr ⟨rest, ih.mpr later, rfl⟩⟩

theorem exists_map_m {f : α → Except ε β} {xs : List α} (each : ∀ x ∈ xs, ∃ y, f x = .ok y) :
    ∃ ys, xs.mapM f = .ok ys := by
  induction xs with
  | nil => exact ⟨[], rfl⟩
  | cons x xs ih =>
      obtain ⟨first, rest⟩ := List.forall_mem_cons.mp each
      obtain ⟨y, own⟩ := first
      obtain ⟨ys, others⟩ := ih rest
      exact ⟨y :: ys, map_m_eq_ok_iff.mpr (.cons own (map_m_eq_ok_iff.mp others))⟩

theorem map_m_eq_error {f : α → Except ε β} {xs : List α} (fails : ∃ x ∈ xs, ∀ y, f x ≠ .ok y) :
    ∃ front x back e, xs = front ++ x :: back ∧ (∀ earlier ∈ front, ∃ y, f earlier = .ok y) ∧
      f x = .error e ∧ xs.mapM f = .error e := by
  induction xs with
  | nil =>
      obtain ⟨x, member, -⟩ := fails
      cases member
  | cons x xs ih =>
      cases own : f x with
      | error e =>
          refine ⟨[], x, xs, e, rfl, by simp, own, ?_⟩
          rw [List.mapM_cons, own]
          rfl
      | ok y =>
          have later : ∃ x ∈ xs, ∀ y, f x ≠ .ok y := by
            obtain ⟨other, member, never⟩ := fails
            rcases List.mem_cons.mp member with rfl | there
            · exact absurd own (never y)
            · exact ⟨other, there, never⟩
          obtain ⟨front, bad, back, e, rfl, earlier, first, whole⟩ := ih later
          refine ⟨x :: front, bad, back, e, rfl, ?_, first, ?_⟩
          · exact List.forall_mem_cons.mpr ⟨⟨y, own⟩, earlier⟩
          · rw [List.mapM_cons, own]
            exact bind_eq_error_iff.mpr (.inr ⟨y, rfl, bind_eq_error_iff.mpr (.inl whole)⟩)

theorem map_m_eq_map {f : α → Except ε β} {g : α → β} {xs : List α}
    (each : ∀ x ∈ xs, f x = .ok (g x)) : xs.mapM f = .ok (xs.map g) := by
  rw [map_m_eq_ok_iff, List.forall₂_map_right_iff, List.forall₂_same]
  exact each

end LatentFactor
