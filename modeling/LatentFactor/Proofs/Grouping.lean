import Mathlib.Algebra.BigOperators.Group.List.Basic
import Mathlib.Data.List.Nodup
import Mathlib.Data.Real.Basic
import Mathlib.Tactic.Linarith

set_option autoImplicit false

namespace LatentFactor

variable {α κ ι M : Type} [DecidableEq κ] [AddCommMonoid M]

theorem perm_groups (key : α → κ) {keys : List κ} (distinct : keys.Nodup) (xs : List α)
    (known : ∀ x ∈ xs, key x ∈ keys) :
    (keys.flatMap fun k => xs.filter fun x => key x = k).Perm xs := by
  induction keys generalizing xs with
  | nil =>
      cases xs with
      | nil => exact List.Perm.refl _
      | cons x xs => cases known x (List.mem_cons_self ..)
  | cons k keys ih =>
      obtain ⟨fresh, distinct⟩ := List.nodup_cons.mp distinct
      -- The groups of the other keys do not see the first group.
      have others : (keys.flatMap fun j => xs.filter fun x => key x = j) =
          keys.flatMap fun j =>
            (xs.filter fun x => !decide (key x = k)).filter fun x => key x = j := by
        apply List.flatMap_congr
        intro j member
        rw [List.filter_filter]
        apply List.filter_congr
        intro x _
        by_cases same : key x = j
        · have apart : key x ≠ k := fun equal => fresh (equal ▸ same ▸ member)
          simp [same, same ▸ apart]
        · simp [same]
      have rest := ih distinct (xs.filter fun x => !decide (key x = k)) <| by
        intro x member
        obtain ⟨there, apart⟩ := List.mem_filter.mp member
        have apart : key x ≠ k := by simpa using apart
        exact (List.mem_cons.mp (known x there)).resolve_left apart
      rw [List.flatMap_cons, others]
      exact (rest.append_left _).trans (List.filter_append_perm _ xs)

theorem sum_groups (key : α → κ) {keys : List κ} (distinct : keys.Nodup) {xs : List α}
    (known : ∀ x ∈ xs, key x ∈ keys) (f : α → M) :
    (keys.map fun k => ((xs.filter fun x => key x = k).map f).sum).sum = (xs.map f).sum := by
  rw [← ((perm_groups key distinct xs known).map f).sum_eq]
  clear distinct known
  induction keys with
  | nil => rfl
  | cons k keys ih =>
      rw [List.map_cons, List.sum_cons, ih, List.flatMap_cons, List.map_append, List.sum_append]

theorem sum_group (key : α → κ) {xs : List α} (distinct : (xs.map key).Nodup) (k : κ) (f : α → M) :
    ((xs.filter fun x => key x = k).map f).sum =
      ((xs.find? fun x => key x = k).map f).getD 0 := by
  induction xs with
  | nil => rfl
  | cons x xs ih =>
      obtain ⟨fresh, distinct⟩ := List.nodup_cons.mp distinct
      by_cases same : key x = k
      · have none : (xs.filter fun y => key y = k) = [] := by
          apply List.filter_eq_nil_iff.mpr
          intro y member equal
          have other : key y = key x := (of_decide_eq_true equal).trans same.symm
          exact fresh (other ▸ List.mem_map_of_mem member)
        rw [List.filter_cons_of_pos (by simpa using same), none,
          List.find?_cons_of_pos (by simpa using same)]
        simp
      · rw [List.filter_cons_of_neg (by simpa using same), ih distinct,
          List.find?_cons_of_neg (by simpa using same)]

theorem sum_congr {xs : List α} {f g : α → M} (same : ∀ x ∈ xs, f x = g x) :
    (xs.map f).sum = (xs.map g).sum := by
  rw [List.map_congr_left same]

theorem sum_swap (xs : List α) (ys : List ι) (f : α → ι → M) :
    (xs.map fun x => (ys.map fun y => f x y).sum).sum =
      (ys.map fun y => (xs.map fun x => f x y).sum).sum := by
  induction xs with
  | nil => simp
  | cons x xs ih =>
      simp only [List.map_cons, List.sum_cons, ih]
      exact List.sum_map_add.symm

theorem sum_least {xs : List α} {f g : α → ℝ} (below : ∀ x ∈ xs, f x ≤ g x) :
    (xs.map f).sum ≤ (xs.map g).sum ∧
      ((xs.map f).sum = (xs.map g).sum → ∀ x ∈ xs, f x = g x) := by
  induction xs with
  | nil => simp
  | cons x xs ih =>
      obtain ⟨first, rest⟩ := List.forall_mem_cons.mp below
      obtain ⟨less, tight⟩ := ih rest
      simp only [List.map_cons, List.sum_cons]
      refine ⟨add_le_add first less, fun equal => ?_⟩
      have own : f x = g x := le_antisymm first (by linarith)
      exact List.forall_mem_cons.mpr ⟨own, tight (by linarith)⟩

end LatentFactor
