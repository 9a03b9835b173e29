import LatentFactor.Features
import LatentFactor.Proofs.Real.Scalar
import LatentFactor.Proofs.RowUpdate.Solve
import Mathlib.Tactic.Ring

set_option autoImplicit false

namespace LatentFactor

variable {α β γ δ : Type}

theorem zip_with_swap {f : α → β → α} {g : α → γ → α} (swap : ∀ a b c, g (f a b) c = f (g a c) b)
    (xs : List α) (ys : List β) (zs : List γ) :
    List.zipWith g (List.zipWith f xs ys) zs = List.zipWith f (List.zipWith g xs zs) ys := by
  induction xs generalizing ys zs with
  | nil => rfl
  | cons x xs ih =>
      cases ys with
      | nil =>
          cases zs with
          | nil => rfl
          | cons z zs => rfl
      | cons y ys =>
          cases zs with
          | nil => rfl
          | cons z zs =>
              simp only [List.zipWith_cons_cons, swap, ih]

namespace Scalar

theorem sum_perm {xs ys : List ℝ} (same : xs.Perm ys) : sum xs = sum ys :=
  same.foldl_eq' (fun x _ y _ total => add_right_comm total x y) _

end Scalar

namespace Row

theorem add_scaled_swap (sum x y : Row ℝ) (s t : ℝ) :
    (sum.addScaled s x).addScaled t y = (sum.addScaled t y).addScaled s x := by
  refine zip_with_swap (fun a b c => ?_) sum x y
  ring

theorem combine_perm (length : Nat) (factor : α → ℝ) (row : α → Row ℝ) {xs ys : List α}
    (same : xs.Perm ys) :
    combine length (xs.map factor) (xs.map row) = combine length (ys.map factor) (ys.map row) := by
  simp only [combine, List.zip_map']
  refine (same.map _).foldl_eq' (fun x _ y _ sum => ?_) _
  exact add_scaled_swap sum x.2 y.2 x.1 y.1

end Row

namespace Block

theorem gram_perm (length : Nat) {pairs others : List (Row ℝ × Row ℝ)}
    (same : pairs.Perm others) : gram length pairs = gram length others := by
  refine same.foldl_eq' (fun x _ y _ sum => ?_) _
  exact zip_with_swap (fun row s t => Row.add_scaled_swap row x.2 y.2 s t) sum x.1 y.1

end Block

namespace Features

theorem mean_perm {observations others : Observations ℝ}
    (same : (observations.map Prod.snd).Perm (others.map Prod.snd)) :
    mean observations = mean others := by
  have length := same.length_eq
  rw [List.length_map, List.length_map] at length
  rw [mean, mean, Scalar.sum_perm same]
  simp only [List.isEmpty_iff_length_eq_zero, length]

theorem item_rows_perm {noisy : Nat} {byItem others : List (Observations ℝ)}
    (same : List.Forall₂ (fun observations rest =>
      (observations.map Prod.snd).Perm (rest.map Prod.snd)) byItem others) (words : List UInt64) :
    itemRows noisy byItem words = itemRows noisy others words := by
  induction same generalizing words with
  | nil => rfl
  | cons own _ ih => rw [itemRows, itemRows, mean_perm own, ih]

theorem initial_perm {byItem others : List (Observations ℝ)}
    (same : List.Forall₂ (fun observations rest =>
      (observations.map Prod.snd).Perm (rest.map Prod.snd)) byItem others)
    (userCount rank : Nat) (seed : UInt64) :
    initial userCount byItem rank seed = initial userCount others rank seed := by
  have isEmpty : byItem.isEmpty = others.isEmpty := by
    cases same with
    | nil => rfl
    | cons _ _ => rfl
  simp only [initial, same.length_eq, isEmpty, item_rows_perm same]

end Features

namespace RowUpdate

structure Permuted (update other : RowUpdate ℝ) : Prop where
  feedback : update.feedback = other.feedback
  lambda : update.lambda = other.lambda
  passes : update.passes = other.passes
  cols : update.fixed.cols = other.fixed.cols
  shared : update.shared = other.shared

theorem shared_perm {feedback : Feedback ℝ} {fixed other : RowMatrix ℝ} {shared rest : Block ℝ}
    (cols : fixed.cols = other.cols) (rows : fixed.rows.toList.Perm other.rows.toList)
    (own : SharedOf feedback fixed shared) (their : SharedOf feedback other rest) :
    shared = rest := by
  cases feedback with
  | explicit => exact own.trans their.symm
  | implicit alpha =>
      rw [own, their, cols]
      exact Block.gram_perm other.cols (rows.map _)

theorem system_perm {update other : RowUpdate ℝ} (permuted : update.Permuted other)
    {rated others : List (Row ℝ × ℝ)} (same : rated.Perm others) :
    update.system rated = other.system others := by
  obtain ⟨feedback, lambda, -, cols, shared⟩ := permuted
  simp only [system, feedback, lambda, cols, shared]
  cases other.feedback with
  | explicit =>
      simp only [same.length_eq, Row.combine_perm _ Prod.snd Prod.fst same,
        Block.gram_perm _ ((same.map Prod.fst).map fun row => (row, row))]
  | implicit alpha =>
      simp only [List.zip_map', List.map_map, Row.combine_perm _ _ Prod.fst same,
        Block.gram_perm _ (same.map _)]

end RowUpdate
end LatentFactor
