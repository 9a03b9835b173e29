import Mathlib.Data.List.Perm.Basic
import LatentFactor.Proofs.Block.Shape

set_option autoImplicit false

namespace LatentFactor

namespace Elimination

variable {α : Type} [Scalar α]

omit [Scalar α] in
theorem right_of_pivoted {equation : Equation α} {pivoted : Pivoted α}
    (found : equation.pivoted? = some pivoted) : pivoted.right = equation.right := by
  unfold Equation.pivoted? at found
  split at found
  · cases found
  · cases found
    rfl

omit [Scalar α] in
theorem right_of_map_m {size : Nat} {equations : List (Equation α)} {pivoted : List (Pivoted α)}
    (rights : ∀ equation ∈ equations, equation.right.length = size)
    (found : equations.mapM Equation.pivoted? = some pivoted) :
    ∀ p ∈ pivoted, p.right.length = size := by
  induction equations generalizing pivoted with
  | nil =>
      cases found
      exact List.forall_mem_nil _
  | cons equation equations ih =>
      obtain ⟨own, rest⟩ := List.forall_mem_cons.mp rights
      rw [List.mapM_cons] at found
      obtain ⟨first, made, later⟩ := Option.bind_eq_some_iff.mp found
      obtain ⟨others, mapped, same⟩ := Option.bind_eq_some_iff.mp later
      cases same
      refine List.forall_mem_cons.mpr ⟨?_, ih rest mapped⟩
      rw [right_of_pivoted made, own]

theorem perm_choose (front : Pivoted α) (others : List (Pivoted α)) :
    ((choose front others).1 :: (choose front others).2).Perm (front :: others) := by
  unfold choose
  split
  · exact List.Perm.refl _
  · rename_i index _
    have swapped := others.getD_set_perm_cons index front
    split
    · exact List.Perm.refl _
    · rename_i best listed
      rwa [listed, Option.getD_some] at swapped

theorem forall_choose_iff {front : Pivoted α} {others : List (Pivoted α)}
    {holds : Pivoted α → Prop} :
    (holds (choose front others).1 ∧ ∀ p ∈ (choose front others).2, holds p) ↔
      ∀ p ∈ front :: others, holds p := by
  rw [← List.forall_mem_cons]
  simp only [(perm_choose front others).mem_iff]

theorem length_right_subtract {size : Nat} {chosen other : Pivoted α}
    (own : chosen.right.length = size) (rest : other.right.length = size) :
    (subtract chosen other).right.length = size := by
  rw [subtract, List.length_zipWith, own, rest, Nat.min_self]

theorem shape_of_eliminate {size unknowns : Nat} {equations : List (Equation α)}
    {triangle : List (Pivoted α)} (rights : ∀ equation ∈ equations, equation.right.length = size)
    (eliminated : eliminate unknowns equations = some triangle) :
    triangle.length = unknowns ∧ ∀ p ∈ triangle, p.right.length = size := by
  induction unknowns generalizing equations triangle with
  | zero =>
      cases eliminated
      exact ⟨rfl, List.forall_mem_nil _⟩
  | succ unknowns ih =>
      rw [eliminate] at eliminated
      split at eliminated
      · rename_i front others found
        obtain ⟨first, rest⟩ := forall_choose_iff.mpr (right_of_map_m rights found)
        dsimp only at eliminated
        split at eliminated
        · cases eliminated
        · obtain ⟨later, done, rfl⟩ := Option.map_eq_some_iff.mp eliminated
          have reduced : ∀ equation ∈ (choose front others).2.map
              (subtract (choose front others).1), equation.right.length = size := by
            intro equation member
            obtain ⟨p, there, rfl⟩ := List.mem_map.mp member
            exact length_right_subtract first (rest p there)
          obtain ⟨length, laterRights⟩ := ih reduced done
          exact ⟨congrArg (· + 1) length, List.forall_mem_cons.mpr ⟨first, laterRights⟩⟩
      · cases eliminated

def takeOff (coefficients : Row α) (known : List (Row α)) (right : Row α) : Row α :=
  (coefficients.zip known).foldr
    (fun entry right => List.zipWith (fun x b => -x * entry.1 + b) entry.2 right) right

theorem back_substitute_cons (p : Pivoted α) (rest : List (Pivoted α)) :
    backSubstitute (p :: rest) =
      (takeOff p.rest (backSubstitute rest) p.right).map (· / p.pivot) :: backSubstitute rest := rfl

theorem take_off_cons (c : α) (coefficients row : Row α) (known : List (Row α)) (right : Row α) :
    takeOff (c :: coefficients) (row :: known) right =
      List.zipWith (fun x b => -x * c + b) row (takeOff coefficients known right) := rfl

theorem length_take_off {size : Nat} {coefficients : Row α} {known : List (Row α)} {right : Row α}
    (side : right.length = size) (width : ∀ row ∈ known, row.length = size) :
    (takeOff coefficients known right).length = size := by
  induction coefficients generalizing known with
  | nil => exact side
  | cons c coefficients ih =>
      cases known with
      | nil => exact side
      | cons row known =>
          obtain ⟨own, others⟩ := List.forall_mem_cons.mp width
          rw [take_off_cons, List.length_zipWith, own, ih others, Nat.min_self]

theorem shape_of_back_substitute {size : Nat} {triangle : List (Pivoted α)}
    (rights : ∀ p ∈ triangle, p.right.length = size) :
    (backSubstitute triangle).length = triangle.length ∧
      ∀ row ∈ backSubstitute triangle, row.length = size := by
  induction triangle with
  | nil => exact ⟨rfl, List.forall_mem_nil _⟩
  | cons equation rest ih =>
      obtain ⟨own, others⟩ := List.forall_mem_cons.mp rights
      obtain ⟨length, known⟩ := ih others
      rw [back_substitute_cons]
      refine ⟨congrArg (· + 1) length, List.forall_mem_cons.mpr ⟨?_, known⟩⟩
      rw [List.length_map, length_take_off own known]

theorem length_unit_row (size i : Nat) : (unitRow size i : Row α).length = size := by
  rw [unitRow, List.length_map, List.length_range]

theorem square_inverse {size : Nat} {block inverse : Block α} (rows : block.length = size)
    (inverted : inverse? block = some inverse) : Block.Square size inverse := by
  obtain ⟨triangle, eliminated, rfl⟩ := Option.map_eq_some_iff.mp inverted
  rw [rows] at eliminated
  obtain ⟨length, rights⟩ := shape_of_eliminate (fun equation member => by
    obtain ⟨i, _, rfl⟩ := List.mem_mapIdx.mp member
    exact length_unit_row size i) eliminated
  obtain ⟨count, width⟩ := shape_of_back_substitute rights
  exact ⟨count.trans length, width⟩

end Elimination

namespace Block

variable {α : Type} [Scalar α]

theorem square_of_invert {size : Nat} {block inverse : Block α} (square : Square size block)
    (inverted : invert block = .ok inverse) : Square size inverse := by
  unfold invert at inverted
  split at inverted
  · cases inverted
  · rename_i found
    split at inverted
    · cases inverted
      exact Elimination.square_inverse square.rows found
    · cases inverted

end Block
end LatentFactor
