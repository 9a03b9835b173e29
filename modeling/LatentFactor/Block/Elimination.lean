import LatentFactor.Row

set_option autoImplicit false

namespace LatentFactor.Elimination

variable {α : Type} [Scalar α]

structure Equation (α : Type) where
  coefficients : Row α
  right : Row α

structure Pivoted (α : Type) where
  pivot : α
  rest : Row α
  right : Row α

def Equation.pivoted? (equation : Equation α) : Option (Pivoted α) :=
  match equation.coefficients with
  | [] => none
  | first :: rest => some ⟨first, rest, equation.right⟩

-- The position of the first coefficient that is the largest, if it exceeds the bound.
def position (bound : α) (found : Option Nat) (index : Nat) : List (Pivoted α) → Option Nat
  | [] => found
  | next :: others =>
      if bound < Scalar.abs next.pivot then
        position (Scalar.abs next.pivot) (some index) (index + 1) others
      else position bound found (index + 1) others

def choose (front : Pivoted α) (others : List (Pivoted α)) : Pivoted α × List (Pivoted α) :=
  match position (Scalar.abs front.pivot) none 0 others with
  | none => (front, others)
  | some index =>
      match others[index]? with
      | none => (front, others)
      | some best => (best, others.set index front)

def subtract (chosen other : Pivoted α) : Equation α :=
  let factor := other.pivot * (1 / chosen.pivot)
  let combine := List.zipWith fun p x => -p * factor + x
  ⟨combine chosen.rest other.rest, combine chosen.right other.right⟩

-- The triangular system for a count of unknowns, unless all first coefficients are zero at some
-- stage.
def eliminate : Nat → List (Equation α) → Option (List (Pivoted α))
  | 0, _ => some []
  | unknowns + 1, equations =>
      match equations.mapM Equation.pivoted? with
      | some (front :: others) =>
          let chosen := choose front others
          if chosen.1.pivot ≤ 0 ∧ 0 ≤ chosen.1.pivot then none
          else (eliminate unknowns (chosen.2.map (subtract chosen.1))).map (chosen.1 :: ·)
      | _ => none

def backSubstitute : List (Pivoted α) → List (Row α)
  | [] => []
  | equation :: rest =>
      let known := backSubstitute rest
      let right := (equation.rest.zip known).foldr
        (fun entry right => List.zipWith (fun x b => -x * entry.1 + b) entry.2 right)
        equation.right
      right.map (· / equation.pivot) :: known

def unitRow (size i : Nat) : Row α := (List.range size).map fun j => if j = i then 1 else 0

def inverse? (block : Block α) : Option (Block α) :=
  let equations := block.mapIdx fun i row => ⟨row, unitRow block.length i⟩
  (eliminate block.length equations).map backSubstitute

end LatentFactor.Elimination
