import LatentFactor.Proofs.Block.Inverse
import LatentFactor.Proofs.Real.Row
import Mathlib.Tactic.LinearCombination

set_option autoImplicit false

namespace LatentFactor.Elimination

-- The weights `z` make one right side of all.
def Equation.Holds (equation : Equation ℝ) (x z : Row ℝ) : Prop :=
  Row.dot equation.coefficients x = Row.dot equation.right z

def Pivoted.Holds (p : Pivoted ℝ) (first : ℝ) (x z : Row ℝ) : Prop :=
  p.pivot * first + Row.dot p.rest x = Row.dot p.right z

structure Equation.Fits (unknowns sides : Nat) (equation : Equation ℝ) : Prop where
  coefficients : equation.coefficients.length = unknowns
  right : equation.right.length = sides

structure Pivoted.Fits (unknowns sides : Nat) (p : Pivoted ℝ) : Prop where
  rest : p.rest.length = unknowns
  right : p.right.length = sides

structure System (unknowns sides : Nat) (equations : List (Equation ℝ)) : Prop where
  count : equations.length = unknowns
  fits : ∀ equation ∈ equations, equation.Fits unknowns sides

variable {unknowns sides : Nat}

theorem exists_pivoted {equation : Equation ℝ} (fits : equation.Fits (unknowns + 1) sides) :
    ∃ p, equation.pivoted? = some p ∧ p.Fits unknowns sides ∧
      ∀ a x z, equation.Holds (a :: x) z ↔ p.Holds a x z := by
  obtain ⟨coefficients, right⟩ := equation
  obtain ⟨width, side⟩ := fits
  obtain ⟨pivot, rest, rfl⟩ := List.exists_cons_of_length_eq_add_one width
  refine ⟨⟨pivot, rest, right⟩, rfl, ⟨Nat.succ.inj width, side⟩, fun a x z => ?_⟩
  rw [Equation.Holds, Pivoted.Holds, Row.dot_cons]

theorem exists_map_pivoted {equations : List (Equation ℝ)}
    (fits : ∀ equation ∈ equations, equation.Fits (unknowns + 1) sides) :
    ∃ ps, equations.mapM Equation.pivoted? = some ps ∧ ps.length = equations.length ∧
      (∀ p ∈ ps, p.Fits unknowns sides) ∧
      ∀ a x z, (∀ equation ∈ equations, equation.Holds (a :: x) z) ↔ ∀ p ∈ ps, p.Holds a x z := by
  induction equations with
  | nil =>
      exact ⟨[], rfl, rfl, List.forall_mem_nil _, fun _ _ _ =>
        ⟨fun _ => List.forall_mem_nil _, fun _ => List.forall_mem_nil _⟩⟩
  | cons equation equations ih =>
      obtain ⟨own, others⟩ := List.forall_mem_cons.mp fits
      obtain ⟨p, found, fit, same⟩ := exists_pivoted own
      obtain ⟨ps, mapped, count, rest, alike⟩ := ih others
      refine ⟨p :: ps, ?_, congrArg (· + 1) count, List.forall_mem_cons.mpr ⟨fit, rest⟩, ?_⟩
      · rw [List.mapM_cons, found, mapped]
        rfl
      · intro a x z
        rw [List.forall_mem_cons, List.forall_mem_cons, same, alike]

theorem position_cases (bound : ℝ) (found : Option Nat) (index : Nat)
    (others : List (Pivoted ℝ)) :
    (position bound found index others = found ∧ ∀ p ∈ others, |p.pivot| ≤ bound) ∨
    ∃ k best, position bound found index others = some (index + k) ∧ others[k]? = some best ∧
      bound ≤ |best.pivot| ∧ ∀ p ∈ others, |p.pivot| ≤ |best.pivot| := by
  induction others generalizing bound found index with
  | nil => exact .inl ⟨rfl, List.forall_mem_nil _⟩
  | cons next others ih =>
      rw [position]
      change (if bound < |next.pivot| then _ else _) = _ ∧ _ ∨
        ∃ k best, (if bound < |next.pivot| then _ else _) = _ ∧ _
      split
      · rename_i larger
        rcases ih |next.pivot| (some index) (index + 1) with
          ⟨same, below⟩ | ⟨k, best, later, listed, above, below⟩
        · refine .inr ⟨0, next, same, rfl, larger.le, ?_⟩
          exact List.forall_mem_cons.mpr ⟨le_rfl, below⟩
        · refine .inr ⟨k + 1, best, later.trans (by rw [Nat.add_assoc, Nat.add_comm 1]), listed,
            larger.le.trans above, ?_⟩
          exact List.forall_mem_cons.mpr ⟨above, below⟩
      · rename_i smaller
        have under := not_lt.mp smaller
        rcases ih bound found (index + 1) with
          ⟨same, below⟩ | ⟨k, best, later, listed, above, below⟩
        · exact .inl ⟨same, List.forall_mem_cons.mpr ⟨under, below⟩⟩
        · refine .inr ⟨k + 1, best, later.trans (by rw [Nat.add_assoc, Nat.add_comm 1]), listed,
            above, ?_⟩
          exact List.forall_mem_cons.mpr ⟨under.trans above, below⟩

theorem choose_largest (front : Pivoted ℝ) (others : List (Pivoted ℝ)) :
    ∀ p ∈ front :: others, |p.pivot| ≤ |(choose front others).1.pivot| := by
  rcases position_cases |front.pivot| none 0 others with
    ⟨missing, below⟩ | ⟨k, best, found, listed, above, below⟩
  · have kept : choose front others = (front, others) := by
      unfold choose
      change position (Scalar.abs front.pivot) none 0 others = none at missing
      rw [missing]
    rw [kept]
    exact List.forall_mem_cons.mpr ⟨le_rfl, below⟩
  · have swapped : choose front others = (best, others.set k front) := by
      unfold choose
      change position (Scalar.abs front.pivot) none 0 others = some (0 + k) at found
      rw [found, Nat.zero_add]
      dsimp only
      rw [listed]
    rw [swapped]
    exact List.forall_mem_cons.mpr ⟨above, below⟩

section

variable {chosen other : Pivoted ℝ}

theorem fits_subtract (own : chosen.Fits unknowns sides) (fits : other.Fits unknowns sides) :
    (subtract chosen other).Fits unknowns sides where
  coefficients := by
    unfold subtract
    rw [List.length_zipWith, own.rest, fits.rest, Nat.min_self]
  right := length_right_subtract own.right fits.right

theorem holds_subtract_iff (own : chosen.Fits unknowns sides) (fits : other.Fits unknowns sides)
    (nonzero : chosen.pivot ≠ 0) {a : ℝ} {x z : Row ℝ} (solved : chosen.Holds a x z) :
    (subtract chosen other).Holds x z ↔ other.Holds a x z := by
  have linear : ∀ p q : ℝ, -p * (other.pivot * (1 / chosen.pivot)) + q =
      -(other.pivot * (1 / chosen.pivot)) * p + 1 * q := fun p q => by ring
  have left : Row.dot (subtract chosen other).coefficients x = _ :=
    Row.dot_zip_with linear (own.rest.trans fits.rest.symm) x
  have right : Row.dot (subtract chosen other).right z = _ :=
    Row.dot_zip_with linear (own.right.trans fits.right.symm) z
  have multiple : other.pivot * (1 / chosen.pivot) * chosen.pivot = other.pivot := by
    rw [mul_assoc, one_div_mul_cancel nonzero, mul_one]
  rw [Equation.Holds, left, right, ← solved, Pivoted.Holds]
  constructor
  · intro equal
    linear_combination equal - a * multiple
  · intro equal
    linear_combination equal + a * multiple

end

-- One stage: the equation whose first coefficient is the largest, and the others.
structure Pivoting (unknowns sides : Nat) (equations : List (Equation ℝ)) (chosen : Pivoted ℝ)
    (rest : List (Pivoted ℝ)) : Prop where
  count : rest.length = unknowns
  fits : chosen.Fits unknowns sides
  others : ∀ p ∈ rest, p.Fits unknowns sides
  largest : ∀ p ∈ rest, |p.pivot| ≤ |chosen.pivot|
  holds : ∀ a x z, (∀ equation ∈ equations, equation.Holds (a :: x) z) ↔
    chosen.Holds a x z ∧ ∀ p ∈ rest, p.Holds a x z

theorem exists_pivoting {equations : List (Equation ℝ)}
    (system : System (unknowns + 1) sides equations) :
    ∃ chosen rest, Pivoting unknowns sides equations chosen rest ∧
      eliminate (unknowns + 1) equations =
        if chosen.pivot = 0 then none
        else (eliminate unknowns (rest.map (subtract chosen))).map (chosen :: ·) := by
  obtain ⟨ps, mapped, count, fits, alike⟩ := exists_map_pivoted system.fits
  obtain ⟨front, others, rfl⟩ :=
    List.exists_cons_of_length_eq_add_one (count.trans system.count)
  obtain ⟨fit, others_fit⟩ := forall_choose_iff.mpr fits
  refine ⟨(choose front others).1, (choose front others).2, ?_, ?_⟩
  · have lengths := (perm_choose front others).length_eq.trans (count.trans system.count)
    exact {
      count := Nat.succ.inj lengths
      fits := fit
      others := others_fit
      largest := (forall_choose_iff.mpr (choose_largest front others)).2
      holds := fun a x z => (alike a x z).trans forall_choose_iff.symm }
  · have zero : (choose front others).1.pivot ≤ 0 ∧ 0 ≤ (choose front others).1.pivot ↔
        (choose front others).1.pivot = 0 := le_antisymm_iff.symm
    rw [eliminate, mapped]
    dsimp only
    simp only [zero]

theorem system_reduced {equations : List (Equation ℝ)} {chosen : Pivoted ℝ}
    {rest : List (Pivoted ℝ)} (pivoting : Pivoting unknowns sides equations chosen rest) :
    System unknowns sides (rest.map (subtract chosen)) where
  count := by rw [List.length_map, pivoting.count]
  fits := by
    intro equation member
    obtain ⟨p, there, rfl⟩ := List.mem_map.mp member
    exact fits_subtract pivoting.fits (pivoting.others p there)

theorem holds_reduced_iff {equations : List (Equation ℝ)} {chosen : Pivoted ℝ}
    {rest : List (Pivoted ℝ)} (pivoting : Pivoting unknowns sides equations chosen rest)
    (nonzero : chosen.pivot ≠ 0) {a : ℝ} {x z : Row ℝ} (solved : chosen.Holds a x z) :
    (∀ equation ∈ rest.map (subtract chosen), equation.Holds x z) ↔
      ∀ equation ∈ equations, equation.Holds (a :: x) z := by
  rw [List.forall_mem_map, pivoting.holds]
  constructor
  · intro reduced
    exact ⟨solved, fun p member => (holds_subtract_iff pivoting.fits (pivoting.others p member)
      nonzero solved).mp (reduced p member)⟩
  · rintro ⟨-, others⟩ p member
    exact (holds_subtract_iff pivoting.fits (pivoting.others p member) nonzero solved).mpr
      (others p member)

def Triangular (sides : Nat) : Nat → List (Pivoted ℝ) → Prop
  | 0, triangle => triangle = []
  | _ + 1, [] => False
  | unknowns + 1, p :: rest =>
      p.pivot ≠ 0 ∧ p.Fits unknowns sides ∧ Triangular sides unknowns rest

def Solved : List (Pivoted ℝ) → Row ℝ → Row ℝ → Prop
  | p :: rest, a :: x, z => p.Holds a x z ∧ Solved rest x z
  | _, _, _ => True

theorem triangular_of_eliminate {equations : List (Equation ℝ)} {triangle : List (Pivoted ℝ)}
    (system : System unknowns sides equations)
    (eliminated : eliminate unknowns equations = some triangle) :
    Triangular sides unknowns triangle ∧ ∀ x z : Row ℝ, x.length = unknowns →
      (Solved triangle x z ↔ ∀ equation ∈ equations, equation.Holds x z) := by
  induction unknowns generalizing equations triangle with
  | zero =>
      cases eliminated
      rw [List.eq_nil_of_length_eq_zero system.count]
      exact ⟨rfl, fun x z _ => ⟨fun _ => List.forall_mem_nil _, fun _ => trivial⟩⟩
  | succ unknowns ih =>
      obtain ⟨chosen, rest, pivoting, stage⟩ := exists_pivoting system
      rw [stage] at eliminated
      split at eliminated
      · cases eliminated
      · rename_i nonzero
        obtain ⟨later, done, rfl⟩ := Option.map_eq_some_iff.mp eliminated
        obtain ⟨triangular, solved⟩ := ih (system_reduced pivoting) done
        refine ⟨⟨nonzero, pivoting.fits, triangular⟩, fun x z length => ?_⟩
        obtain ⟨a, x, rfl⟩ := List.exists_cons_of_length_eq_add_one length
        rw [Solved, solved x z (Nat.succ.inj length)]
        constructor
        · rintro ⟨own, reduced⟩
          exact (holds_reduced_iff pivoting nonzero own).mp reduced
        · intro all
          have own := ((pivoting.holds a x z).mp all).1
          exact ⟨own, (holds_reduced_iff pivoting nonzero own).mpr all⟩

theorem exists_null_of_stopped {equations : List (Equation ℝ)}
    (system : System unknowns sides equations)
    (stopped : eliminate unknowns equations = none) :
    ∃ x : Row ℝ, x.length = unknowns ∧ x ≠ Row.zeros unknowns ∧
      ∀ equation ∈ equations, equation.Holds x (Row.zeros sides) := by
  have null : ∀ right : Row ℝ, Row.dot right (Row.zeros sides) = 0 := fun right => by
    rw [Row.dot_comm, Row.dot_zeros]
  induction unknowns generalizing equations with
  | zero => cases stopped
  | succ unknowns ih =>
      obtain ⟨chosen, rest, pivoting, stage⟩ := exists_pivoting system
      rw [stage] at stopped
      split at stopped
      · rename_i zero
        have first : ∀ p : Pivoted ℝ, p.pivot = 0 →
            p.Holds 1 (Row.zeros unknowns) (Row.zeros sides) := by
          intro p none
          rw [Pivoted.Holds, none, null, Row.dot_comm, Row.dot_zeros, zero_mul, add_zero]
        refine ⟨1 :: Row.zeros unknowns, congrArg (· + 1) (Row.length_zeros _), fun same =>
          one_ne_zero (List.cons.inj same).1, ?_⟩
        refine (pivoting.holds _ _ _).mpr ⟨first chosen zero, fun p member => first p ?_⟩
        have bound := pivoting.largest p member
        rw [zero, abs_zero] at bound
        exact abs_nonpos_iff.mp bound
      · rename_i nonzero
        obtain ⟨x, length, some, solved⟩ :=
          ih (system_reduced pivoting) (Option.map_eq_none_iff.mp stopped)
        -- The chosen equation gives the first unknown.
        let a := -Row.dot chosen.rest x / chosen.pivot
        have own : chosen.Holds a x (Row.zeros sides) := by
          rw [Pivoted.Holds, null, mul_div_cancel₀ _ nonzero, neg_add_cancel]
        refine ⟨a :: x, congrArg (· + 1) length, fun same => some (List.cons.inj same).2, ?_⟩
        exact (holds_reduced_iff pivoting nonzero own).mp solved

theorem dot_take_off {coefficients : Row ℝ} {known : List (Row ℝ)} {right : Row ℝ}
    (side : right.length = sides) (width : ∀ row ∈ known, row.length = sides) (z : Row ℝ) :
    Row.dot (takeOff coefficients known right) z =
      Row.dot right z - Row.dot coefficients (known.map fun row => row.dot z) := by
  induction coefficients generalizing known with
  | nil =>
      rw [Row.dot_nil_left, sub_zero]
      rfl
  | cons c coefficients ih =>
      cases known with
      | nil =>
          rw [List.map_nil, Row.dot_nil_right, sub_zero]
          rfl
      | cons row known =>
          obtain ⟨own, others⟩ := List.forall_mem_cons.mp width
          have linear : ∀ x b : ℝ, -x * c + b = -c * x + 1 * b := fun x b => by ring
          have same : row.length = (takeOff coefficients known right).length :=
            own.trans (length_take_off side others).symm
          rw [take_off_cons, Row.dot_zip_with linear same, ih others, List.map_cons, Row.dot_cons]
          ring

theorem rights_of_triangular {triangle : List (Pivoted ℝ)}
    (triangular : Triangular sides unknowns triangle) : ∀ p ∈ triangle, p.right.length = sides := by
  induction triangle generalizing unknowns with
  | nil => exact List.forall_mem_nil _
  | cons p rest ih =>
      cases unknowns with
      | zero => cases triangular
      | succ unknowns =>
          obtain ⟨-, fits, later⟩ := triangular
          exact List.forall_mem_cons.mpr ⟨fits.right, ih later⟩

theorem solved_iff_back_substitute {triangle : List (Pivoted ℝ)}
    (triangular : Triangular sides unknowns triangle) {x : Row ℝ} (length : x.length = unknowns)
    (z : Row ℝ) :
    Solved triangle x z ↔ x = (backSubstitute triangle).map fun row => row.dot z := by
  induction triangle generalizing unknowns x with
  | nil =>
      cases unknowns with
      | zero =>
          rw [List.eq_nil_of_length_eq_zero length]
          exact ⟨fun _ => rfl, fun _ => trivial⟩
      | succ unknowns => exact triangular.elim
  | cons p rest ih =>
      cases unknowns with
      | zero => cases triangular
      | succ unknowns =>
          obtain ⟨nonzero, fits, later⟩ := triangular
          obtain ⟨a, x, rfl⟩ := List.exists_cons_of_length_eq_add_one length
          have width := (shape_of_back_substitute (rights_of_triangular later)).2
          rw [Solved, ih later (Nat.succ.inj length), back_substitute_cons, List.map_cons,
            List.cons.injEq]
          refine and_congr_left fun known => ?_
          rw [Pivoted.Holds, known, Row.dot_divided, dot_take_off fits.right width,
            eq_div_iff nonzero, eq_sub_iff_add_eq, mul_comm]

end LatentFactor.Elimination
