import Mathlib.Analysis.Real.Sqrt
import LatentFactor.Settings

set_option autoImplicit false

namespace LatentFactor

noncomputable instance realScalar : Scalar ℝ where
  decLT := Classical.decRel _
  decLE := Classical.decRel _
  sqrt := Real.sqrt
  abs := fun x => |x|
  isFinite := fun _ => true

theorem Settings.check_of_ranked {rank : Nat} (ranked : rank ≠ 0) :
    ((.create 1 rank 1 1 : Settings ℝ).check : Except (Error ℝ) Unit) = .ok () :=
  check_eq_ok_iff.mpr ⟨ranked, ⟨rfl, zero_lt_one⟩, Nat.one_ne_zero, Nat.one_ne_zero,
    fun implicit => nomatch implicit⟩

end LatentFactor
