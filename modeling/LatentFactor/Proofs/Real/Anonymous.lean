import LatentFactor.Proofs.Real.Projector

set_option autoImplicit false

namespace LatentFactor

open Matrix

noncomputable def shares {size : Nat} (v : Fin size → ℝ) : Fin size → ℝ := (∑ i, |v i|)⁻¹ • v

section

variable {size : Nat} {v : Fin size → ℝ}

theorem sum_abs_pos (nonzero : v ≠ 0) : 0 < ∑ i, |v i| := by
  obtain ⟨i, entry⟩ := Function.ne_iff.mp nonzero
  exact Finset.sum_pos' (fun _ _ => abs_nonneg _) ⟨i, Finset.mem_univ i, abs_pos.mpr entry⟩

theorem sum_abs_shares (nonzero : v ≠ 0) : ∑ i, |shares v i| = 1 := by
  have positive := sum_abs_pos nonzero
  have each : ∀ i, |shares v i| = (∑ i, |v i|)⁻¹ * |v i| := fun i => by
    rw [shares, Pi.smul_apply, smul_eq_mul, abs_mul, abs_of_pos (inv_pos.mpr positive)]
  rw [Finset.sum_congr rfl fun i _ => each i, ← Finset.mul_sum, inv_mul_cancel₀ positive.ne']

theorem shares_smul {factor : ℝ} (positive : 0 < factor) : shares (factor • v) = shares v := by
  have each : ∀ i, |(factor • v) i| = factor * |v i| := fun i => by
    rw [Pi.smul_apply, smul_eq_mul, abs_mul, abs_of_pos positive]
  rw [shares, shares, Finset.sum_congr rfl fun i _ => each i, ← Finset.mul_sum, mul_inv, smul_smul,
    mul_right_comm, inv_mul_cancel₀ positive.ne', one_mul]

end

namespace Model

-- The features of a row, scaled to length one. Zeros have no direction and stay zeros.
noncomputable def direction (model : Model ℝ) (r : Nat) : Fin model.items.cols → ℝ :=
  let features := (model.items.rowAt r).vector model.items.cols
  (√(features ⬝ᵥ features))⁻¹ • features

-- The sum of the directions of the known items, each as often as it is listed.
noncomputable def resultant (model : Model ℝ) (chosen : List EntityId) :
    Fin model.items.cols → ℝ :=
  ((chosen.filterMap model.itemNumbering.get?).map model.direction).sum

def Steers (model : Model ℝ) (id : EntityId) : Prop :=
  ∃ r, model.itemNumbering.get? id = some r ∧
    (model.items.rowAt r).vector model.items.cols ≠ 0

noncomputable def rescale (factor : Nat → ℝ) (model : Model ℝ) : Model ℝ where
  userNumbering := model.userNumbering
  itemNumbering := model.itemNumbering
  users := model.users
  items :=
    { cols := model.items.cols
      rows := model.items.rows.mapIdx fun r row => row.scale (factor r)
      width := by
        intro row member
        obtain ⟨r, inside, rfl⟩ := Array.mem_mapIdx.mp member
        exact (List.length_map _).trans (model.items.width _ (Array.getElem_mem inside)) }
  errors := model.errors

variable {model : Model ℝ}

theorem direction_dot_self {r : Nat}
    (some : (model.items.rowAt r).vector model.items.cols ≠ 0) :
    model.direction r ⬝ᵥ model.direction r = 1 := by
  let features := (model.items.rowAt r).vector model.items.cols
  have nonneg : 0 ≤ features ⬝ᵥ features := Finset.sum_nonneg fun i _ => mul_self_nonneg _
  have positive : features ⬝ᵥ features ≠ 0 := fun zero => some (dotProduct_self_eq_zero.mp zero)
  change (√(features ⬝ᵥ features))⁻¹ • features ⬝ᵥ (√(features ⬝ᵥ features))⁻¹ • features = 1
  rw [smul_dotProduct, dotProduct_smul, smul_smul, ← mul_inv, Real.mul_self_sqrt nonneg,
    smul_eq_mul, inv_mul_cancel₀ positive]

noncomputable def pull (model : Model ℝ) (id : EntityId) : Fin model.items.cols → ℝ :=
  ((model.itemNumbering.get? id).map model.direction).getD 0

theorem pull_eq_zero {id : EntityId} (idle : ¬model.Steers id) : model.pull id = 0 := by
  rw [pull]
  cases known : model.itemNumbering.get? id with
  | none => rfl
  | some r =>
      have zero : (model.items.rowAt r).vector model.items.cols = 0 :=
        not_not.mp fun nonzero => idle ⟨r, known, nonzero⟩
      rw [Option.map_some, Option.getD_some, direction, zero, smul_zero]

theorem resultant_eq_sum (chosen : List EntityId) :
    model.resultant chosen = (chosen.map model.pull).sum := by
  induction chosen with
  | nil => rfl
  | cons id ids ih =>
      rw [List.map_cons, List.sum_cons, ← ih, pull, resultant, resultant]
      cases known : model.itemNumbering.get? id with
      | none => rw [List.filterMap_cons_none known, Option.map_none, Option.getD_none, zero_add]
      | some r =>
          rw [List.filterMap_cons_some known, List.map_cons, List.sum_cons, Option.map_some,
            Option.getD_some]

theorem resultant_of_count {chosen other : List EntityId}
    (same : ∀ id, model.Steers id → chosen.count id = other.count id) :
    model.resultant chosen = model.resultant other := by
  have spread : ∀ ids : List EntityId, ids.toFinset ⊆ chosen.toFinset ∪ other.toFinset →
      (ids.map model.pull).sum =
        ∑ id ∈ chosen.toFinset ∪ other.toFinset, ids.count id • model.pull id := by
    intro ids inside
    rw [Finset.sum_list_map_count]
    refine Finset.sum_subset inside fun id _ absent => ?_
    rw [List.count_eq_zero_of_not_mem fun member => absent (List.mem_toFinset.mpr member),
      zero_smul]
  rw [resultant_eq_sum, resultant_eq_sum, spread chosen Finset.subset_union_left,
    spread other Finset.subset_union_right]
  refine Finset.sum_congr rfl fun id _ => ?_
  by_cases steers : model.Steers id
  · rw [same id steers]
  · rw [pull_eq_zero steers, smul_zero, smul_zero]

theorem resultant_repeated (chosen : List EntityId) (times : Nat) :
    model.resultant (List.replicate times chosen).flatten =
      (times : ℝ) • model.resultant chosen := by
  induction times with
  | zero => rw [Nat.cast_zero, zero_smul]; rfl
  | succ times ih =>
      rw [resultant_eq_sum] at ih ⊢
      rw [List.replicate_succ, List.flatten_cons, List.map_append, List.sum_append, ih,
        Nat.cast_succ, add_smul, one_smul, add_comm, resultant_eq_sum]

theorem vector_rescale {factor : Nat → ℝ} {r : Nat} (inside : r < model.items.size) :
    ((model.rescale factor).items.rowAt r).vector model.items.cols =
      factor r • (model.items.rowAt r).vector model.items.cols := by
  have scaled : (model.rescale factor).items.rowAt r = (model.items.rowAt r).scale (factor r) := by
    rw [RowMatrix.rowAt, rescale, Array.getElem?_mapIdx, model.items.get_row_at inside]
    rfl
  rw [scaled, Row.vector_scale (RowMatrix.length_row_at inside)]

theorem direction_rescale {factor : Nat → ℝ} {r : Nat} (inside : r < model.items.size)
    (positive : 0 < factor r) : (model.rescale factor).direction r = model.direction r := by
  let features := (model.items.rowAt r).vector model.items.cols
  let larger := ((model.rescale factor).items.rowAt r).vector model.items.cols
  have scaled : larger = factor r • features := vector_rescale inside
  have squares : (factor r • features) ⬝ᵥ (factor r • features) =
      factor r ^ 2 * (features ⬝ᵥ features) := by
    rw [smul_dotProduct, dotProduct_smul, smul_smul, smul_eq_mul, sq]
  change (√(larger ⬝ᵥ larger))⁻¹ • larger = (√(features ⬝ᵥ features))⁻¹ • features
  rw [scaled, squares, Real.sqrt_mul (sq_nonneg _),
    Real.sqrt_sq positive.le, mul_inv, smul_smul, mul_right_comm, inv_mul_cancel₀ positive.ne',
    one_mul]

theorem resultant_rescale {factor : Nat → ℝ} (formed : model.Formed)
    (positive : ∀ r, 0 < factor r) (chosen : List EntityId) :
    (model.rescale factor).resultant chosen = model.resultant chosen := by
  refine congrArg List.sum (List.map_congr_left fun r member => ?_)
  obtain ⟨id, -, known⟩ := List.mem_filterMap.mp member
  have inside : r < model.items.size := by
    rw [formed.items]
    exact model.itemNumbering.lt_size_of_get known
  exact direction_rescale inside (positive r)

theorem size_rescale (factor : Nat → ℝ) : (model.rescale factor).items.size = model.items.size :=
  Array.size_mapIdx

theorem formed_rescale (factor : Nat → ℝ) (formed : model.Formed) :
    (model.rescale factor).Formed where
  users := formed.users
  items := (size_rescale factor).trans formed.items
  cols := formed.cols

theorem independent_rescale {factor : Nat → ℝ} (positive : ∀ r, 0 < factor r)
    (independent : LinearIndependent ℝ model.items.matrix.col) :
    LinearIndependent ℝ (model.rescale factor).items.matrix.col := by
  have scaled : ∀ (v : Fin model.items.cols → ℝ) (r : Fin model.items.size),
      ((model.rescale factor).items.matrix *ᵥ v) (r.cast (size_rescale factor).symm) =
        factor r * (model.items.matrix *ᵥ v) r := by
    intro v r
    change ((model.rescale factor).items.rowAt r).vector model.items.cols ⬝ᵥ v = _
    rw [vector_rescale r.isLt, smul_dotProduct]
    rfl
  rw [← mulVec_injective_iff] at independent ⊢
  intro v w same
  refine independent (funext fun r => ?_)
  have equal := congrFun same (r.cast (size_rescale factor).symm)
  rw [scaled v, scaled w] at equal
  exact mul_left_cancel₀ (positive r).ne' equal

end Model

namespace Projector

theorem scale_to_one_of_fn {size : Nat} (v : Fin size → ℝ) :
    scaleToOne (List.ofFn v) = List.ofFn (shares v) := by
  have total : Scalar.sum ((List.ofFn v).map Scalar.abs) = ∑ i, |v i| := by
    rw [List.map_ofFn, Scalar.sum, neg_zero, ← List.sum_eq_foldl, List.sum_ofFn]
    rfl
  rw [scaleToOne, total]
  by_cases zero : v = 0
  · have none : ∑ i, |v i| = 0 := Finset.sum_eq_zero fun i _ => abs_eq_zero.mpr (congrFun zero i)
    rw [if_neg none.not_gt, shares, zero, smul_zero]
  · rw [if_pos (sum_abs_pos zero), List.map_ofFn]
    refine congrArg _ (funext fun i => ?_)
    exact div_eq_inv_mul _ _

section

variable {α : Type} [Scalar α]

def addDirection (projector : Projector α) (sum : Row α) (r : Nat) : Row α :=
  let features := projector.model.items.rowAt r
  if 0 < length features then sum.addScaled (1 / length features) features else sum

theorem add_unit_eq_ok {projector : Projector α} (sum : Row α) {r : Nat}
    (inside : r < projector.model.items.size) :
    projector.addUnit sum r = .ok (projector.addDirection sum r) := by
  rw [addUnit, RowMatrix.row_eq_ok_iff.mpr (RowMatrix.get_row_at inside)]
  exact (apply_ite Except.ok _ _ _).symm

end

variable {projector : Projector ℝ} {chosen : List EntityId}

-- In exact arithmetic a row without a direction adds zeros.
theorem vector_add_direction {sum : Row ℝ} {r : Nat} (inside : r < projector.model.items.size)
    (width : sum.length = projector.model.items.cols) :
    (projector.addDirection sum r).length = projector.model.items.cols ∧
      (projector.addDirection sum r).vector projector.model.items.cols =
        sum.vector projector.model.items.cols + projector.model.direction r := by
  have own : (projector.model.items.rowAt r).length = projector.model.items.cols :=
    RowMatrix.length_row_at inside
  let features := (projector.model.items.rowAt r).vector projector.model.items.cols
  have norm : length (projector.model.items.rowAt r) = √(features ⬝ᵥ features) :=
    congrArg Real.sqrt (Row.dot_eq_dot_product own own)
  rw [addDirection, norm]
  by_cases positive : 0 < √(features ⬝ᵥ features)
  · rw [if_pos positive, Row.length_add_scaled, width, own, Nat.min_self,
      Row.vector_add_scaled width own, one_div]
    exact ⟨rfl, rfl⟩
  · have none : √(features ⬝ᵥ features) = 0 := le_antisymm (not_lt.mp positive) (Real.sqrt_nonneg _)
    have still : projector.model.direction r = 0 := by
      change (√(features ⬝ᵥ features))⁻¹ • features = 0
      simp only [none, GroupWithZero.inv_zero, zero_smul]
    rw [if_neg positive, still, add_zero]
    exact ⟨width, rfl⟩

theorem vector_add_directions {rows : List Nat}
    (inside : ∀ r ∈ rows, r < projector.model.items.size) {sum : Row ℝ}
    (width : sum.length = projector.model.items.cols) :
    (rows.foldl projector.addDirection sum).length = projector.model.items.cols ∧
      (rows.foldl projector.addDirection sum).vector projector.model.items.cols =
        sum.vector projector.model.items.cols + (rows.map projector.model.direction).sum := by
  induction rows generalizing sum with
  | nil => exact ⟨width, (add_zero _).symm⟩
  | cons r rows ih =>
      obtain ⟨first, others⟩ := List.forall_mem_cons.mp inside
      obtain ⟨next, added⟩ := vector_add_direction first width
      obtain ⟨whole, vector⟩ := ih others next
      refine ⟨whole, ?_⟩
      rw [List.foldl_cons, vector, added, List.map_cons, List.sum_cons, add_assoc]

theorem embed_anonymous_eq (formed : projector.model.Formed)
    (holds : Memory.Holds projector.model.rank) (several : ¬projector.model.LoneUnknown chosen) :
    projector.embedAnonymous chosen =
      .ok (List.ofFn (shares (projector.model.resultant chosen))) := by
  have inside : ∀ r ∈ chosen.filterMap projector.model.itemNumbering.get?,
      r < projector.model.items.size := by
    intro r member
    obtain ⟨id, -, known⟩ := List.mem_filterMap.mp member
    exact lt_of_known formed known
  obtain ⟨width, vector⟩ := vector_add_directions inside (Row.length_zeros _)
  rw [Row.vector_zeros, zero_add] at vector
  rw [embedAnonymous, accumulate_eq_fold formed holds several fun sum r => add_unit_eq_ok sum]
  refine congrArg Except.ok ?_
  change scaleToOne (List.foldl projector.addDirection (Row.zeros projector.model.items.cols) _) = _
  rw [← Row.of_fn_vector width, vector, scale_to_one_of_fn]
  rfl

theorem embed_anonymous_of_lacks (lacks : ¬Memory.Holds projector.model.rank) :
    projector.embedAnonymous chosen =
      .error (.fault (.beyondMemory 1 projector.model.rank)) := by
  rw [embedAnonymous, accumulate_of_lacks lacks]
  rfl

theorem embed_anonymous_of_unknown (holds : Memory.Holds projector.model.rank) {id : EntityId}
    (unknown : projector.model.itemNumbering.get? id = none) :
    projector.embedAnonymous [id] = .error (.error (.unknownId .item id)) := by
  rw [embedAnonymous, accumulate_of_unknown holds unknown]
  rfl

-- What comes of every list of ids where memory holds the features of a user.
structure FoldsInAnonymously (projector : Projector ℝ) : Prop where
  fails : ∀ chosen failure, projector.embedAnonymous chosen = .error failure ↔
    ∃ id, chosen = [id] ∧ projector.model.itemNumbering.get? id = none ∧
      failure = .error (.unknownId .item id)
  unit : ∀ id, projector.model.Steers id → ∃ r, projector.model.itemNumbering.get? id = some r ∧
    projector.model.direction r ⬝ᵥ projector.model.direction r = 1
  cancelled : ∀ chosen, ¬projector.model.LoneUnknown chosen →
    projector.model.resultant chosen = 0 →
    projector.embedAnonymous chosen = .ok (Row.zeros projector.model.rank)
  shared : ∀ chosen, ¬projector.model.LoneUnknown chosen →
    projector.model.resultant chosen ≠ 0 →
    ∃ (x : Row ℝ) (factor : ℝ), projector.embedAnonymous chosen = .ok x ∧
      x.length = projector.model.rank ∧
      (x.map fun entry => |entry|).sum = 1 ∧ 0 < factor ∧
      x.vector projector.model.items.cols = factor • projector.model.resultant chosen
  permuted : ∀ chosen other, chosen.Perm other →
    projector.embedAnonymous chosen = projector.embedAnonymous other
  repeated : ∀ chosen times, ¬projector.model.LoneUnknown chosen → 0 < times →
    projector.embedAnonymous (List.replicate times chosen).flatten =
      projector.embedAnonymous chosen
  same : ∀ chosen other, ¬projector.model.LoneUnknown chosen →
    ¬projector.model.LoneUnknown other →
    (∀ id, projector.model.Steers id → chosen.count id = other.count id) →
    projector.embedAnonymous chosen = projector.embedAnonymous other
  rescaled : ∀ factor : Nat → ℝ, (∀ r, 0 < factor r) →
    ∃ other, create (projector.model.rescale factor) = .ok other ∧
      ∀ chosen, other.embedAnonymous chosen = projector.embedAnonymous chosen

theorem embed_anonymous_eq_error_iff (formed : projector.model.Formed)
    (holds : Memory.Holds projector.model.rank) {failure : Failure ℝ} :
    projector.embedAnonymous chosen = .error failure ↔
      ∃ id, chosen = [id] ∧ projector.model.itemNumbering.get? id = none ∧
        failure = .error (.unknownId .item id) := by
  by_cases alone : projector.model.LoneUnknown chosen
  · obtain ⟨id, rfl, unknown⟩ := alone
    rw [embed_anonymous_of_unknown holds unknown]
    constructor
    · intro same
      exact ⟨id, rfl, unknown, (Except.error.inj same).symm⟩
    · rintro ⟨other, same, -, rfl⟩
      rw [List.singleton_inj.mp same]
  · rw [embed_anonymous_eq formed holds alone]
    refine ⟨nofun, ?_⟩
    rintro ⟨id, single, unknown, -⟩
    exact absurd ⟨id, single, unknown⟩ alone

theorem embed_anonymous_of_count (formed : projector.model.Formed)
    (holds : Memory.Holds projector.model.rank) {other : List EntityId}
    (several : ¬projector.model.LoneUnknown chosen)
    (severalOther : ¬projector.model.LoneUnknown other)
    (same : ∀ id, projector.model.Steers id → chosen.count id = other.count id) :
    projector.embedAnonymous chosen = projector.embedAnonymous other := by
  rw [embed_anonymous_eq formed holds several, embed_anonymous_eq formed holds severalOther,
    Model.resultant_of_count same]

theorem embed_anonymous_repeated (formed : projector.model.Formed)
    (holds : Memory.Holds projector.model.rank) (several : ¬projector.model.LoneUnknown chosen)
    {times : Nat} (some : 0 < times) :
    projector.embedAnonymous (List.replicate times chosen).flatten =
      projector.embedAnonymous chosen := by
  have more : ¬projector.model.LoneUnknown (List.replicate times chosen).flatten := by
    rintro ⟨id, single, unknown⟩
    have length := congrArg List.length single
    rw [List.length_flatten, List.map_replicate, List.sum_replicate, smul_eq_mul] at length
    rw [Nat.eq_one_of_mul_eq_one_right length] at single
    exact several ⟨id, by simpa using single, unknown⟩
  rw [embed_anonymous_eq formed holds more, embed_anonymous_eq formed holds several,
    Model.resultant_repeated, shares_smul (Nat.cast_pos.mpr some)]

theorem exists_rescaled (formed : projector.model.Formed)
    (holds : Memory.Holds projector.model.rank)
    (square : projector.model.items.size = 0 ∨
      Memory.Holds (projector.model.rank * projector.model.rank))
    (usable : projector.model.items.size = 0 ∨
      LinearIndependent ℝ projector.model.items.matrix.col)
    {factor : Nat → ℝ} (positive : ∀ r, 0 < factor r) :
    ∃ other, create (projector.model.rescale factor) = .ok other ∧
      ∀ chosen, other.embedAnonymous chosen = projector.embedAnonymous chosen := by
  have still : (projector.model.rescale factor).items.size = 0 ∨
      LinearIndependent ℝ (projector.model.rescale factor).items.matrix.col :=
    usable.imp (Model.size_rescale factor).trans (Model.independent_rescale positive)
  have squareStill : (projector.model.rescale factor).items.size = 0 ∨
      Memory.Holds ((projector.model.rescale factor).rank *
        (projector.model.rescale factor).rank) :=
    square.imp_left (Model.size_rescale factor).trans
  rcases create_cases squareStill with
    ⟨-, ⟨larger, projection⟩, made, rfl, -⟩ | ⟨not, -⟩
  · let other : Projector ℝ := ⟨projector.model.rescale factor, projection⟩
    have formedOther : other.model.Formed := Model.formed_rescale factor formed
    have holdsOther : Memory.Holds other.model.rank := holds
    refine ⟨other, made, fun chosen => ?_⟩
    by_cases alone : projector.model.LoneUnknown chosen
    · obtain ⟨id, rfl, unknown⟩ := alone
      have unknownOther : other.model.itemNumbering.get? id = none := unknown
      rw [embed_anonymous_of_unknown holds unknown,
        embed_anonymous_of_unknown holdsOther unknownOther]
    · have severalOther : ¬other.model.LoneUnknown chosen := alone
      rw [embed_anonymous_eq formed holds alone,
        embed_anonymous_eq formedOther holdsOther severalOther]
      exact congrArg (fun v => Except.ok (List.ofFn (shares v)))
        (Model.resultant_rescale formed positive chosen)
  · exact absurd still not

theorem folds_in_anonymously_of_usable (formed : projector.model.Formed)
    (holds : Memory.Holds projector.model.rank)
    (square : projector.model.items.size = 0 ∨
      Memory.Holds (projector.model.rank * projector.model.rank))
    (usable : projector.model.items.size = 0 ∨
      LinearIndependent ℝ projector.model.items.matrix.col) : projector.FoldsInAnonymously where
  fails := fun chosen failure => embed_anonymous_eq_error_iff formed holds
  unit := fun id steers => by
    obtain ⟨r, known, nonzero⟩ := steers
    exact ⟨r, known, Model.direction_dot_self nonzero⟩
  cancelled := by
    intro chosen several zero
    rw [embed_anonymous_eq formed holds several, zero, shares, smul_zero]
    refine congrArg _ (Row.vector_injective List.length_ofFn (Row.length_zeros _) ?_)
    rw [Row.vector_of_fn]
    exact (Row.vector_zeros _).symm
  shared := by
    intro chosen several nonzero
    refine ⟨_, (∑ i, |projector.model.resultant chosen i|)⁻¹,
      embed_anonymous_eq formed holds several, List.length_ofFn, ?_,
      inv_pos.mpr (sum_abs_pos nonzero), Row.vector_of_fn _⟩
    rw [List.map_ofFn, List.sum_ofFn]
    exact sum_abs_shares nonzero
  permuted := by
    intro chosen other same
    by_cases alone : projector.model.LoneUnknown chosen
    · obtain ⟨id, rfl, -⟩ := alone
      rw [List.singleton_perm.mp same]
    · refine embed_anonymous_of_count formed holds alone ?_ fun id _ => same.count_eq id
      rintro ⟨id, rfl, unknown⟩
      exact alone ⟨id, List.perm_singleton.mp same, unknown⟩
  repeated := fun chosen times several some => embed_anonymous_repeated formed holds several some
  same := fun chosen other several severalOther same =>
    embed_anonymous_of_count formed holds several severalOther same
  rescaled := fun factor positive => exists_rescaled formed holds square usable positive

theorem create_folds_in_anonymously {userNumbering itemNumbering : Numbering}
    {users items : RowMatrix ℝ} {errors : List (Option ℝ)} {model : Model ℝ}
    {projector : Projector ℝ}
    (created : Model.create userNumbering itemNumbering users items errors = .ok model)
    (made : create model = .ok projector) :
    projector.model = model ∧ (Memory.Holds model.rank → projector.FoldsInAnonymously) ∧
      (¬Memory.Holds model.rank → ∀ chosen,
        projector.embedAnonymous chosen = .error (.fault (.beyondMemory 1 model.rank))) := by
  have formed := Model.formed_of_create created
  have square := holds_of_create made
  rcases create_cases square with ⟨usable, other, same, rfl, -⟩ | ⟨-, failed⟩
  · cases made.symm.trans same
    exact ⟨rfl, fun holds => folds_in_anonymously_of_usable formed holds square usable,
      fun lacks _ => embed_anonymous_of_lacks lacks⟩
  · cases made.symm.trans failed

theorem create_folds_in_anonymously_opposite_items :
    ∃ itemNumbering model projector,
      Model.create (.empty .user) itemNumbering (⟨1, #[], by simp⟩ : RowMatrix ℝ)
        ⟨1, #[[1], [-2]], by simp⟩ [] = .ok model ∧
      create model = .ok projector ∧ projector.embedAnonymous [5, 6, 6, 9] = .ok [-1] ∧
      projector.embedAnonymous [9, 6, 5] = .ok [0] := by
  obtain ⟨numbering, ⟨_, projection⟩, known, created, made, rfl⟩ :=
    exists_two_items (-2) (one_ne_zero (α := ℝ))
  obtain ⟨-, folds, -⟩ := create_folds_in_anonymously created made
  have tells := folds (by decide : Memory.Holds 1)
  let model := twoItems numbering 1 (-2)
  have first : numbering.get? 5 = some 0 := (known 5 0).mpr rfl
  have second : numbering.get? 6 = some 1 := (known 6 1).mpr rfl
  have unknown : numbering.get? 9 = none := by
    refine Option.eq_none_iff_forall_ne_some.mpr fun row found => ?_
    have member := List.mem_of_getElem? ((known 9 row).mp found)
    simp at member
  have sign : ∀ (r : Nat) (a : ℝ), model.items.rowAt r = [a] →
      model.direction r = fun _ => |a|⁻¹ * a := by
    intro r a row
    have feature : Row.vector 1 [a] = fun _ => a :=
      funext fun i => by rw [Subsingleton.elim i 0]; rfl
    change (√(Row.vector 1 (model.items.rowAt r) ⬝ᵥ Row.vector 1 (model.items.rowAt r)))⁻¹ •
      Row.vector 1 (model.items.rowAt r) = _
    rw [row, feature, dotProduct, Fin.sum_univ_one, Real.sqrt_mul_self_eq_abs]
    rfl
  have forward : model.direction 0 = fun _ => 1 :=
    (sign 0 1 rfl).trans (by norm_num)
  have backward : model.direction 1 = fun _ => -1 :=
    (sign 1 (-2) rfl).trans (by norm_num)
  have left : model.resultant [5, 6, 6, 9] = fun _ => -1 := by
    have rows : [5, 6, 6, 9].filterMap numbering.get? = [0, 1, 1] := by
      simp [first, second, unknown]
    change (([5, 6, 6, 9].filterMap numbering.get?).map model.direction).sum = _
    funext i
    simp [rows, forward, backward]
  have cancel : model.resultant [9, 6, 5] = 0 := by
    have rows : [9, 6, 5].filterMap numbering.get? = [1, 0] := by
      simp [first, second, unknown]
    change (([9, 6, 5].filterMap numbering.get?).map model.direction).sum = _
    funext i
    simp [rows, forward, backward]
  have several : ¬model.LoneUnknown [5, 6, 6, 9] := by
    rintro ⟨id, alone, -⟩
    cases alone
  have severalOther : ¬model.LoneUnknown [9, 6, 5] := by
    rintro ⟨id, alone, -⟩
    cases alone
  refine ⟨numbering, _, _, created, made, ?_, tells.cancelled _ severalOther cancel⟩
  have nonzero : model.resultant [5, 6, 6, 9] ≠ 0 := by
    rw [left]
    exact fun zero => neg_ne_zero.mpr one_ne_zero (congrFun zero (0 : Fin 1))
  obtain ⟨x, factor, given, length, whole, positive, vector⟩ := tells.shared _ several nonzero
  obtain ⟨a, rfl⟩ := List.length_eq_one_iff.mp length
  have entry : a = -factor := by
    have same := congrFun vector (0 : Fin 1)
    change a = factor * model.resultant [5, 6, 6, 9] (0 : Fin 1) at same
    rw [same, left]
    ring
  have unit : |a| = 1 := by simpa using whole
  rw [entry, abs_neg, abs_of_pos positive] at unit
  rw [given, entry, unit]

-- Nothing is listed, and yet there is no answer: the zeros are more than memory can hold.
theorem not_create_folds_in_anonymously_empty_model :
    Model.create (.empty .user) (.empty .item) (emptyModel (2 ^ 60)).users
        (emptyModel (2 ^ 60)).items [] = .ok (emptyModel (2 ^ 60)) ∧
      ∃ projector, create (emptyModel (2 ^ 60)) = .ok projector ∧
        ¬projector.model.LoneUnknown [] ∧ ¬∃ x, projector.embedAnonymous [] = .ok x := by
  refine ⟨Model.create_of_sizes rfl rfl rfl [], _, create_empty_model (2 ^ 60), ?_, ?_⟩
  · rintro ⟨id, alone, -⟩
    cases alone
  · rintro ⟨x, embedded⟩
    have lacks : ¬Memory.Holds (2 ^ 60) := by decide
    cases embedded.symm.trans (embed_anonymous_of_lacks lacks)

end Projector
end LatentFactor
