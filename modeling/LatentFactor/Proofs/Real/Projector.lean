import LatentFactor.Proofs.Real.Projection

set_option autoImplicit false

namespace LatentFactor

open Matrix

namespace Model

variable {α : Type}

def occurrences (model : Model α) (chosen : List EntityId) (r : Nat) : Nat :=
  chosen.countP fun id => model.itemNumbering.get? id = some r

def LoneUnknown (model : Model α) (chosen : List EntityId) : Prop :=
  ∃ id, chosen = [id] ∧ model.itemNumbering.get? id = none

-- The squared errors of a row against the count of every item.
noncomputable def misfit (model : Model ℝ) (chosen : List EntityId) (x : Row ℝ) : ℝ :=
  ∑ r : Fin model.items.size,
    (Row.dot (model.items.rowAt r) x - model.occurrences chosen r) ^ 2

noncomputable def counts (model : Model ℝ) (chosen : List EntityId) : Fin model.items.size → ℝ :=
  fun r => model.occurrences chosen r

theorem occurrences_of_perm {model : Model α} {chosen other : List EntityId}
    (same : (chosen.filter model.itemNumbering.contains).Perm
      (other.filter model.itemNumbering.contains)) (r : Nat) :
    model.occurrences chosen r = model.occurrences other r := by
  have known : ∀ ids : List EntityId,
      model.occurrences ids r = model.occurrences (ids.filter model.itemNumbering.contains) r := by
    intro ids
    rw [occurrences, occurrences, List.countP_filter]
    refine List.countP_congr fun id _ => ?_
    rw [Numbering.contains_eq, Bool.and_eq_true, decide_eq_true_iff]
    exact ⟨fun found => ⟨found, by rw [found]; rfl⟩, And.left⟩
  rw [known chosen, known other]
  exact same.countP_eq _

variable {model : Model ℝ}

theorem counts_nil : model.counts [] = 0 := by
  funext r
  exact Nat.cast_zero

theorem counts_cons_of_unknown {id : EntityId} (unknown : model.itemNumbering.get? id = none)
    (ids : List EntityId) : model.counts (id :: ids) = model.counts ids := by
  funext r
  rw [counts, counts, occurrences, occurrences, List.countP_cons_of_neg (by simp [unknown])]

theorem counts_cons_of_known {id : EntityId} {r : Fin model.items.size}
    (known : model.itemNumbering.get? id = some r.val) (ids : List EntityId) :
    model.counts (id :: ids) = Pi.single r 1 + model.counts ids := by
  funext other
  rw [Pi.add_apply, Pi.single_apply, counts, counts, occurrences, occurrences, List.countP_cons,
    known, Nat.cast_add, add_comm]
  by_cases same : other = r
  · simp [same]
  · have differ : r.val ≠ other.val := fun equal => same (Fin.ext equal.symm)
    simp [same, differ]

theorem misfit_eq {x : Row ℝ} (length : x.length = model.items.cols) (chosen : List EntityId) :
    model.misfit chosen x =
      (model.items.matrix *ᵥ x.vector model.items.cols - model.counts chosen) ⬝ᵥ
        (model.items.matrix *ᵥ x.vector model.items.cols - model.counts chosen) := by
  apply Finset.sum_congr rfl
  intro r _
  rw [RowMatrix.dot_row_at r length, sq]
  rfl

end Model

namespace Projector

def matrix (projector : Projector ℝ) :
    Matrix (Fin projector.model.items.size) (Fin projector.model.items.cols) ℝ :=
  projector.projection.sized projector.model.items.size projector.model.items.cols

section

variable {α : Type} {projector : Projector α} {chosen : List EntityId}

theorem resolve_of_several (several : ¬projector.model.LoneUnknown chosen) {id : EntityId}
    (member : id ∈ chosen) :
    projector.resolve chosen id = .ok (projector.model.itemNumbering.get? id) := by
  unfold resolve
  cases found : projector.model.itemNumbering.get? id with
  | some row => rfl
  | none =>
      refine if_neg fun alone => several ?_
      obtain ⟨other, rfl⟩ := List.length_eq_one_iff.mp alone
      exact ⟨id, by rw [List.mem_singleton.mp member], found⟩

theorem lt_of_known (formed : projector.model.Formed) {id : EntityId} {row : Nat}
    (known : projector.model.itemNumbering.get? id = some row) :
    row < projector.model.items.size := by
  rw [formed.items]
  exact projector.model.itemNumbering.lt_size_of_get known

variable [Scalar α] {contribute : Row α → Nat → Except Fault (Row α)}

theorem accumulate_of_lacks (lacks : ¬Memory.Holds projector.model.rank) :
    projector.accumulate chosen contribute =
      .error (.fault (.beyondMemory 1 projector.model.rank)) := by
  rw [accumulate, Memory.reserve, if_neg lacks]
  rfl

theorem accumulate_of_unknown (holds : Memory.Holds projector.model.rank) {id : EntityId}
    (unknown : projector.model.itemNumbering.get? id = none) :
    projector.accumulate [id] contribute = .error (.error (.unknownId .item id)) := by
  have failed : projector.resolve [id] id = .error (.unknownId .item id) := by
    rw [resolve, unknown]
    rfl
  rw [accumulate, Memory.reserve_eq_ok_iff.mpr holds, List.foldlM_cons, failed]
  rfl

theorem accumulate_eq_fold {step : Row α → Nat → Row α} (formed : projector.model.Formed)
    (holds : Memory.Holds projector.model.rank) (several : ¬projector.model.LoneUnknown chosen)
    (each : ∀ sum row, row < projector.model.items.size → contribute sum row = .ok (step sum row)) :
    projector.accumulate chosen contribute =
      .ok ((chosen.filterMap projector.model.itemNumbering.get?).foldl step
        (Row.zeros projector.model.rank)) := by
  rw [accumulate, Memory.reserve_eq_ok_iff.mpr holds, List.foldl_filterMap]
  refine fold_m_eq_fold (fun sum id member => ?_) _
  rw [resolve_of_several several member]
  cases known : projector.model.itemNumbering.get? id with
  | none => rfl
  | some row =>
      change (contribute sum row).mapError Failure.fault = _
      rw [each sum row (lt_of_known formed known)]
      rfl

def contribution (projector : Projector α) (sum : Row α) (id : EntityId) : Row α :=
  match projector.model.itemNumbering.get? id with
  | some row => sum.add (projector.projection.rowAt row)
  | none => sum

end

variable {projector : Projector ℝ} {chosen : List EntityId}

theorem embed_eq_fold (formed : projector.model.Formed) (fitted : projector.Fitted)
    (holds : Memory.Holds projector.model.rank)
    (several : ¬projector.model.LoneUnknown chosen) :
    projector.embed chosen =
      .ok (chosen.foldl projector.contribution (Row.zeros projector.model.rank)) := by
  have added : ∀ sum row, row < projector.model.items.size → projector.addProjection sum row =
      .ok (sum.add (projector.projection.rowAt row)) := by
    intro sum row inside
    rw [← fitted.size] at inside
    rw [addProjection, RowMatrix.row_eq_ok_iff.mpr (RowMatrix.get_row_at inside)]
    rfl
  rw [embed, accumulate_eq_fold formed holds several added, List.foldl_filterMap]
  refine congrArg _ (List.foldl_ext _ _ _ fun sum id _ => ?_)
  rw [contribution]
  cases projector.model.itemNumbering.get? id with
  | none => rfl
  | some row => rfl

theorem vector_fold (formed : projector.model.Formed) (fitted : projector.Fitted)
    (ids : List EntityId) {sum : Row ℝ} (length : sum.length = projector.model.items.cols) :
    (ids.foldl projector.contribution sum).length = projector.model.items.cols ∧
      Row.vector projector.model.items.cols (ids.foldl projector.contribution sum) =
        sum.vector projector.model.items.cols +
          projector.model.counts ids ᵥ* projector.matrix := by
  induction ids generalizing sum with
  | nil => exact ⟨length, by rw [Model.counts_nil, zero_vecMul, add_zero]; rfl⟩
  | cons id ids ih =>
      rw [List.foldl_cons]
      cases known : projector.model.itemNumbering.get? id with
      | none =>
          have kept : projector.contribution sum id = sum := by rw [contribution, known]
          rw [kept, Model.counts_cons_of_unknown known]
          exact ih length
      | some row =>
          have inside := lt_of_known formed known
          have added : projector.contribution sum id =
              sum.add (projector.projection.rowAt row) := by rw [contribution, known]
          have width : (projector.projection.rowAt row).length = projector.model.items.cols :=
            (RowMatrix.length_row_at (by rwa [fitted.size])).trans fitted.cols
          have next : (sum.add (projector.projection.rowAt row)).length =
              projector.model.items.cols := by
            rw [Row.length_add, length, width, Nat.min_self]
          obtain ⟨whole, vector⟩ := ih next
          rw [added, Model.counts_cons_of_known (r := ⟨row, inside⟩) known]
          refine ⟨whole, ?_⟩
          rw [vector, Row.vector_add length width, add_vecMul, single_one_vecMul, add_assoc]
          rfl

theorem exists_embed (formed : projector.model.Formed) (fitted : projector.Fitted)
    (holds : Memory.Holds projector.model.rank)
    (several : ¬projector.model.LoneUnknown chosen) :
    ∃ x, projector.embed chosen = .ok x ∧ x.length = projector.model.items.cols ∧
      x.vector projector.model.items.cols =
        projector.matrixᵀ *ᵥ projector.model.counts chosen := by
  obtain ⟨length, vector⟩ := vector_fold formed fitted chosen (Row.length_zeros _)
  refine ⟨_, embed_eq_fold formed fitted holds several, length, ?_⟩
  exact vector.trans (by rw [Row.vector_zeros, zero_add, mulVec_transpose])

structure FoldsIn (projector : Projector ℝ) : Prop where
  unknown : ∀ id, projector.model.itemNumbering.get? id = none →
    projector.embed [id] = .error (.error (.unknownId .item id))
  least : ∀ chosen, ¬projector.model.LoneUnknown chosen →
    ∃ x, projector.embed chosen = .ok x ∧ x.length = projector.model.rank ∧
      (projector.model.items.size = 0 → x = Row.zeros projector.model.rank) ∧
      (projector.model.items.size ≠ 0 → ∀ y : Row ℝ, y.length = projector.model.rank → y ≠ x →
        projector.model.misfit chosen x < projector.model.misfit chosen y)
  same : ∀ chosen other, ¬projector.model.LoneUnknown chosen →
    ¬projector.model.LoneUnknown other →
    (chosen.filter projector.model.itemNumbering.contains).Perm
      (other.filter projector.model.itemNumbering.contains) →
    projector.embed chosen = projector.embed other
  exact : projector.model.items.size ≠ 0 → ∀ chosen, ¬projector.model.LoneUnknown chosen →
    ∀ u : Row ℝ, u.length = projector.model.rank →
      (∀ r : Fin projector.model.items.size,
        Row.dot (projector.model.items.rowAt r) u = projector.model.occurrences chosen r) →
      projector.embed chosen = .ok u

theorem folds_in_of_projects (formed : projector.model.Formed) (fitted : projector.Fitted)
    (holds : Memory.Holds projector.model.rank)
    (projects : projector.model.items.size ≠ 0 →
      Projects projector.model.items.matrix projector.matrix) : projector.FoldsIn where
  unknown := fun id => accumulate_of_unknown holds
  least := by
    intro chosen several
    obtain ⟨x, embedded, length, vector⟩ := exists_embed formed fitted holds several
    refine ⟨x, embedded, length, fun none => ?_, fun some y same other => ?_⟩
    · have empty : IsEmpty (Fin projector.model.items.size) := by
        rw [none]
        exact Fin.isEmpty
      refine (Row.vector_eq_zero_iff length).mp ?_
      rw [vector, mulVec_eq_sum, Finset.univ_eq_empty, Finset.sum_empty]
    · rw [Model.misfit_eq length, Model.misfit_eq same, vector]
      refine (projects some).least _ fun equal => other ?_
      exact Row.vector_injective same length (equal.trans vector.symm)
  same := by
    intro chosen other several severalOther same
    obtain ⟨x, embedded, length, vector⟩ := exists_embed formed fitted holds several
    obtain ⟨y, embeddedOther, lengthOther, vectorOther⟩ :=
      exists_embed formed fitted holds severalOther
    have counts : projector.model.counts chosen = projector.model.counts other :=
      funext fun r => congrArg Nat.cast (Model.occurrences_of_perm same r)
    rw [embedded, embeddedOther]
    refine congrArg _ (Row.vector_injective length lengthOther ?_)
    rw [vector, vectorOther, counts]
  exact := by
    intro some chosen several u same products
    obtain ⟨x, embedded, length, vector⟩ := exists_embed formed fitted holds several
    rw [embedded]
    refine congrArg _ (Row.vector_injective length same ?_)
    rw [vector]
    refine (projects some).transpose_mul_vec_of_eq (funext fun r => ?_)
    rw [← RowMatrix.dot_row_at r same]
    exact products r

theorem create_of_lacks {model : Model ℝ} (some : model.items.size ≠ 0)
    (lacks : ¬Memory.Holds (model.rank * model.rank)) :
    create model = .error (.fault (.beyondMemory 1 (model.rank * model.rank))) := by
  rw [create, if_neg some, project_of_lacks lacks]
  rfl

theorem create_cases {model : Model ℝ}
    (holds : model.items.size = 0 ∨ Memory.Holds (model.rank * model.rank)) :
    ((model.items.size = 0 ∨ LinearIndependent ℝ model.items.matrix.col) ∧
      ∃ projector, create model = .ok projector ∧ projector.model = model ∧ projector.Fitted ∧
        (projector.model.items.size ≠ 0 →
          Projects projector.model.items.matrix projector.matrix)) ∨
    (¬(model.items.size = 0 ∨ LinearIndependent ℝ model.items.matrix.col) ∧
      create model = .error (.error (.singular (.zeroPivot model.rank model.rank)))) := by
  unfold create
  by_cases none : model.items.size = 0
  · rw [if_pos none]
    have rows : (RowMatrix.zeros 0 model.rank : RowMatrix ℝ).size = 0 := Array.size_ofFn
    exact .inl ⟨.inl none, _, rfl, rfl, ⟨rows.trans none.symm, rfl⟩, fun some => absurd none some⟩
  · rw [if_neg none]
    rcases project_cases (holds.resolve_left none) with
      ⟨independent, projection, projected, height, width, projects⟩ | ⟨dependent, failed⟩
    · rw [projected]
      exact .inl ⟨.inr independent, _, rfl, rfl, ⟨height, width⟩, fun _ => projects⟩
    · rw [failed]
      exact .inr ⟨not_or.mpr ⟨none, dependent⟩, rfl⟩

theorem holds_of_create {model : Model ℝ} {projector : Projector ℝ}
    (made : create model = .ok projector) :
    model.items.size = 0 ∨ Memory.Holds (model.rank * model.rank) := by
  by_contra neither
  obtain ⟨some, lacks⟩ := not_or.mp neither
  cases made.symm.trans (create_of_lacks some lacks)

def twoItems (numbering : Numbering) (first second : ℝ) : Model ℝ :=
  ⟨.empty .user, numbering, ⟨1, #[], by simp⟩, ⟨1, #[[first], [second]], by simp⟩, []⟩

theorem exists_two_items {first : ℝ} (second : ℝ) (nonzero : first ≠ 0) :
    ∃ numbering projector,
      (∀ (id : EntityId) (row : Nat),
        numbering.get? id = some row ↔ ([5, 6] : List EntityId)[row]? = some id) ∧
      Model.create (.empty .user) numbering (twoItems numbering first second).users
        (twoItems numbering first second).items [] = .ok (twoItems numbering first second) ∧
      create (twoItems numbering first second) = .ok projector ∧
      projector.model = twoItems numbering first second := by
  obtain ⟨numbering, made⟩ :=
    Numbering.exists_of_ids (α := ℝ) .item (show ([5, 6] : List EntityId).Nodup by decide)
  have listed := (Numbering.of_ids_eq_ok made).2
  have size : numbering.size = 2 := congrArg List.length listed
  let users : RowMatrix ℝ := ⟨1, #[], by simp⟩
  let items : RowMatrix ℝ := ⟨1, #[[first], [second]], by simp⟩
  have userCount : users.size = (Numbering.empty .user).size := rfl
  have itemCount : items.size = numbering.size := size.symm
  have independent : LinearIndependent ℝ items.matrix.col := by
    rw [linear_independent_iff_det_gram]
    have entry : (items.matrixᵀ * items.matrix) (0 : Fin 1) (0 : Fin 1) =
        first * first + second * second := by
      change ∑ r : Fin 2, items.matrix r (0 : Fin 1) * items.matrix r (0 : Fin 1) = _
      rw [Fin.sum_univ_two]
      rfl
    rw [det_fin_one, entry]
    exact (add_pos_of_pos_of_nonneg (mul_self_pos.mpr nonzero) (mul_self_nonneg _)).ne'
  have holds : Memory.Holds ((twoItems numbering first second).rank *
      (twoItems numbering first second).rank) := (by decide : Memory.Holds (1 * 1))
  rcases create_cases (.inr holds) with
    ⟨-, projector, projected, same, -⟩ | ⟨unusable, -⟩
  · refine ⟨numbering, projector, fun id row => ?_,
      Model.create_of_sizes userCount itemCount rfl [], projected, same⟩
    rw [Numbering.get_eq_some_iff, Numbering.id?, ← Array.getElem?_toList, listed]
  · exact absurd (.inr independent) unusable

/-- Where memory holds the square of the features, users can be folded in if there are no items or
their features are independent. The errors against how often each item is listed are then the least,
where there is an item. -/
theorem create_folds_in {userNumbering itemNumbering : Numbering} {users items : RowMatrix ℝ}
    {errors : List (Option ℝ)} {model : Model ℝ}
    (created : Model.create userNumbering itemNumbering users items errors = .ok model) :
    (model.items.size = 0 ∨ Memory.Holds (model.rank * model.rank) →
      ((∃ projector, create model = .ok projector) ↔
          model.items.size = 0 ∨ LinearIndependent ℝ model.items.matrix.col) ∧
        (¬(model.items.size = 0 ∨ LinearIndependent ℝ model.items.matrix.col) →
          ∃ cause, create model = .error (.error (.singular cause)))) ∧
      (model.items.size ≠ 0 → ¬Memory.Holds (model.rank * model.rank) →
        create model = .error (.fault (.beyondMemory 1 (model.rank * model.rank)))) ∧
      ∀ projector, create model = .ok projector →
        projector.model = model ∧ projector.Fitted ∧
        (model.items.size ≠ 0 → projector.matrixᵀ * projector.model.items.matrix = 1) ∧
        (Memory.Holds model.rank → projector.FoldsIn) ∧
        (¬Memory.Holds model.rank → ∀ chosen,
          projector.embed chosen = .error (.fault (.beyondMemory 1 model.rank))) := by
  have formed := Model.formed_of_create created
  refine ⟨fun holds => ?_, create_of_lacks, fun projector made => ?_⟩
  · rcases create_cases holds with ⟨usable, projector, made, -⟩ | ⟨unusable, failed⟩
    · rw [made]
      exact ⟨⟨fun _ => usable, fun _ => ⟨projector, rfl⟩⟩, fun unusable => absurd usable unusable⟩
    · rw [failed]
      exact ⟨⟨nofun, fun usable => absurd usable unusable⟩, fun _ => ⟨_, rfl⟩⟩
  · rcases create_cases (holds_of_create made) with
      ⟨-, other, same, rfl, fitted, projects⟩ | ⟨-, failed⟩
    · cases made.symm.trans same
      exact ⟨rfl, fitted, fun some => (projects some).leftInverse,
        fun holds => folds_in_of_projects formed fitted holds projects,
        fun lacks _ => accumulate_of_lacks lacks⟩
    · cases made.symm.trans failed

theorem create_folds_in_two_items :
    ∃ itemNumbering model projector,
      Model.create (.empty .user) itemNumbering (⟨1, #[], by simp⟩ : RowMatrix ℝ)
        ⟨1, #[[1], [2]], by simp⟩ [] = .ok model ∧
      create model = .ok projector ∧ projector.embed [5, 6, 6, 9] = .ok [1] := by
  obtain ⟨numbering, ⟨_, projection⟩, known, created, made, rfl⟩ :=
    exists_two_items 2 (one_ne_zero (α := ℝ))
  obtain ⟨-, -, -, folds, -⟩ := (create_folds_in created).2.2 _ made
  refine ⟨numbering, _, _, created, made, ?_⟩
  let model := twoItems numbering 1 2
  have several : ¬model.LoneUnknown [5, 6, 6, 9] := by
    rintro ⟨id, alone, -⟩
    cases alone
  have holds : Memory.Holds 1 := by decide
  refine (folds holds).exact two_ne_zero _ several [1] rfl ?_
  have count : ∀ r, model.occurrences [5, 6, 6, 9] r =
      [5, 6, 6, 9].countP fun id => ([5, 6] : List EntityId)[r]? = some id := by
    intro r
    refine List.countP_congr fun id _ => ?_
    rw [decide_eq_true_iff, decide_eq_true_iff]
    exact known id r
  change ∀ r : Fin 2, Row.dot (model.items.rowAt r) [1] = model.occurrences [5, 6, 6, 9] r
  have once : model.occurrences [5, 6, 6, 9] 0 = 1 := (count 0).trans (by decide)
  have twice : model.occurrences [5, 6, 6, 9] 1 = 2 := (count 1).trans (by decide)
  refine Fin.forall_fin_two.mpr ⟨?_, ?_⟩
  · rw [Fin.val_zero, once]
    norm_num [model, twoItems, RowMatrix.rowAt, Row.dot]
  · rw [Fin.val_one, twice]
    norm_num [model, twoItems, RowMatrix.rowAt, Row.dot]

def emptyModel (cols : Nat) : Model ℝ :=
  ⟨.empty .user, .empty .item, ⟨cols, #[], by simp⟩, ⟨cols, #[], by simp⟩, []⟩

theorem create_empty_model (cols : Nat) :
    create (emptyModel cols) = .ok ⟨emptyModel cols, .zeros 0 cols⟩ := if_pos rfl

-- Any features agree with what is listed of no items, and only zeros are given; these may be more
-- than memory can hold.
theorem not_create_folds_in_empty_model :
    (∀ cols, Model.create (.empty .user) (.empty .item) (emptyModel cols).users
      (emptyModel cols).items [] = .ok (emptyModel cols)) ∧
    (∃ projector, create (emptyModel 1) = .ok projector ∧
      (∀ r : Fin (emptyModel 1).items.size,
        Row.dot ((emptyModel 1).items.rowAt r) [1] = (emptyModel 1).occurrences [] r) ∧
      projector.embed [] = .ok [0] ∧ ([0] : Row ℝ) ≠ [1]) ∧
    ∃ projector, create (emptyModel (2 ^ 60)) = .ok projector ∧
      ¬∃ x, projector.embed [] = .ok x := by
  refine ⟨fun cols => Model.create_of_sizes rfl rfl rfl [],
    ⟨_, create_empty_model 1, fun r => r.elim0, ?_, ?_⟩, _, create_empty_model (2 ^ 60), ?_⟩
  · rw [embed, accumulate, Memory.reserve_eq_ok_iff.mpr (by decide)]
    rfl
  · exact fun same => zero_ne_one (List.cons.inj same).1
  · rintro ⟨x, embedded⟩
    have lacks : ¬Memory.Holds (2 ^ 60) := by decide
    cases embedded.symm.trans (accumulate_of_lacks lacks)

end Projector
end LatentFactor
