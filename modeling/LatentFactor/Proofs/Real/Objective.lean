import LatentFactor.Proofs.Ratings.Source
import LatentFactor.Proofs.Real.RowUpdate

set_option autoImplicit false

namespace LatentFactor

def stored (ratings : List (Rating ℝ)) (user item : EntityId) : Option ℝ :=
  (ratings.find? fun rating => rating.pair = (user, item)).map Rating.value

def confidence (alpha : ℝ) : Option ℝ → ℝ
  | some value => 1 + alpha * value
  | none => 1

def preference : Option ℝ → ℝ
  | some _ => 1
  | none => 0

namespace Objective

section

variable (lambda : ℝ) (ratings : List (Rating ℝ)) (ids : Side → List EntityId)
  (row : Side → EntityId → Row ℝ)

noncomputable def squaredLength (side : Side) (id : EntityId) : ℝ :=
  Row.dot (row side id) (row side id)

noncomputable def prediction (user item : EntityId) : ℝ :=
  Row.dot (row .user user) (row .item item)

-- A row without ratings is weighted like a row with one.
def ratingCount (side : Side) (id : EntityId) : Nat := max (ratingsOf side ratings id).length 1

noncomputable def explicit : ℝ :=
  (ratings.map fun rating => (rating.value - prediction row rating.user rating.item) ^ 2).sum +
    lambda * ((ids .user).map fun id =>
      (ratingCount ratings .user id : ℝ) * squaredLength row .user id).sum +
    lambda * ((ids .item).map fun id =>
      (ratingCount ratings .item id : ℝ) * squaredLength row .item id).sum

noncomputable def implicit (alpha : ℝ) : ℝ :=
  ((ids .user).map fun user => ((ids .item).map fun item =>
      confidence alpha (stored ratings user item) *
        (preference (stored ratings user item) - prediction row user item) ^ 2).sum).sum +
    lambda * (((ids .user).map (squaredLength row .user)).sum +
      ((ids .item).map (squaredLength row .item)).sum)

noncomputable def ofFeedback : Feedback ℝ → ℝ
  | .explicit => explicit lambda ratings ids row
  | .implicit alpha => implicit lambda ratings ids row alpha

variable (feedback : Feedback ℝ)

noncomputable def penalty (side : Side) : ℝ :=
  ((ids side).map fun id =>
    feedback.weight (ratingsOf side ratings id).length * squaredLength row side id).sum

-- All that depends on a row of the side when the other side is fixed.
noncomputable def share (side : Side) (id : EntityId) (x : Row ℝ) : ℝ :=
  ((ratingsOf side ratings id).map fun rating =>
      feedback.misfit rating.value (Row.dot (row side.other (rating.id side.other)) x)).sum +
    feedback.spread ((ids side.other).map (row side.other)) x x +
    lambda * feedback.weight (ratingsOf side ratings id).length * Row.dot x x

-- The error of the ratings, and the error of all pairs as if they were unrated.
noncomputable def misfits : ℝ :=
  (ratings.map fun rating =>
    feedback.misfit rating.value (prediction row rating.user rating.item)).sum

noncomputable def spreads (side : Side) : ℝ :=
  ((ids side).map fun id =>
    feedback.spread ((ids side.other).map (row side.other)) (row side id) (row side id)).sum

end

section

variable {lambda : ℝ} {ratings : List (Rating ℝ)} {ids : Side → List EntityId}
  {row : Side → EntityId → Row ℝ} {feedback : Feedback ℝ}

theorem misfits_eq (side : Side) (distinct : (ids side).Nodup)
    (known : ∀ rating ∈ ratings, rating.id side ∈ ids side) :
    misfits ratings row feedback =
      ((ids side).map fun id => ((ratingsOf side ratings id).map fun rating =>
        feedback.misfit rating.value
          (Row.dot (row side.other (rating.id side.other)) (row side id))).sum).sum := by
  rw [misfits, ← sum_groups (Rating.id · side) distinct known]
  apply sum_congr
  intro id _
  apply sum_congr
  intro rating member
  have own : rating.id side = id := of_decide_eq_true (List.mem_filter.mp member).2
  subst own
  cases side with
  | user => rw [prediction, Row.dot_comm]; rfl
  | item => rfl

theorem spreads_comm : spreads ids row feedback .user = spreads ids row feedback .item := by
  cases feedback with
  | explicit => simp [spreads, Feedback.spread]
  | implicit alpha =>
      simp only [spreads, Feedback.spread, List.map_map, Function.comp_def, Side.other]
      rw [sum_swap]
      apply sum_congr
      intro item _
      apply sum_congr
      intro user _
      rw [Row.dot_comm]

theorem shares_eq (side : Side) (distinct : (ids side).Nodup)
    (known : ∀ rating ∈ ratings, rating.id side ∈ ids side) :
    ((ids side).map fun id => share lambda ratings ids row feedback side id (row side id)).sum =
      misfits ratings row feedback + spreads ids row feedback side +
        lambda * penalty ratings ids row feedback side := by
  rw [misfits_eq side distinct known, spreads, penalty, ← List.sum_map_mul_left]
  simp only [share, List.sum_map_add, mul_assoc]
  rfl

theorem share_congr {side : Side} {other : Side → EntityId → Row ℝ}
    (same : row side.other = other side.other) (id : EntityId) (x : Row ℝ) :
    share lambda ratings ids row feedback side id x =
      share lambda ratings ids other feedback side id x := by
  rw [share, share, same]

theorem penalty_congr {side : Side} {other : Side → EntityId → Row ℝ}
    (same : row side = other side) :
    penalty ratings ids row feedback side = penalty ratings ids other feedback side := by
  simp only [penalty, squaredLength, same]

theorem implicit_term (alpha prediction : ℝ) (value : Option ℝ) :
    confidence alpha value * (preference value - prediction) ^ 2 =
      prediction * prediction +
        (value.map fun value => (Feedback.implicit alpha).misfit value prediction).getD 0 := by
  cases value with
  | none =>
      simp only [confidence, preference, Option.map_none, Option.getD_none]
      ring
  | some value =>
      simp only [confidence, preference, Option.map_some, Option.getD_some, Feedback.misfit]
      ring

theorem misfits_eq_pairs (distinct : ∀ side, (ids side).Nodup)
    (known : ∀ side, ∀ rating ∈ ratings, rating.id side ∈ ids side)
    (pairs : (ratings.map Rating.pair).Nodup) :
    misfits ratings row feedback =
      ((ids .user).map fun user => ((ids .item).map fun item =>
        ((stored ratings user item).map fun value =>
          feedback.misfit value (prediction row user item)).getD 0).sum).sum := by
  rw [misfits, ← sum_groups (Rating.id · .user) (distinct .user) (known .user)]
  apply sum_congr
  intro user _
  have inner : ∀ rating ∈ ratings.filter fun rating => rating.id .user = user,
      rating.id .item ∈ ids .item :=
    fun rating member => known .item rating (List.mem_filter.mp member).1
  rw [← sum_groups (Rating.id · .item) (distinct .item) inner]
  apply sum_congr
  intro item _
  have both : ((ratings.filter fun rating => rating.id .user = user).filter
      fun rating => rating.id .item = item) =
      ratings.filter fun rating => rating.pair = (user, item) := by
    rw [List.filter_filter]
    apply List.filter_congr
    intro rating _
    by_cases first : rating.user = user
    · by_cases second : rating.item = item
      · simp [Rating.id, Rating.pair, first, second]
      · simp [Rating.id, Rating.pair, second]
    · simp [Rating.id, Rating.pair, first]
  rw [both, sum_group Rating.pair pairs, stored]
  cases found : ratings.find? fun rating => rating.pair = (user, item) with
  | none => rfl
  | some rating =>
      have pair := List.find?_some found
      rw [decide_eq_true_eq, Rating.pair] at pair
      obtain ⟨rfl, rfl⟩ := Prod.mk.inj pair
      rfl

theorem objective_eq (distinct : ∀ side, (ids side).Nodup)
    (known : ∀ side, ∀ rating ∈ ratings, rating.id side ∈ ids side)
    (pairs : (ratings.map Rating.pair).Nodup) (side : Side) :
    ofFeedback lambda ratings ids row feedback =
      ((ids side).map fun id => share lambda ratings ids row feedback side id (row side id)).sum +
        lambda * penalty ratings ids row feedback side.other := by
  have whole : ofFeedback lambda ratings ids row feedback = misfits ratings row feedback +
      spreads ids row feedback .user + lambda * penalty ratings ids row feedback .user +
      lambda * penalty ratings ids row feedback .item := by
    cases feedback with
    | explicit =>
        simp only [ofFeedback, explicit, misfits, spreads, penalty, Feedback.misfit,
          Feedback.spread, Feedback.weight, ratingCount, List.map_const', List.sum_replicate,
          smul_zero, add_zero]
    | implicit alpha =>
        have spread : spreads ids row (.implicit alpha) .user = ((ids .user).map fun user =>
            ((ids .item).map fun item =>
              prediction row user item * prediction row user item).sum).sum := by
          simp only [spreads, Feedback.spread, List.map_map, Function.comp_def, Side.other]
          apply sum_congr
          intro user _
          apply sum_congr
          intro item _
          rw [Row.dot_comm]
          rfl
        rw [misfits_eq_pairs distinct known pairs, spread, ofFeedback, implicit]
        simp only [implicit_term, List.sum_map_add, penalty, Feedback.weight, one_mul]
        ring
  rw [shares_eq side (distinct side) (known side), whole]
  cases side with
  | user => rfl
  | item =>
      rw [spreads_comm, Side.other]
      ring

theorem objective_le {new old : Side → EntityId → Row ℝ} (distinct : ∀ side, (ids side).Nodup)
    (known : ∀ side, ∀ rating ∈ ratings, rating.id side ∈ ids side)
    (pairs : (ratings.map Rating.pair).Nodup) {side : Side} (kept : new side.other = old side.other)
    (least : ∀ id ∈ ids side,
      share lambda ratings ids old feedback side id (new side id) ≤
          share lambda ratings ids old feedback side id (old side id) ∧
        (share lambda ratings ids old feedback side id (new side id) =
          share lambda ratings ids old feedback side id (old side id) →
            new side id = old side id)) :
    ofFeedback lambda ratings ids new feedback ≤ ofFeedback lambda ratings ids old feedback ∧
      (ofFeedback lambda ratings ids new feedback = ofFeedback lambda ratings ids old feedback →
        ∀ id ∈ ids side, new side id = old side id) := by
  have shares : ∀ id, share lambda ratings ids new feedback side id (new side id) =
      share lambda ratings ids old feedback side id (new side id) :=
    fun id => share_congr kept id _
  obtain ⟨less, tight⟩ := sum_least fun id member => (least id member).1
  rw [objective_eq distinct known pairs side, objective_eq distinct known pairs side,
    penalty_congr kept]
  simp only [shares]
  refine ⟨add_le_add_left less _, fun equal id member => ?_⟩
  exact (least id member).2 (tight (add_right_cancel equal) id member)

end

end Objective
end LatentFactor
