import LatentFactor.Proofs.Binary64.Exact
import LatentFactor.Proofs.Ratings.Enumeration
import LatentFactor.Proofs.Real.Scalar

set_option autoImplicit false

namespace LatentFactor

class Scalar.Ordered (α : Type) [Scalar α] : Prop where
  lt_of_lt_of_le : ∀ x y z : α, x < y → y ≤ z → x < z
  not_lt_of_le : ∀ x y : α, x ≤ y → ¬y < x
  zero_le_zero : (0 : α) ≤ 0
  zero_le_one : (0 : α) ≤ 1
  one_le_one : (1 : α) ≤ 1
  zero_le_unit : ∀ word, (0 : α) ≤ Scalar.unit word
  unit_lt_one : ∀ word, Scalar.unit word < (1 : α)

theorem high_bits_small (word : UInt64) : (word >>> 11).toNat < 2 ^ 53 := by
  have bits := word.toNat_lt
  rw [UInt64.toNat_shiftRight, Nat.shiftRight_eq_div_pow]
  change word.toNat / 2 ^ 11 < 2 ^ 53
  omega

instance float_ordered : Scalar.Ordered Float where
  lt_of_lt_of_le _ _ _ := Binary64.lt_of_lt_of_le
  not_lt_of_le _ _ := Binary64.not_lt_of_le
  zero_le_zero := by decide
  zero_le_one := by decide
  one_le_one := by decide
  zero_le_unit word := Binary64.fraction_nonneg (high_bits_small word)
  unit_lt_one word := Binary64.fraction_lt_one (high_bits_small word)

instance real_ordered : Scalar.Ordered ℝ where
  lt_of_lt_of_le _ _ _ := LT.lt.trans_le
  not_lt_of_le _ _ := not_lt_of_ge
  zero_le_zero := le_rfl
  zero_le_one := zero_le_one
  one_le_one := le_rfl
  zero_le_unit word := div_nonneg (Nat.cast_nonneg _) (Nat.cast_nonneg _)
  unit_lt_one word := by
    have size : (0 : ℝ) < (Nat.pow 2 53 : ℕ) := Nat.cast_pos.mpr (by decide)
    exact (div_lt_one size).mpr (Nat.cast_lt.mpr (high_bits_small word))

def keepAt {β : Type} (keep : Nat → Bool) (xs : List β) : List β :=
  (xs.zipIdx.filter fun entry => keep entry.2).map Prod.fst

section

variable {β : Type} {keep more : Nat → Bool} {xs : List β}

theorem keep_at_sublist : (keepAt keep xs).Sublist xs := by
  have part := (List.filter_sublist (p := fun entry => keep entry.2) (l := xs.zipIdx)).map Prod.fst
  rwa [List.zipIdx_map_fst] at part

theorem length_keep_at :
    (keepAt keep xs).length + (keepAt (fun i => !keep i) xs).length = xs.length := by
  have both := List.length_eq_length_filter_add (l := xs.zipIdx) fun entry => keep entry.2
  rw [List.length_zipIdx] at both
  rw [keepAt, keepAt, List.length_map, List.length_map]
  exact both.symm

theorem keep_at_mono (wider : ∀ i, keep i = true → more i = true) :
    (keepAt keep xs).Sublist (keepAt more xs) :=
  (List.monotone_filter_right _ fun entry kept => wider entry.2 kept).map _

theorem keep_at_nothing (none : ∀ i, keep i = false) : keepAt keep xs = [] := by
  simp [keepAt, none]

end

namespace Store

variable {α : Type}

-- Both halves list what falls to them by position, and nothing is lost.
structure Divides (store : Store α) (held : Nat → Bool) (halves : Split α) : Prop where
  test : halves.test.ratings = keepAt held store.ratings
  training : halves.training.ratings = keepAt (fun i => !held i) store.ratings
  sizes : halves.test.size + halves.training.size = store.size

theorem divides_of_enumerated {store : Store α} (enumerated : Enumerated store.ratings)
    (size : store.size = store.ratings.length) (held : Nat → Bool) :
    store.Divides held
      { training := ofList (keepAt (fun i => !held i) store.ratings)
        test := ofList (keepAt held store.ratings) } := by
  have test : Enumerated (keepAt held store.ratings) :=
    enumerated_of_sublist enumerated keep_at_sublist
  have training : Enumerated (keepAt (fun i => !held i) store.ratings) :=
    enumerated_of_sublist enumerated keep_at_sublist
  refine ⟨ratings_of_list_of_enumerated test, ratings_of_list_of_enumerated training, ?_⟩
  rw [(filled_of_enumerated test).size, (filled_of_enumerated training).size, length_keep_at, size]

variable [Scalar α]

-- Number `i` of the stream of the seed, as a number of the unit interval.
def draw (seed : UInt64) (i : Nat) : α := Scalar.unit (Generator.nth seed i)

theorem drawn_eq_draws (store : Store α) (seed : UInt64) :
    store.drawn seed = store.ratings.zipIdx.map fun entry => (entry.1, draw seed entry.2) := by
  rw [drawn, Generator.draws_of_seed, List.zipIdx_eq_zip_range', List.range_eq_range',
    List.map_map, List.zip_map_right]
  rfl

theorem split_eq_ok {store : Store α} {fraction : α} (inside : 0 ≤ fraction ∧ fraction ≤ 1)
    (seed : UInt64) : store.split fraction seed = .ok
      { training := ofList (keepAt (fun i => !decide (draw seed i < fraction)) store.ratings)
        test := ofList (keepAt (fun i => decide (draw seed i < fraction)) store.ratings) } := by
  rw [split, if_pos inside, drawn_eq_draws]
  simp [List.partition_eq_filter_filter, List.filter_map, keepAt, Function.comp_def]

theorem split_eq_error {store : Store α} {fraction : α} (outside : ¬(0 ≤ fraction ∧ fraction ≤ 1))
    (seed : UInt64) :
    store.split fraction seed = .error (.invalidSetting (.testFraction fraction)) :=
  if_neg outside

structure Splits (store : Store α) (seed : UInt64) : Prop where
  stream : ∀ count, (Generator.draws count (.ofSeed seed)).map Scalar.unit =
    (List.range count).map (draw seed : Nat → α)
  unit : ∀ i, 0 ≤ (draw seed i : α) ∧ draw seed i < (1 : α)
  refused : ∀ fraction error, store.split fraction seed = .error error ↔
    ¬(0 ≤ fraction ∧ fraction ≤ 1) ∧ error = .invalidSetting (.testFraction fraction)
  divided : ∀ fraction, 0 ≤ fraction → fraction ≤ 1 → ∃ halves,
    store.split fraction seed = .ok halves ∧
      store.Divides (fun i => decide (draw seed i < fraction)) halves
  larger : ∀ fraction other halves others, store.split fraction seed = .ok halves →
    store.split other seed = .ok others → fraction ≤ other →
      halves.test.ratings.Sublist others.test.ratings
  nothing : ∃ halves, store.split 0 seed = .ok halves ∧ halves.test.ratings = []
  everything : ∃ halves, store.split 1 seed = .ok halves ∧ halves.training.ratings = []

theorem inside_of_split {store : Store α} {fraction : α} {seed : UInt64} {halves : Split α}
    (done : store.split fraction seed = .ok halves) : 0 ≤ fraction ∧ fraction ≤ 1 := by
  by_contra outside
  cases done.symm.trans (split_eq_error outside seed)

theorem splits_of_filled [Scalar.Ordered α] {ratings : List (Rating α)} {store : Store α}
    (filled : store.Filled ratings) (seed : UInt64) : store.Splits seed := by
  have size : store.size = store.ratings.length :=
    filled.size.trans (perm_ratings filled.holds).length_eq.symm
  have divided (fraction : α) (inside : 0 ≤ fraction ∧ fraction ≤ 1) : ∃ halves,
      store.split fraction seed = .ok halves ∧
        store.Divides (fun i => decide (draw seed i < fraction)) halves :=
    ⟨_, split_eq_ok inside seed, divides_of_enumerated (enumerated_of_filled filled) size _⟩
  refine ⟨?_, ?_, ?_, fun fraction low high => divided fraction ⟨low, high⟩, ?_, ?_, ?_⟩
  · intro count
    rw [Generator.draws_of_seed, List.map_map]
    rfl
  · exact fun i => ⟨Scalar.Ordered.zero_le_unit _, Scalar.Ordered.unit_lt_one _⟩
  · intro fraction error
    by_cases inside : 0 ≤ fraction ∧ fraction ≤ 1
    · simp [split_eq_ok inside, inside]
    · simp [split_eq_error inside, inside, eq_comm]
  · intro fraction other halves others first second wider
    obtain ⟨_, same, own⟩ := divided fraction (inside_of_split first)
    obtain ⟨_, again, their⟩ := divided other (inside_of_split second)
    cases first.symm.trans same
    cases second.symm.trans again
    rw [own.test, their.test]
    refine keep_at_mono fun i below => decide_eq_true ?_
    exact Scalar.Ordered.lt_of_lt_of_le _ _ _ (of_decide_eq_true below) wider
  · obtain ⟨halves, done, parts⟩ :=
      divided 0 ⟨Scalar.Ordered.zero_le_zero, Scalar.Ordered.zero_le_one⟩
    refine ⟨halves, done, parts.test.trans (keep_at_nothing fun i => decide_eq_false ?_)⟩
    exact Scalar.Ordered.not_lt_of_le _ _ (Scalar.Ordered.zero_le_unit _)
  · obtain ⟨halves, done, parts⟩ :=
      divided 1 ⟨Scalar.Ordered.zero_le_one, Scalar.Ordered.one_le_one⟩
    refine ⟨halves, done, parts.training.trans (keep_at_nothing fun i => ?_)⟩
    rw [Bool.not_eq_false']
    exact decide_eq_true (Scalar.Ordered.unit_lt_one _)

theorem splits_of_derived [Scalar.Ordered α] (records : List (Rating α)) (store : Store α)
    (derived : Derived records store) (seed : UInt64) : store.Splits seed := by
  obtain ⟨ratings, filled⟩ := filled_of_built (built_of_derived derived)
  exact splits_of_filled filled seed

-- What is not a number is refused as a fraction; a half is not, and the three ratings fall to one
-- side or the other.
theorem splits_of_derived_rounded :
    let records : List (Rating Float) := [⟨1, 2, 3⟩, ⟨4, 5, 1⟩, ⟨1, 7, 2⟩]
    let store : Store Float := (ofList records).addItems [9]
    Derived records store ∧ store.Splits 42 ∧
      store.split .nan 42 = .error (.invalidSetting (.testFraction .nan)) ∧
      ∃ halves, store.split (1 / 2) 42 = .ok halves ∧
        halves.test.size + halves.training.size = 3 := by
  intro records store
  have derived : Derived records store := .addItems _ [9] .ofList
  have splits := splits_of_derived records store derived 42
  have notNumber : ¬((0 : Float) ≤ .nan ∧ (.nan : Float) ≤ 1) := by decide
  obtain ⟨halves, done, parts⟩ := splits.divided (1 / 2) (by decide) (by decide)
  have distinct : (records.map Rating.pair).Nodup := by decide
  have size : store.size = 3 := by
    change (ofList records).size = 3
    rw [(filled_of_list records).size, Latest.ratings_fold_of_distinct distinct]
    rfl
  exact ⟨derived, splits, (splits.refused _ _).mpr ⟨notNumber, rfl⟩, halves, done,
    parts.sizes.trans size⟩

end Store
end LatentFactor
