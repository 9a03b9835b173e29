import LatentFactor.Proofs.Binary64.Product
import LatentFactor.Proofs.Block.Lower
import LatentFactor.Proofs.Features
import LatentFactor.Proofs.Real.Scalar

set_option autoImplicit false

namespace LatentFactor

-- What is asked of the arithmetic: a fraction below one makes less than a tenth of a tenth.
class Scalar.Tenths (α : Type) [Scalar α] : Prop where
  zero_le_noise : ∀ word, (0 : α) ≤ Scalar.noise word
  noise_lt_tenth : ∀ word, Scalar.noise word < (Scalar.tenth : α)

theorem higher_bits_small (word : UInt64) : (word >>> 12).toNat < 2 ^ 52 := by
  have bits := word.toNat_lt
  rw [UInt64.toNat_shiftRight, Nat.shiftRight_eq_div_pow]
  change word.toNat / 2 ^ 12 < 2 ^ 52
  omega

instance float_tenths : Scalar.Tenths Float where
  zero_le_noise word := (Binary64.tenth_of_fraction (higher_bits_small word)).1
  noise_lt_tenth word := (Binary64.tenth_of_fraction (higher_bits_small word)).2

instance real_tenths : Scalar.Tenths ℝ where
  zero_le_noise word := by
    unfold Scalar.noise Scalar.tenth
    positivity
  noise_lt_tenth word := by
    have size : (0 : ℝ) < (Nat.pow 2 52 : ℕ) := Nat.cast_pos.mpr (by decide)
    have fraction : ((word >>> 12).toNat : ℝ) / (Nat.pow 2 52 : ℕ) < 1 :=
      (div_lt_one size).mpr (Nat.cast_lt.mpr (higher_bits_small word))
    have tenth : (0 : ℝ) < Scalar.tenth := by
      unfold Scalar.tenth
      positivity
    exact mul_lt_of_lt_one_left tenth fraction

namespace Features

variable {α : Type} [Scalar α]

theorem get_item_rows {noisy : Nat} (byItem : List (Observations α)) (words : List UInt64)
    (i : Nat) : (itemRows noisy byItem words)[i]? = byItem[i]?.map fun observations =>
      mean observations :: ((words.drop (i * noisy)).take noisy).map Scalar.noise := by
  induction byItem generalizing words i with
  | nil => simp [itemRows]
  | cons observations rest ih =>
      cases i with
      | zero => simp [itemRows]
      | succ i =>
          have later : noisy + i * noisy = (i + 1) * noisy := by rw [Nat.succ_mul, Nat.add_comm]
          rw [itemRows, List.getElem?_cons_succ, List.getElem?_cons_succ, ih, List.drop_drop, later]

theorem noise_of_draws {noisy count i k : Nat} (seed : UInt64) (inside : i < count)
    (place : k < noisy) :
    ((((Generator.draws (count * noisy) (.ofSeed seed)).drop (i * noisy)).take noisy).map
      (Scalar.noise : UInt64 → α))[k]? =
        some (Scalar.noise (Generator.nth seed (i * noisy + k))) := by
  have rows : (i + 1) * noisy ≤ count * noisy := Nat.mul_le_mul_right _ inside
  rw [Nat.succ_mul] at rows
  have drawn : i * noisy + k < count * noisy := by omega
  rw [Generator.draws_of_seed, List.getElem?_map, List.getElem?_take_of_lt place,
    List.getElem?_drop, List.getElem?_map, List.getElem?_range drawn]
  rfl

/-- The matrices, entry by entry. A rated item begins with its mean, which divides by a count that
is not zero. -/
structure Starts (userCount : Nat) (byItem : List (Observations α)) (rank : Nat) (seed : UInt64)
    (features : Features α) : Prop where
  users : features.users.size = userCount ∧ features.users.cols = rank
  still : ∀ u < userCount, features.users.rows[u]? = some (List.replicate rank 0)
  items : features.items.size = byItem.length ∧ features.items.cols = rank
  unrated : ∀ i, byItem[i]? = some [] →
    Block.entryAt? features.items.rows.toList i 0 = some Scalar.tenth
  rated : ∀ i observations, byItem[i]? = some observations → observations.length ≠ 0 →
    Block.entryAt? features.items.rows.toList i 0 =
      some (Scalar.sum (observations.map Prod.snd) / ((observations.length : Nat) : α))
  stream : ∀ count, Generator.draws count (.ofSeed seed) =
    (List.range count).map (Generator.nth seed)
  noise : ∀ i c, i < byItem.length → 1 ≤ c → c < rank →
    Block.entryAt? features.items.rows.toList i c =
      some (Scalar.noise (Generator.nth seed (i * (rank - 1) + (c - 1))))
  range : ∀ i c, i < byItem.length → 1 ≤ c → c < rank → ∃ x : α,
    Block.entryAt? features.items.rows.toList i c = some x ∧ 0 ≤ x ∧ x < Scalar.tenth
  independent : ∀ count others (wider : Features α), initial count others rank seed = .ok wider →
    ∀ i c, i < byItem.length → i < others.length → 1 ≤ c →
      Block.entryAt? wider.items.rows.toList i c = Block.entryAt? features.items.rows.toList i c

section

variable {userCount rank : Nat} {byItem : List (Observations α)} {seed : UInt64}
  {features : Features α}

theorem item_row_of_initial (made : initial userCount byItem rank seed = .ok features) (i : Nat) :
    features.items.rows.toList[i]? = byItem[i]?.map fun observations => mean observations ::
      (((Generator.draws (byItem.length * (rank - 1)) (.ofSeed seed)).drop (i * (rank - 1))).take
        (rank - 1)).map Scalar.noise := by
  obtain ⟨-, -, rows⟩ := rows_of_initial made
  rw [rows, get_item_rows]

theorem mean_of_initial (made : initial userCount byItem rank seed = .ok features) {i : Nat}
    {observations : Observations α} (listed : byItem[i]? = some observations) :
    Block.entryAt? features.items.rows.toList i 0 = some (mean observations) := by
  rw [Block.entryAt?, item_row_of_initial made, listed]
  rfl

theorem noise_of_initial (made : initial userCount byItem rank seed = .ok features) {i c : Nat}
    (inside : i < byItem.length) (first : 1 ≤ c) (place : c < rank) :
    Block.entryAt? features.items.rows.toList i c =
      some (Scalar.noise (Generator.nth seed (i * (rank - 1) + (c - 1)))) := by
  obtain ⟨k, rfl⟩ : ∃ k, c = k + 1 := ⟨c - 1, by omega⟩
  rw [Block.entryAt?, item_row_of_initial made, List.getElem?_eq_getElem inside]
  exact noise_of_draws seed inside (by omega)

theorem length_of_item_row (made : initial userCount byItem rank seed = .ok features) {i : Nat}
    {row : Row α} (found : features.items.rows.toList[i]? = some row) : row.length = rank := by
  rw [Array.getElem?_toList] at found
  rw [RowMatrix.length_of_row found]
  exact (rows_of_initial made).2.1

theorem starts_of_initial [Scalar.Tenths α]
    (made : initial userCount byItem rank seed = .ok features) :
    features.Starts userCount byItem rank seed where
  users := (initial_eq_ok made).1
  still := by
    intro u inside
    obtain ⟨users, -, -⟩ := rows_of_initial made
    simp [users, RowMatrix.zeros, inside, Row.zeros]
  items := (initial_eq_ok made).2
  unrated := fun i listed => mean_of_initial made listed
  rated := by
    intro i observations listed rated
    rw [mean_of_initial made listed, mean, if_neg]
    simpa using List.ne_nil_of_length_pos (Nat.pos_of_ne_zero rated)
  stream := Generator.draws_of_seed seed
  noise := fun i c inside first place => noise_of_initial made inside first place
  range := fun i c inside first place => ⟨_, noise_of_initial made inside first place,
    Scalar.Tenths.zero_le_noise _, Scalar.Tenths.noise_lt_tenth _⟩
  independent := by
    intro count others wider same i c inside listed first
    by_cases place : c < rank
    · rw [noise_of_initial made inside first place, noise_of_initial same listed first place]
    · have beyond : ∀ {count : Nat} {items : List (Observations α)} {made : Features α},
          initial count items rank seed = .ok made →
            Block.entryAt? made.items.rows.toList i c = none := by
        intro count items made created
        rw [Block.entryAt?, Option.bind_eq_none_iff]
        intro row found
        exact List.getElem?_eq_none (length_of_item_row created found ▸ Nat.le_of_not_lt place)
      rw [beyond same, beyond made]

end

theorem initial_starts [Scalar.Tenths α] (userCount rank : Nat)
    (byItem : List (Observations α)) (seed : UInt64) (ranked : rank ≠ 0) :
    (Memory.HoldsMatrix byItem.length rank → Memory.HoldsMatrix userCount rank →
      ∃ features, initial userCount byItem rank seed = .ok features ∧
        features.Starts userCount byItem rank seed) ∧
    (¬Memory.HoldsMatrix byItem.length rank ∨ ¬Memory.HoldsMatrix userCount rank →
      ∃ rows, initial userCount byItem rank seed = .error (.beyondMemory rows rank)) := by
  refine ⟨fun items users => ?_, initial_of_wide⟩
  obtain ⟨features, made⟩ := exists_initial byItem seed ranked items users
  exact ⟨features, made, starts_of_initial made⟩

theorem initial_starts_two_items :
    let byItem : List (Observations Float) := [[(0, 4), (1, 2)], []]
    3 ≠ 0 ∧ Memory.HoldsMatrix 2 3 ∧ Memory.HoldsMatrix 1 3 ∧ ∃ features,
      initial 1 byItem 3 42 = .ok features ∧ features.Starts 1 byItem 3 42 ∧
        Block.entryAt? features.items.rows.toList 0 0 = some 3 ∧
        Block.entryAt? features.items.rows.toList 1 0 = some Scalar.tenth ∧
        Block.entryAt? features.items.rows.toList 1 2 =
          some (Scalar.noise (Generator.nth 42 3)) := by
  intro byItem
  obtain ⟨features, made, starts⟩ :=
    (initial_starts 1 3 byItem 42 (by decide)).1 (by decide) (by decide)
  have mean := starts.rated 0 [(0, 4), (1, 2)] rfl (by decide)
  have noise := starts.noise 1 2 (by decide) (by decide) (by decide)
  exact ⟨by decide, by decide, by decide, features, made, starts, mean, starts.unrated 1 rfl, noise⟩

-- Even a matrix without rows can be too wide.
theorem not_initial_starts_wide :
    9223372036854775808 ≠ 0 ∧
      ¬∃ features : Features Float, initial 0 [] 9223372036854775808 42 = .ok features := by
  refine ⟨by decide, ?_⟩
  rintro ⟨features, made⟩
  exact absurd (holds_of_initial made).1 (by decide)

end Features
end LatentFactor
