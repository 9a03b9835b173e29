import LatentFactor.Random.ChaCha
import LatentFactor.Scalar

set_option autoImplicit false

namespace LatentFactor

namespace Seed

def advance (state : UInt64) : UInt64 := state * 6364136223846793005 + 11634580027462260723

def output (state : UInt64) : UInt32 :=
  let folded := (((state >>> 18) ^^^ state) >>> 27).toUInt32
  let amount := (state >>> 59).toUInt32
  (folded >>> amount) ||| (folded <<< (32 - amount))

def key (seed : UInt64) : ChaCha.Key :=
  Vector.ofFn fun i => output (Nat.repeat advance (i.val + 1) seed)

end Seed

structure Generator where
  key : ChaCha.Key
  drawn : Nat
  buffer : Vector UInt64 8

namespace Generator

def after (key : ChaCha.Key) (drawn : Nat) : Generator := ⟨key, drawn, ChaCha.block key (drawn / 8)⟩

def ofSeed (seed : UInt64) : Generator := after (Seed.key seed) 0

def word (generator : Generator) : UInt64 :=
  generator.buffer.get ⟨generator.drawn % 8, Nat.mod_lt _ (by decide)⟩

-- A block is computed when the words of the block before it are used up.
def advance (generator : Generator) : Generator :=
  let drawn := generator.drawn + 1
  if drawn % 8 = 0 then after generator.key drawn else { generator with drawn }

def draws : Nat → Generator → List UInt64
  | 0, _ => []
  | count + 1, generator => generator.word :: draws count generator.advance

def nth (seed : UInt64) (number : Nat) : UInt64 := (after (Seed.key seed) number).word

theorem advance_after (key : ChaCha.Key) (drawn : Nat) :
    (after key drawn).advance = after key (drawn + 1) := by
  by_cases full : (drawn + 1) % 8 = 0
  · unfold advance
    exact if_pos full
  · have same : (drawn + 1) / 8 = drawn / 8 := by omega
    unfold advance
    refine (if_neg full).trans ?_
    simp only [after, same]

theorem length_draws (count : Nat) (generator : Generator) :
    (draws count generator).length = count := by
  induction count generalizing generator with
  | zero => rfl
  | succ count ih => simp [draws, ih]

theorem draws_after (key : ChaCha.Key) (drawn count : Nat) :
    draws count (after key drawn) =
      (List.range count).map fun i => (after key (drawn + i)).word := by
  induction count generalizing drawn with
  | zero => rfl
  | succ count ih =>
      rw [draws, advance_after, ih, List.range_succ_eq_map]
      simp [Nat.add_comm, Nat.add_left_comm]

theorem draws_of_seed (seed : UInt64) (count : Nat) :
    draws count (ofSeed seed) = (List.range count).map (nth seed) := by
  rw [ofSeed, draws_after]
  simp only [Nat.zero_add]
  rfl

theorem draws_of_seed_add (seed : UInt64) (count more : Nat) :
    draws (count + more) (ofSeed seed) =
      draws count (ofSeed seed) ++ (List.range more).map fun i => nth seed (count + i) := by
  rw [draws_of_seed, draws_of_seed, List.range_add, List.map_append, List.map_map]
  rfl

end Generator

namespace Scalar

variable {α : Type} [Scalar α]

-- Uniform in the half-open unit interval: the 53 high bits of a word.
def unit (word : UInt64) : α := ((word >>> 11).toNat : α) / ((Nat.pow 2 53 : Nat) : α)

-- Uniform from zero up to a tenth: the 52 high bits of a word.
def noise (word : UInt64) : α := ((word >>> 12).toNat : α) / ((Nat.pow 2 52 : Nat) : α) * tenth

end Scalar
end LatentFactor
