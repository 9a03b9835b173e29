import LatentFactor.Random.Generator
import LatentFactor.Ratings.Store

set_option autoImplicit false

namespace LatentFactor

structure Split (α : Type) where
  training : Store α
  test : Store α

namespace Store

variable {α : Type} [Scalar α]

def drawn (store : Store α) (seed : UInt64) : List (Rating α × α) :=
  let ratings := store.ratings
  ratings.zip
    ((Generator.draws ratings.length (Generator.ofSeed seed)).map Scalar.unit)

def split (store : Store α) (fraction : α) (seed : UInt64) : Except (Error α) (Split α) :=
  if 0 ≤ fraction ∧ fraction ≤ 1 then
    let halves := (store.drawn seed).partition fun entry => decide (entry.2 < fraction)
    .ok { training := ofList (halves.2.map Prod.fst)
          test := ofList (halves.1.map Prod.fst) }
  else .error (.invalidSetting (.testFraction fraction))

end Store
end LatentFactor
