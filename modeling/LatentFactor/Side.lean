set_option autoImplicit false

namespace LatentFactor

-- External ids carry no meaning but equality.
abbrev EntityId := UInt64

inductive Side where
  | user
  | item
deriving DecidableEq, Repr

namespace Side

def other : Side → Side
  | user => item
  | item => user

theorem forall_of_both {holds : Side → Prop} (side : Side) (own : holds side)
    (others : holds side.other) : ∀ other, holds other := by
  intro other
  cases side <;> cases other <;> assumption

def name : Side → String
  | user => "user"
  | item => "item"

end Side

structure Phase where
  iteration : Nat
  side : Side
deriving DecidableEq, Repr

end LatentFactor
