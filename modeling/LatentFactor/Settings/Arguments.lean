import LatentFactor.Settings
import LatentFactor.Decimal.Reader

set_option autoImplicit false

namespace LatentFactor

structure Arguments (α : Type) where
  path : String
  settings : Settings α

namespace Arguments

variable {α : Type}

def take (arguments : List String) (position : Nat) (argument : Argument) :
    Except (Error α) String :=
  match arguments[position]? with
  | some text => .ok text
  | none => .error (.input (.missingArgument argument))

def read {β : Type} (reader : NumberReader β) (argument : Argument) (text : String) :
    Except (Error α) β :=
  (reader text.toList).mapError fun fault => .input (.badArgument argument fault)

variable [Scalar α]

-- The first argument that is missing or malformed is reported; only a complete list of arguments
-- is checked for valid settings.
def parse (reader : NumberReader α) (workers : Nat) (arguments : List String) :
    Except (Error α) (Arguments α) := do
  let path ← take arguments 0 .path
  let rank ← read (Numeral.readWord 10) .rank (← take arguments 1 .rank)
  let lambda ← read reader .lambda (← take arguments 2 .lambda)
  let iterations ← read (Numeral.readWord 10) .iterations (← take arguments 3 .iterations)
  let alpha ← arguments[4]?.mapM (read reader .alpha)
  let explicit := Settings.create workers rank lambda iterations
  let settings := match alpha with
    | none => explicit
    | some alpha => explicit.withImplicit alpha
  settings.check
  return ⟨path, settings⟩

end Arguments
end LatentFactor
