import LatentFactor.Settings
import LatentFactor.Json.Reader
import LatentFactor.Json.Writer

set_option autoImplicit false

namespace LatentFactor

-- How numbers with a fraction are written and read. Infinite and undefined ones have no form.
structure NumberForm (α : Type) where
  write : α → Option Numeral
  read : Numeral → Option α

def NumberForm.binary64 : NumberForm Float where
  write := Numeral.ofFloat? Numeral.interchange
  read := fun numeral => Option.guard Float.isFinite numeral.toFloat

namespace Duration

def toJson (duration : Duration) : Json :=
  .record [("secs", .nat duration.seconds), ("nanos", .nat duration.subsecond)]

def ofFields? (seconds nanoseconds : Json) : Option Duration := do
  ofParts? (← seconds.toWord? UInt64.size) (← nanoseconds.toWord? UInt32.size)

end Duration

namespace Json

def textMembers (members : Members) : Option (List (String × Json)) :=
  members.mapM fun member => do return (String.ofList (← Piece.decode member.1), member.2)

def field? (members : List (String × Json)) (name : String) : Option (Option Json) :=
  match members.filter (·.1 = name) with
  | [] => some none
  | [member] => some (some member.2)
  | _ => none

def required (members : List (String × Json)) (name : String) : Option Json := do
  ← field? members name

def optional (members : List (String × Json)) (name : String) : Option Json :=
  (field? members name).map (·.getD .null)

def toOption? {β : Type} (read : Json → Option β) : Json → Option (Option β)
  | .null => some none
  | value => (read value).map some

def toDuration? : Json → Option Duration
  | .array [seconds, nanoseconds] => Duration.ofFields? seconds nanoseconds
  | .object members => do
      let members ← textMembers members
      if members.all fun member => member.1 = "secs" || member.1 = "nanos" then
        Duration.ofFields? (← required members "secs") (← required members "nanos")
      else none
  | _ => none

def toScalar? {α : Type} (form : NumberForm α) : Json → Option α
  | .number numeral => form.read numeral
  | _ => none

def ofOption {β : Type} (write : β → Json) : Option β → Json
  | none => .null
  | some value => write value

end Json

namespace Settings

variable {α : Type}

def toJson (form : NumberForm α) (settings : Settings α) : Json :=
  let scalar := fun value => Json.ofOption Json.number (form.write value)
  .record
    [("num_features", .nat settings.rank),
      ("lambda", scalar settings.lambda),
      ("num_iterations", .nat settings.iterations),
      ("uses_implicit_feedback", .bool settings.implicit),
      ("alpha", scalar settings.alpha),
      ("num_workers", .nat settings.workers),
      ("seed", Json.ofOption (fun seed => .nat seed.toNat) settings.seed),
      ("refinement_passes", .nat settings.passes),
      ("phase_timeout", Json.ofOption Duration.toJson settings.timeLimit)]

def size? : Json → Option Nat := Json.toWord? UInt64.size

def ofFields? (form : NumberForm α) (rank lambda iterations implicit alpha workers seed passes
    timeLimit : Json) : Option (Settings α) := do
  return {
    rank := ← size? rank
    lambda := ← Json.toScalar? form lambda
    iterations := ← size? iterations
    implicit := ← implicit.toBool?
    alpha := ← Json.toScalar? form alpha
    workers := ← size? workers
    seed := (← Json.toOption? size? seed).map UInt64.ofNat
    passes := ← size? passes
    timeLimit := ← Json.toOption? Json.toDuration? timeLimit }

def ofJson? (form : NumberForm α) : Json → Option (Settings α)
  | .array [rank, lambda, iterations, implicit, alpha, workers, seed, passes, timeLimit] =>
      ofFields? form rank lambda iterations implicit alpha workers seed passes timeLimit
  | .object members => do
      let members ← Json.textMembers members
      ofFields? form (← Json.required members "num_features") (← Json.required members "lambda")
        (← Json.required members "num_iterations")
        (← Json.required members "uses_implicit_feedback") (← Json.required members "alpha")
        (← Json.required members "num_workers") (← Json.optional members "seed")
        (← Json.required members "refinement_passes") (← Json.optional members "phase_timeout")
  | _ => none

def write (form : NumberForm α) (settings : Settings α) : String := (settings.toJson form).render

def read (form : NumberForm α) (text : String) : Option (Settings α) := do
  ofJson? form (← Json.parse text)

end Settings
end LatentFactor
