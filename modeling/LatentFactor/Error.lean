import LatentFactor.Decimal.Reader
import LatentFactor.Duration
import LatentFactor.Side

/-!
What can go wrong. An `Error` is reported to the caller with its cause; the `stated` causes are
for callers that bring their own data or row functions. A `Fault` is a broken precondition, such
as a row index beyond a matrix. A `Failure` is either.
-/

set_option autoImplicit false

namespace LatentFactor

inductive InvalidSetting (α : Type) where
  | noFeatures
  | lambda (value : α)
  | noIterations
  | noWorkers
  | alpha (value : α)
  | idleExecutor
  | testFraction (value : α)
  | stated (text : String)

inductive Mismatch where
  | system (rows cols length : Nat)
  | inverse (rows cols : Nat)
  | solvedRow (side : Side) (row length expected : Nat)
  | rowCount (side : Side) (rows ids : Nat)
  | featureCount (users items : Nat)
  | stated (text : String)
deriving DecidableEq, Repr

inductive Singularity where
  | notPositiveDefinite (rows cols : Nat)
  | solutionNotFinite
  | zeroPivot (rows cols : Nat)
  | inverseNotFinite
  | stated (text : String)
deriving DecidableEq, Repr

inductive Argument where
  | path
  | rank
  | lambda
  | iterations
  | alpha
deriving DecidableEq, Repr

-- Number of a record, and where the reader stood when it began the record.
structure RecordPlace where
  record : Nat
  line : Nat
  byte : Nat
deriving DecidableEq, Repr

inductive RecordFault where
  | fieldCount (found expected : Nat)
  | invalidUtf8 (field validBytes : Nat)
  | badNumber (field : Nat) (fault : NumberFault)
  | tooFewFields (found : Nat)
deriving DecidableEq, Repr

inductive FileFault where
  | missing
  | denied
  | notDirectory
  | isDirectory
  | nameTooLong
  | stated (text : String)
deriving DecidableEq, Repr

inductive InputFault where
  | missingArgument (argument : Argument)
  | badArgument (argument : Argument) (fault : NumberFault)
  | badRecord (place : RecordPlace) (fault : RecordFault)
  | unreadable (fault : FileFault)
  | stated (text : String)
deriving DecidableEq, Repr

inductive Error (α : Type) where
  | unknownId (side : Side) (id : EntityId)
  | repeatedId (side : Side) (id : EntityId)
  | invalidSetting (cause : InvalidSetting α)
  | mismatch (cause : Mismatch)
  | singular (cause : Singularity)
  | timedOut (phase : Phase) (elapsed : Duration)
  | cancelled (phase : Phase)
  | workerPool (text : String)
  | input (cause : InputFault)

inductive Fault where
  | rowOutOfRange (row rows : Nat)
  | lengthMismatch (left right : Nat)
  | missingColumn
  | deadlineOverflow
  | beyondMemory (rows cols : Nat)
deriving DecidableEq, Repr

inductive Failure (α : Type) where
  | error (cause : Error α)
  | fault (cause : Fault)

instance {α : Type} : MonadLift (Except (Error α)) (Except (Failure α)) where
  monadLift := Except.mapError .error

instance {α : Type} : MonadLift (Except Fault) (Except (Failure α)) where
  monadLift := Except.mapError .fault

namespace InvalidSetting

def message : InvalidSetting Float → String
  | noFeatures => "num_features must be positive"
  | lambda value => "lambda must be a positive number, got " ++ Numeral.shortText value
  | noIterations => "num_iterations must be positive"
  | noWorkers => "num_workers must be positive"
  | alpha value => "alpha must be a non-negative number, got " ++ Numeral.shortText value
  | idleExecutor => "executor needs at least one worker"
  | testFraction value => "test fraction must lie in [0, 1], got " ++ Numeral.shortText value
  | stated text => text

end InvalidSetting

namespace Mismatch

def message : Mismatch → String
  | system rows cols length =>
      s!"cannot solve a {rows}x{cols} system against a vector of length {length}"
  | inverse rows cols => s!"cannot invert a {rows}x{cols} matrix"
  | solvedRow side row length expected =>
      s!"{side.name} row {row} solved to {length} features, expected {expected}"
  | rowCount side rows ids => s!"{rows} {side.name} rows for {ids} {side.name} ids"
  | featureCount users items => s!"users have {users} features, items have {items}"
  | stated text => text

end Mismatch

namespace Singularity

def message : Singularity → String
  | notPositiveDefinite rows cols => s!"{rows}x{cols} Gram matrix is not positive-definite"
  | solutionNotFinite => "row solve produced non-finite values"
  | zeroPivot rows cols => s!"{rows}x{cols} matrix"
  | inverseNotFinite => "inverse contains non-finite values"
  | stated text => text

end Singularity

def Argument.name : Argument → String
  | path => "ratings path"
  | rank => "num_features"
  | lambda => "lambda"
  | iterations => "num_iterations"
  | alpha => "alpha"

def RecordFault.message (place : RecordPlace) : RecordFault → String
  | fieldCount found expected =>
      s!"CSV error: record {place.record} (line: {place.line}, byte: {place.byte}): "
        ++ s!"found record with {found} fields, but the previous record has {expected} fields"
  | invalidUtf8 field validBytes =>
      s!"CSV parse error: record {place.record} (line {place.line}, field: {field}, "
        ++ s!"byte: {place.byte}): invalid utf-8: "
        ++ s!"invalid UTF-8 in field {field} near byte index {validBytes}"
  | badNumber field fault =>
      s!"CSV deserialize error: record {place.record} (line: {place.line}, byte: {place.byte}): "
        ++ s!"field {field}: " ++ fault.message
  | tooFewFields found =>
      s!"CSV deserialize error: record {place.record} (line: {place.line}, byte: {place.byte}): "
        ++ s!"invalid length {found}, expected struct Preference with 3 elements"

def FileFault.message : FileFault → String
  | missing => "No such file or directory (os error 2)"
  | denied => "Permission denied (os error 13)"
  | notDirectory => "Not a directory (os error 20)"
  | isDirectory => "Is a directory (os error 21)"
  | nameTooLong => "File name too long (os error 36)"
  | stated text => text

def InputFault.message : InputFault → String
  | missingArgument argument => "missing argument: " ++ argument.name
  | badArgument argument fault => argument.name ++ ": " ++ fault.message
  | badRecord place fault => fault.message place
  | unreadable fault => fault.message
  | stated text => text

namespace Error

def message : Error Float → String
  | unknownId side id => s!"No such {side.name}: {id}"
  | repeatedId side id => s!"Duplicate {side.name} id {id} while building index"
  | invalidSetting cause => "Invalid configuration: " ++ cause.message
  | mismatch cause => "Dimension mismatch: " ++ cause.message
  | singular cause => "Singular matrix: " ++ cause.message
  | timedOut phase elapsed =>
      s!"{phase.side.name} phase of iteration {phase.iteration} exceeded its deadline after "
        ++ elapsed.text
  | cancelled phase => s!"{phase.side.name} phase of iteration {phase.iteration} was cancelled"
  | workerPool text => "Thread pool error: " ++ text
  | input cause => "Input error: " ++ cause.message

-- A second pool cannot take the place of the one that every thread shares.
def sharedPoolTaken {α : Type} : Error α :=
  .workerPool "The global thread pool has already been initialized."

def isInterruption {α : Type} : Error α → Bool
  | timedOut _ _ => true
  | cancelled _ => true
  | _ => false

end Error

def Fault.message : Fault → String
  | rowOutOfRange row rows => s!"row {row} of a matrix with {rows} rows"
  | lengthMismatch left right => s!"product of rows with {left} and {right} features"
  | missingColumn => "first column of a matrix without columns"
  | deadlineOverflow => "deadline beyond the reach of the clock"
  | beyondMemory rows cols => s!"no room for {rows} rows of {cols} numbers"

end LatentFactor
