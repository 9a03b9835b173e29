import LatentFactor.Settings.Arguments
import LatentFactor.Projector
import LatentFactor.Ratings.File
import LatentFactor.Ratings.Split
import LatentFactor.Training

set_option autoImplicit false

namespace LatentFactor.CommandLine

-- What the program needs of the machine it runs on. `now` is a reading of a clock in
-- nanoseconds.
structure Host (m : Type → Type) where
  contentOf : String → m (Except FileFault (List UInt8))
  log : LogLine → m Unit
  complain : String → m Unit
  now : m Nat
  workers : Nat
  view : Presentation

def heldOutFraction : Float := Scalar.tenth
def heldOutSeed : UInt64 := 378934

def usage : String :=
  "usage: fast_als <ratings.tsv> <num_features> <lambda> <num_iterations> [alpha]"

variable {m : Type → Type} [Monad m]

abbrev Program (m : Type → Type) := ExceptT (Failure Float) m

def check {β : Type} (result : Except (Error Float) β) : Program m β :=
  ExceptT.mk (pure (result.mapError .error))

def checkAll {β : Type} (result : Except (Failure Float) β) : Program m β :=
  ExceptT.mk (pure result)

namespace Host

-- Notes for developers are left out.
def write (host : Host m) (line : LogLine) : m Unit :=
  if line.level = .debug then pure () else host.log line

def info (host : Host m) (text : String) : m Unit := host.write ⟨.info, text⟩

def since (host : Host m) (begun : Nat) : m Duration := do
  return (Duration.ofNanoseconds? ((← host.now) - begun)).getD .zero

def showEvents (host : Host m) (elapsed : Duration) (events : List (Event Float)) : m Unit :=
  events.forM fun event => ((event.withElapsed elapsed).logLines host.view).forM host.write

end Host

-- Runs are timed from outside, and nobody asks for cancellation.
def environment : Training.Environment Float where
  runPhase := Phase.inOrder fun _ => ⟨.zero, fun _ => .zero, .zero⟩
  observe := fun _ _ => false
  elapsed := .zero

abbrev Progress := Training.State Float
abbrev Step := Progress → Except (Training.Stopped Float) Progress

def advance (host : Host m) (step : Step) (state : Progress) : Program m Progress := do
  let begun ← host.now
  match step state with
  | .error stopped => throw stopped.failure
  | .ok next =>
      let elapsed ← host.since begun
      host.showEvents elapsed (next.events.toList.drop state.events.size)
      return next

def iterations (host : Host m) (settings : Settings Float) (prepared : Training.Prepared Float) :
    Nat → Nat → Progress → Program m Progress
  | 0, _, state => return state
  | count + 1, iteration, state => do
      let solve := Training.solvePhase environment settings prepared
      let state ← advance host (solve ⟨iteration, .user⟩) state
      let state ← advance host (solve ⟨iteration, .item⟩) state
      let state ← advance host (Training.evaluate environment prepared iteration) state
      iterations host settings prepared count (iteration + 1) state

def train (host : Host m) (training : Training Float) : Program m (Model Float) := do
  let begun ← host.now
  let prepared ← check training.prepare
  let state ← checkAll
    ((Training.start environment training prepared false).mapError Failure.fault)
  host.showEvents .zero state.events.toList
  let state ← iterations host training.settings prepared training.settings.iterations 0 state
  host.showEvents (← host.since begun) [.finished .zero]
  check (Training.result prepared state)

def reportErrors (host : Host m) : Nat → List (Option Float) → m Unit
  | _, [] => pure ()
  | iteration, error :: errors => do
      let text := (error.map (Numeral.fixedText 4)).getD "NaN"
      host.info (s!"Error after iteration {iteration}: " ++ text)
      reportErrors host (iteration + 1) errors

def rowText (host : Host m) (row : Row Float) : String :=
  "[" ++ ", ".intercalate (row.map host.view.feature) ++ "]"

-- Folds in what the first held-out user chose; that it cannot be done is no failure.
def reportEmbedding (host : Host m) (projector : Projector Float) (test : Store Float) :
    Program m Unit := do
  match test.users.ids[0]? with
  | none => return
  | some user =>
      let items := (← check (test.toRatings.ofUser user)).map Prod.fst
      match projector.embed items with
      | .ok row =>
          host.info (s!"Folded in held-out items of user {user}: " ++ rowText host row)
      | .error (.error error) =>
          host.info (s!"Could not fold in user {user}: " ++ error.message)
      | .error (.fault fault) => throw (.fault fault)

def load (host : Host m) (path : String) : Program m (Store Float) := do
  let begun ← host.now
  match ← host.contentOf path with
  | .error fault => throw (.error (.input (.unreadable fault)))
  | .ok bytes =>
      let store ← check (RatingsFile.read Numeral.readFloat bytes)
      let source := store.toRatings
      host.info (s!"Loaded {store.size} ratings of {source.userIds.length} users on "
        ++ s!"{source.itemIds.length} items in " ++ host.view.loading (← host.since begun))
      return store

def run (host : Host m) (arguments : List String) : Program m Unit := do
  let arguments ← check (Arguments.parse Numeral.readFloat host.workers arguments)
  let store ← load host arguments.path
  let split ← check (store.split heldOutFraction heldOutSeed)
  let begun ← host.now
  let training ← check
    (Training.create arguments.settings split.training.toRatings (some split.test.toRatings))
  let model ← train host training
  host.info ("Model trained in " ++ host.view.loading (← host.since begun))
  (reportErrors host 0 model.errors : m Unit)
  (Projector.notices model).forM fun notice => host.write notice.logLine
  let projector ← checkAll (Projector.create model)
  reportEmbedding host projector split.test

def faultCode : UInt32 := 101

def session (host : Host m) (arguments : List String) : m UInt32 := do
  match ← (run host arguments).run with
  | .ok _ => return 0
  | .error (.error error) =>
      host.log ⟨.error, error.message⟩
      host.complain usage
      return 1
  | .error (.fault fault) =>
      host.complain fault.message
      return faultCode

end LatentFactor.CommandLine
