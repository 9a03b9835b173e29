import LatentFactor.Settings
import LatentFactor.HeldOut
import LatentFactor.Event
import LatentFactor.Model
import LatentFactor.Features
import LatentFactor.Phase.Run

/-!
Training: in each iteration first all user rows are solved with the items fixed, then all item rows
with the users fixed, then the held-out error is taken. A failing phase ends the run.
-/

set_option autoImplicit false

namespace LatentFactor

structure Training (α : Type) where
  settings : Settings α
  ratings : Ratings α
  test : Option (Ratings α)

namespace Training

variable {α : Type}

/-- What surrounds a run: who carries out its phases, who hears its events (and may answer an event,
known by its number, with cancellation), and how long it takes. -/
structure Environment (α : Type) where
  runPhase : Phase.Runner α
  observe : Nat → Event α → Bool
  elapsed : Duration

structure Prepared (α : Type) where
  users : Numbering
  items : Numbering
  ratings : Resolved α
  heldOut : HeldOut α

structure Call where
  phase : Phase
  row : Nat
deriving DecidableEq, Repr

structure State (α : Type) where
  features : Features α
  errors : Array (Option α)
  events : Array (Event α)
  cancelled : Bool
  calls : List Call

structure Stopped (α : Type) where
  state : State α
  failure : Failure α

structure Run (α : Type) where
  outcome : Except (Failure α) (Model α)
  events : List (Event α)
  cancelled : Bool
  calls : List Call

def State.emit (environment : Environment α) (event : Event α) (state : State α) : State α :=
  { state with
    events := state.events.push event
    cancelled := state.cancelled || environment.observe state.events.size event }

-- The rows written before a failure stay written.
def State.absorb (phase : Phase) (outcome : Phase.Outcome α) (state : State α) : State α :=
  { state with
    features := state.features.replace phase.side outcome.target
    cancelled := outcome.cancelled
    calls := outcome.calls.map (Call.mk phase) ++ state.calls }

def State.record (error : Option α) (state : State α) : State α :=
  { state with errors := state.errors.push error }

def State.stop (state : State α) (failure : Failure α) : Except (Stopped α) (State α) :=
  .error ⟨state, failure⟩

def prepare (training : Training α) : Except (Error α) (Prepared α) := do
  let users ← Numbering.ofIds .user training.ratings.userIds
  let items ← Numbering.ofIds .item training.ratings.itemIds
  let ratings ← Resolved.resolve training.ratings users items
  let heldOut ← match training.test with
    | some test => HeldOut.create test users items
    | none => pure HeldOut.empty
  Phase.checkWorkers training.settings.workers
  return ⟨users, items, ratings, heldOut⟩

variable [Scalar α]

def create (settings : Settings α) (ratings : Ratings α) (test : Option (Ratings α)) :
    Except (Error α) (Training α) := do
  settings.check
  return ⟨settings, ratings, test⟩

def solveRow (update : RowUpdate α) (ratings : Array (Observations α)) (r : Nat) :
    Except (Failure α) (Row α) :=
  match ratings[r]? with
  | some observations => update.solve observations
  | none => .error (.fault (.rowOutOfRange r ratings.size))

def task (settings : Settings α) (prepared : Prepared α) (features : Features α) (phase : Phase) :
    Except Fault (Phase.Task α) := do
  let update ← RowUpdate.create settings.feedback (features.bySide phase.side.other)
    settings.lambda settings.passes
  return {
    phase
    solve := fun r => ⟨false, solveRow update (prepared.ratings.bySide phase.side) r⟩
    limit := settings.timeLimit }

def solvePhase (environment : Environment α) (settings : Settings α) (prepared : Prepared α)
    (phase : Phase) (state : State α) : Except (Stopped α) (State α) :=
  match task settings prepared state.features phase with
  | .error fault => state.stop (.fault fault)
  | .ok task =>
      let outcome := environment.runPhase task (state.features.bySide phase.side) state.cancelled
      let solved := state.absorb phase outcome
      match outcome.result with
      | .ok report => .ok (solved.emit environment (.phaseDone phase report.rows report.elapsed))
      | .error failure => solved.stop failure

def measurementEvent (iteration : Nat) (measurement : Measurement α) : Event α :=
  match measurement.error? with
  | some error => .evaluated iteration error measurement.samples
  | none => .unevaluated iteration

def evaluate (environment : Environment α) (prepared : Prepared α) (iteration : Nat)
    (state : State α) : Except (Stopped α) (State α) :=
  match prepared.heldOut.measure state.features.users state.features.items with
  | .error fault => state.stop (.fault fault)
  | .ok measurement =>
      .ok ((state.record measurement.error?).emit environment
        (measurementEvent iteration measurement))

def iterate (environment : Environment α) (settings : Settings α) (prepared : Prepared α)
    (iteration : Nat) (state : State α) : Except (Stopped α) (State α) := do
  let state ← solvePhase environment settings prepared ⟨iteration, .user⟩ state
  let state ← solvePhase environment settings prepared ⟨iteration, .item⟩ state
  evaluate environment prepared iteration state

def iterations (environment : Environment α) (settings : Settings α) (prepared : Prepared α) :
    Nat → Nat → State α → Except (Stopped α) (State α)
  | 0, _, state => .ok state
  | count + 1, iteration, state => do
      iterations environment settings prepared count (iteration + 1)
        (← iterate environment settings prepared iteration state)

def opening (training : Training α) (prepared : Prepared α) : List (Event α) :=
  let settings := training.settings
  let heldOut := prepared.heldOut
  let started := .started prepared.users.size prepared.items.size settings.rank
    settings.workers settings.feedback.isImplicit
  started :: if training.test.isSome then
    [.testResolved heldOut.samples.size heldOut.unknownUsers heldOut.unknownRatings]
    else []

def start (environment : Environment α) (training : Training α) (prepared : Prepared α)
    (cancelled : Bool) : Except Fault (State α) := do
  let settings := training.settings
  let features ← Features.initial prepared.users.size prepared.ratings.byItem.toList
    settings.rank settings.seedInUse
  Memory.reserve settings.iterations
  let fresh : State α := ⟨features, #[], #[], cancelled, []⟩
  return (training.opening prepared).foldl (fun state event => state.emit environment event) fresh

def result (prepared : Prepared α) (state : State α) : Except (Error α) (Model α) :=
  Model.create prepared.users prepared.items state.features.users state.features.items
    state.errors.toList

def State.toRun (state : State α) (outcome : Except (Failure α) (Model α)) : Run α :=
  ⟨outcome, state.events.toList, state.cancelled, state.calls⟩

def Run.unstarted (failure : Failure α) (cancelled : Bool) : Run α :=
  ⟨.error failure, [], cancelled, []⟩

def run (environment : Environment α) (training : Training α) (cancelled : Bool) : Run α :=
  match training.prepare with
  | .error error => .unstarted (.error error) cancelled
  | .ok prepared =>
      match start environment training prepared cancelled with
      | .error fault => .unstarted (.fault fault) cancelled
      | .ok state =>
          let settings := training.settings
          match iterations environment settings prepared settings.iterations 0 state with
          | .error stopped => stopped.state.toRun (.error stopped.failure)
          | .ok state =>
              let finished := state.emit environment (.finished environment.elapsed)
              finished.toRun ((result prepared finished).mapError .error)

inductive Command where
  | run
  | cancel
deriving DecidableEq, Repr

-- Runs and cancellations in turn. The flag is never reset.
def session (environment : Environment α) (training : Training α) :
    Bool → List Command → List (Run α)
  | _, [] => []
  | _, .cancel :: rest => session environment training true rest
  | cancelled, .run :: rest =>
      let done := run environment training cancelled
      done :: session environment training done.cancelled rest

end Training
end LatentFactor
