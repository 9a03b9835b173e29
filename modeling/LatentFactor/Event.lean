import LatentFactor.Decimal.Rounded
import LatentFactor.Duration
import LatentFactor.Side

set_option autoImplicit false

namespace LatentFactor

inductive Event (α : Type) where
  | started (users items features workers : Nat) (implicit : Bool)
  | testResolved (samples unknownUsers unknownRatings : Nat)
  | phaseDone (phase : Phase) (rows : Nat) (elapsed : Duration)
  | evaluated (iteration : Nat) (error : α) (samples : Nat)
  | unevaluated (iteration : Nat)
  | finished (elapsed : Duration)
deriving DecidableEq, Repr

inductive LogLevel where
  | error
  | warn
  | info
  | debug
deriving DecidableEq, Repr

def LogLevel.name : LogLevel → String
  | error => "ERROR"
  | warn => "WARN"
  | info => "INFO"
  | debug => "DEBUG"

structure LogLine where
  level : LogLevel
  text : String
deriving DecidableEq, Repr

structure Presentation where
  elapsed : Duration → String
  loading : Duration → String
  workers : Nat → String
  feature : Float → String

def Presentation.full : Presentation where
  elapsed := Duration.text
  loading := fun elapsed => s!"{elapsed.milliseconds}ms"
  workers := fun workers => s!"{workers}"
  feature := Numeral.write Numeral.detailed

namespace Event

def withElapsed {α : Type} (elapsed : Duration) : Event α → Event α
  | phaseDone phase rows _ => phaseDone phase rows elapsed
  | finished _ => finished elapsed
  | event => event

def logLines (view : Presentation) : Event Float → List LogLine
  | started users items features workers implicit =>
      [⟨.info, s!"starting to compute the factorization: {users} users, {items} items, "
        ++ s!"{features} features, {view.workers workers} workers"
        ++ if implicit then ", implicit feedback" else ""⟩]
  | testResolved samples unknownUsers unknownRatings =>
      ⟨.info, s!"evaluating against {samples} test preferences"⟩
        :: if unknownUsers = 0 ∧ unknownRatings = 0 then []
          else [⟨.warn, s!"{unknownUsers} test users and {unknownRatings} test preferences "
            ++ "are unknown to the training data and will be skipped"⟩]
  | phaseDone phase rows elapsed =>
      [⟨.info, s!"iteration {phase.iteration}: {phase.side.name} phase solved {rows} rows in "
        ++ view.elapsed elapsed⟩]
  | evaluated iteration error samples =>
      [⟨.info, s!"iteration {iteration}: error " ++ Numeral.fixedText 6 error
        ++ s!" over {samples} test preferences"⟩]
  | unevaluated iteration =>
      [⟨.warn, s!"iteration {iteration}: no test data to evaluate, error is undefined"⟩]
  | finished elapsed =>
      [⟨.info, "finished computation of the factorization in " ++ view.elapsed elapsed⟩]

end Event
end LatentFactor
