import LatentFactor.Decimal.Numeral

set_option autoImplicit false

namespace LatentFactor

namespace Duration

def perSecond : Nat := 1000000000
def perMillisecond : Nat := 1000000
def perMicrosecond : Nat := 1000

end Duration

structure Duration where
  nanoseconds : Nat
  bounded : nanoseconds < UInt64.size * Duration.perSecond
deriving DecidableEq, Repr

namespace Duration

def zero : Duration := ⟨0, by decide⟩

def ofNanoseconds? (nanoseconds : Nat) : Option Duration :=
  if bounded : nanoseconds < UInt64.size * perSecond then some ⟨nanoseconds, bounded⟩ else none

-- Nanoseconds beyond a second carry into the seconds.
def ofParts? (seconds nanoseconds : Nat) : Option Duration :=
  ofNanoseconds? (seconds * perSecond + nanoseconds)

def seconds (duration : Duration) : Nat := duration.nanoseconds / perSecond
def subsecond (duration : Duration) : Nat := duration.nanoseconds % perSecond
def milliseconds (duration : Duration) : Nat := duration.nanoseconds / perMillisecond

def inUnit (nanoseconds places : Nat) (unit : String) : String :=
  let size := Nat.pow 10 places
  let fraction := Digits.dropTrailingZeros (Digits.pad places (Digits.ofNat (nanoseconds % size)))
  String.ofList (Numeral.text ⟨false, Digits.ofNat (nanoseconds / size), fraction, none⟩) ++ unit

def text (duration : Duration) : String :=
  let n := duration.nanoseconds
  if perSecond ≤ n then inUnit n 9 "s"
  else if perMillisecond ≤ n then inUnit n 6 "ms"
  else if perMicrosecond ≤ n then inUnit n 3 "µs"
  else inUnit n 0 "ns"

end Duration
end LatentFactor
