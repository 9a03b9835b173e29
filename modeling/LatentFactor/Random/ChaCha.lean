set_option autoImplicit false

namespace LatentFactor.ChaCha

abbrev State := Vector UInt32 16
abbrev Key := Vector UInt32 8

def rotateLeft (x amount : UInt32) : UInt32 := (x <<< amount) ||| (x >>> (32 - amount))

def mix (state : State) (a b d : Fin 16) (amount : UInt32) : State :=
  let sum := state[a] + state[b]
  (state.set a sum).set d (rotateLeft (state[d] ^^^ sum) amount)

def quarterRound (state : State) (a b c d : Fin 16) : State :=
  let state := mix state a b d 16
  let state := mix state c d b 12
  let state := mix state a b d 8
  mix state c d b 7

def doubleRound (state : State) : State :=
  let state := quarterRound state 0 4 8 12
  let state := quarterRound state 1 5 9 13
  let state := quarterRound state 2 6 10 14
  let state := quarterRound state 3 7 11 15
  let state := quarterRound state 0 5 10 15
  let state := quarterRound state 1 6 11 12
  let state := quarterRound state 2 7 8 13
  quarterRound state 3 4 9 14

def constants : Vector UInt32 4 := #v[0x61707865, 0x3320646e, 0x79622d32, 0x6b206574]

def start (key : Key) (block : Nat) : State :=
  constants ++ key ++ #v[UInt32.ofNat block, UInt32.ofNat (block / UInt32.size), 0, 0]

def block (key : Key) (number : Nat) : Vector UInt64 8 :=
  let before := start key number
  let after := Nat.repeat doubleRound 6 before
  let words := before.zipWith (· + ·) after
  Vector.ofFn fun i =>
    words[2 * i.val].toUInt64 ||| (words[2 * i.val + 1].toUInt64 <<< 32)

end LatentFactor.ChaCha
