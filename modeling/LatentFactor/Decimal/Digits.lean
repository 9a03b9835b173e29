set_option autoImplicit false

namespace LatentFactor.Digits

def ofNat (n : Nat) : List Nat :=
  if n < 10 then [n] else ofNat (n / 10) ++ [n % 10]

def toNat (digits : List Nat) : Nat := digits.foldl (fun value digit => 10 * value + digit) 0

def text (digits : List Nat) : List Char := digits.map fun digit => Char.ofNat (48 + digit)

def pad (width : Nat) (digits : List Nat) : List Nat :=
  List.replicate (width - digits.length) 0 ++ digits

def dropTrailingZeros (digits : List Nat) : List Nat :=
  (digits.reverse.dropWhile (· == 0)).reverse

def value? (radix : Nat) (c : Char) : Option Nat :=
  let value :=
    if '0' ≤ c ∧ c ≤ '9' then c.toNat - 48
    else if 'a' ≤ c ∧ c ≤ 'z' then c.toNat - 87
    else if 'A' ≤ c ∧ c ≤ 'Z' then c.toNat - 55
    else radix
  if value < radix then some value else none

def span : List Char → List Nat × List Char
  | [] => ([], [])
  | c :: rest =>
      match value? 10 c with
      | some digit => (digit :: (span rest).1, (span rest).2)
      | none => ([], c :: rest)

theorem length_span (text : List Char) :
    (span text).1.length + (span text).2.length = text.length := by
  induction text with
  | nil => rfl
  | cons c rest ih =>
      rw [span]
      split
      · simp only [List.length_cons]
        omega
      · simp

theorem to_nat_append_singleton (digits : List Nat) (digit : Nat) :
    toNat (digits ++ [digit]) = 10 * toNat digits + digit := by
  simp [toNat, List.foldl_append]

theorem to_nat_of_nat (n : Nat) : toNat (ofNat n) = n := by
  induction n using Nat.strongRecOn with
  | _ n ih =>
      rw [ofNat]
      split
      · simp [toNat]
      · rw [to_nat_append_singleton, ih (n / 10) (by omega)]
        omega

theorem of_nat_lt_ten (n : Nat) : ∀ digit ∈ ofNat n, digit < 10 := by
  induction n using Nat.strongRecOn with
  | _ n ih =>
      rw [ofNat]
      split
      · simpa
      · intro digit member
        rcases List.mem_append.mp member with inFront | last
        · exact ih (n / 10) (by omega) digit inFront
        · have same : digit = n % 10 := by simpa using last
          omega

end LatentFactor.Digits
