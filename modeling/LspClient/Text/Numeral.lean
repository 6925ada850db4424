/-!
# Decimal numerals

The numerals that appear in headers, command lines and JSON integers. They
are read with the same few rules everywhere: ASCII digits only, any number of
leading zeros, an optional sign in front, and a bound that the value has to
respect. A numeral outside its bound is not read at all; nothing wraps.
-/

namespace LspClient.Numeral

/-- The digits of `n`, without leading zeros. -/
def digits (n : Nat) : List Char :=
  Nat.toDigits 10 n

/-- The value of a row of digits. -/
def value (cs : List Char) : Nat :=
  Nat.ofDigitChars 10 cs 0

/-- One or more ASCII digits. -/
def isDigits (cs : List Char) : Bool :=
  !cs.isEmpty && cs.all Char.isDigit

/-- The number that a row of digits denotes. -/
def natural? (cs : List Char) : Option Nat :=
  if isDigits cs then some (value cs) else none

/-- The largest value of a 64-bit unsigned quantity, plus one. -/
def unsignedBound : Nat := 0x10000000000000000

/-- A numeral for a 64-bit unsigned quantity: a plus sign is allowed, a minus
sign is not, not even before a zero. -/
def unsigned? (cs : List Char) : Option Nat :=
  let body := match cs with
    | '+' :: rest => rest
    | _ => cs
  (natural? body).filter (· < unsignedBound)

/-- The magnitude `2 ^ 63`, which a signed 64-bit quantity has below zero
only. -/
def signedBound : Nat := 0x8000000000000000

/-- A numeral for a signed 64-bit quantity. The two ends of the range are not
symmetric: the greatest magnitude can be written with a minus sign only. -/
def signed? (cs : List Char) : Option Int64 :=
  match cs with
  | '-' :: rest =>
    ((natural? rest).filter (· ≤ signedBound)).map fun n => Int64.ofInt (-(n : Int))
  | '+' :: rest => ((natural? rest).filter (· < signedBound)).map fun n => Int64.ofInt n
  | _ => ((natural? cs).filter (· < signedBound)).map fun n => Int64.ofInt n

/-- The numeral of an integer. -/
def ofInt : Int → List Char
  | .ofNat n => digits n
  | .negSucc n => '-' :: digits (n + 1)

/-- The numeral of a signed 64-bit quantity. -/
def ofSigned (n : Int64) : List Char :=
  ofInt n.toInt

/-- Reading the digits of a number gives the number back. -/
theorem value_digits (n : Nat) : value (digits n) = n := by
  simp [value, digits]

theorem isDigits_digits (n : Nat) : isDigits (digits n) = true := by
  have hne : digits n ≠ [] := by simp [digits]
  have hall : (digits n).all Char.isDigit = true := by
    rw [List.all_eq_true]
    exact fun c hc => Nat.isDigit_of_mem_toDigits (by omega) (by omega) hc
  simp [isDigits, hne, hall]

theorem natural?_digits (n : Nat) : natural? (digits n) = some n := by
  simp [natural?, isDigits_digits, value_digits]

end LspClient.Numeral
