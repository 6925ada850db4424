/-!
# Double-precision numbers

A number of the IEEE 754 format binary64, held as its bit pattern. Reading,
rounding, comparing and printing are integer arithmetic on that pattern, so
each of them is a definition one can compute with and reason about, and no
fact about machine floating point is taken on trust.

Magnitudes are the key. A bit pattern without its sign is a natural number,
and these naturals are ordered as the reals that they stand for: the successor
of a magnitude is the next representable number, and the successor of the
largest finite one is infinity. Every finite magnitude is a whole number of
*units*, one unit being the least positive number `2 ^ -1074`. Rounding a
positive rational is then: express it in units, keep 53 binary digits of it,
and round the rest to the nearest, to even on a tie. A carry out of the 53
digits runs into the exponent field by itself.
-/

namespace LspClient

/-- A number of the format binary64. Two of them are the same value of this
type exactly when all their bits agree; the numeric comparison is `eq`. -/
structure Binary64 where
  /-- sign, exponent and fraction, from the highest bit down -/
  bits : UInt64
  deriving DecidableEq, Inhabited

namespace Binary64

/-! ## Fields -/

/-- The weight of the sign bit. -/
def signWeight : Nat := 0x8000000000000000

/-- The weight of the lowest bit of the exponent field, 52 bits up. -/
def exponentWeight : Nat := 0x10000000000000

/-- The magnitude of infinity: an exponent field of ones. Larger magnitudes are
not numbers. -/
def infinity : Nat := 0x7FF0000000000000

/-- The magnitude of the usual representation of what is not a number. -/
def notNumber : Nat := 0x7FF8000000000000

/-- The bit pattern without its sign. -/
def magnitude (x : Binary64) : Nat :=
  x.bits.toNat % signWeight

/-- Whether the sign bit is set. Zeros have a sign too. -/
def isNegative (x : Binary64) : Bool :=
  signWeight ≤ x.bits.toNat

/-- A magnitude with a sign. -/
def ofMagnitude (negative : Bool) (m : Nat) : Binary64 :=
  ⟨UInt64.ofNat (m + if negative then signWeight else 0)⟩

def isNaN (x : Binary64) : Bool :=
  infinity < x.magnitude

def isFinite (x : Binary64) : Bool :=
  x.magnitude < infinity

/-- Numeric equality: the two zeros are equal, and what is not a number equals
nothing. -/
def eq (x y : Binary64) : Bool :=
  !x.isNaN && !y.isNaN && (x.bits == y.bits || (x.magnitude == 0 && y.magnitude == 0))

/-! ## The reals that magnitudes stand for -/

/-- A finite magnitude in units of `2 ^ -1074`. The exponent field counts
doublings, of which the first brings in the implicit leading digit. -/
def units (m : Nat) : Nat :=
  if m / exponentWeight = 0 then m
  else (m % exponentWeight + exponentWeight) * Nat.pow 2 (m / exponentWeight - 1)

/-- How many units there are in one. -/
def unitsInOne : Nat := Nat.pow 2 1074

/-- The quotient as an integer, rounded to the nearest, to the even one of two
equally near. -/
def roundHalfEven (num den : Nat) : Nat :=
  let q := num / den
  let r := num % den
  if 2 * r < den then q
  else if den < 2 * r then q + 1
  else if q % 2 = 0 then q else q + 1

/-- The magnitude nearest to `num / den` units; infinity if that lies beyond
the finite ones by half a step or more. -/
def nearest (num den : Nat) : Nat :=
  let doublings := (num / den).log2 - 52
  min (doublings * exponentWeight + roundHalfEven num (den * Nat.pow 2 doublings)) infinity

/-! ## Conversions from integers -/

/-- The number nearest to an integer. -/
def ofInt (n : Int) : Binary64 :=
  ofMagnitude (n < 0) (nearest (n.natAbs * unitsInOne) 1)

/-- The number nearest to a signed 64-bit integer. -/
def ofSigned (n : Int64) : Binary64 :=
  ofInt n.toInt

end Binary64

end LspClient
