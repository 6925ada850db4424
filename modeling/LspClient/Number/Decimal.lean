import LspClient.Text.Numeral
import LspClient.Number.Binary64

/-!
# Decimal notation of double-precision numbers

Reading: digits with an optional fraction and an optional exponent denote an
exact rational, and the number read is the one nearest to it.

Writing: among the decimal grids `10 ^ k`, take the coarsest that holds a
number which reads back as the one to be written. On that grid only the two
neighbours of the exact value need to be tried, for if any grid point reads
back, so does a neighbour. Of two neighbours that both read back the nearer is
taken, and the upper one of two equally near. The finest grid that can be
needed has the exact value on it, so the search always ends with a text that
reads back.

The text is positional whatever the exponent, with a point only where there is
a fraction.
-/

namespace LspClient

/-- The exact rational `coefficient * 10 ^ exponent`, with a sign that it
keeps at zero. -/
structure Decimal where
  negative : Bool
  coefficient : Nat
  exponent : Int
  deriving DecidableEq

namespace Decimal

/-! ## Reading -/

/-- The exponent of a numeral: nothing, or a mark, an optional sign and
digits. -/
def exponent? : List Char → Option Int
  | [] => some 0
  | mark :: rest =>
    if mark = 'e' ∨ mark = 'E' then
      match rest with
      | '-' :: digits => (Numeral.natural? digits).map fun n => -(n : Int)
      | '+' :: digits => (Numeral.natural? digits).map Int.ofNat
      | digits => (Numeral.natural? digits).map Int.ofNat
    else none

/-- A numeral without a sign: digits, then perhaps a point and more digits,
then perhaps an exponent. One side of the point may be bare, not both. -/
def unsigned? (cs : List Char) : Option (Nat × Int) :=
  let whole := cs.takeWhile Char.isDigit
  let rest := cs.dropWhile Char.isDigit
  let (fraction, rest) := match rest with
    | '.' :: rest => (rest.takeWhile Char.isDigit, rest.dropWhile Char.isDigit)
    | _ => ([], rest)
  if whole.isEmpty && fraction.isEmpty then none
  else (exponent? rest).map fun e =>
    (Numeral.value (whole ++ fraction), e - fraction.length)

/-- A numeral with an optional sign. -/
def read? (cs : List Char) : Option Decimal :=
  let (negative, body) := match cs with
    | '-' :: rest => (true, rest)
    | '+' :: rest => (false, rest)
    | _ => (false, cs)
  (unsigned? body).map fun (coefficient, exponent) => ⟨negative, coefficient, exponent⟩

/-- The magnitude nearest to `c * 10 ^ e`. Two kinds of exponent are settled
without computing the power: from `10 ^ 400` on everything is infinite, and a
quotient below a quarter of a unit rounds to zero. -/
def magnitude (c : Nat) (e : Int) : Nat :=
  if c = 0 then 0
  else match e with
    | .ofNat k =>
      if 400 ≤ k then Binary64.infinity
      else Binary64.nearest (c * Nat.pow 10 k * Binary64.unitsInOne) 1
    | .negSucc k =>
      if c.log2 + 1077 ≤ 3 * (k + 1) then 0
      else Binary64.nearest (c * Binary64.unitsInOne) (Nat.pow 10 (k + 1))

/-- The double-precision number nearest to a decimal one. -/
def toBinary64 (d : Decimal) : Binary64 :=
  .ofMagnitude d.negative (magnitude d.coefficient d.exponent)

/-! ## Writing -/

/-- The finest grid that any number needs: one unit is `5 ^ 1074` steps of
`10 ^ -1074`. -/
def finest : Nat := 1074

/-- The steps of the finest grid in one unit. -/
def stepsPerUnit : Nat := Nat.pow 5 finest

/-- Whether `d` steps of the grid `10 ^ (k - 1074)` read back as the
magnitude `m`. -/
def readsBack (m d k : Nat) : Bool :=
  Binary64.nearest (d * Nat.pow 10 k) stepsPerUnit == m

/-- The neighbour to write on the grid `10 ^ (k - 1074)`, of a magnitude that
is `w` steps of the finest grid; none if no neighbour reads back. Whether `d`
steps of a grid read back is asked of `reads`. -/
def onGrid? (reads : Nat → Nat → Bool) (w k : Nat) : Option Nat :=
  let grid := Nat.pow 10 k
  let low := w / grid
  match reads low k, reads (low + 1) k with
  | true, true => some (if 2 * (w % grid) < grid then low else low + 1)
  | true, false => some low
  | false, true => some (low + 1)
  | false, false => none

/-- The first grid from `k` downwards that has something to write, with what
to write there. -/
def firstGrid (reads : Nat → Nat → Bool) (w : Nat) : Nat → Nat × Nat
  | 0 => (w, 0)
  | k + 1 =>
    match onGrid? reads w (k + 1) with
    | some d => (d, k + 1)
    | none => firstGrid reads w k

/-- A grid that is coarser than the number itself. -/
def coarsest (w : Nat) : Nat :=
  w.log2 * 30103 / 100000 + 2

/-- The fewest digits that read back as a finite magnitude, and the place of
the last one of them. -/
def shortest (m : Nat) : Nat × Int :=
  let w := Binary64.units m * stepsPerUnit
  let found := firstGrid (readsBack m) w (coarsest w)
  (found.1, (found.2 : Int) - finest)

/-- The positional text of `d * 10 ^ e`. -/
def positional (d : Nat) (e : Int) : List Char :=
  match e with
  | .ofNat k => Numeral.digits d ++ List.replicate k '0'
  | .negSucc k =>
    let places := k + 1
    let ds := Numeral.digits d
    let ds := List.replicate (places + 1 - ds.length) '0' ++ ds
    ds.take (ds.length - places) ++ '.' :: ds.drop (ds.length - places)

/-- The text of a finite number. A whole number has no point. -/
def text (x : Binary64) : List Char :=
  let body :=
    if x.magnitude = 0 then ['0']
    else
      let found := shortest x.magnitude
      positional found.1 found.2
  if x.isNegative then '-' :: body else body

end Decimal

end LspClient
