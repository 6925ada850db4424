import LspClient.Number.Decimal
import LspClient.Json.Value

/-!
# What plain scalars spell

A plain scalar is null, a boolean, an integer or a float if it is spelled like
one, and its text otherwise. A row of digits that starts with a superfluous
zero is a text. Integers may have a base; those between 64 and 128 bits have no
reading, and still larger ones are floats.

Like all of this reader, it is only what the program gets its settings with (`Yaml.Reading`).
-/

namespace LspClient.Yaml

open Json (Value)

/-- The digits of a base, as a number. -/
def ofBase? (base : Nat) (cs : List Char) : Option Nat :=
  let digit? (c : Char) : Option Nat :=
    let n :=
      if c.isDigit then c.toNat - '0'.toNat
      else if 'a' ≤ c ∧ c ≤ 'z' then c.toNat - 'a'.toNat + 10
      else if 'A' ≤ c ∧ c ≤ 'Z' then c.toNat - 'A'.toNat + 10
      else base
    if n < base then some n else none
  if cs.isEmpty then none
  else cs.foldl (fun acc c => acc.bind fun n => (digit? c).map (n * base + ·)) (some 0)

/-- The magnitude of an integer without a sign: decimal, or with a base in
front. -/
def magnitude? (cs : List Char) : Option Nat :=
  match cs with
  | '0' :: 'x' :: rest => ofBase? 16 rest
  | '0' :: 'o' :: rest => ofBase? 8 rest
  | '0' :: 'b' :: rest => ofBase? 2 rest
  | _ => ofBase? 10 cs

/-- Whether a row of digits starts with a zero that it does not need. -/
def hasSpareZero (cs : List Char) : Bool :=
  match cs with
  | '0' :: c :: rest => (c :: rest).all Char.isDigit
  | _ => false

/-- The integer that a plain scalar spells. -/
def integer? (cs : List Char) : Option Int :=
  let (negative, body) := match cs with
    | '-' :: rest => (true, rest)
    | '+' :: rest => (false, rest)
    | _ => (false, cs)
  if hasSpareZero body then none
  else (magnitude? body).map fun n => if negative then -(n : Int) else n

/-- The 64-bit unsigned integer that a plain scalar spells. -/
def unsigned? (text : String) : Option Nat :=
  let cs := text.toList
  if cs.head? == some '-' then none
  else (integer? cs).bind fun n => if n < Numeral.unsignedBound then some n.toNat else none

/-- The float that a plain scalar spells. A numeral beyond all finite numbers
spells none; the infinities have names. -/
def float? (cs : List Char) : Option Binary64 :=
  let infinite (negative : Bool) : Binary64 := .ofMagnitude negative Binary64.infinity
  let unsignedNames := [".inf", ".Inf", ".INF"].map String.toList
  let nanNames := [".nan", ".NaN", ".NAN"].map String.toList
  let body := match cs with
    | '+' :: rest => rest
    | _ => cs
  if unsignedNames.contains body then some (infinite false)
  else if cs.head? == some '-' && unsignedNames.contains cs.tail then some (infinite true)
  else if nanNames.contains cs then some (.ofMagnitude false Binary64.notNumber)
  else if cs.head? == some '+' && (body.head? == some '+' || body.head? == some '-') then none
  else ((Decimal.read? body).map Decimal.toBinary64).filter Binary64.isFinite

/-- The boolean that a plain scalar spells. -/
def bool? (text : String) : Option Bool :=
  if ["true", "True", "TRUE"].contains text then some true
  else if ["false", "False", "FALSE"].contains text then some false
  else none

/-- Whether a scalar is a word for null. -/
def isNullWord (text : String) : Bool :=
  ["~", "null", "Null", "NULL"].contains text

/-- Whether a plain scalar spells null. One that is empty does. -/
def isNull (text : String) : Bool :=
  text.isEmpty || isNullWord text

/-- The bound of the integers below zero that are read as such. -/
def widestNegative : Int := 0x80000000000000000000000000000000

/-- The bound of the integers above zero that are read as such. -/
def widestPositive : Int := 0x100000000000000000000000000000000

/-- The value of an integer: exact if it fits, a float if it fits an unsigned
quantity only, and none up to 128 bits. Beyond that it is no integer. -/
def ofInteger? (n : Int) : Option (Option Value) :=
  if -Numeral.signedBound ≤ n ∧ n < Numeral.signedBound then some (some (.integer (Int64.ofInt n)))
  else if 0 ≤ n ∧ n < Numeral.unsignedBound then some (some (.float (.ofInt n)))
  else if -widestNegative ≤ n ∧ n < widestPositive then some none
  else none

/-- The value of a plain scalar, if it has one. -/
def resolve? (text : String) : Option Value :=
  if isNull text then some .null
  else
    match bool? text with
    | some b => some (.bool b)
    | none =>
      let cs := text.toList
      match (integer? cs).bind ofInteger? with
      | some v => v
      | none =>
        let digits := match cs with
          | '-' :: rest => rest
          | '+' :: rest => rest
          | _ => cs
        if hasSpareZero digits then some (.string text)
        else
          match float? cs with
          | some x => some (.float x)
          | none => some (.string text)

end LspClient.Yaml
