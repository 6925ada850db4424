import LspClient.Json.DecodeError

/-!
# Quoted text

How a text is written between quotes and how such a writing is read. Reading
is wider than writing: a character may stand for itself, unless it is a quote
or a backslash, and most characters have an escape as well. Writing uses an
escape only where it has to: for the quote, the backslash and the control
characters.

An escape is a backslash and a letter, or a backslash, `u` and four
hexadecimal digits; characters beyond the first 65536 take two of those, a
high and a low surrogate, and a surrogate on its own is no escape. All of it
is ASCII, so the width of an escape in characters is its width in octets.
-/

namespace LspClient.Json.Quoted

/-! ## Reading -/

/-- The value of a hexadecimal digit. -/
def hexDigit? (c : Char) : Option Nat :=
  if '0' ≤ c ∧ c ≤ '9' then some (c.toNat - '0'.toNat)
  else if 'a' ≤ c ∧ c ≤ 'f' then some (c.toNat - 'a'.toNat + 10)
  else if 'A' ≤ c ∧ c ≤ 'F' then some (c.toNat - 'A'.toNat + 10)
  else none

/-- The number that the first four characters spell. -/
def hex4? : List Char → Option Nat
  | a :: b :: c :: d :: _ => do
    let a ← hexDigit? a
    let b ← hexDigit? b
    let c ← hexDigit? c
    let d ← hexDigit? d
    return ((a * 16 + b) * 16 + c) * 16 + d
  | _ => none

def isHighSurrogate (n : Nat) : Bool := 0xD800 ≤ n && n ≤ 0xDBFF

def isLowSurrogate (n : Nat) : Bool := 0xDC00 ≤ n && n ≤ 0xDFFF

/-- The character that a pair of surrogates stands for. -/
def ofSurrogates (high low : Nat) : Char :=
  Char.ofNat (0x10000 + (high - 0xD800) * 0x400 + (low - 0xDC00))

/-- The character of a numeric escape whose digits come next, and how many
characters it takes from there on. -/
def numericEscape? (cs : List Char) : Option (Char × Nat) := do
  let high ← hex4? cs
  if isHighSurrogate high then
    match cs.drop 4 with
    | '\\' :: 'u' :: rest =>
      let low ← hex4? rest
      if isLowSurrogate low then some (ofSurrogates high low, 10) else none
    | _ => none
  else if isLowSurrogate high then none
  else some (Char.ofNat high, 4)

/-- The escape that follows a backslash: the character it stands for, and how
many characters it takes after the backslash. -/
def escape? : List Char → Option (Char × Nat)
  | '"' :: _ => some ('"', 1)
  | '\\' :: _ => some ('\\', 1)
  | '/' :: _ => some ('/', 1)
  | 'b' :: _ => some ('\x08', 1)
  | 'f' :: _ => some ('\x0c', 1)
  | 'n' :: _ => some ('\n', 1)
  | 'r' :: _ => some ('\r', 1)
  | 't' :: _ => some ('\t', 1)
  | 'u' :: rest => (numericEscape? rest).map fun (c, width) => (c, width + 1)
  | _ => none

/-- A text read to its closing quote: what it says, the offset after the
quote, and what follows it. -/
structure Reading where
  text : List Char
  offset : Nat
  rest : List Char

/-- Reads what follows an opening quote. `start` is the offset of that quote,
`offset` the one of the next character, and `said` what has been read so far,
backwards. -/
def read (start : Nat) (said : List Char) (offset : Nat) :
    List Char → Except DecodeError Reading
  | [] => .error (.unterminatedString start)
  | c :: cs =>
    if c = '"' then .ok ⟨said.reverse, offset + 1, cs⟩
    else if c = '\\' then
      match escape? cs with
      | none => .error (.invalidEscape offset)
      | some (c, width) => read start (c :: said) (offset + 1 + width) (cs.drop width)
    else read start (c :: said) (offset + c.utf8Size) cs
termination_by cs => cs.length
decreasing_by
  · simp only [List.length_drop, List.length_cons]; omega
  · simp

/-- Reading never gives back more than it was given. -/
theorem rest_length_of_read {start offset : Nat} {said cs : List Char} {reading : Reading}
    (h : read start said offset cs = .ok reading) : reading.rest.length < cs.length := by
  fun_induction read start said offset cs with
  | case1 => simp at h
  | case2 => simp at h; subst h; simp
  | case3 => simp at h
  | case4 said offset cs c width _ _ ih =>
    have := ih h
    simp only [List.length_drop, List.length_cons] at this ⊢
    omega
  | case5 said offset c cs _ _ ih =>
    have := ih h
    simp only [List.length_cons]
    omega

/-! ## Writing -/

/-- A hexadecimal digit in lower case. -/
def hexDigit (n : Nat) : Char :=
  Nat.digitChar n

/-- A control character as a numeric escape. -/
def numericEscape (n : Nat) : List Char :=
  ['\\', 'u', hexDigit (n / 4096 % 16), hexDigit (n / 256 % 16), hexDigit (n / 16 % 16),
    hexDigit (n % 16)]

/-- A character between quotes: itself, unless it needs an escape. -/
def escape (c : Char) : List Char :=
  if c = '"' then ['\\', '"']
  else if c = '\\' then ['\\', '\\']
  else if c = '\n' then ['\\', 'n']
  else if c = '\r' then ['\\', 'r']
  else if c = '\t' then ['\\', 't']
  else if c = '\x08' then ['\\', 'b']
  else if c = '\x0c' then ['\\', 'f']
  else if c < ' ' then numericEscape c.toNat
  else [c]

/-- A text between quotes. -/
def write (s : String) : List Char :=
  '"' :: s.toList.flatMap escape ++ ['"']

end LspClient.Json.Quoted
