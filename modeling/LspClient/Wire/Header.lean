import LspClient.Text.Blank
import LspClient.Text.Numeral
import LspClient.Text.Utf8

/-!
# Header blocks

What a header block says about the body behind it. A block ends at the first
empty line; lines may end in a line feed with or without a carriage return.
Only one field counts, `Content-Length`, written in any letter case and with
any blanks around its name and value. The first line of that name decides, and
everything else in the block may be anything, even octets that are no text.
-/

namespace LspClient.Wire

/-- The largest header block that is examined. -/
def maxHeaderSize : Nat := 8 * 1024

/-- The largest body that is accepted. -/
def maxMessageSize : Nat := 10 * 1024 * 1024

/-- What can be wrong with a header block. -/
inductive FrameError where
  /-- no line is named `Content-Length` -/
  | missingContentLength
  /-- the line's value is no octet count -/
  | invalidContentLength (value : String)
  /-- the block is too long, or too much arrived without an end of it -/
  | headerTooLarge
  /-- the declared body is too long -/
  | messageTooLarge (length : Nat)
  deriving DecidableEq, Repr

namespace FrameError

/-- The problem in words. -/
def message : FrameError → String
  | .missingContentLength => "header block has no Content-Length"
  | .invalidContentLength value => s!"invalid Content-Length value '{value}'"
  | .headerTooLarge => s!"header block exceeds {maxHeaderSize} bytes"
  | .messageTooLarge length =>
    s!"message of {length} bytes exceeds the {maxMessageSize} byte limit"

end FrameError

/-! ## Where a block ends -/

/-- Splits at the first empty line: the block in front of it and what comes
behind it. `seen` is what has been passed already, backwards. -/
def splitHeader (seen : List UInt8) : List UInt8 → Option (List UInt8 × List UInt8)
  | [] => none
  | b :: rest =>
    match b :: rest with
    | 13 :: 10 :: 13 :: 10 :: after => some (seen.reverse, after)
    | 10 :: 10 :: after => some (seen.reverse, after)
    | _ => splitHeader (b :: seen) rest

theorem splitHeader_length {seen bytes block after : List UInt8}
    (h : splitHeader seen bytes = some (block, after)) : after.length + 2 ≤ bytes.length := by
  induction bytes generalizing seen with
  | nil => simp [splitHeader] at h
  | cons b rest ih =>
    rw [splitHeader] at h
    split at h
    · next e =>
      simp only [Option.some.injEq, Prod.mk.injEq] at h
      rw [e, ← h.2]
      simp
    · next e =>
      simp only [Option.some.injEq, Prod.mk.injEq] at h
      rw [e, ← h.2]
      simp
    · exact Nat.le_succ_of_le (ih h)

/-! ## What a block declares -/

/-- An ASCII letter in lower case, anything else as it is. -/
def lowerOctet (b : UInt8) : UInt8 :=
  if 65 ≤ b ∧ b ≤ 90 then b + 32 else b

/-- The name of the field that counts, in lower case. -/
def fieldName : List Char := "content-length".toList

/-- The octets of that name. -/
def fieldOctets : List UInt8 := Utf8.octets "content-length"

/-- A line as a name and a value: the octets in front of its first colon and
those behind it. -/
def field? (line : List UInt8) : Option (List UInt8 × List UInt8) :=
  match line.dropWhile (· != 58) with
  | [] => none
  | _ :: value => some (line.takeWhile (· != 58), value)

/-- Whether a name is the one that counts. -/
def isContentLength (name : List UInt8) : Bool :=
  (Text.trim (Utf8.lossy name)).map Char.toLower == fieldName

/-- The octet count that a value denotes. -/
def octetCount (value : List UInt8) : Except FrameError Nat :=
  let shown := Text.trim (Utf8.lossy value)
  match Numeral.unsigned? shown with
  | some n => .ok n
  | none => .error (.invalidContentLength (String.ofList shown))

/-- What the first line named `Content-Length` declares. -/
def contentLength : List (List UInt8) → Except FrameError Nat
  | [] => .error .missingContentLength
  | line :: lines =>
    match field? line with
    | some (name, value) =>
      if isContentLength name then octetCount value else contentLength lines
    | none => contentLength lines

/-- The length of the body that a header block announces. -/
def declaredLength (block : List UInt8) : Except FrameError Nat :=
  if maxHeaderSize < block.length then .error .headerTooLarge
  else contentLength (block.splitOn 10)

end LspClient.Wire
