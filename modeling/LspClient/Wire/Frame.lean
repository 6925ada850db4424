import LspClient.Text.Numeral
import LspClient.Text.Utf8

/-!
# Frames

On the wire a message is a header block and a body. The header block that this
library writes has one line, the number of octets of the body; two line breaks
end the block. Nothing marks the end of the body, the number in front of it
does.
-/

namespace LspClient.Wire

/-- The line break of header blocks: a carriage return and a line feed. -/
def lineBreak : List UInt8 := [13, 10]

/-- The one header line, up to its value. -/
def lengthField : List UInt8 := Utf8.octets "Content-Length: "

/-- The header block in front of a body of `n` octets. -/
def header (n : Nat) : List UInt8 :=
  lengthField ++ Utf8.octets (String.ofList (Numeral.digits n)) ++ lineBreak ++ lineBreak

/-- A body with its header block. -/
def frame (body : List UInt8) : List UInt8 :=
  header body.length ++ body

/-- A text with its header block. -/
def frameText (body : String) : List UInt8 :=
  frame (Utf8.octets body)

end LspClient.Wire
