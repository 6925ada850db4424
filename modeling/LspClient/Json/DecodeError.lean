/-!
# Why a text is no JSON document

Every cause carries the offset, in octets, at which it was found: the first
place where the text cannot be continued to a document any more, or for a bad
escape the backslash that starts it.
-/

namespace LspClient.Json

/-- The first problem of a text. -/
inductive DecodeError where
  /-- the text ended where a value should start -/
  | unexpectedEnd (offset : Nat)
  /-- a token stands where none of its kind may stand -/
  | unexpectedToken (found expected : String) (offset : Nat)
  /-- a bare word that is neither a number nor one of the three names -/
  | invalidLiteral (literal : String) (offset : Nat)
  /-- a backslash that starts no escape -/
  | invalidEscape (offset : Nat)
  /-- an opening quote without a closing one -/
  | unterminatedString (offset : Nat)
  /-- a container that is one level too deep -/
  | tooDeep (limit offset : Nat)
  /-- something after the document -/
  | trailingCharacters (offset : Nat)
  deriving DecidableEq, Repr

namespace DecodeError

/-- Where the problem was found. -/
def offset : DecodeError → Nat
  | .unexpectedEnd offset => offset
  | .unexpectedToken _ _ offset => offset
  | .invalidLiteral _ offset => offset
  | .invalidEscape offset => offset
  | .unterminatedString offset => offset
  | .tooDeep _ offset => offset
  | .trailingCharacters offset => offset

/-- The problem in words. -/
def message : DecodeError → String
  | .unexpectedEnd offset => s!"unexpected end of input at byte {offset}"
  | .unexpectedToken found expected offset =>
    s!"unexpected {found} at byte {offset}, expected {expected}"
  | .invalidLiteral literal offset => s!"invalid literal '{literal}' at byte {offset}"
  | .invalidEscape offset => s!"invalid escape sequence at byte {offset}"
  | .unterminatedString offset => s!"unterminated string starting at byte {offset}"
  | .tooDeep limit offset => s!"nesting deeper than {limit} levels at byte {offset}"
  | .trailingCharacters offset => s!"trailing characters at byte {offset}"

end DecodeError

end LspClient.Json
