import LspClient.Text.Numeral
import LspClient.Json.Value

/-!
# Request identifiers

The client numbers its requests 1, 2, 3 and so on. A peer may answer with any
JSON value as the identifier; only a positive integer can name a request of
ours.
-/

namespace LspClient

/-- The number of a request. The numbers that are issued are positive. -/
structure RequestId where
  number : Int64
  deriving DecidableEq, Repr

namespace RequestId

/-- The number of a session's first request. -/
def first : RequestId := ⟨1⟩

/-- The identifier with a number, if the number is positive. -/
def ofNumber? (n : Int64) : Option RequestId :=
  if 0 < n then some ⟨n⟩ else none

/-- The identifier that is issued next. -/
def next (id : RequestId) : RequestId :=
  ⟨id.number + 1⟩

/-- The identifier as it goes over the wire. -/
def toJson (id : RequestId) : Json.Value :=
  .integer id.number

/-- The identifier as text. -/
def text (id : RequestId) : String :=
  String.ofList (Numeral.ofSigned id.number)

end RequestId

end LspClient
