import LspClient.Json.Encode
import LspClient.Message.RequestId
import LspClient.Wire.Frame

/-!
# Envelopes

The objects that are exchanged. All of them name the version of the protocol
first. A call names a method, has parameters only if these are an object or an
array, and has an identifier at the end if it wants an answer. An answer
repeats the identifier of the call, whatever that was.
-/

namespace LspClient.Envelope

open Json (Value Members)

/-- The version of the protocol. -/
def version : String × Value := ("jsonrpc", .string "2.0")

/-- The member that carries parameters, where there are any. -/
def parameters (params : Value) : Members Value :=
  if params.isContainer then [("params", params)] else []

/-- A call that wants no answer. -/
def notification (method : String) (params : Value) : Value :=
  .object (version :: ("method", .string method) :: parameters params)

/-- A call that wants an answer under some identifier. -/
def call (id : Value) (method : String) (params : Value) : Value :=
  .object (version :: ("method", .string method) :: parameters params ++ [("id", id)])

/-- A request of ours. -/
def request (id : RequestId) (method : String) (params : Value) : Value :=
  call id.toJson method params

/-- The answer to a call that succeeded. -/
def response (id result : Value) : Value :=
  .object [version, ("id", id), ("result", result)]

/-- The answer to a call that failed. -/
def failure (id : Value) (code : Int64) (message : String) : Value :=
  .object [version, ("id", id),
    ("error", .object [("code", .integer code), ("message", .string message)])]

/-- The octets that an envelope takes on the wire. -/
def wire (envelope : Value) : List UInt8 :=
  Wire.frameText (Json.encode envelope)

end LspClient.Envelope
