import LspClient.Message.RequestId

/-!
# Incoming messages

What a decoded body is. An object with a textual `method` is a call: a request
if it has an identifier other than `null`, and a notification if not. Without
a method, an object with an identifier and a `result` or an `error` is a
response. Anything else is no message.
-/

namespace LspClient

open Json (Value)

/-- The error member of a response. -/
structure ResponseError where
  code : Int64
  message : String
  data : Value

namespace ResponseError

/-- The code of errors that come without one. -/
def internalError : Int64 := -32603

/-- Reads an error member. What is missing or of the wrong kind is filled in. -/
def ofJson (error : Value) : ResponseError where
  code := (error.member "code").integer?.getD internalError
  message := (error.member "message").string?.getD "unknown error"
  data := error.member "data"

/-- The error in words. -/
def text (e : ResponseError) : String :=
  "server error " ++ String.ofList (Numeral.ofSigned e.code) ++ ": " ++ e.message

end ResponseError

/-- An answer to a request. -/
structure Response where
  /-- the identifier as the peer wrote it -/
  id : Value
  /-- the result, `null` if there is none -/
  result : Value
  error : Option ResponseError

namespace Response

/-- The request of ours that the identifier may name. -/
def requestId? (r : Response) : Option RequestId :=
  r.id.integer?.bind RequestId.ofNumber?

/-- The outcome of the request. An error outweighs a result. -/
def outcome (r : Response) : Except ResponseError Value :=
  match r.error with
  | some e => .error e
  | none => .ok r.result

end Response

/-- A message from the peer. -/
inductive Incoming where
  | response (r : Response)
  | request (id : Value) (method : String) (params : Value)
  | notification (method : String) (params : Value)

namespace Incoming

/-- The message that a value is. -/
def classify? (v : Value) : Option Incoming :=
  match v with
  | .object _ =>
    match (v.member "method").string? with
    | some method =>
      match v.member "id" with
      | .null => some (.notification method (v.member "params"))
      | id => some (.request id method (v.member "params"))
    | none =>
      match v.member? "id" with
      | some id =>
        if (v.member? "result").isSome || (v.member? "error").isSome then
          some (.response ⟨id, v.member "result", (v.member? "error").map ResponseError.ofJson⟩)
        else none
      | none => none
  | _ => none

end Incoming

end LspClient
