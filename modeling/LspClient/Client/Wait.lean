import LspClient.Client.Operation

/-!
# Waiting for a session

A caller who waits for a session to leave a status has only one thing to do:
call `process` again and again until the session has left it or the time is
over. What happens in the meantime is not the client's doing. It is up to the
surroundings, which before each round see the client, do something at its
servers, and say how long the round takes. Statements about a wait hold in any
surroundings.

The status is looked at before the clock, so a change that came in the last
round counts even if the time ran out in it. Every round takes at least a
millisecond, and this alone ends the wait.
-/

namespace LspClient

/-- What happens around a client during one round. -/
structure Round (σ : Type) where
  /-- what servers do, each with its index -/
  events : List (Nat × ServerEvent)
  /-- how long the round takes beyond its first millisecond -/
  pause : Nat
  /-- the surroundings afterwards -/
  surroundings : σ

/-- What a wait came to. -/
structure Waited (σ : Type) where
  /-- whether the session left the status in time -/
  changed : Bool
  surroundings : σ
  client : Client

namespace Client

/-- The client after servers did something. -/
def afterEvents (c : Client) (events : List (Nat × ServerEvent)) : Client :=
  c.run (events.map fun (index, event) => .server index event)

/-- Waits until a session leaves a status, but no longer than so many
milliseconds. -/
def waitWhile {σ : Type} (next : σ → Client → Round σ) (id : SessionId) (status : Status)
    (limit : Nat) (surroundings : σ) (c : Client) : Waited σ :=
  if c.status id ≠ status then ⟨true, surroundings, c⟩
  else if limit = 0 then ⟨false, surroundings, c⟩
  else
    let round := next surroundings c
    waitWhile next id status (limit - (round.pause + 1)) round.surroundings
      (c.afterEvents round.events).process.2
termination_by limit
decreasing_by omega

end Client

end LspClient
