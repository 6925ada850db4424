import LspClient.Proofs.Session.Moves

/-!
# Numbers do not matter

A session carries the number that the client gave it, and its server a process
number. Neither of them decides about anything: a session under another number,
with its server under another process number, does the same, and what comes of
it differs in these numbers only.

The statements are equations between a function of the renumbered peer and the
renumbered result, one for each function of a peer. Read for the numbers that a
peer has already, they say that a session keeps its number and that what it
records is recorded under it.
-/

namespace LspClient

open Json (Value)

/-- The session under another number. -/
def Session.under (number : SessionId) (s : Session) : Session :=
  { s with id := number }

/-- The server under another process number. -/
def Server.under (process : Nat) (v : Server) : Server :=
  { v with processId := process }

/-- The record under the number of another session. -/
def Record.under (number : SessionId) (r : Record) : Record :=
  { r with session := number }

/-- A session and its server under other numbers. -/
def Peer.under (number : SessionId) (process : Nat) (p : Peer) : Peer where
  session := p.session.under number
  server := p.server.under process
  records := p.records.map (Record.under number)

/-! ## Servers -/

namespace Server

theorem write_under (process : Nat) (v : Server) (bytes : List UInt8) :
    (v.under process).write bytes = Prod.map id (under process) (v.write bytes) := by
  obtain ⟨command, args, old, output, writes, outputEnded, failure, closed⟩ := v
  cases closed with
  | true => rfl
  | false => cases failure <;> rfl

theorem read_under (process : Nat) (v : Server) :
    (v.under process).read = Prod.map id (under process) v.read := by
  obtain ⟨command, args, old, output, writes, outputEnded, failure, closed⟩ := v
  cases closed with
  | true => rfl
  | false =>
      cases output with
      | cons chunk rest => rfl
      | nil => cases outputEnded <;> rfl

theorem answer_under (process : Nat) (v : Server) (method : String) (result : Value) :
    (v.under process).answer method result = Prod.map id (under process) (v.answer method result) := by
  rw [answer, answer]
  have hlast : (v.under process).lastRequest? method = v.lastRequest? method := rfl
  rw [hlast]
  cases v.lastRequest? method <;> rfl

end Server

namespace Peer

variable (number : SessionId) (process : Nat)

/-! ## Sending -/

theorem record_under (keep : Bool) (p : Peer) (d : Direction) (text : String) :
    (p.under number process).record keep d text = (p.record keep d text).under number process := by
  cases keep with
  | false => rfl
  | true =>
      rw [record, if_pos rfl, record, if_pos rfl, under, under, List.map_append]
      rfl

theorem send_under (keep : Bool) (p : Peer) (envelope : Value) :
    (p.under number process).send keep envelope =
      Prod.map id (under number process) (p.send keep envelope) := by
  rw [send, record_under]
  dsimp only [under]
  rw [Server.write_under]
  rfl

theorem request_under (keep : Bool) (p : Peer) (method : String) (params : Value) :
    (p.under number process).request keep method params =
      Prod.map id (under number process) (p.request keep method params) := by
  have hsend :
      send keep { p.under number process with session := (p.under number process).session.numbered }
          (Envelope.request p.session.nextRequest method params) =
        Prod.map id (under number process) (send keep { p with session := p.session.numbered }
          (Envelope.request p.session.nextRequest method params)) :=
    send_under number process keep { p with session := p.session.numbered } _
  have hnext : (p.under number process).session.nextRequest = p.session.nextRequest := rfl
  rw [request_eq, hnext, hsend, request_eq]
  cases send keep { p with session := p.session.numbered }
      (Envelope.request p.session.nextRequest method params) with
  | mk result q => cases result <;> rfl

theorem notify_under (keep : Bool) (p : Peer) (method : String) (params : Value) :
    (p.under number process).notify keep method params =
      Prod.map id (under number process) (p.notify keep method params) :=
  send_under number process keep p _

theorem openSession_under (keep : Bool) (p : Peer) (params : Value) :
    (p.under number process).openSession keep params =
      Prod.map id (under number process) (p.openSession keep params) := by
  rw [openSession, request_under, openSession]
  cases p.request keep Lifecycle.opening.method params with
  | mk result q => cases result <;> rfl

theorem endSession_under (keep : Bool) (p : Peer) :
    (p.under number process).endSession keep =
      Prod.map id (under number process) (p.endSession keep) := by
  rw [endSession, request_under, endSession]
  cases p.request keep Lifecycle.ending.method .null with
  | mk result q => cases result <;> rfl

/-! ## Receiving -/

theorem finishHandshake_under (keep : Bool) (p : Peer) (r : Response) :
    (p.under number process).finishHandshake keep r =
      (p.finishHandshake keep r).under number process := by
  rw [finishHandshake, finishHandshake]
  cases r.outcome with
  | error e => rfl
  | ok result =>
      dsimp only
      by_cases hstatus : p.session.status ≠ .connecting
      · rw [if_pos hstatus]
        exact if_pos hstatus
      · rw [if_neg hstatus]
        refine (if_neg hstatus).trans ?_
        by_cases hclosing : p.session.closing = true
        · rw [if_pos hclosing]
          exact if_pos hclosing
        · rw [if_neg hclosing]
          refine (if_neg hclosing).trans ?_
          exact congrArg Prod.snd (notify_under number process keep
            { p with session :=
              { p.session with info := some (.ofResult result), status := .connected } } _ _)

theorem finishSession_under (keep : Bool) (p : Peer) :
    (p.under number process).finishSession keep =
      (p.finishSession keep).under number process := by
  rw [finishSession, notify_under]
  rfl

theorem receiveResponse_under (keep : Bool) (p : Peer) (r : Response) :
    (p.under number process).receiveResponse keep r =
      Prod.map (under number process) id (p.receiveResponse keep r) := by
  rw [receiveResponse, receiveResponse]
  have hanswered : (p.under number process).answered? r = p.answered? r := rfl
  rw [hanswered]
  cases p.answered? r with
  | none => rfl
  | some entry =>
      dsimp only
      split
      · exact congrArg (·, false) (finishHandshake_under number process keep
          { p with session := p.session.retire entry.id } r)
      · split
        · exact congrArg (·, true) (finishSession_under number process keep
            { p with session := p.session.retire entry.id })
        · rfl

theorem receiveMessage_under (keep : Bool) (p : Peer) (m : Incoming) :
    (p.under number process).receiveMessage keep m =
      Prod.map (under number process) id (p.receiveMessage keep m) := by
  cases m with
  | response r => exact receiveResponse_under number process keep p r
  | request id method params =>
      rw [receiveMessage, send_under]
      rfl
  | notification method params => rfl

theorem receiveBody_under (keep : Bool) (p : Peer) (body : List UInt8) :
    (p.under number process).receiveBody keep body =
      Prod.map (under number process) id (p.receiveBody keep body) := by
  rw [receiveBody, receiveBody]
  cases Utf8.text? body with
  | none => rfl
  | some text =>
      dsimp only
      rw [record_under]
      cases messageOf? text with
      | none => rfl
      | some m => exact receiveMessage_under number process keep _ m

theorem receiveAll_under (keep : Bool) (results : List Wire.FrameResult) :
    ∀ p : Peer, (p.under number process).receiveAll keep results =
      Prod.map (under number process) id (p.receiveAll keep results) := by
  induction results with
  | nil =>
      intro p
      rfl
  | cons result rest ih =>
      intro p
      cases result with
      | error e => exact ih p
      | ok body =>
          rw [receiveAll, receiveBody_under, receiveAll]
          cases p.receiveBody keep body with
          | mk q ended =>
              cases ended with
              | true => rfl
              | false => exact ih q

theorem readChunk_under (p : Peer) :
    (p.under number process).readChunk = Prod.map (under number process) id p.readChunk := by
  rw [readChunk, readChunk]
  have hread : (p.under number process).server.read =
      Prod.map id (Server.under process) p.server.read := Server.read_under process p.server
  rw [hread]
  cases p.server.read with
  | mk result server =>
      cases result with
      | error e => rfl
      | ok chunk => cases chunk <;> rfl

/-- One read of a session under another number. -/
theorem pump_under (keep : Bool) (p : Peer) :
    (p.under number process).pump keep =
      ⟨(p.pump keep).peer.under number process, (p.pump keep).progressed,
        (p.pump keep).finished⟩ := by
  cases hended : p.session.outputEnded with
  | true =>
      have hunder : (p.under number process).session.outputEnded = true := hended
      rw [pump_of_ended hunder, pump_of_ended hended]
  | false =>
      have hunder : (p.under number process).session.outputEnded = false := hended
      have hfetched : (p.under number process).fetched = p.fetched.under number process := by
        rw [fetched, readChunk_under]
        rfl
      have hframes : (p.under number process).fetchedFrames = p.fetchedFrames := by
        rw [fetchedFrames, readChunk_under]
        rfl
      have hchunk : (p.under number process).readChunk.2 = p.readChunk.2 := by
        rw [readChunk_under]
        rfl
      rw [pump_of_open hunder, pump_of_open hended, hfetched, hframes, hchunk, receiveAll_under]
      rfl

end Peer

end LspClient
