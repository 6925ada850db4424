import LspClient.Proofs.Session.Event

/-!
# Every step of a peer is a path of its session

A session is changed together with its server, by functions that send, record
and receive. Here each of them is read off for what it does to the session
alone. Writing never changes a session and neither does recording, so whether
a write succeeds shows in the session only where the result of the write is
looked at: when the caller sends a request or asks for the end.

What comes out is `pump_path`: one read of a session that does not end in it
is a path whose events are the ones that are noted of the read.
-/

namespace LspClient

namespace Peer

/-! ## Sending -/

@[simp] theorem record_session (keep : Bool) (p : Peer) (d : Direction) (text : String) :
    (p.record keep d text).session = p.session := by
  rw [record]
  split <;> rfl

@[simp] theorem record_server (keep : Bool) (p : Peer) (d : Direction) (text : String) :
    (p.record keep d text).server = p.server := by
  rw [record]
  split <;> rfl

@[simp] theorem send_session (keep : Bool) (p : Peer) (envelope : Json.Value) :
    (p.send keep envelope).2.session = p.session := by
  rw [send, record_session]

@[simp] theorem notify_session (keep : Bool) (p : Peer) (method : String)
    (params : Json.Value) : (p.notify keep method params).2.session = p.session :=
  send_session keep p _

theorem request_eq (keep : Bool) (p : Peer) (method : String) (params : Json.Value) :
    p.request keep method params =
      match send keep { p with session := p.session.numbered }
          (Envelope.request p.session.nextRequest method params) with
      | (.error e, q) => (.error e, q)
      | (.ok (), q) =>
        (.ok p.session.nextRequest,
          { q with session := q.session.await ⟨p.session.nextRequest, method,
            Json.encode (Envelope.request p.session.nextRequest method params)⟩ }) := rfl

/-- A request that is written waits under the next number. -/
theorem request_ok {keep : Bool} {p q : Peer} {method : String} {params : Json.Value}
    {id : RequestId} (h : p.request keep method params = (.ok id, q)) :
    id = p.session.nextRequest ∧
      ∃ payload, q.session =
        p.session.numbered.await ⟨p.session.nextRequest, method, payload⟩ := by
  rw [request] at h
  split at h
  · exact absurd (congrArg Prod.fst h) (by simp)
  · next q' hsend =>
      simp only [Prod.mk.injEq, Except.ok.injEq] at h
      obtain ⟨rfl, rfl⟩ := h
      have hq : q'.session = p.session.numbered := by
        have := send_session keep { p with session := p.session.numbered }
          (Envelope.request p.session.nextRequest method params)
        rwa [Session.numbered, hsend] at this
      refine ⟨rfl, Json.encode (Envelope.request p.session.nextRequest method params), ?_⟩
      rw [hq]

/-- A request that is not written costs its number and nothing else. -/
theorem request_error {keep : Bool} {p q : Peer} {method : String} {params : Json.Value}
    {e : TransportError} (h : p.request keep method params = (.error e, q)) :
    q.session = p.session.numbered := by
  rw [request] at h
  split at h
  · next e' q' hsend =>
      simp only [Prod.mk.injEq] at h
      obtain ⟨-, rfl⟩ := h
      have := send_session keep { p with session := p.session.numbered }
        (Envelope.request p.session.nextRequest method params)
      rwa [Session.numbered, hsend] at this
  · exact absurd (congrArg Prod.fst h) (by simp)

/-- A session whose handshake could be written. -/
def Opened (id : SessionId) (s : Session) : Prop :=
  ∃ command payload,
    s = { ({ id, command } : Session).numbered.await
            ⟨.first, Lifecycle.opening.method, payload⟩ with
          status := .connecting }

theorem openSession_ok {keep : Bool} {p q : Peer} {params : Json.Value} {id : SessionId}
    {command : String} (hp : p.session = { id, command })
    (h : p.openSession keep params = (.ok (), q)) : Opened id q.session := by
  rw [openSession] at h
  split at h
  · exact absurd (congrArg Prod.fst h) (by simp)
  · next id' q' hreq =>
      simp only [Prod.mk.injEq, true_and] at h
      obtain ⟨-, payload, hq⟩ := request_ok hreq
      refine ⟨command, payload, ?_⟩
      rw [← h, hq, hp]

theorem endSession_ok {keep : Bool} {p q : Peer} (hopen : p.session.closing = false)
    (h : p.endSession keep = (.ok (), q)) :
    p.session.Moves
      [.sent p.session.nextRequest Lifecycle.ending.method, .closing] q.session := by
  rw [endSession] at h
  split at h
  · exact absurd (congrArg Prod.fst h) (by simp)
  · next id q' hreq =>
      simp only [Prod.mk.injEq, true_and] at h
      obtain ⟨-, payload, hq⟩ := request_ok hreq
      have hmoves := Session.Moves.closing p.session payload hopen
      rw [← h, hq]
      exact hmoves

/-! ## Receiving -/

theorem finishHandshake_session (keep : Bool) (p : Peer) (r : Response) :
    (p.finishHandshake keep r).session = p.session.greeted r := by
  rw [finishHandshake, Session.greeted]
  cases r.outcome with
  | error e => rfl
  | ok result =>
      by_cases hstatus : p.session.status ≠ .connecting
      · simp only [if_pos hstatus]
      · simp only [if_neg hstatus]
        split
        · rfl
        · rw [notify_session]

/-- A message that does not end the session is a move of the session. -/
theorem receiveMessage_moves {keep : Bool} {p q : Peer} {m : Incoming}
    (h : p.receiveMessage keep m = (q, false)) :
    p.session.Moves [.heard m (p.session.completion? m)] q.session := by
  cases m with
  | request id method params =>
      simp only [receiveMessage, Prod.mk.injEq, and_true] at h
      rw [← h, send_session]
      exact .acknowledged p.session id method params
  | notification method params =>
      simp only [receiveMessage, Prod.mk.injEq, and_true] at h
      rw [← h]
      exact .noticed p.session method params
  | response r =>
      rw [receiveMessage, receiveResponse] at h
      simp only [Session.completion?]
      split at h
      · next hnone =>
          simp only [Prod.mk.injEq, and_true] at h
          have hanswers : p.session.answered? r = none := hnone
          rw [← h, hanswers]
          exact .ignored p.session r hanswers
      · next entry hsome =>
          have hanswers : p.session.answered? r = some entry := hsome
          rw [hanswers]
          simp only [Option.bind_some] at h ⊢
          split at h
          · next hopening =>
              simp only [Prod.mk.injEq, and_true] at h
              rw [if_neg (fun ho => ho.1 hopening), ← h, finishHandshake_session]
              exact .greeted p.session r entry hanswers hopening
          · next hopening =>
              split at h
              · simp at h
              · next hending =>
                  simp only [Prod.mk.injEq, and_true] at h
                  rw [if_pos ⟨hopening, hending⟩, ← h]
                  exact .completed p.session r entry hanswers ⟨hopening, hending⟩

theorem receiveBody_path {keep : Bool} {p q : Peer} {body : List UInt8}
    (h : p.receiveBody keep body = (q, false)) :
    p.session.Path (p.bodyEvents body) q.session := by
  rw [receiveBody] at h
  rw [bodyEvents, bodyMessage?]
  cases htext : Utf8.text? body with
  | none =>
      simp only [htext, Prod.mk.injEq, and_true] at h
      rw [← h]
      exact .nil p.session
  | some text =>
      simp only [htext, Option.bind_some] at h ⊢
      cases hmessage : messageOf? text with
      | none =>
          simp only [hmessage, Prod.mk.injEq, and_true] at h
          rw [← h, record_session]
          exact .nil p.session
      | some m =>
          simp only [hmessage] at h ⊢
          have := receiveMessage_moves h
          rw [record_session] at this
          exact .single this

theorem receiveAll_path {keep : Bool} {results : List Wire.FrameResult} :
    ∀ {p q : Peer}, p.receiveAll keep results = (q, false) →
      p.session.Path (p.receiveEvents keep results) q.session := by
  induction results with
  | nil =>
      intro p q h
      simp only [receiveAll, Prod.mk.injEq, and_true] at h
      rw [← h]
      exact .nil p.session
  | cons result rest ih =>
      intro p q h
      cases result with
      | error e =>
          rw [receiveAll] at h
          rw [receiveEvents]
          exact ih h
      | ok body =>
          rw [receiveAll] at h
          rw [receiveEvents]
          cases hbody : p.receiveBody keep body with
          | mk p' ended =>
              rw [hbody] at h
              cases ended with
              | true => cases h
              | false => exact (receiveBody_path hbody).append (ih h)

theorem fetched_moves (p : Peer) : p.session.Moves [] p.fetched.session := by
  rw [fetched, readChunk]
  cases hread : p.server.read with
  | mk result server =>
      cases result with
      | error e => exact .read p.session _ true
      | ok chunk =>
          cases chunk with
          | none => exact .read p.session _ p.session.outputEnded
          | some chunk => exact .read p.session _ p.session.outputEnded

/-- One read that does not end the session is a path of the session. -/
theorem pump_path {keep : Bool} {p : Peer} (h : (p.pump keep).finished = false) :
    p.session.Path (p.pumpEvents keep) (p.pump keep).peer.session := by
  cases hended : p.session.outputEnded with
  | true =>
      rw [pump_of_ended hended, pumpEvents, if_pos hended]
      exact .nil p.session
  | false =>
      rw [pump_of_open hended] at h ⊢
      rw [pumpEvents, if_neg (by simp [hended])]
      have hall : p.fetched.receiveAll keep p.fetchedFrames =
          ((p.fetched.receiveAll keep p.fetchedFrames).1, false) :=
        Prod.ext rfl h
      exact .cons (fetched_moves p) (receiveAll_path hall)

end Peer

end LspClient
