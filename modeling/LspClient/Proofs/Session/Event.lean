import LspClient.Session.Peer

/-!
# What can be noted of a session

A session forgets. The request that was answered is gone from those that wait,
the completion that was taken or pushed out of a full queue is gone from the
queue, and nothing in the state says which of two answers came first. What is
to be said about such things is said of a history: the list of everything that
was noted of a session, in order.

Nothing new is computed to note it. Requests are noted with the number that
they took, messages as they were received, with the completions that were made
of them. A step of a session never looks at its history, and what it does to
the session itself is one of the things listed in `Session.Moves`. Every
statement about sessions in any state they can reach is proved by going through
that list once; `Proofs/Client/History.lean` says why that is enough.
-/

namespace LspClient

/-- What is noted of a session. -/
inductive Event where
  /-- a request was written, and waits from now on -/
  | sent (id : RequestId) (method : String)
  /-- a request took a number, and could not be written -/
  | unsent (id : RequestId)
  /-- the end of the session was asked for -/
  | closing
  /-- a message was received, and a completion was made of it or not -/
  | heard (m : Incoming) (made : Option Completion)
  /-- the caller took the completions -/
  | taken (entries : List Completion)
  /-- the caller took the notices -/
  | takenNotices (entries : List Notice)

/-- Whether a method is none that ends a handshake or a session when its
request is answered. -/
def IsOrdinary (method : String) : Prop :=
  method ≠ Lifecycle.opening.method ∧ method ≠ Lifecycle.ending.method

instance (method : String) : Decidable (IsOrdinary method) :=
  inferInstanceAs (Decidable (_ ∧ _))

/-! ## Noting what a peer receives -/

namespace Session

/-- The waiting request that a response answers. -/
def answered? (s : Session) (r : Response) : Option PendingRequest :=
  r.requestId?.bind s.pending?

/-- The completion that a message makes. -/
def completion? (s : Session) : Incoming → Option Completion
  | .response r =>
    (s.answered? r).bind fun entry =>
      if IsOrdinary entry.method then some ⟨entry.id, entry.method, r.outcome⟩ else none
  | .request .. => none
  | .notification .. => none

end Session

namespace Peer

/-- The message that a body is. -/
def bodyMessage? (body : List UInt8) : Option Incoming :=
  (Utf8.text? body).bind messageOf?

/-- What is noted of a body. -/
def bodyEvents (p : Peer) (body : List UInt8) : List Event :=
  match bodyMessage? body with
  | none => []
  | some m => [.heard m (p.session.completion? m)]

/-- What is noted of the results of a frame buffer. Nothing is noted of those
behind the end of the session. -/
def receiveEvents (keep : Bool) (p : Peer) : List Wire.FrameResult → List Event
  | [] => []
  | .error _ :: rest => p.receiveEvents keep rest
  | .ok body :: rest =>
    p.bodyEvents body ++
      match p.receiveBody keep body with
      | (_, true) => []
      | (p, false) => p.receiveEvents keep rest

/-- The session after a read, with the complete frames taken out. -/
def fetched (p : Peer) : Peer :=
  { p.readChunk.1 with
    session := { p.readChunk.1.session with frames := p.readChunk.1.session.frames.drain.2 } }

/-- The frames that a read completes. -/
def fetchedFrames (p : Peer) : List Wire.FrameResult :=
  p.readChunk.1.session.frames.drain.1

/-- What is noted when the end of the session is asked for. Asking twice is
asking once. -/
def closeEvents (p : Peer) : List Event :=
  if p.session.closing then []
  else [.sent p.session.nextRequest Lifecycle.ending.method, .closing]

/-- What is noted of one read. -/
def pumpEvents (keep : Bool) (p : Peer) : List Event :=
  if p.session.outputEnded then [] else p.fetched.receiveEvents keep p.fetchedFrames

theorem pump_of_ended {keep : Bool} {p : Peer} (h : p.session.outputEnded = true) :
    p.pump keep = ⟨p, false, false⟩ := by
  rw [pump, if_pos h]

theorem pump_of_open {keep : Bool} {p : Peer} (h : p.session.outputEnded = false) :
    p.pump keep =
      ⟨(p.fetched.receiveAll keep p.fetchedFrames).1,
        p.readChunk.2 || !p.fetchedFrames.isEmpty,
        (p.fetched.receiveAll keep p.fetchedFrames).2⟩ := by
  rw [pump, if_neg (by simp [h])]
  rfl

end Peer

/-! ## What can happen to a session -/

namespace Session

/-- The session after its handshake was answered. -/
def greeted (s : Session) (r : Response) : Session :=
  match r.outcome with
  | .error _ => s
  | .ok result =>
    if s.status ≠ .connecting then s
    else if s.closing then { s with info := some (.ofResult result) }
    else { s with info := some (.ofResult result), status := .connected }

/-- The answer to a handshake concerns the status and what is known of the
server. -/
theorem greeted_eq (s : Session) (r : Response) :
    ∃ info status, s.greeted r = { s with info, status } := by
  rw [greeted]
  cases r.outcome with
  | error e => exact ⟨s.info, s.status, rfl⟩
  | ok result =>
      dsimp only
      split
      · exact ⟨s.info, s.status, rfl⟩
      · split
        · exact ⟨_, s.status, rfl⟩
        · exact ⟨_, _, rfl⟩

/-- The session after it took a number for a request. -/
def numbered (s : Session) : Session :=
  { s with nextRequest := s.nextRequest.next }

/-- What happens to a registered session that stays registered, with what is
noted of it. -/
inductive Moves : Session → List Event → Session → Prop where
  /-- octets arrive, or the output ends -/
  | read (s : Session) (frames : Wire.FrameBuffer) (outputEnded : Bool) :
      Moves s [] { s with frames := frames, outputEnded := outputEnded }
  /-- the caller's request cannot be written -/
  | unsent (s : Session) (hconnected : s.status = .connected) (hopen : s.closing = false) :
      Moves s [.unsent s.nextRequest] s.numbered
  /-- the caller's request is written -/
  | sent (s : Session) (method payload : String) (hconnected : s.status = .connected)
      (hopen : s.closing = false) :
      Moves s [.sent s.nextRequest method] (s.numbered.await ⟨s.nextRequest, method, payload⟩)
  /-- the end of the session is asked for -/
  | closing (s : Session) (payload : String) (hopen : s.closing = false) :
      Moves s [.sent s.nextRequest Lifecycle.ending.method, .closing]
        { s.numbered.await ⟨s.nextRequest, Lifecycle.ending.method, payload⟩ with
          closing := true }
  /-- a response answers nothing -/
  | ignored (s : Session) (r : Response) (hanswers : s.answered? r = none) :
      Moves s [.heard (.response r) none] s
  /-- a response answers the handshake -/
  | greeted (s : Session) (r : Response) (entry : PendingRequest)
      (hanswers : s.answered? r = some entry)
      (hmethod : entry.method = Lifecycle.opening.method) :
      Moves s [.heard (.response r) none] ((s.retire entry.id).greeted r)
  /-- a response answers the caller's request -/
  | completed (s : Session) (r : Response) (entry : PendingRequest)
      (hanswers : s.answered? r = some entry) (hmethod : IsOrdinary entry.method) :
      Moves s [.heard (.response r) (some ⟨entry.id, entry.method, r.outcome⟩)]
        { s.retire entry.id with
          completions := pushBounded s.completions ⟨entry.id, entry.method, r.outcome⟩ }
  /-- the server's request is answered -/
  | acknowledged (s : Session) (id : Json.Value) (method : String) (params : Json.Value) :
      Moves s [.heard (.request id method params) none] s
  /-- the server's notification is kept -/
  | noticed (s : Session) (method : String) (params : Json.Value) :
      Moves s [.heard (.notification method params) none]
        { s with notices := pushBounded s.notices ⟨method, params⟩ }
  /-- the caller takes the completions -/
  | taken (s : Session) : Moves s [.taken s.completions] { s with completions := [] }
  /-- the caller takes the notices -/
  | takenNotices (s : Session) : Moves s [.takenNotices s.notices] { s with notices := [] }

/-- What happens to a registered session over a while. -/
inductive Path : Session → List Event → Session → Prop where
  | nil (s : Session) : Path s [] s
  | cons {s t u : Session} {events later : List Event} (first : Moves s events t)
      (rest : Path t later u) : Path s (events ++ later) u

theorem Path.single {s t : Session} {events : List Event} (h : Moves s events t) :
    Path s events t := by
  have := Path.cons h (Path.nil t)
  rwa [List.append_nil] at this

theorem Path.append {s t u : Session} {events later : List Event} (h : Path s events t)
    (h' : Path t later u) : Path s (events ++ later) u := by
  induction h with
  | nil s => exact h'
  | cons first rest ih =>
      rw [List.append_assoc]
      exact .cons first (ih h')

/-- What every move preserves, every path preserves. -/
theorem Path.preserves {P : Session → List Event → Prop}
    (moves : ∀ {s t events} history, P s history → Moves s events t → P t (history ++ events))
    {s t : Session} {events : List Event} (path : Path s events t) :
    ∀ history, P s history → P t (history ++ events) := by
  induction path with
  | nil s =>
      intro history h
      rwa [List.append_nil]
  | cons first rest ih =>
      intro history h
      rw [← List.append_assoc]
      exact ih _ (moves history h first)

end Session

end LspClient
