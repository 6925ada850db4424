import LspClient.Proofs.Session.Ledger
import LspClient.Proofs.Wire.Chunking

/-!
# What a session makes of messages

What becomes of a session when messages are received is decided by the messages
and by the session alone. The server takes no part in it: whether a write
succeeds is not looked at, and neither are the octets in between. `Session.hears`
and `Session.replies` say what the session is afterwards and what it sends, and
a peer is what these two make of it (`Peer.Heard`), one message, one body or
one read at a time.

This is where messages that say nothing to a session are told from the others.
A response that names no request of the session's own is passed over, so of
several messages only those that are no strays matter (`hearAll_of_strays`).
-/

namespace LspClient

open Json (Value)

/-! ## The session alone -/

namespace Session

/-- The session after a message, and whether the message ends it. -/
def hears (s : Session) : Incoming → Session × Bool
  | .request .. => (s, false)
  | .notification method params =>
    ({ s with notices := pushBounded s.notices ⟨method, params⟩ }, false)
  | .response r =>
    match s.answered? r with
    | none => (s, false)
    | some entry =>
      if entry.method = Lifecycle.opening.method then ((s.retire entry.id).greeted r, false)
      else if entry.method = Lifecycle.ending.method then (s.retire entry.id, true)
      else
        ({ s.retire entry.id with
           completions := pushBounded s.completions ⟨entry.id, entry.method, r.outcome⟩ }, false)

/-- What is sent when the handshake is answered. -/
def greetingReplies (s : Session) (r : Response) : List Value :=
  match r.outcome with
  | .error _ => []
  | .ok _ =>
    if s.status ≠ .connecting then []
    else if s.closing then []
    else [Envelope.notification Lifecycle.ready.method (.object [])]

/-- What is sent when a message is received. -/
def replies (s : Session) : Incoming → List Value
  | .request id _ _ => [Envelope.response id .null]
  | .notification .. => []
  | .response r =>
    match s.answered? r with
    | none => []
    | some entry =>
      if entry.method = Lifecycle.opening.method then s.greetingReplies r
      else if entry.method = Lifecycle.ending.method then
        [Envelope.notification Lifecycle.leaving.method .null]
      else []

/-- The session after messages, and whether one of them ended it. Those behind
that one are not looked at. -/
def hearAll (s : Session) : List Incoming → Session × Bool
  | [] => (s, false)
  | m :: rest =>
    match s.hears m with
    | (t, true) => (t, true)
    | (t, false) => t.hearAll rest

/-- What is sent when messages are received. -/
def repliesAll (s : Session) : List Incoming → List Value
  | [] => []
  | m :: rest =>
    s.replies m ++
      match s.hears m with
      | (_, true) => []
      | (t, false) => t.repliesAll rest

theorem hearAll_append (s : Session) (ms later : List Incoming) :
    s.hearAll (ms ++ later) =
      if (s.hearAll ms).2 then s.hearAll ms else (s.hearAll ms).1.hearAll later := by
  induction ms generalizing s with
  | nil => rfl
  | cons m ms ih =>
      rw [List.cons_append, hearAll, hearAll]
      cases s.hears m with
      | mk t ended =>
          cases ended with
          | true => rfl
          | false => exact ih t

theorem repliesAll_append (s : Session) (ms later : List Incoming) :
    s.repliesAll (ms ++ later) =
      s.repliesAll ms ++
        if (s.hearAll ms).2 then [] else (s.hearAll ms).1.repliesAll later := by
  induction ms generalizing s with
  | nil => rfl
  | cons m ms ih =>
      rw [List.cons_append, repliesAll, repliesAll, hearAll]
      cases s.hears m with
      | mk t ended =>
          cases ended with
          | true => simp
          | false =>
              dsimp only
              rw [ih t, List.append_assoc]

/-! ### What was read and not handed out -/

/-- The session with other octets read and not handed out yet, and its output
ended or not. -/
def reading (s : Session) (frames : Wire.FrameBuffer) (outputEnded : Bool) : Session :=
  { s with frames := frames, outputEnded := outputEnded }

/-- The session without anything of its reading. -/
def bare (s : Session) : Session :=
  s.reading .empty false

section

variable (frames : Wire.FrameBuffer) (outputEnded : Bool)

theorem greeted_reading (s : Session) (r : Response) :
    (s.reading frames outputEnded).greeted r = (s.greeted r).reading frames outputEnded := by
  have hstatus : (s.reading frames outputEnded).status = s.status := rfl
  have hclosing : (s.reading frames outputEnded).closing = s.closing := rfl
  rw [greeted, greeted, hstatus, hclosing]
  cases r.outcome with
  | error e => rfl
  | ok result =>
      dsimp only
      split
      · rfl
      · split <;> rfl

theorem hears_reading (s : Session) (m : Incoming) :
    (s.reading frames outputEnded).hears m =
      ((s.hears m).1.reading frames outputEnded, (s.hears m).2) := by
  cases m with
  | request id method params => rfl
  | notification method params => rfl
  | response r =>
      have hanswers : (s.reading frames outputEnded).answered? r = s.answered? r := rfl
      rw [hears, hears, hanswers]
      cases s.answered? r with
      | none => rfl
      | some entry =>
          dsimp only
          split
          · exact congrArg (·, false) (greeted_reading frames outputEnded (s.retire entry.id) r)
          · split <;> rfl

/-- What becomes of a session does not depend on its reading, and leaves it as
it is. -/
theorem hearAll_reading (s : Session) (ms : List Incoming) :
    (s.reading frames outputEnded).hearAll ms =
      ((s.hearAll ms).1.reading frames outputEnded, (s.hearAll ms).2) := by
  induction ms generalizing s with
  | nil => rfl
  | cons m ms ih =>
      rw [hearAll, hearAll, hears_reading]
      cases s.hears m with
      | mk t ended =>
          cases ended with
          | true => rfl
          | false => exact ih t

theorem repliesAll_reading (s : Session) (ms : List Incoming) :
    (s.reading frames outputEnded).repliesAll ms = s.repliesAll ms := by
  induction ms generalizing s with
  | nil => rfl
  | cons m ms ih =>
      have hreplies : (s.reading frames outputEnded).replies m = s.replies m := by
        cases m <;> rfl
      rw [repliesAll, repliesAll, hears_reading, hreplies]
      cases s.hears m with
      | mk t ended =>
          cases ended with
          | true => rfl
          | false => exact congrArg (s.replies m ++ ·) (ih t)

end

theorem hearAll_bare (s : Session) (ms : List Incoming) :
    s.bare.hearAll ms = ((s.hearAll ms).1.bare, (s.hearAll ms).2) :=
  hearAll_reading .empty false s ms

theorem repliesAll_bare (s : Session) (ms : List Incoming) :
    s.bare.repliesAll ms = s.repliesAll ms :=
  repliesAll_reading .empty false s ms

theorem hearAll_frames (s : Session) (ms : List Incoming) :
    (s.hearAll ms).1.frames = s.frames ∧ (s.hearAll ms).1.outputEnded = s.outputEnded := by
  have hsame : s.hearAll ms = ((s.hearAll ms).1.reading s.frames s.outputEnded, (s.hearAll ms).2) :=
    hearAll_reading s.frames s.outputEnded s ms
  rw [hsame]
  exact ⟨rfl, rfl⟩

/-! ### Messages that say nothing -/

end Session

/-- A response that names none of the numbers that were issued. -/
def Incoming.isStray (issued : List RequestId) : Incoming → Bool
  | .response r =>
    match r.requestId? with
    | some id => !issued.contains id
    | none => true
  | .request .. => false
  | .notification .. => false

namespace Session

/-- Only requests with numbers that were issued wait. -/
def WaitsFor (s : Session) (issued : List RequestId) : Prop :=
  ∀ id, s.pending? id ≠ none → id ∈ issued

theorem answered?_of_stray {s : Session} {issued : List RequestId} (h : s.WaitsFor issued)
    {r : Response} (hr : (Incoming.response r).isStray issued = true) :
    s.answered? r = none := by
  rw [Incoming.isStray] at hr
  rw [answered?]
  cases hid : r.requestId? with
  | none => rfl
  | some id =>
      rw [hid] at hr
      by_contra hwaits
      simp [h id hwaits] at hr

theorem hears_of_stray {s : Session} {issued : List RequestId} (h : s.WaitsFor issued)
    {m : Incoming} (hm : m.isStray issued = true) : s.hears m = (s, false) ∧ s.replies m = [] := by
  cases m with
  | response r =>
      rw [hears, replies, answered?_of_stray h hm]
      exact ⟨rfl, rfl⟩
  | request id method params => cases hm
  | notification method params => cases hm

theorem WaitsFor.hears {s : Session} {issued : List RequestId} (h : s.WaitsFor issued)
    (m : Incoming) : (s.hears m).1.WaitsFor issued := by
  have hretire : ∀ gone, (s.retire gone).WaitsFor issued := by
    intro gone id hwaits
    rw [pending?_retire] at hwaits
    split at hwaits
    · exact absurd rfl hwaits
    · exact h id hwaits
  cases m with
  | request id method params => exact h
  | notification method params => exact h
  | response r =>
      rw [Session.hears]
      split
      · exact h
      · next entry _ =>
          split
          · obtain ⟨info, status, heq⟩ := (s.retire entry.id).greeted_eq r
            rw [heq]
            exact hretire entry.id
          · split <;> exact hretire entry.id

/-- Strays can be left out. -/
theorem hearAll_of_strays {issued : List RequestId} (ms : List Incoming) :
    ∀ {s : Session}, s.WaitsFor issued →
      s.hearAll ms = s.hearAll (ms.filter fun m => !m.isStray issued) ∧
      s.repliesAll ms = s.repliesAll (ms.filter fun m => !m.isStray issued) := by
  induction ms with
  | nil =>
      intro s _
      exact ⟨rfl, rfl⟩
  | cons m ms ih =>
      intro s h
      by_cases hm : m.isStray issued = true
      · obtain ⟨hhears, hreplies⟩ := hears_of_stray h hm
        rw [List.filter_cons_of_neg (by simp [hm]), hearAll, repliesAll, hhears, hreplies]
        exact ih h
      · rw [List.filter_cons_of_pos (by simp [hm]), hearAll, repliesAll, hearAll, repliesAll]
        have hafter := h.hears m
        cases hhears : s.hears m with
        | mk t ended =>
            rw [hhears] at hafter
            cases ended with
            | true => exact ⟨rfl, rfl⟩
            | false =>
                obtain ⟨hall, hreplies⟩ := ih hafter
                exact ⟨hall, congrArg (s.replies m ++ ·) hreplies⟩

/-- A session waits only for what it has issued. -/
theorem Ledger.waitsFor {s : Session} {history : List Event} (h : s.Ledger history) :
    s.WaitsFor (issuedIds history) := by
  intro id hwaits
  obtain ⟨entry, hentry⟩ := Option.ne_none_iff_exists'.1 hwaits
  have hwaiting := h.waiting id
  rw [hentry, Option.map_some] at hwaiting
  obtain ⟨before, after, rfl, -⟩ := sent_of_waitingFor hwaiting.symm
  exact List.mem_filterMap.2 ⟨.sent id entry.method, by simp, rfl⟩

end Session

/-! ## A session and its server -/

namespace Server

/-- The server after messages were sent to it, all of which were written or
none. -/
def sent (v : Server) (envelopes : List Value) : Server :=
  { v with writes :=
      v.writes ++ if v.writeFailure.isSome then [] else envelopes.map Envelope.wire }

theorem sent_nil (v : Server) : v.sent [] = v := by
  rw [sent, List.map_nil, ite_self, List.append_nil]

theorem sent_append (v : Server) (envelopes later : List Value) :
    v.sent (envelopes ++ later) = (v.sent envelopes).sent later := by
  obtain ⟨command, args, process, output, writes, outputEnded, failure, closed⟩ := v
  cases failure <;> simp [sent]

theorem write_sent {v : Server} (hopen : v.closed = false) (envelope : Value) :
    (v.write (Envelope.wire envelope)).2 = v.sent [envelope] := by
  obtain ⟨command, args, process, output, writes, outputEnded, failure, closed⟩ := v
  obtain rfl : closed = false := hopen
  cases failure <;> simp [write, sent]

theorem sent_open {v : Server} (hopen : v.closed = false) (envelopes : List Value) :
    { v.sent envelopes with closed := false } = v.sent envelopes := by
  rw [← hopen]
  rfl

end Server

namespace Peer

/-- What a peer is after messages, and whether they have ended the session. -/
structure Heard (p : Peer) (ms : List Incoming) (q : Peer) (ended : Bool) : Prop where
  outcome : p.session.hearAll ms = (q.session, ended)
  server : q.server = { p.server.sent (p.session.repliesAll ms) with closed := ended }

theorem heard_nothing {p q : Peer} (hopen : p.server.closed = false)
    (hsession : q.session = p.session) (hserver : q.server = p.server) :
    p.Heard [] q false where
  outcome := by rw [hsession, Session.hearAll]
  server := by rw [Session.repliesAll, Server.sent_open hopen, Server.sent_nil, hserver]

theorem heard_message {p q : Peer} {m : Incoming} {ended : Bool}
    (houtcome : p.session.hears m = (q.session, ended))
    (hserver : q.server = { p.server.sent (p.session.replies m) with closed := ended }) :
    p.Heard [m] q ended := by
  constructor
  · rw [Session.hearAll, houtcome]
    cases ended <;> rfl
  · rw [hserver, Session.repliesAll, houtcome]
    cases ended <;> simp [Session.repliesAll]

theorem Heard.append {p q r : Peer} {ms later : List Incoming} {ended : Bool}
    (first : p.Heard ms q false) (second : q.Heard later r ended) :
    p.Heard (ms ++ later) r ended := by
  constructor
  · rw [Session.hearAll_append, first.outcome]
    exact second.outcome
  · rw [Session.repliesAll_append, first.outcome, second.server, first.server]
    exact congrArg (fun v : Server => { v with closed := ended })
      (Server.sent_append p.server _ _).symm

theorem Heard.of_ended {p q : Peer} {ms : List Incoming} (h : p.Heard ms q true)
    (later : List Incoming) : p.Heard (ms ++ later) q true := by
  constructor
  · rw [Session.hearAll_append, h.outcome]
    rfl
  · rw [Session.repliesAll_append, h.outcome, h.server]
    simp

/-! ### Receiving -/

theorem send_server {p : Peer} (hopen : p.server.closed = false) (keep : Bool) (envelope : Value) :
    (p.send keep envelope).2.server = p.server.sent [envelope] := by
  rw [send, record_server]
  exact Server.write_sent hopen envelope

theorem finishHandshake_server {p : Peer} (hopen : p.server.closed = false) (keep : Bool)
    (r : Response) :
    (p.finishHandshake keep r).server = p.server.sent (p.session.greetingReplies r) := by
  rw [finishHandshake, Session.greetingReplies]
  cases r.outcome with
  | error e => exact (Server.sent_nil p.server).symm
  | ok result =>
      dsimp only
      split
      · exact (Server.sent_nil p.server).symm
      · split
        · exact (Server.sent_nil p.server).symm
        · let s : Session :=
            { p.session with info := some (.ofResult result), status := .connected }
          exact send_server (p := { p with session := s }) hopen keep _

theorem finishSession_session (keep : Bool) (p : Peer) :
    (p.finishSession keep).session = p.session :=
  notify_session keep p Lifecycle.leaving.method .null

theorem finishSession_server {p : Peer} (hopen : p.server.closed = false) (keep : Bool) :
    (p.finishSession keep).server =
      { p.server.sent [Envelope.notification Lifecycle.leaving.method .null] with
        closed := true } :=
  congrArg Server.close (send_server hopen keep _)

theorem receiveResponse_heard (keep : Bool) {p : Peer} (hopen : p.server.closed = false)
    (r : Response) :
    p.Heard [.response r] (p.receiveResponse keep r).1 (p.receiveResponse keep r).2 := by
  have hanswers : p.answered? r = p.session.answered? r := rfl
  have hquiet : p.server = { p.server.sent [] with closed := false } := by
    rw [Server.sent_open hopen, Server.sent_nil]
  rw [receiveResponse, hanswers]
  cases hsome : p.session.answered? r with
  | none =>
      refine heard_message ?_ ?_
      · rw [Session.hears, hsome]
      · rw [Session.replies, hsome]
        exact hquiet
  | some entry =>
      let retired : Peer := { p with session := p.session.retire entry.id }
      have hretired : retired.server.closed = false := hopen
      dsimp only
      split
      · next hopening =>
          refine heard_message ?_ ?_
          · rw [Session.hears, hsome, finishHandshake_session]
            simp only [if_pos hopening]
          · rw [Session.replies, hsome]
            simp only [if_pos hopening]
            exact (finishHandshake_server hretired keep r).trans (Server.sent_open hopen _).symm
      · next hopening =>
          split
          · next hending =>
              refine heard_message ?_ ?_
              · rw [Session.hears, hsome, finishSession_session]
                simp only [if_neg hopening, if_pos hending]
              · rw [Session.replies, hsome]
                simp only [if_neg hopening, if_pos hending]
                exact finishSession_server hretired keep
          · next hending =>
              refine heard_message ?_ ?_
              · rw [Session.hears, hsome]
                simp only [if_neg hopening, if_neg hending]
                rfl
              · rw [Session.replies, hsome]
                simp only [if_neg hopening, if_neg hending]
                exact hquiet

theorem receiveMessage_heard (keep : Bool) {p : Peer} (hopen : p.server.closed = false)
    (m : Incoming) : p.Heard [m] (p.receiveMessage keep m).1 (p.receiveMessage keep m).2 := by
  cases m with
  | response r => exact receiveResponse_heard keep hopen r
  | request id method params =>
      refine heard_message ?_ ?_
      · show (p.session, false) = ((p.send keep _).2.session, false)
        rw [send_session]
      · exact (send_server hopen keep _).trans (Server.sent_open hopen _).symm
  | notification method params =>
      refine heard_message rfl ?_
      exact (Server.sent_nil p.server).symm.trans (Server.sent_open hopen []).symm

theorem receiveBody_heard (keep : Bool) {p : Peer} (hopen : p.server.closed = false)
    (body : List UInt8) :
    p.Heard (bodyMessage? body).toList (p.receiveBody keep body).1 (p.receiveBody keep body).2 := by
  rw [receiveBody, bodyMessage?]
  cases Utf8.text? body with
  | none => exact heard_nothing hopen rfl rfl
  | some text =>
      rw [Option.bind_some]
      dsimp only
      cases messageOf? text with
      | none => exact heard_nothing hopen (record_session ..) (record_server ..)
      | some m =>
          have hrecorded : (p.record keep .incoming text).server.closed = false := by
            rw [record_server]
            exact hopen
          obtain ⟨houtcome, hserver⟩ := receiveMessage_heard keep hrecorded m
          rw [record_session] at houtcome hserver
          rw [record_server] at hserver
          exact ⟨houtcome, hserver⟩

/-- The messages among bodies. -/
def messagesIn (bodies : List (List UInt8)) : List Incoming :=
  bodies.filterMap bodyMessage?

theorem messagesIn_append (bodies later : List (List UInt8)) :
    messagesIn (bodies ++ later) = messagesIn bodies ++ messagesIn later :=
  List.filterMap_append

theorem receiveAll_heard (keep : Bool) (bodies : List (List UInt8)) :
    ∀ {p : Peer}, p.server.closed = false →
      p.Heard (messagesIn bodies) (p.receiveAll keep (bodies.map .ok)).1
        (p.receiveAll keep (bodies.map .ok)).2 := by
  induction bodies with
  | nil =>
      intro p hopen
      exact heard_nothing hopen rfl rfl
  | cons body bodies ih =>
      intro p hopen
      have hsplit : messagesIn (body :: bodies) =
          (bodyMessage? body).toList ++ messagesIn bodies := by
        rw [messagesIn, List.filterMap_cons]
        cases bodyMessage? body <;> rfl
      have hbody := receiveBody_heard keep hopen body
      rw [hsplit, List.map_cons, receiveAll]
      cases hreceived : p.receiveBody keep body with
      | mk q ended =>
          rw [hreceived] at hbody
          cases ended with
          | true => exact hbody.of_ended _
          | false =>
              have hstill : q.server.closed = false := by rw [hbody.server]
              exact hbody.append (ih hstill)

/-! ### Bodies that say nothing -/

/-- Whether a body says nothing to a session that has issued some numbers: it
is no message, or it is a stray. -/
def isJunk (issued : List RequestId) (body : List UInt8) : Bool :=
  match bodyMessage? body with
  | none => true
  | some m => m.isStray issued

theorem messagesIn_filter (issued : List RequestId) (bodies : List (List UInt8)) :
    messagesIn (bodies.filter fun body => !isJunk issued body) =
      (messagesIn bodies).filter fun m => !m.isStray issued := by
  induction bodies with
  | nil => rfl
  | cons body bodies ih =>
      rw [messagesIn, messagesIn, List.filter_cons, List.filterMap_cons, isJunk]
      cases hbody : bodyMessage? body with
      | none => exact ih
      | some m =>
          by_cases hstray : m.isStray issued = true
          · simpa [hstray, messagesIn] using ih
          · simpa [hstray, hbody, messagesIn] using ih

theorem alike_of_meaning {s : Session} {issued : List RequestId} (h : s.WaitsFor issued)
    {bodies bodies' : List (List UInt8)}
    (hsame : bodies.filter (fun body => !isJunk issued body) =
      bodies'.filter fun body => !isJunk issued body) :
    s.hearAll (messagesIn bodies) = s.hearAll (messagesIn bodies') ∧
      s.repliesAll (messagesIn bodies) = s.repliesAll (messagesIn bodies') := by
  -- both come to what is heard when the strays are left out
  obtain ⟨hhears, hreplies⟩ := Session.hearAll_of_strays (messagesIn bodies) h
  obtain ⟨hhears', hreplies'⟩ := Session.hearAll_of_strays (messagesIn bodies') h
  rw [← messagesIn_filter] at hhears hreplies hhears' hreplies'
  rw [hhears, hhears', hreplies, hreplies', hsame]
  exact ⟨rfl, rfl⟩

/-! ## One read -/

/-- What a frame buffer hands out, as a message. -/
def resultMessage? : Wire.FrameResult → Option Incoming
  | .ok body => bodyMessage? body
  | .error _ => none

theorem filterMap_resultMessage? (bodies : List (List UInt8)) :
    (bodies.map Except.ok).filterMap resultMessage? = messagesIn bodies := by
  rw [List.filterMap_map]
  rfl

/-- The tries to write in one read, and whether they fail. -/
def pumpTries (p : Peer) : List Bool :=
  if p.session.outputEnded then []
  else
    (p.session.repliesAll (p.fetchedFrames.filterMap resultMessage?)).map
      fun _ => p.server.writeFailure.isSome

/-- A session that has heard what has arrived, in front of bodies that its
server says, when some octets will still be said. -/
structure Attends (p : Peer) (ended : Bool) (ahead : List UInt8) (bodies : List (List UInt8)) :
    Prop where
  opened : p.server.closed = false
  output : p.server.outputEnded = ended
  awaits : p.session.frames.Awaits (p.server.output.flatten ++ ahead) bodies
  drained : p.session.frames.next = (none, p.session.frames)
  atEnd : p.session.outputEnded = true → ended = true ∧ p.server.output = []
  size : ∀ body ∈ bodies, body.length ≤ Wire.maxMessageSize

theorem Attends.congr {p q : Peer} {ended : Bool} {ahead : List UInt8}
    {bodies : List (List UInt8)} (h : p.Attends ended ahead bodies)
    (hsession : q.session = p.session) (hserver : q.server = p.server) :
    q.Attends ended ahead bodies := by
  obtain ⟨t, w, records⟩ := q
  cases hsession
  cases hserver
  exact ⟨h.opened, h.output, h.awaits, h.drained, h.atEnd, h.size⟩

theorem Attends.emit {p : Peer} {chunk ahead : List UInt8} {bodies : List (List UInt8)}
    (h : p.Attends false (chunk ++ ahead) bodies) :
    { p with server := p.server.emit chunk }.Attends false ahead bodies where
  opened := h.opened
  output := h.output
  awaits := by
    show p.session.frames.Awaits ((p.server.output ++ [chunk]).flatten ++ ahead) bodies
    simpa using h.awaits
  drained := h.drained
  atEnd hended := nomatch (h.atEnd hended).1
  size := h.size

theorem Attends.endOutput {p : Peer} {ended : Bool} {ahead : List UInt8}
    {bodies : List (List UInt8)} (h : p.Attends ended ahead bodies) :
    { p with server := p.server.endOutput }.Attends true ahead bodies :=
  ⟨h.opened, rfl, h.awaits, h.drained, fun hended => ⟨rfl, (h.atEnd hended).2⟩, h.size⟩

theorem Attends.failWrites {p : Peer} {ended : Bool} {ahead : List UInt8}
    {bodies : List (List UInt8)} (h : p.Attends ended ahead bodies)
    (failure : Option SystemError) :
    { p with server := { p.server with writeFailure := failure } }.Attends ended ahead bodies :=
  ⟨h.opened, h.output, h.awaits, h.drained, h.atEnd, h.size⟩

/-- A read takes a chunk and hands out the bodies that it completes. -/
theorem Attends.fetched {p : Peer} {ended : Bool} {ahead : List UInt8}
    {bodies : List (List UInt8)} (h : p.Attends ended ahead bodies)
    (hreads : p.session.outputEnded = false) :
    ∃ out rest, bodies = out ++ rest ∧ p.fetchedFrames = out.map .ok ∧
      p.fetched.Attends ended ahead rest ∧
      p.fetched.server = { p.server with output := p.server.output.tail } ∧
      p.fetched.session.bare = p.session.bare := by
  obtain ⟨s, ⟨command, args, process, output, writes, outputEnded, failure, closed⟩, records⟩ := p
  obtain rfl : closed = false := h.opened
  have hstill : s.outputEnded ≠ true := by simpa using hreads
  cases output with
  | cons chunk output =>
      have hawaits : (s.frames.extend chunk).Awaits (output.flatten ++ ahead) bodies := by
        refine Wire.FrameBuffer.Awaits.extend ?_
        have hheld := h.awaits
        rwa [List.flatten_cons, List.append_assoc] at hheld
      obtain ⟨out, rest, rfl, hout, hrest⟩ := hawaits.drain_ahead h.size
      refine ⟨out, rest, rfl, hout, ?_, rfl, rfl⟩
      exact
        { opened := rfl
          output := h.output
          awaits := hrest
          drained := Wire.FrameBuffer.next_drain _
          atEnd := fun hended => absurd hended hstill
          size := fun body hbody => h.size body (List.mem_append_right out hbody) }
  | nil =>
      -- no chunk waits, so nothing new is handed out, but the end may be noticed
      have hdrain : s.frames.drain = ([], s.frames) := Wire.FrameBuffer.drain_of_none h.drained
      have hnone : s.frames.drain.1 = [] := by rw [hdrain]
      have hawaits : s.frames.drain.2.Awaits ahead bodies := by
        rw [hdrain]
        exact h.awaits
      cases outputEnded with
      | false =>
          refine ⟨[], bodies, rfl, hnone, ?_, rfl, rfl⟩
          exact
            { opened := rfl
              output := h.output
              awaits := hawaits
              drained := Wire.FrameBuffer.next_drain _
              atEnd := fun hended => absurd hended hstill
              size := h.size }
      | true =>
          refine ⟨[], bodies, rfl, hnone, ?_, rfl, rfl⟩
          exact
            { opened := rfl
              output := h.output
              awaits := hawaits
              drained := Wire.FrameBuffer.next_drain _
              atEnd := fun _ => ⟨h.output.symm, rfl⟩
              size := h.size }

/-- Hearing takes nothing from what waits. -/
theorem Attends.hear {p q : Peer} {ended : Bool} {ahead : List UInt8}
    {bodies : List (List UInt8)} {ms : List Incoming} (h : p.Attends ended ahead bodies)
    (hheard : p.Heard ms q false) :
    q.Attends ended ahead bodies ∧ q.server.output = p.server.output := by
  obtain ⟨hframes, hreads⟩ := p.session.hearAll_frames ms
  rw [hheard.outcome] at hframes hreads
  refine ⟨?_, by rw [hheard.server]; rfl⟩
  constructor
  · rw [hheard.server]
  · rw [hheard.server]
    exact h.output
  · rw [hheard.server, hframes]
    exact h.awaits
  · rw [hframes]
    exact h.drained
  · rw [hheard.server, hreads]
    exact h.atEnd
  · exact h.size

end Peer

end LspClient
