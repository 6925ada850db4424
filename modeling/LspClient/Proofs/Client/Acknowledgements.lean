import LspClient.Proofs.Client.Custody
import LspClient.Proofs.Client.Exchanges
import LspClient.Proofs.Json.Nesting
import LspClient.Proofs.Message.DistinctKeys

/-!
# Requests of a server are acknowledged

A server that asks for something is answered with `null`, at once and by one
message, and nothing else happens: the session is what it was. The answer bears the
identifier of the request.

That the identifier comes through is a matter of three limits. It was read, so its
objects have distinct keys and its containers nest no deeper than a text may; in the
answer it stands one level deep, as it did in the request, so the answer can be read
again whatever was used of the depth. The third limit is not kept. A numeral may be
too large for a float and is read as an infinite one, for which a text has no
spelling, so `null` is written in its place. The identifier comes back as it was
exactly if all its floats are finite (`same`).
-/

namespace LspClient

open Json (Value Members)

/-- A body that asks for something: an object with a textual method, and with an
identifier that is not `null`. -/
structure Asks (body : List UInt8) (id : Value) : Prop where
  reads : ∃ text members method, Utf8.text? body = some text ∧
    Json.decode text = .ok (.object members) ∧
    Members.get? members "method" = some (.string method) ∧
    Members.get? members "id" = some id
  known : id ≠ .null

/-- An answer that grants a request and tells nothing. -/
structure Acknowledgement (id answer : Value) : Prop where
  isObject : answer.isObject = true
  /-- the identifier of the request, as far as there is a spelling for it -/
  echo : answer.member? "id" = some id.inJson
  same : answer.member? "id" = some id ↔ id.hasFiniteFloats = true
  result : answer.member? "result" = some .null
  noMethod : answer.member? "method" = none
  noError : answer.member? "error" = none

/-- A peer before and after it was asked for something. One message is written, and
it is read as an acknowledgement. -/
structure Peer.Acknowledges (p q : Peer) (id : Value) : Prop where
  session : q.session = p.session
  written : ∃ text answer,
    q.server = { p.server with writes := p.server.writes ++ [Wire.frameText text] } ∧
    Json.decode text = .ok answer ∧ Acknowledgement id answer

/-! ## The answer -/

theorem acknowledgement_of_response (id : Value) :
    Acknowledgement id (Envelope.response id.inJson .null) where
  isObject := rfl
  echo := rfl
  same := by
    show some id.inJson = some id ↔ _
    rw [Option.some.injEq]
    exact ⟨id.finite_of_inJson, id.inJson_of_finite⟩
  result := rfl
  noMethod := rfl
  noError := rfl

theorem decode_response {id : Value} (hkeys : id.hasDistinctKeys = true)
    (hdepth : id.depth + 1 ≤ Json.maxDepth) :
    Json.decode (Json.encode (Envelope.response id .null)) =
      .ok (Envelope.response id.inJson .null) := by
  have hresponse : (Envelope.response id .null).depth ≤ Json.maxDepth := by
    simpa [Envelope.response, Envelope.version, Value.depth, Value.depthOfMembers] using hdepth
  exact Json.decode_of_shallow (Envelope.distinct_response hkeys rfl) hresponse

theorem Asks.message {body : List UInt8} {id : Value} (h : Asks body id) :
    (∃ method params, Peer.bodyMessage? body = some (.request id method params)) ∧
      id.hasDistinctKeys = true ∧ id.depth + 1 ≤ Json.maxDepth := by
  obtain ⟨⟨text, members, method, htext, hdecode, hmethod, hid⟩, hknown⟩ := h
  have hmember : (Value.object members).member? "id" = some id := hid
  have hclassify : Incoming.classify? (.object members) =
      some (.request id method ((Value.object members).member "params")) := by
    have hmethod' : (Value.object members).member "method" = .string method := by
      rw [Value.member, Value.member?, Value.members?, Option.bind_some, hmethod]
      rfl
    have hid' : (Value.object members).member "id" = id := by rw [Value.member, hmember]; rfl
    rw [Incoming.classify?, hmethod', hid']
    cases id with
    | null => exact absurd rfl hknown
    | _ => rfl
  refine ⟨⟨method, (Value.object members).member "params", ?_⟩, ?_, ?_⟩
  · rw [Peer.bodyMessage?, htext, Option.bind_some, Peer.messageOf?, hdecode]
    exact hclassify
  · exact Value.distinct_of_member? (Json.distinct_of_decode hdecode) hmember
  · exact Nat.le_trans (Value.depth_of_member? hmember) (Json.depth_of_decode hdecode)

namespace Peer

variable {keep : Bool} {p q : Peer}

theorem receiveBody_acknowledges (hopen : p.server.closed = false)
    (hwrites : p.server.writeFailure = none) {body : List UInt8} {id : Value}
    (hasks : Asks body id) (keep : Bool) :
    ∃ q, p.receiveBody keep body = (q, false) ∧ p.Acknowledges q id := by
  obtain ⟨⟨method, params, hmessage⟩, hkeys, hdepth⟩ := hasks.message
  obtain ⟨houtcome, hserver⟩ := receiveBody_heard keep hopen body
  rw [hmessage, Option.toList_some, Session.hearAll_singleton] at houtcome
  rw [hmessage, Option.toList_some, Session.repliesAll_singleton] at hserver
  obtain ⟨hsession, hended⟩ := Prod.mk.inj houtcome
  refine ⟨(p.receiveBody keep body).1, Prod.ext rfl hended.symm, hsession.symm, _, _, ?_,
    decode_response hkeys hdepth, acknowledgement_of_response id⟩
  rw [hserver, ← hended, Server.sent_open hopen, Server.sent_written hwrites]
  rfl

/-! ## The read that it belongs to -/

theorem receiveAll_append {before : List Wire.FrameResult} (later : List Wire.FrameResult) :
    ∀ {p : Peer}, p.receiveAll keep before = (q, false) →
      p.receiveAll keep (before ++ later) = q.receiveAll keep later := by
  induction before with
  | nil =>
      intro p h
      rw [(Prod.mk.inj h).1.symm]
      rfl
  | cons result before ih =>
      intro p h
      cases result with
      | error e => exact ih h
      | ok body =>
          rw [receiveAll] at h
          rw [List.cons_append, receiveAll]
          cases hbody : p.receiveBody keep body with
          | mk r ended =>
              rw [hbody] at h
              cases ended with
              | true => cases h
              | false => exact ih h

/-- As long as the session has not ended, its server can be written to if it could
be. -/
theorem receiveAll_open {before : List Wire.FrameResult} (hopen : p.server.closed = false)
    (h : p.receiveAll keep before = (q, false)) :
    q.server.closed = false ∧ q.server.writeFailure = p.server.writeFailure := by
  rw [receiveAll_bodiesIn] at h
  have hheard := receiveAll_heard keep (bodiesIn before) hopen
  rw [h] at hheard
  rw [hheard.server]
  exact ⟨rfl, rfl⟩

end Peer

namespace Client

/-- A registered session whose server can be written to, when a read comes to a body
that asks for something. -/
theorem acknowledged_of_run (settings : Settings) (processId : Nat) (launcher : Launcher)
    (operations : List Operation) {index : Nat} {s : Session} {v : Server}
    (hlink : ((initial settings processId launcher).run operations).links[index]? =
      some ⟨v, some s⟩)
    (hwrites : v.writeFailure = none) {keep : Bool} {before : List Wire.FrameResult}
    {asked : Peer}
    (hbefore : (Peer.fetched { session := s, server := v }).receiveAll keep before =
      (asked, false))
    {body : List UInt8} {id : Value} (hasks : Asks body id) :
    ∃ answered : Peer, asked.receiveBody keep body = (answered, false) ∧
      asked.Acknowledges answered id ∧
      ∀ after, (Peer.fetched { session := s, server := v }).receiveAll keep
        (before ++ .ok body :: after) = answered.receiveAll keep after := by
  have hheld := (allHeld_initial settings processId launcher).run operations
    (ordered_initial settings processId launcher)
  have hopen : v.closed = false := hheld.1 _ (List.mem_of_getElem? hlink)
  obtain ⟨output, hserver⟩ := Peer.fetched_server { session := s, server := v }
  obtain ⟨hstill, hfailure⟩ := Peer.receiveAll_open (by rw [hserver]; exact hopen) hbefore
  have hwritable : asked.server.writeFailure = none := by
    rw [hfailure, hserver]
    exact hwrites
  obtain ⟨answered, hbody, hanswered⟩ :=
    Peer.receiveBody_acknowledges hstill hwritable hasks keep
  refine ⟨answered, hbody, hanswered, fun after => ?_⟩
  rw [Peer.receiveAll_append (.ok body :: after) hbefore, Peer.receiveAll, hbody]

/-- A server that was just started and has not answered the handshake. -/
def unanswered : Client :=
  (initial { capabilities := .none } 0 {}).run [.connect "server" {}]

/-- An identifier of several levels, with a float that is a negative zero. -/
def nestedId : Value :=
  .array [.object [("é", .float (.ofMagnitude true 0))], .integer (-1)]

/-- Something is asked for while the handshake waits, behind octets that are no
frame and a body that is no text. -/
theorem acknowledged_of_nestedId :
    ∃ s v asked answered,
      unanswered.links[0]? = some ⟨v, some s⟩ ∧ v.writeFailure = none ∧
      (Peer.fetched { session := s, server := v }).receiveAll true
        [.error .headerTooLarge, .ok [255]] = (asked, false) ∧
      Asks (Utf8.octets (Json.encode
        (.object [("id", nestedId), ("method", .string "m")]))) nestedId ∧
      asked.Acknowledges answered nestedId := by
  obtain ⟨s, v, hlink, hwrites⟩ : ∃ s v, unanswered.links[0]? = some ⟨v, some s⟩ ∧
      v.writeFailure = none := ⟨_, _, rfl, rfl⟩
  have hasks : Asks (Utf8.octets (Json.encode
      (.object [("id", nestedId), ("method", .string "m")]))) nestedId :=
    ⟨⟨_, _, "m", Utf8.text?_octets _, Json.decode_of_finite (by decide) (by decide) (by decide),
      rfl, rfl⟩, nofun⟩
  have hbefore : (Peer.fetched { session := s, server := v }).receiveAll true
      [.error .headerTooLarge, .ok [255]] = (Peer.fetched { session := s, server := v }, false) :=
    rfl
  obtain ⟨answered, -, hanswered, -⟩ :=
    acknowledged_of_run { capabilities := .none } 0 {} [.connect "server" {}] hlink hwrites hbefore
      hasks
  exact ⟨s, v, _, answered, hlink, hwrites, hbefore, hasks, hanswered⟩

/-! ## A numeral that is too large -/

/-- A request whose identifier is too large for a float. -/
def hugeRequest : String := "\x7b\"id\": 1e400, \"method\": \"m\"\x7d"

/-- Whether what was read is such a request. -/
def isHuge : Except Json.DecodeError Value → Bool
  | .ok (.object [(idKey, .float x), (methodKey, .string _)]) =>
      idKey == "id" && methodKey == "method" && !x.isFinite
  | _ => false

theorem asks_hugeRequest : ∃ x : Binary64, x.isFinite = false ∧
    Asks (Utf8.octets hugeRequest) (.float x) := by
  have hread : isHuge (Json.decode hugeRequest) = true := by decide +kernel
  unfold isHuge at hread
  split at hread
  · next idKey x methodKey method hdecode =>
      simp only [Bool.and_eq_true, beq_iff_eq, Bool.not_eq_true'] at hread
      obtain ⟨⟨rfl, rfl⟩, hinfinite⟩ := hread
      exact ⟨x, hinfinite,
        ⟨_, _, method, Utf8.text?_octets _, hdecode, rfl, rfl⟩, nofun⟩
  · cases hread

/-- Not every identifier comes back as it was read. -/
theorem not_all_echoed : ¬ ∀ (settings : Settings) (processId : Nat) (launcher : Launcher)
    (operations : List Operation) (index : Nat) (s : Session) (v : Server),
    ((initial settings processId launcher).run operations).links[index]? = some ⟨v, some s⟩ →
    v.writeFailure = none →
    ∀ (keep : Bool) (before : List Wire.FrameResult) (asked : Peer),
    (Peer.fetched { session := s, server := v }).receiveAll keep before = (asked, false) →
    ∀ (body : List UInt8) (id : Value), Asks body id →
    ∃ answered text answer, asked.receiveBody keep body = (answered, false) ∧
      answered.server =
        { asked.server with writes := asked.server.writes ++ [Wire.frameText text] } ∧
      Json.decode text = .ok answer ∧ answer.member? "id" = some id := by
  intro hall
  obtain ⟨x, hinfinite, hasks⟩ := asks_hugeRequest
  obtain ⟨s, v, hlink, hwrites, hopen⟩ : ∃ s v, unanswered.links[0]? = some ⟨v, some s⟩ ∧
      v.writeFailure = none ∧ v.closed = false := ⟨_, _, rfl, rfl, rfl⟩
  let p := Peer.fetched { session := s, server := v }
  obtain ⟨answered, text, answer, hreceived, hserver, hdecode, hecho⟩ :=
    hall { capabilities := .none } 0 {} [.connect "server" {}] 0 s v hlink hwrites false [] p rfl
      _ _ hasks
  obtain ⟨output, hfetched⟩ := Peer.fetched_server { session := s, server := v }
  obtain ⟨q, hreceived', hacknowledges⟩ := Peer.receiveBody_acknowledges (p := p)
    (by rw [hfetched]; exact hopen) (by rw [hfetched]; exact hwrites) hasks false
  obtain ⟨text', answer', hserver', hdecode', hanswer⟩ := hacknowledges.written
  -- both speak of the one message that was written
  obtain rfl : answered = q := (Prod.mk.inj (hreceived.symm.trans hreceived')).1
  have hwritten := congrArg Server.writes (hserver.symm.trans hserver')
  have hsame := List.singleton_inj.1 (List.append_cancel_left hwritten)
  obtain rfl := Wire.frameText_inj hsame
  obtain rfl := Except.ok.inj (hdecode.symm.trans hdecode')
  have hfinite := hanswer.same.1 hecho
  rw [Value.hasFiniteFloats, hinfinite] at hfinite
  cases hfinite

end Client

end LspClient
