import LspClient.Proofs.Client.OutputEnd
import LspClient.Proofs.Client.Readback
import LspClient.Proofs.Session.Opening
import LspClient.Proofs.Session.Requests

/-!
# A server introduces itself

A server that is asked for the handshake reads what it was sent, looks up the number
of the request and answers with its name, its version and its capabilities. One read
later the session is connected and knows all three as the server wrote them, nothing
waits any more, and the server has been told that the client is ready, if it can be
written to.

Nothing may be in the way (`Client.Expects`). The session is connecting and its end
was not asked for, so the request for the handshake is all that waits
(`Session.Opening`). No octets are left over from an earlier frame, no chunk is ahead
of the answer, and the output has not ended. That the session has not seen an end
need not be said, since there is none (`sees_of_run`).
-/

namespace LspClient

open Json (Value Members)

/-! ## The number that is answered -/

theorem isRequestFor_inJson (envelope : Value) (method : String) :
    Server.isRequestFor method envelope.inJson =
      (Envelope.method? envelope == some method && !(envelope.member "id").inJson.isNull) := by
  rw [Server.isRequestFor, Value.member_inJson, Value.member_inJson, Value.string?_inJson]
  rfl

/-- The request for the handshake is the latest of its kind. -/
theorem lastRequest?_of_asked {v : Server} {passed : List Passage}
    (h : v.ReadsBack (writtenOf passed)) (hasked : AskedFirst passed) :
    v.lastRequest? Lifecycle.opening.method = some 1 := by
  obtain ⟨params, later, rfl, hlater⟩ := hasked
  let request := Envelope.request .first Lifecycle.opening.method params
  have hmessages : v.messages = request.inJson :: (writtenOf later).map Value.inJson := h.messages
  have hnone : (((writtenOf later).map Value.inJson).reverse.find?
      (Server.isRequestFor Lifecycle.opening.method)) = none := by
    refine List.find?_eq_none.2 fun message hmessage => ?_
    obtain ⟨envelope, henvelope, rfl⟩ := List.mem_map.1 (List.mem_reverse.1 hmessage)
    obtain ⟨x, hx, hwritten⟩ := List.mem_filterMap.1 henvelope
    cases x with
    | handled body => cases hwritten
    | tried caller other written =>
        cases written <;> cases hwritten
        rw [isRequestFor_inJson, beq_false_of_ne (hlater caller envelope true hx)]
        exact Bool.false_ne_true
  have hfirst : Server.isRequestFor Lifecycle.opening.method request.inJson = true := by
    rw [isRequestFor_inJson, Envelope.member_id_request]
    rfl
  rw [Server.lastRequest?, hmessages, List.reverse_cons, List.find?_append, hnone, Option.none_or,
    List.find?_cons_of_pos hfirst, Option.bind_some, Value.member_inJson,
    Envelope.member_id_request]
  rfl

/-! ## One read -/

/-- The answer to the handshake. -/
def introduction (name version : String) (capabilities : Value) : Value :=
  Envelope.response (.integer 1) (Server.acceptance name version capabilities)

/-- What a server says of itself, as it is kept. -/
def introduced (name version : String) (capabilities : Value) : ServerInfo where
  name := some name
  version := some version
  capabilities := capabilities.members?.getD []

theorem bodyMessage?_introduction {name version : String} {capabilities : Value}
    (hkeys : capabilities.hasDistinctKeys = true) (hfloats : capabilities.hasFiniteFloats = true)
    (hdepth : (introduction name version capabilities).depth ≤ Json.maxDepth) :
    Peer.bodyMessage? (Utf8.octets (Json.encode (introduction name version capabilities))) =
      some (.response ⟨.integer 1, Server.acceptance name version capabilities, none⟩) := by
  have hdistinct : (introduction name version capabilities).hasDistinctKeys = true := by
    simp [introduction, Envelope.response, Server.acceptance, Envelope.version,
      Value.hasDistinctKeys, Value.distinctInMembers, Members.keys, hkeys]
  have hfinite : (introduction name version capabilities).hasFiniteFloats = true := by
    simp [introduction, Envelope.response, Server.acceptance, Envelope.version,
      Value.hasFiniteFloats, Value.finiteInMembers, hfloats]
  rw [Peer.bodyMessage?, Utf8.text?_octets, Option.bind_some, Peer.messageOf?,
    Json.decode_of_finite hdistinct hfinite hdepth]
  rfl

namespace Peer

/-- A read of one whole frame, when nothing is left over from an earlier one. -/
theorem fetched_frame {p : Peer} {body : List UInt8} (hopen : p.server.closed = false)
    (hframes : p.session.frames = .empty) (houtput : p.server.output = [Wire.frame body])
    (hsize : body.length ≤ Wire.maxMessageSize) :
    p.fetchedFrames = [.ok body] ∧ p.fetched.session = p.session ∧
      p.fetched.server = { p.server with output := [] } := by
  have hread : p.readChunk = ({ p with
      server := { p.server with output := [] },
      session := { p.session with frames := p.session.frames.extend (Wire.frame body) } }, true) := by
    rw [readChunk, Server.read, if_neg (by simp [hopen]), houtput]
  have hawaits : (p.session.frames.extend (Wire.frame body)).Awaits [] [body] := by
    rw [hframes]
    show [] ++ Wire.frame body ++ [] = Wire.frames [body]
    rw [List.nil_append, List.append_nil, Wire.frames, List.flatMap_singleton]
  have hdrain := hawaits.drain (List.forall_mem_singleton.2 hsize)
  have hsession : { p.session with frames := .empty } = p.session := by rw [← hframes]
  rw [fetchedFrames, fetched, hread]
  dsimp only
  rw [hdrain]
  exact ⟨rfl, hsession, rfl⟩

/-- One read of a session whose server has answered the handshake and said nothing
else. -/
theorem pump_introduced {p : Peer} {body : List UInt8} {result : Value}
    (hopen : p.server.closed = false) (hgoing : p.session.outputEnded = false)
    (hframes : p.session.frames = .empty) (houtput : p.server.output = [Wire.frame body])
    (hsize : body.length ≤ Wire.maxMessageSize)
    (hbody : bodyMessage? body = some (.response ⟨.integer 1, result, none⟩))
    (hconnecting : p.session.status = .connecting) (hclosing : p.session.closing = false)
    {entry : PendingRequest} (hwaits : p.session.pending? .first = some entry)
    (hmethod : entry.method = Lifecycle.opening.method) (keep : Bool) :
    (p.pump keep).finished = false ∧
      (p.pump keep).peer.session =
        { p.session.retire .first with info := some (.ofResult result), status := .connected } ∧
      (p.pump keep).peer.server.writes = p.server.writes ++
        if p.server.writeFailure.isSome then []
        else [Envelope.wire (Envelope.notification Lifecycle.ready.method (.object []))] := by
  let r : Response := ⟨.integer 1, result, none⟩
  obtain ⟨hresults, hsession, hserver⟩ := fetched_frame hopen hframes houtput hsize
  have hanswers : p.session.answered? r = some entry := hwaits
  have hfirst : entry.id = .first := Session.id_of_pending? hwaits
  have hstill : (p.session.retire .first).status = .connecting := hconnecting
  have hwent : (p.session.retire .first).closing = false := hclosing
  have hhears : p.session.hears (.response r) =
      ({ p.session.retire .first with info := some (.ofResult result), status := .connected },
        false) := by
    rw [Session.hears, hanswers]
    dsimp only
    rw [if_pos hmethod, hfirst, Session.greeted]
    simp [r, Response.outcome, hstill, hwent]
  have hreplies : p.session.replies (.response r) =
      [Envelope.notification Lifecycle.ready.method (.object [])] := by
    rw [Session.replies, hanswers]
    dsimp only
    rw [if_pos hmethod, Session.greetingReplies]
    simp [r, Response.outcome, hconnecting, hclosing]
  have hfetched : p.fetched.server.closed = false := by
    rw [hserver]
    exact hopen
  have hmessages : messagesIn [body] = [.response r] := by
    rw [messagesIn, List.filterMap_cons, hbody]
    rfl
  obtain ⟨houtcome, hwritten⟩ := receiveAll_heard keep [body] hfetched
  rw [hmessages, hsession, Session.hearAll_singleton, hhears] at houtcome
  rw [hmessages, hsession, Session.repliesAll_singleton, hreplies, hserver] at hwritten
  obtain ⟨hsame, hfinished⟩ := Prod.mk.inj houtcome
  rw [pump_of_open hgoing, hresults]
  refine ⟨hfinished.symm, hsame.symm, ?_⟩
  show (p.fetched.receiveAll keep ([body].map .ok)).1.server.writes = _
  rw [hwritten]
  rfl

end Peer

/-! ## The answer and the read -/

/-- A session whose handshake waits, at a server that has nothing to say but the
answer. -/
structure Client.Expects (c : Client) (index : Nat) (s : Session) (v : Server) : Prop where
  link : c.links[index]? = some ⟨v, some s⟩
  connecting : s.status = .connecting
  /-- the handshake is not answered -/
  waits : ∃ entry ∈ s.pending, entry.method = Lifecycle.opening.method
  /-- the end of the session was not asked for -/
  going : s.closing = false
  /-- no frame is half read -/
  boundary : s.frames = .empty
  silent : v.output = []
  talking : v.outputEnded = false

/-- A server that is known to the client, and knows that the client is ready if it
could be told. -/
structure Client.Introduced (d : Client) (index : Nat) (s : Session) (v : Server)
    (info : ServerInfo) : Prop where
  status : d.status s.id = .connected
  info : d.serverInfo? s.id = some info
  retired : d.pendingRequests s.id = []
  /-- one message is written, if it can be -/
  ready : (d.server? index).map Server.writes = some (v.writes ++
    if v.writeFailure.isSome then []
    else [Envelope.wire (Envelope.notification Lifecycle.ready.method (.object []))])

/-- The handshake is what waits under the number 1, and nothing else waits. -/
theorem Session.Opening.waits {s : Session} {passed : List Passage} (h : s.Opening passed)
    (hgoing : s.closing = false) {entry : PendingRequest} (hentry : entry ∈ s.pending) :
    (∃ first, s.pending? .first = some first ∧ first.method = Lifecycle.opening.method) ∧
      (s.retire .first).pending = [] := by
  have halone := h.alone hgoing
  constructor
  · have hfound : (s.pending? .first).isSome := by
      rw [Session.pending?, List.find?_isSome]
      exact ⟨entry, hentry, by simp [(halone entry hentry).1]⟩
    obtain ⟨first, hfirst⟩ := Option.isSome_iff_exists.1 hfound
    exact ⟨first, hfirst, (halone first (List.mem_of_find?_eq_some hfirst)).2⟩
  · refine List.filter_eq_nil_iff.2 fun other hother => ?_
    simp [(halone other hother).1]

namespace Client

/-- A link after its server has answered the handshake and the client has read once. -/
theorem link_after_answer {c : Client} (hc : c.Ordered) {index : Nat} {s : Session} {v w : Server}
    (hl : c.links[index]? = some ⟨v, some s⟩) {result : Value}
    (hw : (v.answer Lifecycle.opening.method result).2 = w) :
    let d := c.run [.server index (.answer Lifecycle.opening.method result), .process]
    let pumped := Peer.pump c.settings.debug { session := s, server := w }
    d.Ordered ∧ d.links[index]? =
      some ⟨pumped.peer.server, if pumped.finished then none else some pumped.peer.session⟩ := by
  let answer : Operation := .server index (.answer Lifecycle.opening.method result)
  have hanswered : (c.step answer).2.links[index]? = some ⟨w, some s⟩ := by
    have hafter : (Link.mk v (some s)).after c.settings.debug index answer = ⟨w, some s⟩ := by
      show (if index = index then Link.mk (v.answer Lifecycle.opening.method result).2 (some s)
        else _) = _
      rw [if_pos rfl, hw]
    rw [getElem?_step hc hl, hafter]
  have hordered := hc.step answer
  have hread := getElem?_step hordered hanswered .process
  exact ⟨hordered.step .process, hread⟩

/-- A server that answers the handshake is known after one read, as it said. -/
theorem introduced_of_run {settings : Settings} {processId : Nat} {launcher : Launcher}
    {operations : List Operation} {index : Nat} {s : Session} {v : Server}
    (hexpects : ((initial settings processId launcher).run operations).Expects index s v)
    (hsettings : settings.capabilities.IsDistinct)
    (hgiven : ∀ operation ∈ operations, operation.IsDistinct)
    (hfits : ∀ e ∈ writtenOf ((initial settings processId launcher).passages index operations),
      Envelope.Fits e)
    {name version : String} {capabilities : Value}
    (hkeys : capabilities.hasDistinctKeys = true) (hfloats : capabilities.hasFiniteFloats = true)
    (hanswer : Envelope.Fits (introduction name version capabilities)) :
    Introduced
      (((initial settings processId launcher).run operations).run
        [.server index (.answer Lifecycle.opening.method
          (Server.acceptance name version capabilities)), .process])
      index s v (introduced name version capabilities) := by
  let c := (initial settings processId launcher).run operations
  let result := Server.acceptance name version capabilities
  let w := v.emitMessage (introduction name version capabilities)
  have hinitial := ordered_initial settings processId launcher
  have hheld := (allHeld_initial settings processId launcher).run operations hinitial
  have hmem := List.mem_of_getElem? hexpects.link
  -- what the server reads, and what it says
  have htold := told_of_run settings processId launcher operations hexpects.link
  have hopening := htold.life.opening s rfl hexpects.connecting
  have hreads : v.ReadsBack
      (writtenOf ((initial settings processId launcher).passages index operations)) :=
    readsBack_of_told htold (distinct_of_run operations hinitial hsettings hgiven) hfits
  have hw : (v.answer Lifecycle.opening.method result).2 = w := by
    rw [Server.answer, lastRequest?_of_asked hreads hopening.asked]
    rfl
  -- what the session makes of it
  obtain ⟨entry, hentry, -⟩ := hexpects.waits
  obtain ⟨⟨first, hfirst, hmethod⟩, hnothing⟩ := hopening.waits hexpects.going hentry
  have hopen : v.closed = false := hheld.1 _ hmem
  have hunseen : s.outputEnded = false := by
    have hsees := sees_of_run operations hinitial (allHeld_initial settings processId launcher)
      (List.forall_mem_nil _) _ hmem
    refine Bool.eq_false_iff.2 fun hended => ?_
    have hv := hsees s rfl hended
    rw [hexpects.talking] at hv
    cases hv
  have houtput : w.output =
      [Wire.frame (Utf8.octets (Json.encode (introduction name version capabilities)))] := by
    show v.output ++ _ = _
    rw [hexpects.silent]
    rfl
  obtain ⟨hfinished, hsession, hwrites⟩ :=
    Peer.pump_introduced (p := { session := s, server := w }) hopen hunseen hexpects.boundary
      houtput hanswer.size (bodyMessage?_introduction hkeys hfloats hanswer.depth)
      hexpects.connecting hexpects.going hfirst hmethod c.settings.debug
  obtain ⟨hordered, hlink⟩ := link_after_answer (hinitial.run operations) hexpects.link hw
  rw [hfinished, if_neg Bool.false_ne_true, hsession] at hlink
  have hpeer := peer?_of_getElem? hordered hlink (show _ = some s.id from rfl)
  constructor
  case status =>
    rw [status, session?_eq, hpeer]
    rfl
  case info =>
    rw [serverInfo?, session?_eq, hpeer]
    rfl
  case retired =>
    rw [pendingRequests, session?_eq, hpeer]
    exact hnothing
  case ready =>
    rw [server?, hlink]
    exact congrArg some hwrites

/-- A server that was just started, by a client with no capabilities. -/
def justStarted : Client :=
  (initial { capabilities := .none } 0 {}).run [.connect "server" {}]

theorem introduced_of_justStarted :
    ∃ s v, justStarted.Expects 0 s v ∧
      (Settings.capabilities { capabilities := .none }).IsDistinct ∧
      (∀ operation ∈ [Operation.connect "server" {}], operation.IsDistinct) ∧
      (∀ e ∈ writtenOf ((initial { capabilities := .none } 0 {}).passages 0 [.connect "server" {}]),
        Envelope.Fits e) ∧
      (Value.object [("hover", .bool true)]).hasDistinctKeys = true ∧
      (Value.object [("hover", .bool true)]).hasFiniteFloats = true ∧
      Envelope.Fits (introduction "é" "1" (.object [("hover", .bool true)])) ∧
      Introduced
        (justStarted.run [.server 0 (.answer Lifecycle.opening.method
          (Server.acceptance "é" "1" (.object [("hover", .bool true)]))), .process])
        0 s v ⟨some "é", some "1", [("hover", .bool true)]⟩ := by
  have hsettings : (Settings.capabilities { capabilities := .none }).IsDistinct := by
    intro category
    cases category <;> rfl
  have hgiven : ∀ operation ∈ [Operation.connect "server" {}], operation.IsDistinct := by decide
  have hfits : ∀ e ∈ writtenOf
      ((initial { capabilities := .none } 0 {}).passages 0 [.connect "server" {}]),
        Envelope.Fits e := by decide +kernel
  have hanswer : Envelope.Fits (introduction "é" "1" (.object [("hover", .bool true)])) := by
    decide +kernel
  obtain ⟨s, v, hexpects⟩ : ∃ s v, justStarted.Expects 0 s v := by
    refine ⟨_, _, rfl, rfl, ⟨_, List.mem_singleton_self _, rfl⟩, rfl, rfl, rfl, rfl⟩
  exact ⟨s, v, hexpects, hsettings, hgiven, hfits, rfl, rfl, hanswer,
    introduced_of_run hexpects hsettings hgiven hfits rfl rfl hanswer⟩

end Client

end LspClient
