import LspClient.Proofs.Client.Upshot
import LspClient.Proofs.Session.WireOrder

/-!
# The order of messages in every run

Whatever happens to a client, the messages that were written to any of its
servers are in order, provided that callers keep away from the methods of the
engine itself.

The traffic of a server is read off a run, operation by operation, from the link
of that server alone. The statement is kept by every operation
(`Link.Orderly.after`), it holds when a session was opened, and the traffic of a
server whose session has gone is what it was.
-/

namespace LspClient

open Json (Value)

/-- Whether an operation writes for a caller under a method that is none of the
engine's own, or not for a caller. -/
def Operation.IsFree : Operation → Prop
  | .request _ method _ => LspClient.IsFree method
  | .notify _ method _ => LspClient.IsFree method
  | _ => True

instance (operation : Operation) : Decidable operation.IsFree :=
  match operation with
  | .request _ method _ => inferInstanceAs (Decidable (IsFree method))
  | .notify _ method _ => inferInstanceAs (Decidable (IsFree method))
  | .connect .. | .close _ | .process | .takeCompletions _ | .takeNotices _ | .adjust _
  | .shutdown | .server .. | .lose _ | .failNewServers _ => inferInstanceAs (Decidable True)

theorem IsFree.ne_of_method {method : String} (h : IsFree method) {envelope : Value}
    (hmethod : Envelope.method? envelope = some method) (l : Lifecycle) :
    Envelope.method? envelope ≠ some l.method := by
  rw [hmethod, Ne, Option.some.injEq]
  cases l with
  | opening => exact h.1
  | ready => exact h.2.1
  | ending => exact h.2.2.1
  | leaving => exact h.2.2.2

/-! ## The traffic of a run -/

/-- What passes as an operation happens to a session. -/
def Peer.traffic (keep : Bool) (p : Peer) : Operation → List Traffic
  | .close _ =>
    if p.session.closing then []
    else p.server.takes (Envelope.request p.session.nextRequest Lifecycle.ending.method .null)
  | .request _ method params =>
    match p.admits with
    | .error _ => []
    | .ok () => p.server.takes (Envelope.request p.session.nextRequest method params)
  | .notify _ method params =>
    match p.admits with
    | .error _ => []
    | .ok () => p.server.takes (Envelope.notification method params)
  | .process => p.pumpTraffic keep
  | _ => []

/-- What passes at a link as an operation happens. -/
def Link.traffic (keep : Bool) (l : Link) (operation : Operation) : List Traffic :=
  match operation.scope with
  | .session id =>
    if l.id? = some id then (l.peer?.map fun p => p.traffic keep operation).getD [] else []
  | .sessions => (l.peer?.map fun p => p.traffic keep operation).getD []
  | .server .. => []
  | .nothing => []

namespace Client

/-- What passes at the server that an operation starts. -/
def openingTraffic (c : Client) : Operation → List Traffic
  | .connect command connection =>
    match c.launcher.start c.links.length command connection.args with
    | .error _ => []
    | .ok server =>
      server.takes (Envelope.request .first Lifecycle.opening.method
        (handshakeParameters c.processId c.settings connection))
  | _ => []

/-- What passes at the server with an index as an operation happens. -/
def trafficOf (index : Nat) (c : Client) (operation : Operation) : List Traffic :=
  match c.links[index]? with
  | some l => l.traffic c.settings.debug operation
  | none => if index = c.links.length then c.openingTraffic operation else []

/-- What passes at the server with an index during a run. -/
def traffic (index : Nat) (c : Client) : List Operation → List Traffic
  | [] => []
  | operation :: rest => c.trafficOf index operation ++ (c.step operation).2.traffic index rest

end Client

/-! ## One operation on one link -/

/-- A server and the session that it has after some traffic. -/
structure Link.Orderly (l : Link) (traffic : List Traffic) : Prop where
  server : l.server.InOrder traffic
  session : ∀ s, l.session = some s → s.Course traffic

namespace Session

/-- A caller's request waits. -/
theorem Course.await {s : Session} {traffic : List Traffic} (h : s.Course traffic)
    {entry : PendingRequest} (hfree : IsFree entry.method) :
    (s.await entry).Course traffic := by
  have hold : ∀ id other, (s.await entry).pending? id = some other → ¬ IsFree other.method →
      s.pending? id = some other := by
    intro id other hp hother
    rw [pending?_await] at hp
    split at hp
    · cases hp
      exact absurd hfree hother
    · exact hp
  have hkept : (s.await entry).Course (traffic ++ []) := by
    refine h.keep (fun l ⟨_, hmem, _⟩ => nomatch hmem) rfl rfl
      (fun id other hp hmethod => ⟨hold id other hp ?_, fun _ => rfl⟩)
      fun id other hp hmethod => hold id other hp ?_
    · exact fun hother => hother.1 hmethod
    · exact fun hother => hother.2.2.1 hmethod
  rwa [List.append_nil] at hkept

/-- The end of the session is asked for. -/
theorem Course.close {s : Session} {traffic : List Traffic} (h : s.Course traffic)
    (number : RequestId) (payload : String) (params : Value) :
    { s.numbered.await ⟨number, Lifecycle.ending.method, payload⟩ with closing := true }.Course
      (traffic ++
        [Traffic.wrote (Envelope.request s.nextRequest Lifecycle.ending.method params)]) := by
  have hwrote : ∀ l : Lifecycle,
      Wrote [.wrote (Envelope.request s.nextRequest Lifecycle.ending.method params)] l ↔
        Lifecycle.ending.method = l.method := by
    intro l
    rw [wrote_singleton, Envelope.method?_request, Option.some.injEq]
  refine h.extend (fun hstatus => ⟨hstatus, ?_⟩) ?_ ?_ h.accepted (fun id other hp hopening => ?_)
    fun _ _ _ _ => rfl
  · rw [hwrote]
    decide
  · exact ⟨fun _ => .inr ((hwrote _).2 rfl), fun _ => rfl⟩
  · rw [hwrote]
    decide
  · refine ⟨?_, fun _ => rfl⟩
    change (s.numbered.await _).pending? id = some other at hp
    rw [pending?_await] at hp
    split at hp
    · cases hp
      exact absurd hopening Lifecycle.ending_ne_opening
    · exact hp

end Session

/-- A session whose handshake was written. -/
theorem Peer.Opened.course {id : SessionId} {s : Session} (h : Peer.Opened id s)
    (params : Value) :
    s.Course [.wrote (Envelope.request .first Lifecycle.opening.method params)] := by
  obtain ⟨command, payload, rfl⟩ := h
  have hwrote : ∀ l : Lifecycle,
      Wrote [.wrote (Envelope.request .first Lifecycle.opening.method params)] l ↔
        Lifecycle.opening.method = l.method := by
    intro l
    rw [wrote_singleton, Envelope.method?_request, Option.some.injEq]
  have hpending : ∀ number entry,
      (Session.await { id, command } ⟨.first, Lifecycle.opening.method, payload⟩).pending? number =
        some entry → number = .first ∧ entry.method = Lifecycle.opening.method := by
    intro number entry hp
    rw [Session.pending?_await] at hp
    split at hp
    · next heq =>
        cases hp
        exact ⟨heq.symm, rfl⟩
    · cases hp
  constructor
  case begun => exact List.cons_ne_nil _ _
  case ready =>
    intro _
    rw [hwrote]
    decide
  case ending =>
    rw [hwrote]
    exact ⟨fun h => (nomatch h), fun h => absurd h (by decide)⟩
  case leaving =>
    rw [hwrote]
    decide
  case accepted => exact fun h => nomatch h
  case greeting => exact fun number entry hp _ => ⟨(hpending number entry hp).1, rfl⟩
  case granted =>
    intro number entry hp hending
    rw [(hpending number entry hp).2] at hending
    exact absurd hending.symm Lifecycle.ending_ne_opening

namespace Peer

theorem stays_orderly {q : Peer} {traffic : List Traffic} (h : q.Orderly false traffic)
    (reply : Reply) : (q.stays reply).link.Orderly traffic where
  server := h.server
  session := fun _ hs => Option.some.inj hs ▸ h.session rfl

theorem goes_orderly {q : Peer} {traffic : List Traffic} (h : q.server.InOrder traffic)
    (reply : Reply) : (q.goes reply).link.Orderly traffic where
  server := h.of_writes rfl
  session := fun _ hs => nomatch hs

/-- A request is written and waits, or it costs its number. -/
theorem request_outcome (keep : Bool) (p : Peer) (method : String) (params : Value) :
    (∃ e q, p.request keep method params = (.error e, q) ∧ q.server = p.server ∧
      q.session = p.session.numbered ∧
      p.server.takes (Envelope.request p.session.nextRequest method params) = []) ∨
    ∃ q payload, p.request keep method params = (.ok p.session.nextRequest, q) ∧
      q.server.writes = p.server.writes ++
        [Envelope.wire (Envelope.request p.session.nextRequest method params)] ∧
      q.session = p.session.numbered.await ⟨p.session.nextRequest, method, payload⟩ ∧
      p.server.takes (Envelope.request p.session.nextRequest method params) =
        [.wrote (Envelope.request p.session.nextRequest method params)] := by
  have hsession := send_session keep { p with session := p.session.numbered }
    (Envelope.request p.session.nextRequest method params)
  have hsend := send_cases keep { p with session := p.session.numbered }
    (Envelope.request p.session.nextRequest method params)
  rw [request_eq]
  cases hq : send keep { p with session := p.session.numbered }
      (Envelope.request p.session.nextRequest method params) with
  | mk result q =>
      rw [hq] at hsession hsend
      rcases hsend with ⟨e, rfl, hserver, htakes⟩ | ⟨rfl, hwrites, htakes⟩
      · exact .inl ⟨e, q, rfl, hserver, hsession, htakes⟩
      · exact .inr ⟨_, _, rfl, hwrites, congrArg (Session.await · _) hsession, htakes⟩

theorem admits_ok {p : Peer} {u : Unit} (h : p.admits = .ok u) :
    p.session.status = .connected ∧ p.session.closing = false := by
  rw [admits] at h
  split at h
  · cases h
  · next hclosing =>
      split at h
      · cases h
      · next hstatus => exact ⟨Decidable.not_not.1 hstatus, Bool.eq_false_iff.2 hclosing⟩

/-- What a caller writes on a session that admits it is timely. -/
theorem timely_free {s : Session} {traffic : List Traffic} (h : s.Course traffic)
    (hadmits : s.status = .connected ∧ s.closing = false) {envelope : Value} {method : String}
    (hmethod : Envelope.method? envelope = some method) (hfree : IsFree method) :
    Timely traffic envelope := by
  have hended : ¬ Wrote traffic .ending := by
    rw [← h.ending, hadmits.2]
    exact Bool.false_ne_true
  exact timely_call hmethod h.begun h.leaving hfree.1 (fun heq => absurd heq hfree.2.1)
    ⟨fun hw => absurd hw hended, fun heq => absurd heq hfree.2.2.2⟩ fun _ => h.accepted hadmits.1

theorem close_orderly {keep : Bool} {p : Peer} {traffic : List Traffic}
    (h : p.Orderly false traffic) (hopen : ¬ p.session.closing = true) (id : SessionId) :
    (p.upshot keep (.close id)).link.Orderly (traffic ++
      p.server.takes (Envelope.request p.session.nextRequest Lifecycle.ending.method .null)) := by
  have hcourse := h.session rfl
  have hended : ¬ Wrote traffic .ending := fun hw => hopen (hcourse.ending.2 hw)
  have ht : Timely traffic
      (Envelope.request p.session.nextRequest Lifecycle.ending.method .null) :=
    timely_call (Envelope.method?_request _ _ _) hcourse.begun hcourse.leaving
      Lifecycle.ending_ne_opening (fun heq => absurd heq (by decide))
      ⟨fun hw => absurd hw hended, fun heq => absurd heq (by decide)⟩
      (fun hfree => absurd rfl hfree.2.2.1)
  rw [upshot, if_neg hopen, endSession]
  rcases p.request_outcome keep Lifecycle.ending.method .null with
    ⟨e, q, hrequest, hserver, -, htakes⟩ | ⟨q, payload, hrequest, hwrites, hsession, htakes⟩
  · rw [hrequest, htakes, List.append_nil]
    exact goes_orderly (h.server.of_writes (congrArg Server.writes hserver)) _
  · have hclosed : { q.session with closing := true }.Course (traffic ++
        [Traffic.wrote (Envelope.request p.session.nextRequest Lifecycle.ending.method .null)]) := by
      rw [hsession]
      exact hcourse.close p.session.nextRequest payload .null
    rw [hrequest, htakes]
    exact stays_orderly (q := { q with session := { q.session with closing := true } })
      ⟨h.server.write hwrites ht, fun _ => hclosed⟩ _

theorem request_orderly {keep : Bool} {p : Peer} {traffic : List Traffic}
    (h : p.Orderly false traffic) (hadmits : p.admits = .ok ()) {method : String}
    (hfree : IsFree method) (id : SessionId) (params : Value) :
    (p.upshot keep (.request id method params)).link.Orderly (traffic ++
      p.server.takes (Envelope.request p.session.nextRequest method params)) := by
  have hcourse := h.session rfl
  have ht := timely_free hcourse (admits_ok hadmits)
    (Envelope.method?_request p.session.nextRequest method params) hfree
  have hnumbered : p.session.numbered.Course (traffic ++
      p.server.takes (Envelope.request p.session.nextRequest method params)) :=
    (hcourse.takes p.server (hfree.ne_of_method (Envelope.method?_request _ _ _))).same rfl rfl rfl
  rw [upshot, hadmits]
  dsimp only
  rcases p.request_outcome keep method params with
    ⟨e, q, hrequest, hserver, hsession, htakes⟩ | ⟨q, payload, hrequest, hwrites, hsession, htakes⟩
  · rw [hrequest]
    refine stays_orderly ⟨?_, fun _ => ?_⟩ _
    · rw [htakes, List.append_nil, hserver]
      exact h.server
    · rwa [hsession]
  · rw [hrequest]
    refine stays_orderly ⟨?_, fun _ => ?_⟩ _
    · rw [htakes]
      exact h.server.write hwrites ht
    · rw [hsession]
      exact hnumbered.await hfree

theorem notify_orderly {keep : Bool} {p : Peer} {traffic : List Traffic}
    (h : p.Orderly false traffic) (hadmits : p.admits = .ok ()) {method : String}
    (hfree : IsFree method) (id : SessionId) (params : Value) :
    (p.upshot keep (.notify id method params)).link.Orderly (traffic ++
      p.server.takes (Envelope.notification method params)) := by
  have hcourse := h.session rfl
  have hmethod := Envelope.method?_notification method params
  have hnotify : (p.notify keep method params).2.Orderly false (traffic ++
      p.server.takes (Envelope.notification method params)) := by
    refine ⟨send_inOrder h.server (timely_free hcourse (admits_ok hadmits) hmethod hfree),
      fun _ => ?_⟩
    rw [notify_session]
    exact hcourse.takes p.server (hfree.ne_of_method hmethod)
  rw [upshot, hadmits]
  dsimp only
  cases hq : p.notify keep method params with
  | mk result q =>
      rw [hq] at hnotify
      cases result <;> exact stays_orderly hnotify _

/-- An operation leaves the order as it is. -/
theorem upshot_orderly {keep : Bool} {p : Peer} {traffic : List Traffic}
    (h : p.Orderly false traffic) {operation : Operation} (hfree : operation.IsFree) :
    (p.upshot keep operation).link.Orderly (traffic ++ p.traffic keep operation) := by
  have hcourse := h.session rfl
  have hsame : ∀ reply, (p.stays reply).link.Orderly (traffic ++ []) := by
    intro reply
    rw [List.append_nil]
    exact stays_orderly h reply
  cases operation with
  | close id =>
      rw [Peer.traffic]
      split
      · next hclosing =>
          rw [upshot, if_pos hclosing]
          exact hsame .done
      · next hopen => exact close_orderly h hopen id
  | request id method params =>
      rw [Peer.traffic]
      cases hadmits : p.admits with
      | error e =>
          rw [upshot, hadmits]
          exact hsame _
      | ok _ => exact request_orderly h hadmits hfree id params
  | notify id method params =>
      rw [Peer.traffic]
      cases hadmits : p.admits with
      | error e =>
          rw [upshot, hadmits]
          exact hsame _
      | ok _ => exact notify_orderly h hadmits hfree id params
  | process =>
      have hpump := pump_orderly keep h
      refine ⟨hpump.server, fun s hs => ?_⟩
      change (if (p.pump keep).finished then none else some (p.pump keep).peer.session) = some s
        at hs
      split at hs
      · cases hs
      · next hgoing =>
          rw [← Option.some.inj hs]
          exact hpump.session (Bool.eq_false_iff.2 hgoing)
  | takeCompletions id =>
      have htaken : { p.session with completions := [] }.Course traffic :=
        hcourse.same rfl rfl rfl
      show Link.Orderly _ (traffic ++ [])
      rw [List.append_nil]
      exact stays_orderly (q := { p with session := { p.session with completions := [] } })
        ⟨h.server, fun _ => htaken⟩ _
  | takeNotices id =>
      have htaken : { p.session with notices := [] }.Course traffic := hcourse.same rfl rfl rfl
      show Link.Orderly _ (traffic ++ [])
      rw [List.append_nil]
      exact stays_orderly (q := { p with session := { p.session with notices := [] } })
        ⟨h.server, fun _ => htaken⟩ _
  | shutdown =>
      show (p.goes .done).link.Orderly (traffic ++ [])
      rw [List.append_nil]
      exact goes_orderly h.server .done
  | _ => exact hsame .done

end Peer

/-- What opening a session with a new server leaves behind. -/
theorem Client.opening_orderly (c : Client) {index : Nat} {command : String}
    {connection : Connection} {server : Server}
    (hstart : c.launcher.start index command connection.args = .ok server) :
    (c.opening command connection server).link.Orderly
      (server.takes (Envelope.request .first Lifecycle.opening.method
        (handshakeParameters c.processId c.settings connection))) := by
  have hnew : server.InOrder [] := by
    refine ⟨(Launcher.start_ok hstart).2, fun before _ _ heq => ?_⟩
    exact absurd heq (List.append_ne_nil_of_right_ne_nil before (List.cons_ne_nil _ _)).symm
  let p : Peer := { session := { id := c.lastSession + 1, command }, server }
  let params := handshakeParameters c.processId c.settings connection
  rw [opening, Peer.opening, Peer.openSession]
  rcases p.request_outcome c.settings.debug Lifecycle.opening.method params with
    ⟨e, q, hrequest, hserver, -, htakes⟩ | ⟨q, payload, hrequest, hwrites, hsession, htakes⟩
  · have hnone : server.takes (Envelope.request .first Lifecycle.opening.method params) = [] :=
      htakes
    rw [hrequest, hnone]
    exact Peer.goes_orderly (hnew.of_writes (congrArg Server.writes hserver)) _
  · have hsome : server.takes (Envelope.request .first Lifecycle.opening.method params) =
        [.wrote (Envelope.request .first Lifecycle.opening.method params)] := htakes
    have hopened : Peer.Opened (c.lastSession + 1) { q.session with status := .connecting } :=
      ⟨command, payload, by rw [hsession]⟩
    rw [hrequest, hsome]
    exact Peer.stays_orderly (q := { q with session := { q.session with status := .connecting } })
      ⟨hnew.write hwrites (timely_opening params), fun _ => hopened.course params⟩ _

theorem ServerEvent.apply_writes (v : Server) (event : ServerEvent) :
    (event.apply v).writes = v.writes := by
  cases event with
  | answer method result =>
      show (v.answer method result).2.writes = v.writes
      rw [Server.answer]
      split <;> rfl
  | _ => rfl

namespace Link

/-- An operation leaves the order at every link as it is. -/
theorem Orderly.after {l : Link} {traffic : List Traffic} (h : l.Orderly traffic)
    (keep : Bool) (index : Nat) {operation : Operation} (hfree : operation.IsFree) :
    (l.after keep index operation).Orderly (traffic ++ l.traffic keep operation) := by
  have hsame : l.Orderly (traffic ++ []) := by rwa [List.append_nil]
  have hupshot : (((l.peer?.map fun p => p.upshot keep operation).map Upshot.link).getD l).Orderly
      (traffic ++ (l.peer?.map fun p => p.traffic keep operation).getD []) := by
    cases hp : l.peer? with
    | none => exact hsame
    | some p =>
        obtain ⟨s, hs, rfl⟩ := Option.map_eq_some_iff.1 hp
        exact Peer.upshot_orderly ⟨h.server, fun _ => h.session s hs⟩ hfree
  rw [Link.traffic]
  cases hscope : operation.scope with
  | session id =>
      rw [after_of_session hscope]
      dsimp only
      split
      · exact hupshot
      · exact hsame
  | sessions =>
      rw [after_of_sessions hscope]
      exact hupshot
  | server target event =>
      rw [Link.after, hscope, List.append_nil]
      dsimp only
      split
      · exact ⟨h.server.of_writes (event.apply_writes l.server), h.session⟩
      · exact h
  | nothing =>
      rw [after_of_nothing hscope]
      exact hsame

end Link

/-! ## Runs -/

namespace Client

/-- The server with an index is in order, or there is none yet. -/
def OrderlyAt (c : Client) (index : Nat) (traffic : List Traffic) : Prop :=
  match c.links[index]? with
  | some l => l.Orderly traffic
  | none => traffic = []

theorem openingTraffic_of_none {c : Client} (hc : c.Ordered) {operation : Operation}
    (h : (c.step operation).2.links[c.links.length]? = none) : c.openingTraffic operation = [] := by
  cases operation with
  | connect command connection =>
      obtain ⟨e, hstart⟩ := start_of_none hc h
      rw [openingTraffic, hstart]
  | _ => rfl

/-- An operation leaves the order at every server as it is, and the server that
it starts is in order. -/
theorem OrderlyAt.step {c : Client} {index : Nat} {traffic : List Traffic}
    (h : c.OrderlyAt index traffic) (hc : c.Ordered) {operation : Operation}
    (hfree : operation.IsFree) :
    (c.step operation).2.OrderlyAt index (traffic ++ c.trafficOf index operation) := by
  rw [OrderlyAt, trafficOf]
  rw [OrderlyAt] at h
  cases hl : c.links[index]? with
  | some l =>
      rw [hl] at h
      rw [getElem?_step hc hl]
      exact h.after c.settings.debug index hfree
  | none =>
      rw [hl] at h
      rw [h, List.nil_append]
      cases hnew : (c.step operation).2.links[index]? with
      | some l =>
          obtain ⟨hindex, command, connection, server, rfl, hstart, rfl⟩ :=
            getElem?_step_new hc hl hnew
          dsimp only
          rw [if_pos hindex, openingTraffic, hstart]
          exact c.opening_orderly hstart
      | none =>
          dsimp only
          split
          · next hindex => exact openingTraffic_of_none hc (hindex ▸ hnew)
          · rfl

theorem OrderlyAt.run {index : Nat} (operations : List Operation) {c : Client}
    {traffic : List Traffic} (h : c.OrderlyAt index traffic) (hc : c.Ordered)
    (hfree : ∀ operation ∈ operations, operation.IsFree) :
    (c.run operations).OrderlyAt index (traffic ++ c.traffic index operations) := by
  induction operations generalizing c traffic with
  | nil => rwa [Client.traffic, List.append_nil]
  | cons operation rest ih =>
      have hstep := h.step hc (hfree operation List.mem_cons_self)
      rw [Client.traffic, ← List.append_assoc]
      exact ih hstep (hc.step operation) fun later hlater => hfree later (List.mem_cons_of_mem _ hlater)

/-- In every run in which callers keep away from the methods of the engine, the
messages that were written to a server are in order. -/
theorem inOrder_of_run {settings : Settings} {processId : Nat} {launcher : Launcher}
    {operations : List Operation} (hfree : ∀ operation ∈ operations, operation.IsFree)
    {index : Nat} {v : Server}
    (h : ((initial settings processId launcher).run operations).server? index = some v) :
    v.InOrder ((initial settings processId launcher).traffic index operations) := by
  obtain ⟨l, hl, rfl⟩ := Option.map_eq_some_iff.1 h
  have hinitial : (initial settings processId launcher).OrderlyAt index [] := rfl
  have hrun := hinitial.run operations (ordered_initial settings processId launcher) hfree
  rw [OrderlyAt, hl] at hrun
  exact hrun.server

/-- A server accepts the handshake, asks for something while the client has a
request on its way, and is asked to end and leaves. -/
def wholeSession : List Operation :=
  [.connect "server" {},
    .server 0 (.emit (Wire.frameText "\x7b\"id\":1,\"result\":null\x7d")),
    .process,
    .request 1 "textDocument/hover" .null,
    .server 0 (.emit (Wire.frameText
      "\x7b\"id\":\"a\",\"method\":\"workspace/configuration\"\x7d")),
    .process,
    .close 1,
    .server 0 (.emit (Wire.frameText "\x7b\"id\":3,\"result\":null\x7d")),
    .process]

theorem inOrder_of_wholeSession :
    ∃ v, ((initial {} 0 {}).run wholeSession).server? 0 = some v ∧
      v.writes.length = 6 ∧ v.InOrder ((initial {} 0 {}).traffic 0 wholeSession) := by
  have hfree : ∀ operation ∈ wholeSession, operation.IsFree := by decide
  have hdone : (((initial {} 0 {}).run wholeSession).server? 0).map
      (fun v => v.writes.length) = some 6 := by decide +kernel
  obtain ⟨v, hv, hlength⟩ := Option.map_eq_some_iff.1 hdone
  exact ⟨v, hv, hlength, inOrder_of_run hfree hv⟩

end Client

end LspClient
