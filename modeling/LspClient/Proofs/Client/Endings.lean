import LspClient.Proofs.Client.Custody
import LspClient.Proofs.Client.Isolation
import LspClient.Proofs.Client.WireOrder

/-!
# How sessions end

A session ends in a read, in a `close` that cannot be written, or with the
client. What is to be said of the read is why: the last thing that was received
in it is the answer to a request that the session end, and some operation before
sent that request on this session.

The session itself only knows the method that waits under the number of the
answer. Which request that was is read off its history, by the ledger of
`Proofs/Session/Ledger.lean`, and which operation sent it by finding the event
in the run (`exists_operation_of_split`). There are two operations that can have
done so. One is `close`. The other is a caller's request under the method of the
engine's own, which nothing keeps a caller from sending and which the answer is
not told from (`callersShutdown`).
-/

namespace LspClient

open Json (Value)

/-! ## The last message of a session -/

namespace Peer

/-- The message that ends a session answers a request for that. -/
theorem receiveMessage_ended {keep : Bool} {p q : Peer} {m : Incoming}
    (h : p.receiveMessage keep m = (q, true)) :
    ∃ r entry, m = .response r ∧ p.session.answered? r = some entry ∧
      entry.method = Lifecycle.ending.method := by
  cases m with
  | request id method params => exact absurd (congrArg Prod.snd h) Bool.false_ne_true
  | notification method params => exact absurd (congrArg Prod.snd h) Bool.false_ne_true
  | response r =>
      rw [receiveMessage, receiveResponse] at h
      split at h
      · cases h
      · next entry hanswers =>
          dsimp only at h
          split at h
          · cases h
          · split at h
            · next hending => exact ⟨r, entry, rfl, hanswers, hending⟩
            · cases h

theorem completion?_of_ending {s : Session} {r : Response} {entry : PendingRequest}
    (hanswers : s.answered? r = some entry) (hending : entry.method = Lifecycle.ending.method) :
    s.completion? (.response r) = none := by
  rw [Session.completion?, hanswers, Option.bind_some, if_neg fun ho => ho.2 hending]

theorem receiveBody_ended {keep : Bool} {p q : Peer} {body : List UInt8}
    (h : p.receiveBody keep body = (q, true)) :
    ∃ r entry, p.bodyEvents body = [.heard (.response r) none] ∧
      p.session.answered? r = some entry ∧ entry.method = Lifecycle.ending.method := by
  rw [receiveBody] at h
  rw [bodyEvents, bodyMessage?]
  cases htext : Utf8.text? body with
  | none =>
      rw [htext] at h
      cases h
  | some text =>
      rw [Option.bind_some]
      rw [htext] at h
      dsimp only at h
      cases hmessage : messageOf? text with
      | none =>
          rw [hmessage] at h
          cases h
      | some m =>
          rw [hmessage] at h
          obtain ⟨r, entry, rfl, hanswers, hending⟩ := receiveMessage_ended h
          rw [record_session] at hanswers
          refine ⟨r, entry, ?_, hanswers, hending⟩
          dsimp only
          rw [completion?_of_ending hanswers hending]

/-- What is received up to the end of a session is a path of it, and the answer
to a request that it end. -/
theorem receiveAll_ended {keep : Bool} {results : List Wire.FrameResult} :
    ∀ {p q : Peer}, p.receiveAll keep results = (q, true) →
      ∃ s events r entry, p.session.Path events s ∧
        p.receiveEvents keep results = events ++ [.heard (.response r) none] ∧
        s.answered? r = some entry ∧ entry.method = Lifecycle.ending.method := by
  induction results with
  | nil =>
      intro p q h
      cases h
  | cons result rest ih =>
      intro p q h
      cases result with
      | error e =>
          rw [receiveAll] at h
          rw [receiveEvents]
          exact ih h
      | ok body =>
          rw [receiveAll] at h
          rw [receiveEvents]
          cases hbody : p.receiveBody keep body with
          | mk p' ended =>
              rw [hbody] at h
              cases ended with
              | true =>
                  obtain ⟨r, entry, hevents, hanswers, hending⟩ := receiveBody_ended hbody
                  refine ⟨p.session, [], r, entry, .nil p.session, ?_, hanswers, hending⟩
                  rw [hevents]
                  rfl
              | false =>
                  -- what comes before the last message is a path, for the ledger to follow
                  obtain ⟨s, events, r, entry, path, hevents, hanswers, hending⟩ := ih h
                  refine ⟨s, p.bodyEvents body ++ events, r, entry,
                    (receiveBody_path hbody).append path, ?_, hanswers, hending⟩
                  dsimp only
                  rw [hevents, List.append_assoc]

theorem pump_ended {keep : Bool} {p : Peer} (h : (p.pump keep).finished = true) :
    ∃ s events r entry, p.session.Path events s ∧
      p.pumpEvents keep = events ++ [.heard (.response r) none] ∧
      s.answered? r = some entry ∧ entry.method = Lifecycle.ending.method := by
  cases hended : p.session.outputEnded with
  | true =>
      rw [pump_of_ended hended] at h
      cases h
  | false =>
      rw [pump_of_open hended] at h
      have hall : p.fetched.receiveAll keep p.fetchedFrames =
          ((p.fetched.receiveAll keep p.fetchedFrames).1, true) :=
        Prod.ext rfl h
      obtain ⟨s, events, r, entry, path, hevents, hanswers, hending⟩ := receiveAll_ended hall
      refine ⟨s, events, r, entry, .cons (fetched_moves p) path, ?_, hanswers, hending⟩
      rw [pumpEvents, if_neg (by simp [hended])]
      exact hevents

/-! ## Reading sends no requests -/

theorem bodyEvents_heard {p : Peer} {body : List UInt8} {e : Event} (h : e ∈ p.bodyEvents body) :
    ∃ m made, e = .heard m made := by
  rw [bodyEvents] at h
  split at h
  · cases h
  · next m _ => exact ⟨m, _, List.mem_singleton.1 h⟩

theorem receiveEvents_heard {keep : Bool} {results : List Wire.FrameResult} {e : Event} :
    ∀ {p : Peer}, e ∈ p.receiveEvents keep results → ∃ m made, e = .heard m made := by
  induction results with
  | nil =>
      intro p h
      cases h
  | cons result rest ih =>
      intro p h
      cases result with
      | error _ => exact ih h
      | ok body =>
          rw [receiveEvents, List.mem_append] at h
          rcases h with hbody | hrest
          · exact bodyEvents_heard hbody
          · split at hrest
            · cases hrest
            · exact ih hrest

/-- All that is noted of a read are the messages that were received. -/
theorem pumpEvents_heard {keep : Bool} {p : Peer} {e : Event} (h : e ∈ p.pumpEvents keep) :
    ∃ m made, e = .heard m made := by
  rw [pumpEvents] at h
  split at h
  · cases h
  · exact receiveEvents_heard h

/-! ## One operation -/

theorem upshot_gone {keep : Bool} {p : Peer} {operation : Operation}
    (h : (p.upshot keep operation).link.session = none) :
    (operation = .process ∧ (p.pump keep).finished = true) ∨
    (∃ id e, operation = .close id ∧ (p.upshot keep operation).reply = .refused (.transport e)) ∨
    operation = .shutdown := by
  have hstays : ∀ {q : Peer} {reply : Reply}, (q.stays reply).link.session = none → False :=
    fun h => nomatch h
  cases operation with
  | close id =>
      right; left
      rw [upshot] at h ⊢
      split at h
      · exact (hstays h).elim
      · next hopen =>
          rw [if_neg hopen]
          split at h
          · exact (hstays h).elim
          · next e q _ => exact ⟨id, e, rfl, rfl⟩
  | request id method params =>
      rw [upshot] at h
      split at h
      · exact (hstays h).elim
      · split at h <;> exact (hstays h).elim
  | notify id method params =>
      rw [upshot] at h
      split at h
      · exact (hstays h).elim
      · split at h <;> exact (hstays h).elim
  | process =>
      left
      change (if (p.pump keep).finished then none else some (p.pump keep).peer.session) = none at h
      split at h
      · next hfinished => exact ⟨rfl, hfinished⟩
      · cases h
  | shutdown => exact .inr (.inr rfl)
  | _ => exact (hstays h).elim

end Peer

theorem Link.gone_of_after {keep : Bool} {index : Nat} {l : Link} {p : Peer}
    {operation : Operation} (hp : l.peer? = some p)
    (h : (l.after keep index operation).session = none) :
    (p.upshot keep operation).link.session = none ∧
      (operation.scope = .session p.session.id ∨ operation.scope = .sessions) := by
  obtain ⟨s, hs, rfl⟩ := Option.map_eq_some_iff.1 hp
  have hkept : l.session ≠ none := by
    rw [hs]
    exact Option.some_ne_none s
  cases hscope : operation.scope with
  | session id =>
      rw [after_of_session hscope, hp] at h
      split at h
      · next hid =>
          rw [Link.id?, hs, Option.map_some, Option.some.injEq] at hid
          exact ⟨h, .inl (congrArg Scope.session hid.symm)⟩
      · exact absurd h hkept
  | sessions =>
      rw [after_of_sessions hscope, hp] at h
      exact ⟨h, .inr rfl⟩
  | server target event =>
      rw [after, hscope] at h
      dsimp only at h
      split at h <;> exact absurd h hkept
  | nothing =>
      rw [after_of_nothing hscope] at h
      exact absurd h hkept

theorem Link.id_of_after {keep : Bool} {index : Nat} {l : Link} {operation : Operation}
    {id : SessionId} (hid : l.id? = some id) {t : Session}
    (ht : (l.after keep index operation).session = some t) : t.id = id := by
  have hnumber : (l.after keep index operation).id? = some t.id := by
    rw [Link.id?, ht]
    rfl
  exact Option.some.inj ((id?_of_after hnumber).symm.trans hid)

namespace Client

theorem gone_of_step {c : Client} (hc : c.Ordered) {id : SessionId} {p : Peer}
    (hp : c.peer? id = some p) {operation : Operation}
    (hgone : (c.step operation).2.peer? id = none) :
    (operation = .process ∧ (p.pump c.settings.debug).finished = true) ∨
    (operation = .close id ∧ ∃ e, (c.step operation).1 = .refused (.transport e)) ∨
    operation = .shutdown := by
  obtain ⟨index, l, hl, hid⟩ := exists_link_of_peer? hp
  have hpeer : l.peer? = some p := by rw [← peer?_of_getElem? hc hl hid, hp]
  have hafter := getElem?_step hc hl operation
  have hlost : (l.after c.settings.debug index operation).session = none := by
    cases ht : (l.after c.settings.debug index operation).session with
    | none => rfl
    | some t =>
        have hstill : (l.after c.settings.debug index operation).id? = some id := by
          rw [Link.id?, ht, ← Link.id_of_after hid ht]
          rfl
        rw [peer?_of_getElem? (hc.step operation) hafter hstill, Link.peer?, ht] at hgone
        cases hgone
  obtain ⟨hsession, hscope⟩ := Link.gone_of_after hpeer hlost
  rw [session_id_of_peer? hp] at hscope
  rcases Peer.upshot_gone hsession with ⟨rfl, hfinished⟩ | ⟨target, e, rfl, hreply⟩ | rfl
  · exact .inl ⟨rfl, hfinished⟩
  · have htarget : target = id := by
      rcases hscope with hone | hall
      · exact Scope.session.inj hone
      · cases hall
    subst htarget
    refine .inr (.inl ⟨rfl, e, ?_⟩)
    rw [step_of_target hc rfl hp]
    exact hreply
  · exact .inr (.inr rfl)

/-! ## Asking for the end -/

/-- Whether an operation sends a request that a session end, under a number. -/
def AsksEnd (c : Client) (id : SessionId) (number : RequestId) (operation : Operation) : Prop :=
  (operation = .close id ∧ (c.step operation).1 = .done ∧
    ∃ s, c.session? id = some s ∧ s.closing = false ∧ s.nextRequest = number) ∨
  ∃ params, operation = .request id Lifecycle.ending.method params ∧
    (c.step operation).1 = .sent number

/-- An operation of which the request for the end is noted sent that request. -/
theorem asksEnd_of_mem {c : Client} {id : SessionId} {number : RequestId} {operation : Operation}
    (h : .sent number Lifecycle.ending.method ∈ c.eventsOf id operation) :
    c.AsksEnd id number operation := by
  rw [eventsOf] at h
  cases hp : c.peer? id with
  | none =>
      rw [hp] at h
      dsimp only at h
      exact absurd (Event.sent.inj (mem_openingEvents h)).2 Lifecycle.ending_ne_opening
  | some p =>
      rw [hp] at h
      dsimp only at h
      split at h
      · next hconcerns =>
          unfold Peer.noted at h
          split at h
          case h_1 target hreply =>
            obtain rfl : target = id := beq_iff_eq.1 hconcerns
            rw [Peer.closeEvents] at h
            split at h
            · cases h
            · next hopen =>
                refine .inl ⟨rfl, hreply, p.session, session?_of_peer? hp,
                  Bool.eq_false_iff.2 hopen, ?_⟩
                rcases List.mem_cons.1 h with hsent | hclosing
                · exact (Event.sent.inj hsent).1.symm
                · cases List.mem_singleton.1 hclosing
          case h_2 target method params new hreply =>
            obtain rfl : target = id := beq_iff_eq.1 hconcerns
            obtain ⟨rfl, rfl⟩ := Event.sent.inj (List.mem_singleton.1 h)
            exact .inr ⟨params, rfl, hreply⟩
          case h_4 =>
            obtain ⟨m, made, he⟩ := Peer.pumpEvents_heard h
            cases he
          case h_7 => cases h
          all_goals cases List.mem_singleton.1 h
      · cases h

/-- The operation that an event of a history comes from. -/
theorem exists_operation_of_split {id : SessionId} {e : Event} {after : List Event}
    {operations : List Operation} : ∀ (c : Client) (before : List Event),
      c.history id operations = before ++ e :: after →
      ∃ earlier operation later between, operations = earlier ++ operation :: later ∧
        e ∈ (c.run earlier).eventsOf id operation ∧
        after = between ++ (c.run (earlier ++ [operation])).history id later := by
  induction operations with
  | nil =>
      intro c before h
      exact absurd h.symm (List.append_ne_nil_of_right_ne_nil _ (List.cons_ne_nil _ _))
  | cons operation rest ih =>
      intro c before h
      rw [history] at h
      -- the event is noted of the rest of the run, or of this operation
      have hlater : ∀ skipped,
          (c.step operation).2.history id rest = skipped ++ e :: after →
          ∃ earlier other later between, operation :: rest = earlier ++ other :: later ∧
            e ∈ (c.run earlier).eventsOf id other ∧
            after = between ++ (c.run (earlier ++ [other])).history id later := by
        intro skipped hrest
        obtain ⟨earlier, other, later, between, rfl, hmem, hafter⟩ := ih _ skipped hrest
        exact ⟨operation :: earlier, other, later, between, rfl, hmem, hafter⟩
      rcases List.append_eq_append_iff.1 h with ⟨skipped, -, hrest⟩ | ⟨within, hevents, hrest⟩
      · exact hlater skipped hrest
      · cases within with
        | nil => exact hlater [] hrest.symm
        | cons first within =>
            obtain ⟨rfl, rfl⟩ := List.cons.inj hrest
            refine ⟨[], operation, rest, within, rfl, ?_, rfl⟩
            show e ∈ c.eventsOf id operation
            rw [hevents]
            simp

/-! ## Runs -/

/-- Why an operation ends a session that is registered after some others. -/
inductive Ends (c : Client) (operations : List Operation) (id : SessionId) : Operation → Prop where
  /-- the last message of a read answers the request for the end that some
  operation sent, and is the first that does -/
  | granted {before between : List Operation} {asking : Operation} {number : RequestId}
      {earlier : List Event} {r : Response} (hrun : operations = before ++ asking :: between)
      (hasks : (c.run before).AsksEnd id number asking)
      (hread : (c.run operations).eventsOf id .process =
        earlier ++ [.heard (.response r) none])
      (hnumber : r.requestId? = some number)
      (hfirst : firstAnswer? number
        ((c.run (before ++ [asking])).history id between ++ earlier) = none) :
      Ends c operations id .process
  /-- the request for the end cannot be written -/
  | unwritten {e : TransportError}
      (hreply : ((c.run operations).step (.close id)).1 = .refused (.transport e)) :
      Ends c operations id (.close id)
  /-- the client ends -/
  | withClient : Ends c operations id .shutdown

theorem ledger_of_run {settings : Settings} {processId : Nat} {launcher : Launcher}
    {operations : List Operation} {id : SessionId} {s : Session}
    (h : ((initial settings processId launcher).run operations).session? id = some s) :
    s.Ledger ((initial settings processId launcher).history id operations) :=
  run_preserves (fun _ _ ho => ho.ledger) (fun _ hl move => hl.moves move) h

/-- A read that ends a session reads the answer to a request that it end. -/
theorem ends_of_finished {settings : Settings} {processId : Nat} {launcher : Launcher}
    {operations : List Operation} {id : SessionId} {p : Peer}
    (hp : ((initial settings processId launcher).run operations).peer? id = some p)
    (hfinished : (p.pump ((initial settings processId launcher).run
      operations).settings.debug).finished = true) :
    (initial settings processId launcher).Ends operations id .process := by
  obtain ⟨s, events, r, entry, path, hevents, hanswers, hending⟩ := Peer.pump_ended hfinished
  have hledger := path.preserves (fun _ hl move => Session.Ledger.moves hl move) _
    (ledger_of_run (session?_of_peer? hp))
  obtain ⟨hnumber, hpending⟩ := Session.answered?_eq_some hanswers
  have hwaiting : waitingFor entry.id
      ((initial settings processId launcher).history id operations ++ events) =
        some Lifecycle.ending.method := by
    rw [← hledger.waiting, hpending, ← hending]
    rfl
  have hread : ((initial settings processId launcher).run operations).eventsOf id .process =
      events ++ [.heard (.response r) none] := by
    rw [eventsOf_of_peer? hp]
    exact hevents
  obtain ⟨before, after, hsplit, -, hfirst⟩ := sent_of_waitingFor hwaiting
  -- the request was sent before the read, in which nothing is sent
  have hnotread : .sent entry.id Lifecycle.ending.method ∉ events := by
    intro hmem
    have hpump : .sent entry.id Lifecycle.ending.method ∈ p.pumpEvents
        ((initial settings processId launcher).run operations).settings.debug := by
      rw [hevents]
      exact List.mem_append_left _ hmem
    obtain ⟨m, made, he⟩ := Peer.pumpEvents_heard hpump
    cases he
  obtain ⟨between, hhistory, rfl⟩ := split_of_not_mem hsplit hnotread
  obtain ⟨earlier, asking, later, within, hrun, hmem, rfl⟩ :=
    exists_operation_of_split _ before hhistory
  rw [List.append_assoc, firstAnswer?_append] at hfirst
  exact .granted hrun (asksEnd_of_mem hmem) hread hnumber
    (Option.or_eq_none_iff.1 hfirst).2

/-- No operation gives a session another server. -/
theorem index_of_step {c : Client} (hc : c.Ordered) {id : SessionId} {index other : Nat}
    {operation : Operation} (h : c.Owns id index) (h' : (c.step operation).2.Owns id other) :
    other = index := by
  obtain ⟨l, s, hl, hs, hid⟩ := h
  obtain ⟨l', s', hl', hs', hid'⟩ := h'
  have howner : l.id? = some id := (owns_iff hl).1 ⟨l, s, hl, hs, hid⟩
  have howner' : l'.id? = some id := (owns_iff hl').1 ⟨l', s', hl', hs', hid'⟩
  cases hold : c.links[other]? with
  | some old =>
      rw [getElem?_step hc hold, Option.some.injEq] at hl'
      rw [← hl'] at howner'
      exact hc.index_eq hold hl (Link.id?_of_after howner') howner
  | none =>
      -- a link that was opened has a number that was not handed out before
      obtain ⟨-, command, connection, server, rfl, hstart, rfl⟩ := getElem?_step_new hc hold hl'
      have hspent : id ≤ c.lastSession :=
        hc.bounded id (List.mem_filterMap.2 ⟨l, List.mem_of_getElem? hl, howner⟩)
      have hadded : (c.opening command connection server).link ∈
          c.newLinks (.connect command connection) := by
        rw [newLinks, hstart]
        exact List.mem_singleton_self _
      exact absurd howner' ((session_of_opening hspent).2 _ hadded)

/-- An operation leaves a session registered and its server open, or it ends the
session and closes the server. -/
theorem AllHeld.keeps_or_ends {c : Client} (h : c.AllHeld) (hc : c.Ordered) {id : SessionId}
    {index : Nat} (howns : c.Owns id index) (operation : Operation) :
    ((c.step operation).2.Owns id index ∧
      ((c.step operation).2.server? index).map Server.closed = some false) ∨
    ((c.step operation).2.session? id = none ∧
      ((c.step operation).2.server? index).map Server.closed = some true) := by
  have hheld := (h.step hc operation).1
  obtain ⟨l, s, hl, hs, hid⟩ := howns
  have hafter := getElem?_step hc hl operation
  have hserver : ((c.step operation).2.server? index).map Server.closed =
      some (l.after c.settings.debug index operation).session.isNone := by
    rw [server?, hafter]
    exact congrArg some (hheld _ (List.mem_of_getElem? hafter))
  have howner : l.id? = some id := (owns_iff hl).1 ⟨l, s, hl, hs, hid⟩
  rw [hserver]
  cases ht : (l.after c.settings.debug index operation).session with
  | some t => exact .inl ⟨⟨_, t, hafter, ht, Link.id_of_after howner ht⟩, rfl⟩
  | none =>
      refine .inr ⟨Option.not_isSome_iff_eq_none.1 fun hsome => ?_, rfl⟩
      obtain ⟨other, hother⟩ := ((c.step operation).2.exists_owns_iff id).1 hsome
      obtain rfl := index_of_step hc ⟨l, s, hl, hs, hid⟩ hother
      rw [owns_iff hafter, Link.id?, ht] at hother
      cases hother

/-- In every run, a session keeps its server, and the server stays open, until
an operation ends the session, for one of three reasons, and closes it. -/
theorem endings_of_run {settings : Settings} {processId : Nat} {launcher : Launcher}
    {operations : List Operation} {id : SessionId} {index : Nat}
    (howns : ((initial settings processId launcher).run operations).Owns id index)
    {operation : Operation} {d : Client}
    (hd : (initial settings processId launcher).run (operations ++ [operation]) = d) :
    (d.Owns id index ∧ (d.server? index).map Server.closed = some false) ∨
    (d.session? id = none ∧ (d.server? index).map Server.closed = some true ∧
      (initial settings processId launcher).Ends operations id operation) := by
  have hordered := ordered_initial settings processId launcher
  have hc := hordered.run operations
  have hheld := ((allHeld_initial settings processId launcher).run operations hordered).1
  rw [run_append, run_cons] at hd
  subst hd
  rcases hheld.keeps_or_ends hc howns operation with hkept | ⟨hgone, hclosed⟩
  · exact .inl hkept
  · refine .inr ⟨hgone, hclosed, ?_⟩
    obtain ⟨s, hs⟩ := Option.isSome_iff_exists.1 ((exists_owns_iff _ id).2 ⟨index, howns⟩)
    rw [session?_eq, Option.map_eq_some_iff] at hs
    obtain ⟨p, hp, -⟩ := hs
    rw [session?_eq, Option.map_eq_none_iff] at hgone
    rcases gone_of_step hc hp hgone with ⟨rfl, hfinished⟩ | ⟨rfl, e, hreply⟩ | rfl
    · exact ends_of_finished hp hfinished
    · exact .unwritten hreply
    · exact .withClient

/-- A caller sends a request under the method by which the engine asks for the
end, and the server answers it. -/
def callersShutdown : List Operation :=
  [.connect "server" {},
    .server 0 (.emit (Wire.frameText "\x7b\"id\":1,\"result\":null\x7d")),
    .process,
    .request 1 "shutdown" .null,
    .server 0 (.emit (Wire.frameText "\x7b\"id\":2,\"result\":null\x7d"))]

theorem endings_of_callersShutdown :
    ((initial {} 0 {}).run callersShutdown).Owns 1 0 ∧
      (initial {} 0 {}).Ends callersShutdown 1 .process := by
  have hlink : (((initial {} 0 {}).run callersShutdown).links[0]?).bind Link.id? = some 1 := by
    decide +kernel
  obtain ⟨l, hl, hid⟩ := Option.bind_eq_some_iff.1 hlink
  have howns : ((initial {} 0 {}).run callersShutdown).Owns 1 0 := (owns_iff hl).2 hid
  have hclosed : (((initial {} 0 {}).run (callersShutdown ++ [.process])).server? 0).map
      Server.closed = some true := by decide +kernel
  refine ⟨howns, ?_⟩
  rcases endings_of_run howns rfl with ⟨-, hopen⟩ | ⟨-, -, hends⟩
  · rw [hclosed] at hopen
    cases hopen
  · exact hends

/-- Why an operation ends a session, if callers keep away from the methods of
the engine: they ask for the end by `close` alone. -/
inductive EndsOnClose (c : Client) (operations : List Operation) (id : SessionId) :
    Operation → Prop where
  /-- `close` has succeeded -/
  | granted {before between : List Operation} (hrun : operations = before ++ .close id :: between)
      (hdone : ((c.run before).step (.close id)).1 = .done) : EndsOnClose c operations id .process
  /-- `close` cannot write the request for the end -/
  | unwritten {e : TransportError}
      (hreply : ((c.run operations).step (.close id)).1 = .refused (.transport e)) :
      EndsOnClose c operations id (.close id)
  /-- the client ends -/
  | withClient : EndsOnClose c operations id .shutdown

theorem Ends.onClose {c : Client} {operations : List Operation} {id : SessionId}
    {operation : Operation} (h : c.Ends operations id operation)
    (hfree : ∀ asking ∈ operations, asking.IsFree) : c.EndsOnClose operations id operation := by
  cases h with
  | granted hrun hasks hread hnumber hfirst =>
      rcases hasks with ⟨rfl, hdone, -⟩ | ⟨params, rfl, -⟩
      · exact .granted hrun hdone
      · have hasking := hfree _ (hrun ▸ List.mem_append_right _ List.mem_cons_self)
        exact absurd rfl hasking.2.2.1
  | unwritten hreply => exact .unwritten hreply
  | withClient => exact .withClient

/-- A session that nobody closed ends when a caller's own request under that
method is answered. -/
theorem not_endsOnClose : ¬ ∀ operations id operation,
    (((initial {} 0 {}).run operations).session? id).isSome = true →
    (((initial {} 0 {}).run (operations ++ [operation])).session? id).isSome = false →
    (initial {} 0 {}).EndsOnClose operations id operation := by
  intro h
  have hthere : (((initial {} 0 {}).run callersShutdown).session? 1).isSome = true := by
    decide +kernel
  have hgone : (((initial {} 0 {}).run (callersShutdown ++ [.process])).session? 1).isSome =
      false := by decide +kernel
  cases h callersShutdown 1 .process hthere hgone with
  | granted hrun hdone =>
      have hclose : Operation.close 1 ∈ callersShutdown := by
        rw [hrun]
        simp
      simp [callersShutdown] at hclose

end Client

end LspClient
