import LspClient.Proofs.Client.Endings
import LspClient.Proofs.Client.OutputEnd

/-!
# Closing a session whose output has ended

The answer to the request that a session end is the last thing that the session reads.
If the output has ended there is nothing left to read, and no read is made any more. So
`close` has two outcomes for such a session, and which of them it has is settled by the
pipe to the server. If the request cannot be written, the session is gone and its server
is closed before `close` returns. If it can, or if it was written earlier and waits, the
session is stranded: it stays registered, on a server that stays open, until the client
ends.

A stranded session takes part in nothing. It is not read, it refuses what a caller
sends, and closing it once more does nothing, so of all operations the end of the client
is the only one that concerns it (`Session.Stranded.upshot`).
-/

namespace LspClient

/-- The output of a session has ended, and its end was asked for. -/
structure Session.Stranded (s : Session) : Prop where
  ended : s.outputEnded = true
  closing : s.closing = true

/-- The session of a link has a number and is stranded, on a server that is open. -/
structure Link.Strands (l : Link) (id : SessionId) : Prop where
  session : ∃ s, l.session = some s ∧ s.id = id ∧ s.Stranded
  opened : l.server.closed = false

theorem Session.Stranded.upshot {p : Peer} (h : p.session.Stranded) (keep : Bool)
    {operation : Operation} (hgoing : operation ≠ .shutdown) :
    ∃ s, (p.upshot keep operation).link.session = some s ∧ s.id = p.session.id ∧
      s.Stranded := by
  have hstays : ∀ reply, ∃ s, (p.stays reply).link.session = some s ∧ s.id = p.session.id ∧
      s.Stranded := fun _ => ⟨p.session, rfl, rfl, h⟩
  have hrefuses : p.admits = .error (.shutdownPending p.session.id) := by
    rw [Peer.admits, if_pos h.closing]
  cases operation with
  | close target =>
      rw [Peer.upshot, if_pos h.closing]
      exact hstays _
  | request target method params =>
      rw [Peer.upshot, hrefuses]
      exact hstays _
  | notify target method params =>
      rw [Peer.upshot, hrefuses]
      exact hstays _
  | process =>
      rw [Peer.upshot, Peer.pump_of_ended h.ended]
      exact ⟨p.session, rfl, rfl, h⟩
  | takeCompletions target =>
      exact ⟨{ p.session with completions := [] }, rfl, rfl, h.ended, h.closing⟩
  | takeNotices target =>
      exact ⟨{ p.session with notices := [] }, rfl, rfl, h.ended, h.closing⟩
  | shutdown => exact absurd rfl hgoing
  | _ => exact hstays _

theorem Link.Strands.after {l : Link} {id : SessionId} (h : l.Strands id) (keep : Bool)
    (index : Nat) {operation : Operation} (hgoing : operation ≠ .shutdown) :
    (l.after keep index operation).Strands id := by
  obtain ⟨s, hs, rfl, hstranded⟩ := h.session
  have hheld : l.Held := by
    rw [Held, h.opened, hs]
    rfl
  have hkept : ∃ t, (l.after keep index operation).session = some t ∧ t.id = s.id ∧
      t.Stranded := by
    cases hconcerned : l.concerned? operation with
    | none =>
        rw [(after_of_not_concerned hconcerned).1]
        exact ⟨s, hs, rfl, hstranded⟩
    | some p =>
        have hp : some p = some { session := s, server := l.server } := by
          rw [← peer?_of_concerned hconcerned, peer?, hs]
          rfl
        obtain rfl := Option.some.inj hp
        rw [after_of_concerned hconcerned]
        exact Session.Stranded.upshot (p := { session := s, server := l.server }) hstranded
          keep hgoing
  refine ⟨hkept, ?_⟩
  obtain ⟨t, ht, -, -⟩ := hkept
  rw [(hheld.after keep index operation).held, ht]
  rfl

namespace Client

/-- A session is stranded on the server with an index. -/
def Strands (c : Client) (id : SessionId) (index : Nat) : Prop :=
  ∃ l, c.links[index]? = some l ∧ l.Strands id

theorem Strands.step {c : Client} {id : SessionId} {index : Nat} (h : c.Strands id index)
    (hc : c.Ordered) {operation : Operation} (hgoing : operation ≠ .shutdown) :
    (c.step operation).2.Strands id index := by
  obtain ⟨l, hl, hstrands⟩ := h
  exact ⟨_, getElem?_step hc hl operation, hstrands.after c.settings.debug index hgoing⟩

/-- What is stranded stays so until the client ends. -/
theorem Strands.run {id : SessionId} {index : Nat} (operations : List Operation) {c : Client}
    (h : c.Strands id index) (hc : c.Ordered) (hgoing : .shutdown ∉ operations) :
    (c.run operations).Strands id index := by
  induction operations generalizing c with
  | nil => exact h
  | cons operation rest ih =>
      rw [List.mem_cons, not_or] at hgoing
      rw [run_cons]
      exact ih (h.step hc (Ne.symm hgoing.1)) (hc.step operation) hgoing.2

/-- A session is registered and owns its server, which is open, but its output has
ended. -/
structure Lingers (c : Client) (id : SessionId) (index : Nat) : Prop where
  owns : c.Owns id index
  dead : c.isAlive id = false
  opened : (c.server? index).map Server.closed = some false

/-- A session is not registered, and the server that it had is closed. -/
structure Released (c : Client) (id : SessionId) (index : Nat) : Prop where
  unregistered : c.session? id = none
  closed : (c.server? index).map Server.closed = some true

theorem Lingers.not_released {c : Client} {id : SessionId} {index : Nat}
    (h : c.Lingers id index) : ¬ c.Released id index := by
  intro hreleased
  have hregistered := (exists_owns_iff c id).2 ⟨index, h.owns⟩
  rw [hreleased.unregistered] at hregistered
  cases hregistered

theorem peer?_of_owns {c : Client} (hc : c.Ordered) {id : SessionId} {index : Nat}
    (h : c.Owns id index) :
    ∃ l s, c.links[index]? = some l ∧ l.session = some s ∧ s.id = id ∧
      c.peer? id = some { session := s, server := l.server } := by
  obtain ⟨l, s, hl, hs, hid⟩ := h
  refine ⟨l, s, hl, hs, hid, ?_⟩
  rw [peer?_of_getElem? hc hl ((owns_iff hl).1 ⟨l, s, hl, hs, hid⟩), Link.peer?, hs]
  rfl

theorem ended_of_dead {c : Client} {id : SessionId} {p : Peer} (hp : c.peer? id = some p)
    (hdead : c.isAlive id = false) : p.session.outputEnded = true := by
  rw [isAlive, session?_of_peer? hp] at hdead
  simpa [Session.isAlive] using hdead

theorem Strands.lingers {c : Client} {id : SessionId} {index : Nat} (h : c.Strands id index)
    (hc : c.Ordered) : c.Lingers id index := by
  obtain ⟨l, hl, ⟨s, hs, hid, hstranded⟩, hopened⟩ := h
  have howns : c.Owns id index := ⟨l, s, hl, hs, hid⟩
  refine ⟨howns, ?_, by rw [server?, hl]; exact congrArg some hopened⟩
  obtain ⟨l', s', hl', hs', -, hp⟩ := peer?_of_owns hc howns
  obtain rfl := Option.some.inj (hl.symm.trans hl')
  obtain rfl := Option.some.inj (hs.symm.trans hs')
  rw [isAlive, session?_of_peer? hp]
  show (!s.outputEnded) = false
  rw [hstranded.ended]
  rfl

/-- The end of the client releases what lingers. -/
theorem Lingers.shutdown {c : Client} {id : SessionId} {index : Nat} (h : c.Lingers id index) :
    c.shutdown.Released id index := by
  obtain ⟨l, s, hl, hs, -⟩ := h.owns
  refine ⟨by rw [session?_eq, shutdown_peer?]; rfl, ?_⟩
  rw [server?, Client.shutdown, List.getElem?_map, hl]
  show some l.retire.server.closed = some true
  rw [Link.retire, hs]
  rfl

end Client

/-! ## Closing -/

/-- `close` is refused and drops the session, or the session waits for its end. -/
theorem Peer.close_outcomes {p : Peer} (hopen : p.server.closed = false) (keep : Bool)
    (target : SessionId) :
    (∃ failure, p.session.closing = false ∧ p.server.writeFailure = some failure ∧
      (p.upshot keep (.close target)).reply = .refused (.transport (.io failure.message)) ∧
      (p.upshot keep (.close target)).link.session = none) ∨
    (p.session.closing = true ∨ p.server.writeFailure = none) ∧
      (p.upshot keep (.close target)).reply = .done ∧
      ∃ s, (p.upshot keep (.close target)).link.session = some s ∧ s.id = p.session.id ∧
        s.outputEnded = p.session.outputEnded ∧ s.closing = true := by
  cases hclosing : p.session.closing with
  | true =>
      rw [upshot, if_pos hclosing]
      exact .inr ⟨.inl rfl, rfl, p.session, rfl, rfl, rfl, hclosing⟩
  | false =>
      rw [upshot, if_neg (by simp [hclosing]), endSession]
      cases hwrites : p.server.writeFailure with
      | none =>
          rw [request_written hopen hwrites]
          exact .inr ⟨.inr rfl, rfl, _, rfl, rfl, rfl, rfl⟩
      | some failure =>
          rw [request_failed hopen hwrites]
          exact .inl ⟨failure, rfl, rfl, rfl, rfl⟩

namespace Client

/-- What `close` comes to for a session whose output has ended. -/
inductive Parting (c : Client) (id : SessionId) (index : Nat) : Prop where
  /-- the request for the end is due now and cannot be written -/
  | atOnce {p : Peer} {failure : SystemError} (hp : c.peer? id = some p)
      (hgoing : p.session.closing = false) (hfails : p.server.writeFailure = some failure)
      (reply : (c.step (.close id)).1 = .refused (.transport (.io failure.message)))
      (released : (c.step (.close id)).2.Released id index)
  /-- the request for the end is written now, or waits already -/
  | withClient {p : Peer} (hp : c.peer? id = some p)
      (asked : p.session.closing = true ∨ p.server.writeFailure = none)
      (reply : (c.step (.close id)).1 = .done)
      (lingers : ∀ later, .shutdown ∉ later → ((c.step (.close id)).2.run later).Lingers id index)
      (released : ∀ later, .shutdown ∉ later →
        ((c.step (.close id)).2.run (later ++ [.shutdown])).Released id index)

theorem peer?_settle_of_gone {c : Client} {id : SessionId} {p : Peer} (hp : c.peer? id = some p)
    {u : Upshot} (hgone : u.link.session = none) : (c.settle id u).peer? id = none := by
  have hput := findPeer_put_self hp u.link
  rwa [if_neg (by simp [Link.id?, hgone])] at hput

theorem Ordered.parting {c : Client} (hc : c.Ordered) (hheld : c.AllHeld) {id : SessionId}
    {index : Nat} (howns : c.Owns id index) (hdead : c.isAlive id = false) :
    c.Parting id index := by
  obtain ⟨l, s, hl, hs, hid, hp⟩ := peer?_of_owns hc howns
  have hopen := hheld.opened hc hp
  have hended := ended_of_dead hp hdead
  have hconcerned : l.concerned? (.close id) = some { session := s, server := l.server } := by
    rw [Link.concerned?, Link.peer?, hs]
    exact if_pos hid
  have hscope : (Operation.close id).scope = .session id := rfl
  have hstep := step_of_target hc hscope hp
  have hlink : (c.step (.close id)).2.links[index]? =
      some (({ session := s, server := l.server : Peer }).upshot c.settings.debug
        (.close id)).link := by
    rw [getElem?_step hc hl, Link.after_of_concerned hconcerned]
  have hnext := hc.step (.close id)
  have hlater := (hheld.step hc (.close id)).1 _ (List.mem_of_getElem? hlink)
  rcases Peer.close_outcomes (p := { session := s, server := l.server }) hopen
    c.settings.debug id with ⟨failure, hgoing, hfails, hreply, hgone⟩ | ⟨asked, hreply, hstays⟩
  · refine .atOnce hp hgoing hfails (by rw [hstep]; exact hreply) ⟨?_, ?_⟩
    · rw [session?_eq, hstep, peer?_settle_of_gone hp hgone]
      rfl
    · rw [server?, hlink]
      show some _ = some true
      rw [hlater, hgone]
      rfl
  · obtain ⟨t, ht, htid, hsame, hclosing⟩ := hstays
    have hstrands : (c.step (.close id)).2.Strands id index := by
      refine ⟨_, hlink, ⟨t, ht, htid.trans hid, hsame.trans hended, hclosing⟩, ?_⟩
      rw [hlater, ht]
      rfl
    have hlingers : ∀ later, .shutdown ∉ later →
        ((c.step (.close id)).2.run later).Lingers id index := fun later hgoing =>
      (hstrands.run later hnext hgoing).lingers (hnext.run later)
    refine .withClient hp asked (by rw [hstep]; exact hreply) hlingers fun later hgoing => ?_
    rw [run_append]
    exact (hlingers later hgoing).shutdown

/-- Reads release a session after `close` if and only if `close` has done so. -/
theorem Parting.released_iff {c : Client} {id : SessionId} {index : Nat}
    (h : c.Parting id index) :
    (∃ reads, ((c.step (.close id)).2.run (List.replicate reads .process)).Released id index) ↔
      ∃ e, (c.step (.close id)).1 = .refused (.transport e) := by
  cases h with
  | atOnce hp hgoing hfails reply released => exact ⟨fun _ => ⟨_, reply⟩, fun _ => ⟨0, released⟩⟩
  | withClient hp asked reply lingers released =>
      constructor
      · rintro ⟨reads, hreleased⟩
        have hreads : .shutdown ∉ List.replicate reads Operation.process := by
          simp [List.mem_replicate]
        exact absurd hreleased (lingers _ hreads).not_released
      · rintro ⟨e, hrefused⟩
        rw [reply] at hrefused
        cases hrefused

/-- Once its output has ended, a session goes in its `close` or with the client. -/
theorem parting_of_run {settings : Settings} {processId : Nat} {launcher : Launcher}
    {operations : List Operation} {id : SessionId} {index : Nat}
    (howns : ((initial settings processId launcher).run operations).Owns id index)
    (hdead : ((initial settings processId launcher).run operations).isAlive id = false) :
    ((initial settings processId launcher).run operations).Parting id index := by
  have hordered := ordered_initial settings processId launcher
  exact (hordered.run operations).parting
    ((allHeld_initial settings processId launcher).run operations hordered).1 howns hdead

/-- A server that is started, and ends its output without a word. -/
def deafServer : List Operation :=
  [.connect "server" {}, .server 0 .endOutput, .process]

theorem owns_deafServer : ((initial {} 0 {}).run deafServer).Owns 1 0 := by
  have hlink : (((initial {} 0 {}).run deafServer).links[0]?).bind Link.id? = some 1 := by
    decide +kernel
  obtain ⟨l, hl, hid⟩ := Option.bind_eq_some_iff.1 hlink
  exact (owns_iff hl).2 hid

theorem parting_of_deafServer :
    ((initial {} 0 {}).run deafServer).Owns 1 0 ∧
      ((initial {} 0 {}).run deafServer).isAlive 1 = false ∧
      ((initial {} 0 {}).run deafServer).Parting 1 0 := by
  have hdead : ((initial {} 0 {}).run deafServer).isAlive 1 = false := by decide +kernel
  exact ⟨owns_deafServer, hdead, parting_of_run owns_deafServer hdead⟩

/-- The request that this session end is written, and no number of reads ends it. -/
theorem not_released_by_reads : ¬ ∀ operations id index,
    ((initial {} 0 {}).run operations).Owns id index →
    ((initial {} 0 {}).run operations).isAlive id = false →
    ∃ reads, ((((initial {} 0 {}).run operations).step (.close id)).2.run
      (List.replicate reads .process)).Released id index := by
  intro h
  have hdead : ((initial {} 0 {}).run deafServer).isAlive 1 = false := by decide +kernel
  have hopen : ((((initial {} 0 {}).run deafServer).step (.close 1)).2.server? 0).map
      Server.closed = some false := by decide +kernel
  have hordered := ordered_initial {} 0 {}
  have hparting := (hordered.run deafServer).parting
    ((allHeld_initial {} 0 {}).run deafServer hordered).1 owns_deafServer hdead
  obtain ⟨e, hrefused⟩ := hparting.released_iff.1 (h deafServer 1 0 owns_deafServer hdead)
  cases hparting with
  | atOnce hp hgoing hfails reply released =>
      rw [released.closed] at hopen
      cases hopen
  | withClient hp asked reply lingers released =>
      rw [reply] at hrefused
      cases hrefused

end Client

end LspClient
