import LspClient.Proofs.Client.Custody
import LspClient.Proofs.Client.WireOrder
import LspClient.Proofs.Session.Passages

/-!
# What passes in a run

The passages of a server are read off a run, operation by operation, from the
link of that server alone. Every write that reached a server is one of its
passages, and so is every record that is kept (`Peer.upshot_passes`), so what is
to be said of the two can be said of passages.

`PassedAt` is how such a statement is carried through a run: it holds of the link
with an index and its passages so far, or there is no such link yet. A step needs
what an operation does to a link and what opening one leaves behind
(`PassedAt.step`).
-/

namespace LspClient

open Json (Value)

namespace Peer

/-- What passes when a message is to be written now. -/
def tries (p : Peer) (caller : Bool) (envelope : Value) : Passage :=
  .tried caller envelope p.server.writeFailure.isNone

/-- What passes as an operation happens to a session. -/
def passages (p : Peer) : Operation → List Passage
  | .close _ =>
    if p.session.closing then []
    else [p.tries false (Envelope.request p.session.nextRequest Lifecycle.ending.method .null)]
  | .request _ method params =>
    match p.admits with
    | .error _ => []
    | .ok () => [p.tries true (Envelope.request p.session.nextRequest method params)]
  | .notify _ method params =>
    match p.admits with
    | .error _ => []
    | .ok () => [p.tries true (Envelope.notification method params)]
  | .process =>
    if p.session.outputEnded then []
    else p.fetched.session.passages p.server.writeFailure.isNone (bodiesIn p.fetchedFrames)
  | _ => []

end Peer

namespace Link

/-- The session that an operation does something to, with its server. -/
def concerned? (l : Link) (operation : Operation) : Option Peer :=
  match operation.scope with
  | .session id => l.peer?.bind fun p => if p.session.id = id then some p else none
  | .sessions => l.peer?
  | .server .. => none
  | .nothing => none

/-- What passes at a link as an operation happens. -/
def passages (l : Link) (operation : Operation) : List Passage :=
  ((l.concerned? operation).map fun p => p.passages operation).getD []

end Link

namespace Client

/-- What passes at the server that an operation starts. -/
def openingPassages (c : Client) : Operation → List Passage
  | .connect command connection =>
    match c.launcher.start c.links.length command connection.args with
    | .error _ => []
    | .ok server =>
      [.tried false (Envelope.request .first Lifecycle.opening.method
        (handshakeParameters c.processId c.settings connection)) server.writeFailure.isNone]
  | _ => []

/-- What passes at the server with an index as an operation happens. -/
def passagesOf (index : Nat) (c : Client) (operation : Operation) : List Passage :=
  match c.links[index]? with
  | some l => l.passages operation
  | none => if index = c.links.length then c.openingPassages operation else []

/-- What passes at the server with an index during a run. -/
def passages (index : Nat) (c : Client) : List Operation → List Passage
  | [] => []
  | operation :: rest => c.passagesOf index operation ++ (c.step operation).2.passages index rest

end Client

/-! ## One operation on one link -/

namespace Peer

theorem send_passes (keep : Bool) {p : Peer} (hopen : p.server.closed = false) (caller : Bool)
    (envelope : Value) : p.Passes keep (p.send keep envelope).2 [p.tries caller envelope] where
  writes := by
    rw [send_server hopen, Server.sent, tries, List.filterMap_cons, Passage.wire?]
    cases p.server.writeFailure <;> rfl
  records := by
    rintro rfl
    rfl

theorem request_passes (keep : Bool) {p : Peer} (hopen : p.server.closed = false) (caller : Bool)
    (method : String) (params : Value) :
    p.Passes keep (p.request keep method params).2
      [p.tries caller (Envelope.request p.session.nextRequest method params)] := by
  have hsend := send_passes keep (p := { p with session := p.session.numbered }) hopen caller
    (Envelope.request p.session.nextRequest method params)
  rw [request_eq]
  cases hq : send keep { p with session := p.session.numbered }
      (Envelope.request p.session.nextRequest method params) with
  | mk result q =>
      rw [hq] at hsend
      cases result <;> exact ⟨hsend.writes, hsend.records⟩

theorem fetched_server (p : Peer) :
    ∃ output, p.fetched.server = { p.server with output := output } := by
  have hread : ∃ output, p.server.read.2 = { p.server with output := output } := by
    rw [Server.read]
    split
    · exact ⟨_, rfl⟩
    · split
      · exact ⟨_, rfl⟩
      · split <;> exact ⟨_, rfl⟩
  obtain ⟨output, hserver⟩ := hread
  refine ⟨output, ?_⟩
  rw [fetched, readChunk]
  cases h : p.server.read with
  | mk result server =>
      rw [h] at hserver
      cases result with
      | error e => exact hserver
      | ok chunk => cases chunk <;> exact hserver

theorem fetched_records (p : Peer) : p.fetched.records = p.records := by
  rw [fetched, readChunk]
  cases p.server.read with
  | mk result server =>
      cases result with
      | error e => rfl
      | ok chunk => cases chunk <;> rfl

theorem pump_passes (keep : Bool) {p : Peer} (hopen : p.server.closed = false) :
    p.Passes keep (p.pump keep).peer (p.passages .process) := by
  cases hended : p.session.outputEnded with
  | true =>
      rw [pump_of_ended hended, passages, if_pos hended]
      exact .nothing rfl rfl
  | false =>
      obtain ⟨output, hserver⟩ := p.fetched_server
      have hfetched : p.fetched.server.closed = false := by
        rw [hserver]
        exact hopen
      have hall := receiveAll_passes keep p.fetchedFrames hfetched
      have hfailure : p.fetched.server.writeFailure = p.server.writeFailure := by rw [hserver]
      rw [hfailure] at hall
      rw [pump_of_open hended, passages, if_neg (by simp [hended])]
      exact Passes.append (.nothing (by rw [hserver]) p.fetched_records)
        (fetched_moves p).id_eq hall

theorem Passes.upshot {keep : Bool} {p q : Peer} {passed : List Passage}
    (h : p.Passes keep q passed) {u : Upshot} (hwrites : u.link.server.writes = q.server.writes)
    (hrecords : u.records = q.records) :
    p.Passes keep { p with server := u.link.server, records := u.records } passed where
  writes := hwrites.trans h.writes
  records := fun hkeep => hrecords.trans (h.records hkeep)

/-- What an operation writes to a server and what it records are what passes. -/
theorem upshot_passes (keep : Bool) {p : Peer} (hopen : p.server.closed = false)
    (operation : Operation) :
    p.Passes keep
      { p with
        server := (p.upshot keep operation).link.server
        records := (p.upshot keep operation).records }
      (p.passages operation) := by
  cases operation with
  | close id =>
      rw [passages]
      split
      · next hclosing =>
          rw [upshot, if_pos hclosing]
          exact .nothing rfl rfl
      · next hclosing =>
          have hrequest := request_passes keep hopen false Lifecycle.ending.method .null
          rw [upshot, if_neg hclosing, endSession]
          cases hq : p.request keep Lifecycle.ending.method .null with
          | mk result q =>
              rw [hq] at hrequest
              cases result <;> exact hrequest.upshot rfl rfl
  | request id method params =>
      rw [passages, upshot]
      cases p.admits with
      | error e => exact .nothing rfl rfl
      | ok _ =>
          have hrequest := request_passes keep hopen true method params
          dsimp only
          cases hq : p.request keep method params with
          | mk result q =>
              rw [hq] at hrequest
              cases result <;> exact hrequest.upshot rfl rfl
  | notify id method params =>
      rw [passages, upshot]
      cases p.admits with
      | error e => exact .nothing rfl rfl
      | ok _ =>
          have hnotify : p.Passes keep (p.notify keep method params).2
              [p.tries true (Envelope.notification method params)] := send_passes keep hopen true _
          dsimp only
          cases hq : p.notify keep method params with
          | mk result q =>
              rw [hq] at hnotify
              cases result <;> exact hnotify.upshot rfl rfl
  | process => exact (pump_passes keep hopen).upshot rfl rfl
  | _ => exact .nothing rfl rfl

theorem opening_passes (keep : Bool) {p : Peer} (hopen : p.server.closed = false)
    (params : Value) :
    p.Passes keep
      { p with
        server := (p.opening keep params).link.server
        records := (p.opening keep params).records }
      [p.tries false (Envelope.request p.session.nextRequest Lifecycle.opening.method params)] := by
  have hrequest := request_passes keep hopen false Lifecycle.opening.method params
  rw [opening, openSession]
  cases hq : p.request keep Lifecycle.opening.method params with
  | mk result q =>
      rw [hq] at hrequest
      cases result <;> exact hrequest.upshot rfl rfl

end Peer

namespace Link

theorem upshot?_eq (keep : Bool) (l : Link) (operation : Operation) :
    l.upshot? keep operation =
      (l.concerned? operation).map fun p => p.upshot keep operation := by
  rw [upshot?, concerned?]
  cases operation.scope with
  | session id =>
      cases l.peer? with
      | none => rfl
      | some p =>
          dsimp only [Option.bind_some]
          split <;> rfl
  | sessions => rfl
  | server target event => rfl
  | nothing => rfl

theorem peer?_of_concerned {l : Link} {operation : Operation} {p : Peer}
    (h : l.concerned? operation = some p) : l.peer? = some p := by
  rw [concerned?] at h
  split at h
  · obtain ⟨q, hq, hp⟩ := Option.bind_eq_some_iff.1 h
    split at hp
    · rwa [← Option.some.inj hp]
    · cases hp
  · exact h
  · cases h
  · cases h

theorem after_of_concerned {keep : Bool} {index : Nat} {l : Link} {operation : Operation}
    {p : Peer} (h : l.concerned? operation = some p) :
    l.after keep index operation = (p.upshot keep operation).link := by
  rw [after, upshot?_eq, h]
  split
  · next target event hscope =>
      rw [concerned?, hscope] at h
      cases h
  · rfl

theorem after_of_not_concerned {keep : Bool} {index : Nat} {l : Link} {operation : Operation}
    (h : l.concerned? operation = none) :
    (l.after keep index operation).session = l.session ∧
      (l.after keep index operation).server.writes = l.server.writes := by
  rw [after, upshot?_eq, h]
  split
  · next target event hscope =>
      split
      · exact ⟨rfl, event.apply_writes l.server⟩
      · exact ⟨rfl, rfl⟩
  · exact ⟨rfl, rfl⟩

end Link

/-! ## Runs -/

namespace Client

/-- Something holds of the link with an index and of what has passed at it, or
there is no such link yet. -/
def PassedAt (P : Link → List Passage → Prop) (c : Client) (index : Nat)
    (passed : List Passage) : Prop :=
  match c.links[index]? with
  | some l => P l passed
  | none => passed = []

theorem PassedAt.imp {P Q : Link → List Passage → Prop} {c : Client} {index : Nat}
    {passed : List Passage} (h : c.PassedAt P index passed)
    (himp : ∀ l, P l passed → Q l passed) : c.PassedAt Q index passed := by
  rw [PassedAt] at h ⊢
  cases hl : c.links[index]? with
  | some l =>
      rw [hl] at h
      exact himp l h
  | none =>
      rw [hl] at h
      exact h

theorem openingPassages_of_none {c : Client} (hc : c.Ordered) {operation : Operation}
    (h : (c.step operation).2.links[c.links.length]? = none) :
    c.openingPassages operation = [] := by
  cases operation with
  | connect command connection =>
      obtain ⟨e, hstart⟩ := start_of_none hc h
      rw [openingPassages, hstart]
  | _ => rfl

/-- An operation does something to a link that is there, or opens it. -/
theorem PassedAt.step {P Q : Link → List Passage → Prop} {c : Client} {index : Nat}
    {passed : List Passage} (h : c.PassedAt P index passed) (hc : c.Ordered)
    (operation : Operation)
    (kept : ∀ l, c.links[index]? = some l → P l passed →
      Q (l.after c.settings.debug index operation) (passed ++ l.passages operation))
    (opened : ∀ command connection server, operation = .connect command connection →
      index = c.links.length →
      c.launcher.start c.links.length command connection.args = .ok server →
      Q (c.opening command connection server).link (c.openingPassages operation)) :
    (c.step operation).2.PassedAt Q index (passed ++ c.passagesOf index operation) := by
  rw [PassedAt, passagesOf]
  rw [PassedAt] at h
  cases hl : c.links[index]? with
  | some l =>
      rw [hl] at h
      rw [getElem?_step hc hl]
      exact kept l hl h
  | none =>
      rw [hl] at h
      rw [h, List.nil_append]
      cases hnew : (c.step operation).2.links[index]? with
      | some l =>
          obtain ⟨hindex, command, connection, server, rfl, hstart, rfl⟩ :=
            getElem?_step_new hc hl hnew
          dsimp only
          rw [if_pos hindex]
          exact opened command connection server rfl hindex hstart
      | none =>
          dsimp only
          split
          · next hindex => exact openingPassages_of_none hc (hindex ▸ hnew)
          · rfl

/-- What was written to the server of a link is what passed and was written. -/
def Reached (l : Link) (passed : List Passage) : Prop :=
  l.server.writes = passed.filterMap Passage.wire?

theorem reached_after {l : Link} {passed : List Passage} (hheld : l.Held) (h : Reached l passed)
    (keep : Bool) (index : Nat) (operation : Operation) :
    Reached (l.after keep index operation) (passed ++ l.passages operation) := by
  rw [Reached, List.filterMap_append, ← show l.server.writes = _ from h, Link.passages]
  cases hconcerned : l.concerned? operation with
  | none =>
      rw [(Link.after_of_not_concerned hconcerned).2]
      exact (List.append_nil _).symm
  | some p =>
      obtain ⟨s, hs, rfl⟩ := Option.map_eq_some_iff.1 (Link.peer?_of_concerned hconcerned)
      rw [Link.Held, hs] at hheld
      rw [Link.after_of_concerned hconcerned]
      exact (Peer.upshot_passes keep (p := { session := s, server := l.server }) hheld operation).writes

theorem opening_passed {c : Client} {command : String} {connection : Connection} {server : Server}
    (hstart : c.launcher.start c.links.length command connection.args = .ok server) :
    { session := { id := c.lastSession + 1, command }, server : Peer }.Passes c.settings.debug
      { session := { id := c.lastSession + 1, command }
        server := (c.opening command connection server).link.server
        records := (c.opening command connection server).records }
      (c.openingPassages (.connect command connection)) := by
  rw [openingPassages, hstart]
  exact Peer.opening_passes c.settings.debug
    (p := { session := { id := c.lastSession + 1, command }, server })
    (Launcher.start_ok hstart).1 _

theorem opening_reached {c : Client} {command : String} {connection : Connection}
    {server : Server}
    (hstart : c.launcher.start c.links.length command connection.args = .ok server) :
    Reached (c.opening command connection server).link
      (c.openingPassages (.connect command connection)) := by
  have hwrites := (opening_passed hstart).writes
  dsimp only at hwrites
  rwa [(Launcher.start_ok hstart).2, List.nil_append] at hwrites

end Client

end LspClient
