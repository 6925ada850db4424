import LspClient.Proofs.Client.Exchanges
import LspClient.Proofs.Client.Isolation
import LspClient.Proofs.Client.Records

/-!
# Connecting is all or nothing

A session is begun in two steps, and each can fail: the server is started, and the
request for the handshake is written to it. If both succeed there is one session
more, whose handshake is under way. If the first fails nothing has happened. If the
second fails the server has come and gone, and a number is spent without a session.

What these three have in common is that the links there were are the first links
afterwards (`connect_outcomes`). Everything that is said of the other sessions
follows from this.

That a number is new is a statement about everything that happened before, and about
more than the sessions that are left: some have gone, some were never registered. So
it is about all numbers that a run has given (`issued`), and what carries it through
the run is that the last of them is kept.
-/

namespace LspClient

open Json (Value)

namespace Peer

theorem openSession_written {p : Peer} (hopen : p.server.closed = false)
    (hwrites : p.server.writeFailure = none) (keep : Bool) (params : Value) :
    p.openSession keep params =
      (.ok (),
        { session := { p.session.asking Lifecycle.opening.method params with status := .connecting }
          server :=
            p.server.sent [Envelope.request p.session.nextRequest Lifecycle.opening.method params]
          records := p.records ++ mirrored keep p.session.id
            (Envelope.request p.session.nextRequest Lifecycle.opening.method params) }) := by
  rw [openSession, request_written hopen hwrites]

theorem openSession_failed {p : Peer} (hopen : p.server.closed = false) {failure : SystemError}
    (hfails : p.server.writeFailure = some failure) (keep : Bool) (params : Value) :
    p.openSession keep params =
      (.error (.io failure.message),
        { session := p.session.numbered
          server := p.server
          records := p.records ++ mirrored keep p.session.id
            (Envelope.request p.session.nextRequest Lifecycle.opening.method params) }) := by
  rw [openSession, request_failed hopen hfails]

end Peer

namespace Client

/-- What a new server is asked first. -/
def greeting (c : Client) (connection : Connection) : Value :=
  Envelope.request .first Lifecycle.opening.method
    (handshakeParameters c.processId c.settings connection)

/-- A session whose handshake is under way, and its server. -/
structure Begun (c : Client) (command : String) (connection : Connection) (s : Session)
    (v : Server) : Prop where
  command : s.command = command
  status : s.status = .connecting
  alive : s.isAlive = true
  unknown : s.info = none
  pending : s.pending =
    [⟨.first, Lifecycle.opening.method, Json.encode (c.greeting connection)⟩]
  opened : v.closed = false
  written : v.written = Wire.frameText (Json.encode (c.greeting connection))

/-- The three ways of `connect`, with all that it does to the client. -/
theorem connect_outcomes (c : Client) (command : String) (connection : Connection) :
    (∃ e, c.connect command connection = (.error e, c)) ∨
    (∃ e v records, v.closed = true ∧ c.connect command connection =
      (.error e, { c with lastSession := c.lastSession + 1,
                          links := c.links ++ [⟨v, none⟩],
                          records := records })) ∨
    ∃ s v records, s.id = c.lastSession + 1 ∧ c.Begun command connection s v ∧
      c.connect command connection =
        (.ok (c.lastSession + 1), { c with lastSession := c.lastSession + 1,
                                           links := c.links ++ [⟨v, some s⟩],
                                           records := records }) := by
  rw [connect]
  cases hstart : c.launcher.start c.links.length command connection.args with
  | error e => exact .inl ⟨_, rfl⟩
  | ok v =>
      right
      obtain ⟨hopen, hnothing⟩ := Launcher.start_ok hstart
      let p : Peer := { session := { id := c.lastSession + 1, command }, server := v }
      dsimp only
      -- whether the second step fails is known before it is taken
      cases hwrites : v.writeFailure with
      | some failure =>
          rw [Peer.openSession_failed (p := p) hopen hwrites]
          exact .inl ⟨_, v.close, _, rfl, rfl⟩
      | none =>
          rw [Peer.openSession_written (p := p) hopen hwrites]
          refine .inr ⟨_, _, _, rfl, ?_, rfl⟩
          exact
            { command := rfl
              status := rfl
              alive := rfl
              unknown := rfl
              pending := rfl
              opened := hopen
              written := by
                rw [Server.sent_written hwrites, Server.written, hnothing]
                exact List.append_nil _ }

/-! ## Numbers -/

/-- The number that an operation gives to a session: the one that it answers, or the
one of a session that was begun and given up. -/
def given (c : Client) (operation : Operation) : List SessionId :=
  match (c.step operation).1 with
  | .opened id => [id]
  | _ => (c.newLinks operation).map fun _ => c.lastSession + 1

def issued (c : Client) : List Operation → List SessionId
  | [] => []
  | operation :: rest => c.given operation ++ (c.step operation).2.issued rest

theorem le_lastSession_of_given {c : Client} (hc : c.Ordered) {operation : Operation}
    {id : SessionId} (h : id ∈ c.given operation) : id ≤ (c.step operation).2.lastSession := by
  rw [given] at h
  split at h
  · next new hreply =>
      -- the number that is answered is the one that is spent
      rw [List.mem_singleton.1 h]
      have hnoted : (c.step operation).1.openingEvents new ≠ [] := by
        rw [hreply, Reply.openingEvents, if_pos rfl]
        exact List.cons_ne_nil _ _
      rcases c.step_lastSession operation with ⟨-, hnone⟩ | ⟨hlast, hnone⟩
      · exact absurd (hnone new) hnoted
      · rw [hlast]
        exact Nat.le_of_eq (Decidable.byContradiction fun hne => hnoted (hnone new (Ne.symm hne)))
  · obtain ⟨l, hl, rfl⟩ := List.mem_map.1 h
    rw [lastSession_step hc]
    exact Nat.add_le_add_left (List.length_pos_of_mem hl) _

theorem lastSession_le_run (operations : List Operation) {c : Client} (hc : c.Ordered) :
    c.lastSession ≤ (c.run operations).lastSession := by
  induction operations generalizing c with
  | nil => exact Nat.le_refl _
  | cons operation rest ih =>
      refine Nat.le_trans ?_ (ih (hc.step operation))
      rw [lastSession_step hc]
      exact Nat.le_add_right _ _

theorem le_lastSession_of_issued (operations : List Operation) {c : Client} (hc : c.Ordered) :
    ∀ id ∈ c.issued operations, id ≤ (c.run operations).lastSession := by
  induction operations generalizing c with
  | nil => exact fun id h => nomatch h
  | cons operation rest ih =>
      intro id h
      rcases List.mem_append.1 h with hnow | hlater
      · exact Nat.le_trans (le_lastSession_of_given hc hnow)
          (lastSession_le_run rest (hc.step operation))
      · exact ih (hc.step operation) id hlater

/-! ## All or nothing -/

/-- A client before and after a session was registered, with the numbers that were
given before. -/
structure Registers (c : Client) (issued : List SessionId) (command : String)
    (connection : Connection) (id : SessionId) (d : Client) : Prop where
  fresh : ∀ earlier ∈ issued, earlier < id
  unrecorded : ∀ r ∈ c.records, r.session < id
  added : ∃ s v, s.id = id ∧ c.Begun command connection s v ∧
    d.sessions = c.sessions ++ [s] ∧ d.links = c.links ++ [⟨v, some s⟩]

/-- A client before and after no session was registered. -/
structure Declines (c d : Client) : Prop where
  sessions : d.sessions = c.sessions
  /-- a server that was started is closed -/
  links : d.links = c.links ∨ ∃ v, v.closed = true ∧ d.links = c.links ++ [⟨v, none⟩]

/-- What `connect` comes to. -/
structure AllOrNothing (c : Client) (issued : List SessionId) (command : String)
    (connection : Connection) (r : Except ClientError SessionId × Client) : Prop where
  outcome : (∃ id, r.1 = .ok id ∧ c.Registers issued command connection id r.2) ∨
    ∃ e, r.1 = .error e ∧ c.Declines r.2
  /-- other sessions and their servers are what they were -/
  others : ∀ id p, c.peer? id = some p → r.2.peer? id = some p
  increasing : (r.2.sessions.map Session.id).Pairwise (· < ·)

theorem sessions_append (c : Client) (l : Link) {d : Client} (h : d.links = c.links ++ [l]) :
    d.sessions = c.sessions ++ l.session.toList := by
  rw [sessions, sessions, h, List.filterMap_append]
  cases hs : l.session <;> simp [hs]

theorem peer?_append {c d : Client} {l : Link} (h : d.links = c.links ++ [l]) {id : SessionId}
    {p : Peer} (hp : c.peer? id = some p) : d.peer? id = some p := by
  obtain ⟨found, hfound, hpeer⟩ := Option.bind_eq_some_iff.1 hp
  rw [peer?, h, List.find?_append, hfound]
  exact hpeer

theorem Ordered.sessions {c : Client} (h : c.Ordered) :
    (c.sessions.map Session.id).Pairwise (· < ·) := by
  have hids : c.sessions.map Session.id = c.ids := List.map_filterMap
  rw [hids]
  exact h.increasing

/-- Whatever has happened before, and wherever the paths of the connection lead. -/
theorem allOrNothing_of_run (settings : Settings) (processId : Nat) (launcher : Launcher)
    (operations : List Operation) (command : String) (connection : Connection) :
    AllOrNothing ((initial settings processId launcher).run operations)
      ((initial settings processId launcher).issued operations) command connection
      (((initial settings processId launcher).run operations).connect command connection) := by
  have hinitial := ordered_initial settings processId launcher
  have hissued := le_lastSession_of_issued operations hinitial
  have hfiled : ((initial settings processId launcher).run operations).Filed :=
    Filed.run operations (fun r hr => nomatch hr) hinitial
  have hordered := hinitial.run operations
  generalize (initial settings processId launcher).run operations = c at *
  have hafter := (hordered.connect command connection).sessions
  rcases connect_outcomes c command connection with
    ⟨e, heq⟩ | ⟨e, v, records, hclosed, heq⟩ | ⟨s, v, records, hid, hbegun, heq⟩
  · rw [heq] at hafter ⊢
    exact ⟨.inr ⟨e, rfl, rfl, .inl rfl⟩, fun _ _ h => h, hafter⟩
  · rw [heq] at hafter ⊢
    refine ⟨.inr ⟨e, rfl, ?_, .inr ⟨v, hclosed, rfl⟩⟩, fun _ _ => peer?_append rfl, hafter⟩
    rw [sessions_append c ⟨v, none⟩ rfl]
    exact List.append_nil _
  · rw [heq] at hafter ⊢
    refine ⟨.inl ⟨_, rfl, ?_⟩, fun _ _ => peer?_append rfl, hafter⟩
    exact
      { fresh := fun earlier hearlier => Nat.lt_succ_of_le (hissued earlier hearlier)
        unrecorded := fun r hr => Nat.lt_succ_of_le (hfiled r hr)
        added := ⟨s, v, hid, hbegun, sessions_append c ⟨v, some s⟩ rfl, rfl⟩ }

end Client

end LspClient
