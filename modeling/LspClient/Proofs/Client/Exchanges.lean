import LspClient.Proofs.Client.Passages
import LspClient.Proofs.Session.Exchanges

/-!
# Every run is exchanges

What an operation does to the session of a link it does by exchanges, and what
passes in them are the passages of the link (`Link.after_exchanges`). A link starts
with the request for the handshake, and its session is registered if that was
written. So what has become of a session is told from there on
(`Session.Life`), and this is so for every link of every run (`told_of_run`).

A statement about a session and all that has passed at it is then a statement about
the request for the handshake and about each exchange (`Session.Life.preserves`).

The file begins with what sending comes to on a server that is open. Whether it
succeeds depends on the server alone, and what is recorded does not depend on
whether it does.
-/

namespace LspClient

open Json (Value)

/-- What is recorded of a message that is to be written. -/
def mirrored (keep : Bool) (id : SessionId) (envelope : Value) : List Record :=
  if keep then [⟨id, .outgoing, Json.encode envelope⟩] else []

/-! ## Sending on a server that is open -/

theorem Server.sent_failed {v : Server} {failure : SystemError}
    (h : v.writeFailure = some failure) (envelopes : List Value) : v.sent envelopes = v := by
  rw [sent, if_pos (by rw [h]; rfl), List.append_nil]

theorem Server.sent_written {v : Server} (h : v.writeFailure = none) (envelopes : List Value) :
    v.sent envelopes = { v with writes := v.writes ++ envelopes.map Envelope.wire } := by
  rw [sent, if_neg (by rw [h]; exact Bool.false_ne_true)]

namespace Peer

open Session (Exchanges Exchange)

theorem send_eq {p : Peer} (hopen : p.server.closed = false) (keep : Bool) (envelope : Value) :
    p.send keep envelope =
      (match p.server.writeFailure with
        | none => .ok ()
        | some failure => .error (.io failure.message),
        { p with
          server := p.server.sent [envelope]
          records := p.records ++ mirrored keep p.session.id envelope }) := by
  obtain ⟨s, ⟨command, args, process, output, writes, outputEnded, failure, closed⟩, records⟩ := p
  obtain rfl : closed = false := hopen
  cases keep <;> cases failure <;> simp [send, record, Server.write, Server.sent, mirrored]

theorem request_written {p : Peer} (hopen : p.server.closed = false)
    (hwrites : p.server.writeFailure = none) (keep : Bool) (method : String) (params : Value) :
    p.request keep method params =
      (.ok p.session.nextRequest,
        { session := p.session.asking method params
          server := p.server.sent [Envelope.request p.session.nextRequest method params]
          records := p.records ++
            mirrored keep p.session.id (Envelope.request p.session.nextRequest method params) }) := by
  rw [request_eq, send_eq (p := { p with session := p.session.numbered }) hopen]
  dsimp only
  rw [hwrites]
  rfl

theorem request_failed {p : Peer} (hopen : p.server.closed = false) {failure : SystemError}
    (hfails : p.server.writeFailure = some failure) (keep : Bool) (method : String)
    (params : Value) :
    p.request keep method params =
      (.error (.io failure.message),
        { session := p.session.numbered
          server := p.server
          records := p.records ++
            mirrored keep p.session.id (Envelope.request p.session.nextRequest method params) }) := by
  rw [request_eq, send_eq (p := { p with session := p.session.numbered }) hopen]
  dsimp only
  rw [hfails, Server.sent_failed hfails]
  rfl

theorem notify_eq {p : Peer} (hopen : p.server.closed = false) (keep : Bool) (method : String)
    (params : Value) :
    p.notify keep method params =
      (match p.server.writeFailure with
        | none => .ok ()
        | some failure => .error (.io failure.message),
        { p with
          server := p.server.sent [Envelope.notification method params]
          records := p.records ++ mirrored keep p.session.id (Envelope.notification method params) }) :=
  send_eq hopen keep _

/-! ## One operation -/

theorem tries_eq_written {p : Peer} (h : p.server.writeFailure = none) (caller : Bool)
    (envelope : Value) : p.tries caller envelope = .tried caller envelope true := by
  rw [tries, h]
  rfl

theorem tries_eq_failed {p : Peer} {failure : SystemError}
    (h : p.server.writeFailure = some failure) (caller : Bool) (envelope : Value) :
    p.tries caller envelope = .tried caller envelope false := by
  rw [tries, h]
  rfl

theorem pump_exchanges (keep : Bool) {p : Peer} (hopen : p.server.closed = false) :
    Exchanges (some p.session) (p.passages .process)
      (Session.kept ((p.pump keep).peer.session, (p.pump keep).finished)) := by
  cases hended : p.session.outputEnded with
  | true =>
      rw [pump_of_ended hended, passages, if_pos hended]
      exact .nil (some p.session)
  | false =>
      obtain ⟨output, hserver⟩ := p.fetched_server
      have hfetched : p.fetched.server.closed = false := by
        rw [hserver]
        exact hopen
      have hheard := (receiveAll_heard keep (bodiesIn p.fetchedFrames) hfetched).outcome
      rw [← receiveAll_bodiesIn] at hheard
      have hrest := p.fetched.session.passages_exchanges p.server.writeFailure.isNone
        (bodiesIn p.fetchedFrames)
      rw [hheard] at hrest
      rw [pump_of_open hended, passages, if_neg (by simp [hended])]
      exact .cons p.fetched_exchange hrest

/-- What an operation does to a session are exchanges. -/
theorem upshot_exchanges (keep : Bool) {p : Peer} (hopen : p.server.closed = false)
    (operation : Operation) :
    Exchanges (some p.session) (p.passages operation)
      (p.upshot keep operation).link.session := by
  cases operation with
  | close id =>
      rw [passages, upshot]
      split
      · exact .nil (some p.session)
      · next hclosing =>
          have hgoing : p.session.closing = false := Bool.eq_false_iff.2 hclosing
          rw [endSession]
          cases hwrites : p.server.writeFailure with
          | none =>
              rw [request_written hopen hwrites, tries_eq_written hwrites]
              exact (Exchange.closing p.session hgoing).single
          | some failure =>
              rw [request_failed hopen hwrites, tries_eq_failed hwrites]
              exact (Exchange.severed p.session hgoing).single
  | request id method params =>
      rw [passages, upshot]
      cases hadmits : p.admits with
      | error e => exact .nil (some p.session)
      | ok _ =>
          obtain ⟨hconnected, hgoing⟩ := admits_ok hadmits
          dsimp only
          cases hwrites : p.server.writeFailure with
          | none =>
              rw [request_written hopen hwrites, tries_eq_written hwrites]
              exact (Exchange.sent p.session method params hconnected hgoing).single
          | some failure =>
              rw [request_failed hopen hwrites, tries_eq_failed hwrites]
              exact (Exchange.unsent p.session method params hconnected hgoing).single
  | notify id method params =>
      rw [passages, upshot]
      cases hadmits : p.admits with
      | error e => exact .nil (some p.session)
      | ok _ =>
          obtain ⟨hconnected, hgoing⟩ := admits_ok hadmits
          dsimp only
          rw [notify_eq hopen]
          cases p.server.writeFailure
          all_goals exact (Exchange.told p.session method params _ hconnected hgoing).single
  | process => exact pump_exchanges keep hopen
  | takeCompletions id =>
      exact (Exchange.quiet p.session p.session.frames p.session.outputEnded []
        p.session.notices).single
  | takeNotices id =>
      exact (Exchange.quiet p.session p.session.frames p.session.outputEnded
        p.session.completions []).single
  | shutdown => exact (Exchange.dropped p.session).single
  | _ => exact .nil (some p.session)

end Peer

namespace Link

/-- What an operation does to the session of a link are exchanges. -/
theorem after_exchanges {l : Link} (hheld : l.Held) (keep : Bool) (index : Nat)
    (operation : Operation) :
    Session.Exchanges l.session (l.passages operation)
      (l.after keep index operation).session := by
  rw [passages]
  cases hconcerned : l.concerned? operation with
  | none =>
      rw [(after_of_not_concerned hconcerned).1]
      exact .nil l.session
  | some p =>
      obtain ⟨s, hs, rfl⟩ := Option.map_eq_some_iff.1 (peer?_of_concerned hconcerned)
      rw [Held, hs] at hheld
      rw [after_of_concerned hconcerned, hs]
      exact Peer.upshot_exchanges keep (p := { session := s, server := l.server }) hheld operation

end Link

namespace Client

/-! ## Runs -/

theorem opening_life {c : Client} {command : String} {connection : Connection} {server : Server}
    (hstart : c.launcher.start c.links.length command connection.args = .ok server) :
    Session.Life (c.opening command connection server).link.session
      (c.openingPassages (.connect command connection)) := by
  let params := handshakeParameters c.processId c.settings connection
  have hopen := (Launcher.start_ok hstart).1
  refine ⟨c.lastSession + 1, command, params, server.writeFailure.isNone, [], ?_, ?_⟩
  · rw [openingPassages, hstart]
  · rw [opening, Peer.opening, Peer.openSession]
    cases hwrites : server.writeFailure with
    | none =>
        rw [Peer.request_written hopen hwrites]
        exact .nil _
    | some failure =>
        rw [Peer.request_failed hopen hwrites]
        exact .nil _

/-- What has become of a link, and what was written to its server. -/
structure Told (l : Link) (passed : List Passage) : Prop where
  reached : Reached l passed
  life : Session.Life l.session passed

theorem opening_told {c : Client} {command : String} {connection : Connection} {server : Server}
    (hstart : c.launcher.start c.links.length command connection.args = .ok server) :
    Told (c.opening command connection server).link
      (c.openingPassages (.connect command connection)) where
  reached := opening_reached hstart
  life := opening_life hstart

theorem told_run {index : Nat} (operations : List Operation) {c : Client}
    {passed : List Passage} (h : c.PassedAt Told index passed) (hc : c.Ordered)
    (hheld : c.AllHeld) :
    (c.run operations).PassedAt Told index (passed ++ c.passages index operations) := by
  induction operations generalizing c passed with
  | nil => rwa [passages, List.append_nil]
  | cons operation rest ih =>
      have hstep : (c.step operation).2.PassedAt Told index
          (passed ++ c.passagesOf index operation) := by
        refine h.step hc operation (fun l hl htold => ?_) fun command connection server heq _ hstart => ?_
        · have hl_held := hheld l (List.mem_of_getElem? hl)
          exact
            { reached := reached_after hl_held htold.reached c.settings.debug index operation
              life := htold.life.append
                (Link.after_exchanges hl_held c.settings.debug index operation) }
        · rw [heq]
          exact opening_told hstart
      rw [passages, ← List.append_assoc]
      exact ih hstep (hc.step operation) (hheld.step hc operation).1

/-- What is known of every link of every run. -/
theorem told_of_run (settings : Settings) (processId : Nat) (launcher : Launcher)
    (operations : List Operation) {index : Nat} {l : Link}
    (hl : ((initial settings processId launcher).run operations).links[index]? = some l) :
    Told l ((initial settings processId launcher).passages index operations) := by
  have hrun : ((initial settings processId launcher).run operations).PassedAt Told index
      ([] ++ (initial settings processId launcher).passages index operations) :=
    told_run operations rfl (ordered_initial settings processId launcher)
      (allHeld_initial settings processId launcher)
  rwa [PassedAt, hl, List.nil_append] at hrun

end Client

end LspClient
