import Mathlib.Logic.ExistsUnique
import LspClient.Proofs.Client.History
import LspClient.Proofs.Client.Upshot

/-!
# Who holds a server

Between any two operations a server is closed if and only if no registered
session owns it. A server that nobody owns and nobody closed would run on
unseen, and a server that was closed under its session would answer no more.

For one session with its server this is a matter of the ways in which a session
ends. Writing and reading never close anything. A handshake that cannot be
written, an end that cannot be asked for and the end of the client close the
server as they drop the session, and the answer to the request that the session
end closes it before the read reports that the session is over (`pump_becomes`),
whatever else arrived in the same read. `Link.Holds` is what comes of all of
them.

For the client it remains that links have different sessions, which is why a
session owns one server only.
-/

namespace LspClient

open Json (Value)

/-! ## One session and its server -/

/-- What a server becomes as a session is led: the same process, and closed if
the session ended. -/
structure Server.Becomes (v w : Server) (ended : Bool) : Prop where
  process : w.processId = v.processId
  closed : w.closed = (v.closed || ended)

namespace Server

theorem Becomes.refl (v : Server) : v.Becomes v false :=
  ⟨rfl, (Bool.or_false _).symm⟩

theorem Becomes.trans {u v w : Server} {ended : Bool} (first : u.Becomes v false)
    (later : v.Becomes w ended) : u.Becomes w ended where
  process := later.process.trans first.process
  closed := by rw [later.closed, first.closed, Bool.or_false]

theorem write_becomes (v : Server) (bytes : List UInt8) :
    v.Becomes (v.write bytes).2 false := by
  rw [write]
  split
  · exact .refl v
  · split
    · exact .refl v
    · exact ⟨rfl, (Bool.or_false _).symm⟩

theorem read_becomes (v : Server) : v.Becomes v.read.2 false := by
  rw [read]
  split
  · exact .refl v
  · split
    · exact ⟨rfl, (Bool.or_false _).symm⟩
    · split <;> exact .refl v

end Server

theorem ServerEvent.apply_becomes (v : Server) (event : ServerEvent) :
    v.Becomes (event.apply v) false := by
  cases event with
  | answer method result =>
      show v.Becomes (v.answer method result).2 false
      rw [Server.answer]
      split
      · exact ⟨rfl, (Bool.or_false _).symm⟩
      · exact .refl v
  | _ => exact ⟨rfl, (Bool.or_false _).symm⟩

namespace Peer

theorem send_becomes (keep : Bool) (p : Peer) (envelope : Value) :
    p.server.Becomes (p.send keep envelope).2.server false := by
  show p.server.Becomes ((p.record keep .outgoing _).server.write _).2 false
  rw [record_server]
  exact p.server.write_becomes _

theorem request_becomes (keep : Bool) (p : Peer) (method : String) (params : Value) :
    p.server.Becomes (p.request keep method params).2.server false := by
  have hsend := send_becomes keep { p with session := p.session.numbered }
    (Envelope.request p.session.nextRequest method params)
  rw [request]
  dsimp only
  split
  all_goals
    next heq =>
      rw [Session.numbered, heq] at hsend
      exact hsend

theorem notify_becomes (keep : Bool) (p : Peer) (method : String) (params : Value) :
    p.server.Becomes (p.notify keep method params).2.server false :=
  send_becomes keep p _

theorem openSession_becomes (keep : Bool) (p : Peer) (params : Value) :
    p.server.Becomes (p.openSession keep params).2.server false := by
  have hrequest := request_becomes keep p Lifecycle.opening.method params
  rw [openSession]
  split
  all_goals
    next heq => rwa [heq] at hrequest

theorem endSession_becomes (keep : Bool) (p : Peer) :
    p.server.Becomes (p.endSession keep).2.server false := by
  have hrequest := request_becomes keep p Lifecycle.ending.method .null
  rw [endSession]
  split
  all_goals
    next heq => rwa [heq] at hrequest

theorem finishHandshake_becomes (keep : Bool) (p : Peer) (r : Response) :
    p.server.Becomes (p.finishHandshake keep r).server false := by
  rw [finishHandshake]
  split
  · exact .refl p.server
  · next result _ =>
      split
      · exact .refl p.server
      · dsimp only
        split
        · exact .refl p.server
        · let s : Session :=
            { p.session with info := some (.ofResult result), status := .connected }
          exact notify_becomes keep { p with session := s } Lifecycle.ready.method (.object [])

theorem finishSession_becomes (keep : Bool) (p : Peer) :
    p.server.Becomes (p.finishSession keep).server true where
  process := (notify_becomes keep p Lifecycle.leaving.method .null).process
  closed := (Bool.or_true _).symm

theorem receiveMessage_becomes (keep : Bool) (p : Peer) (m : Incoming) :
    p.server.Becomes (p.receiveMessage keep m).1.server (p.receiveMessage keep m).2 := by
  cases m with
  | request id method params => exact send_becomes keep p _
  | notification method params => exact .refl p.server
  | response r =>
      rw [receiveMessage, receiveResponse]
      split
      · exact .refl p.server
      · next entry _ =>
          dsimp only
          split
          · exact finishHandshake_becomes keep { p with session := p.session.retire entry.id } r
          · split
            · exact finishSession_becomes keep { p with session := p.session.retire entry.id }
            · exact .refl p.server

theorem receiveBody_becomes (keep : Bool) (p : Peer) (body : List UInt8) :
    p.server.Becomes (p.receiveBody keep body).1.server (p.receiveBody keep body).2 := by
  rw [receiveBody]
  split
  · exact .refl p.server
  · next text _ =>
      dsimp only
      split
      · rw [record_server]
        exact .refl p.server
      · next m _ =>
          have hmessage := receiveMessage_becomes keep (p.record keep .incoming text) m
          rwa [record_server] at hmessage

theorem receiveAll_becomes (keep : Bool) (results : List Wire.FrameResult) :
    ∀ p : Peer,
      p.server.Becomes (p.receiveAll keep results).1.server (p.receiveAll keep results).2 := by
  induction results with
  | nil =>
      intro p
      exact .refl p.server
  | cons result rest ih =>
      intro p
      cases result with
      | error e => exact ih p
      | ok body =>
          have hbody := receiveBody_becomes keep p body
          rw [receiveAll]
          cases h : p.receiveBody keep body with
          | mk q ended =>
              rw [h] at hbody
              cases ended with
              | true => exact hbody
              | false => exact hbody.trans (ih q)

theorem readChunk_becomes (p : Peer) : p.server.Becomes p.readChunk.1.server false := by
  have hread := p.server.read_becomes
  rw [readChunk]
  cases h : p.server.read with
  | mk result server =>
      rw [h] at hread
      cases result with
      | error e => exact hread
      | ok chunk => cases chunk <;> exact hread

/-- A read closes the server if and only if it ends the session. -/
theorem pump_becomes (keep : Bool) (p : Peer) :
    p.server.Becomes (p.pump keep).peer.server (p.pump keep).finished := by
  cases hended : p.session.outputEnded with
  | true =>
      rw [pump_of_ended hended]
      exact .refl p.server
  | false =>
      rw [pump_of_open hended]
      exact (readChunk_becomes p).trans (receiveAll_becomes keep p.fetchedFrames p.fetched)

end Peer

/-- The server of a link is closed if and only if the session is gone. -/
def Link.Held (l : Link) : Prop :=
  l.server.closed = l.session.isNone

/-- A link has a server that was there before, and holds it. -/
structure Link.Holds (l : Link) (v : Server) : Prop where
  process : l.server.processId = v.processId
  held : l.Held

namespace Peer

theorem stays_holds {p q : Peer} (h : p.server.closed = false)
    (hq : p.server.Becomes q.server false) (reply : Reply) :
    (q.stays reply).link.Holds p.server :=
  ⟨hq.process, hq.closed.trans (by rw [h]; rfl)⟩

theorem goes_holds {p q : Peer} (hq : p.server.Becomes q.server false) (reply : Reply) :
    (q.goes reply).link.Holds p.server :=
  ⟨hq.process, rfl⟩

theorem opening_holds {p : Peer} (h : p.server.closed = false) (keep : Bool) (params : Value) :
    (p.opening keep params).link.Holds p.server := by
  have hopen := openSession_becomes keep p params
  rw [opening]
  split
  · next heq =>
      rw [heq] at hopen
      exact stays_holds h hopen _
  · next heq =>
      rw [heq] at hopen
      exact goes_holds hopen _

theorem upshot_holds {p : Peer} (h : p.server.closed = false) (keep : Bool)
    (operation : Operation) : (p.upshot keep operation).link.Holds p.server := by
  cases operation with
  | close id =>
      have hend := endSession_becomes keep p
      rw [upshot]
      split
      · exact stays_holds h (.refl p.server) _
      · split
        · next heq =>
            rw [heq] at hend
            exact stays_holds h hend _
        · next heq =>
            rw [heq] at hend
            exact goes_holds hend _
  | request id method params =>
      have hrequest := request_becomes keep p method params
      rw [upshot]
      split
      · exact stays_holds h (.refl p.server) _
      · split
        all_goals
          next heq =>
            rw [heq] at hrequest
            exact stays_holds h hrequest _
  | notify id method params =>
      have hnotify := notify_becomes keep p method params
      rw [upshot]
      split
      · exact stays_holds h (.refl p.server) _
      · split
        all_goals
          next heq =>
            rw [heq] at hnotify
            exact stays_holds h hnotify _
  | process =>
      have hpump := pump_becomes keep p
      refine ⟨hpump.process, ?_⟩
      show (p.pump keep).peer.server.closed = Option.isNone (if _ then _ else _)
      rw [hpump.closed, h]
      cases (p.pump keep).finished <;> rfl
  | takeCompletions id =>
      let s : Session := { p.session with completions := [] }
      exact stays_holds (q := { p with session := s }) h (.refl p.server) _
  | takeNotices id =>
      let s : Session := { p.session with notices := [] }
      exact stays_holds (q := { p with session := s }) h (.refl p.server) _
  | shutdown => exact goes_holds (.refl p.server) .done
  | _ => exact stays_holds h (.refl p.server) .done

end Peer

namespace Link

theorem Held.after {l : Link} (h : l.Held) (keep : Bool) (index : Nat)
    (operation : Operation) : (l.after keep index operation).Holds l.server := by
  have hsame : l.Holds l.server := ⟨rfl, h⟩
  have hupshot : (((l.peer?.map fun p => p.upshot keep operation).map Upshot.link).getD l).Holds
      l.server := by
    cases hp : l.peer? with
    | none => exact hsame
    | some p =>
        obtain ⟨s, hs, rfl⟩ := Option.map_eq_some_iff.1 hp
        rw [Held, hs] at h
        exact Peer.upshot_holds h keep operation
  cases hscope : operation.scope with
  | session id =>
      rw [after_of_session hscope]
      split
      · exact hupshot
      · exact hsame
  | sessions =>
      rw [after_of_sessions hscope]
      exact hupshot
  | server target event =>
      rw [Link.after, hscope]
      dsimp only
      split
      · have hevent := event.apply_becomes l.server
        exact ⟨hevent.process, hevent.closed.trans ((Bool.or_false _).trans h)⟩
      · exact hsame
  | nothing =>
      rw [after_of_nothing hscope]
      exact hsame

theorem Held.retired {l : Link} (h : l.Held) :
    (l.retire.server.processId, l.retire.server.closed) = (l.server.processId, true) := by
  rw [retire]
  cases hs : l.session with
  | none =>
      rw [Held, hs] at h
      exact congrArg (l.server.processId, ·) h
  | some s => rfl

end Link

/-! ## All servers of a client -/

namespace Client

/-- Whether a server belongs to the session with a number. -/
def Owns (c : Client) (id : SessionId) (index : Nat) : Prop :=
  ∃ l s, c.links[index]? = some l ∧ l.session = some s ∧ s.id = id

/-- The server that an operation starts. -/
def starts (c : Client) : Operation → List Server
  | .connect command connection =>
    match c.launcher.start c.links.length command connection.args with
    | .error _ => []
    | .ok server => [server]
  | _ => []

/-- The servers that a run starts, as they were then. -/
def started (c : Client) : List Operation → List Server
  | [] => []
  | operation :: rest => c.starts operation ++ (c.step operation).2.started rest

/-- Who holds the servers of a client, where `started` are all that it ever
started. -/
structure Custody (c : Client) (started : List Server) : Prop where
  /-- no server is forgotten, and none comes from elsewhere -/
  listed : c.links.map (fun l => l.server.processId) = started.map Server.processId
  /-- a server is closed if and only if no registered session owns it -/
  closed : ∀ index server, c.server? index = some server →
    (server.closed = true ↔ ∀ id, ¬ c.Owns id index)
  /-- a registered session owns one server, and only registered sessions do -/
  owned : ∀ id, (c.session? id).isSome = true ↔ ∃! index, c.Owns id index
  /-- no two sessions own the same server -/
  apart : ∀ id other index, c.Owns id index → c.Owns other index → id = other

theorem owns_iff {c : Client} {id : SessionId} {index : Nat} {l : Link}
    (hl : c.links[index]? = some l) : c.Owns id index ↔ l.id? = some id := by
  rw [Link.id?, Option.map_eq_some_iff]
  constructor
  · rintro ⟨l', s, hl', hs, hid⟩
    rw [hl, Option.some.injEq] at hl'
    exact ⟨s, hl' ▸ hs, hid⟩
  · rintro ⟨s, hs, hid⟩
    exact ⟨l, s, hl, hs, hid⟩

/-- A session owns one server at most. -/
theorem Ordered.index_unique {c : Client} (hc : c.Ordered) {id : SessionId} {i j : Nat}
    (hi : c.Owns id i) (hj : c.Owns id j) : i = j := by
  obtain ⟨l, s, hl, hs, hid⟩ := hi
  obtain ⟨l', s', hl', hs', hid'⟩ := hj
  have hl_id : l.id? = some id := (owns_iff hl).1 ⟨l, s, hl, hs, hid⟩
  have hl_id' : l'.id? = some id := (owns_iff hl').1 ⟨l', s', hl', hs', hid'⟩
  exact hc.index_eq hl hl' hl_id hl_id'

theorem exists_owns_iff (c : Client) (id : SessionId) :
    (c.session? id).isSome = true ↔ ∃ index, c.Owns id index := by
  rw [session?, List.find?_isSome]
  constructor
  · rintro ⟨s, hs, hid⟩
    obtain ⟨l, hl, hls⟩ := List.mem_filterMap.1 hs
    obtain ⟨index, hindex⟩ := List.getElem?_of_mem hl
    exact ⟨index, l, s, hindex, hls, by simpa using hid⟩
  · rintro ⟨index, l, s, hl, hs, hid⟩
    exact ⟨s, List.mem_filterMap.2 ⟨l, List.mem_of_getElem? hl, hs⟩, by simpa using hid⟩

/-- Every link holds its server. -/
def AllHeld (c : Client) : Prop :=
  ∀ l ∈ c.links, l.Held

/-- The server of a registered session is open. -/
theorem AllHeld.opened {c : Client} (h : c.AllHeld) (hc : c.Ordered) {id : SessionId} {p : Peer}
    (hp : c.peer? id = some p) : p.server.closed = false := by
  obtain ⟨index, l, hl, hid⟩ := exists_link_of_peer? hp
  obtain ⟨s, -, hlink, hpeer⟩ := Link.peer?_of_id? hid
  have hheld := h l (List.mem_of_getElem? hl)
  rw [peer?_of_getElem? hc hl hid, hpeer, Option.some.injEq] at hp
  rw [hlink, Link.Held] at hheld
  rw [← hp]
  exact hheld

theorem allHeld_initial (settings : Settings) (processId : Nat) (launcher : Launcher) :
    (initial settings processId launcher).AllHeld := fun _ hl => (nomatch hl)

/-- No operation lets go of a server, and the one that it starts is held. -/
theorem AllHeld.step {c : Client} (h : c.AllHeld) (hc : c.Ordered) (operation : Operation) :
    (c.step operation).2.AllHeld ∧
      (c.step operation).2.links.map (fun l => l.server.processId) =
        c.links.map (fun l => l.server.processId) ++
          (c.starts operation).map Server.processId := by
  have hkept : ∀ index (hindex : index < c.links.length),
      (c.links[index].after c.settings.debug index operation).Holds c.links[index].server :=
    fun index hindex => (h _ (List.getElem_mem hindex)).after c.settings.debug index operation
  have hnew : (∀ l ∈ c.newLinks operation, l.Held) ∧
      (c.newLinks operation).map (fun l => l.server.processId) =
        (c.starts operation).map Server.processId := by
    cases operation with
    | connect command connection =>
        rw [newLinks, starts]
        cases hstart : c.launcher.start c.links.length command connection.args with
        | error e => exact ⟨fun l hl => absurd hl List.not_mem_nil, rfl⟩
        | ok server =>
            have hopening : (c.opening command connection server).link.Holds server :=
              Peer.opening_holds (p := { session := _, server }) (Launcher.start_ok hstart).1 _ _
            refine ⟨fun l hl => ?_, congrArg (fun n => [n]) hopening.process⟩
            rw [List.mem_singleton.1 hl]
            exact hopening.held
    | _ => exact ⟨fun l hl => absurd hl List.not_mem_nil, rfl⟩
  rw [AllHeld, links_step hc, List.map_append, hnew.2]
  refine ⟨fun l hl => ?_, ?_⟩
  · rcases List.mem_append.1 hl with hold | hopened
    · obtain ⟨index, hindex, rfl⟩ := List.mem_mapIdx.1 hold
      exact (hkept index hindex).held
    · exact hnew.1 l hopened
  · congr 1
    refine List.ext_getElem (by simp) fun index hindex _ => ?_
    simp only [List.getElem_map, List.getElem_mapIdx]
    exact (hkept index (by simpa using hindex)).process

theorem AllHeld.run (operations : List Operation) {c : Client} (h : c.AllHeld)
    (hc : c.Ordered) :
    (c.run operations).AllHeld ∧
      (c.run operations).links.map (fun l => l.server.processId) =
        c.links.map (fun l => l.server.processId) ++
          (c.started operations).map Server.processId := by
  induction operations generalizing c with
  | nil => exact ⟨h, (List.append_nil _).symm⟩
  | cons operation rest ih =>
      obtain ⟨hheld, hlisted⟩ := h.step hc operation
      obtain ⟨hrest, hall⟩ := ih hheld (hc.step operation)
      refine ⟨hrest, ?_⟩
      rw [run_cons, hall, hlisted, started, List.map_append, List.append_assoc]

/-- If links have different sessions and every link holds its server, every
server is where it belongs. -/
theorem AllHeld.custody {c : Client} (h : c.AllHeld) (hc : c.Ordered) {started : List Server}
    (hlisted : c.links.map (fun l => l.server.processId) = started.map Server.processId) :
    c.Custody started where
  listed := hlisted
  closed := by
    intro index server hserver
    obtain ⟨l, hl, rfl⟩ := Option.map_eq_some_iff.1 hserver
    have hheld : l.server.closed = l.session.isNone := h l (List.mem_of_getElem? hl)
    rw [hheld]
    simp only [owns_iff hl, Link.id?]
    cases l.session <;> simp
  owned := by
    intro id
    rw [exists_owns_iff]
    constructor
    · rintro ⟨index, howns⟩
      exact ⟨index, howns, fun other hother => hc.index_unique hother howns⟩
    · rintro ⟨index, howns, -⟩
      exact ⟨index, howns⟩
  apart := by
    rintro id other index ⟨l, s, hl, hs, rfl⟩ ⟨l', s', hl', hs', rfl⟩
    rw [hl, Option.some.injEq] at hl'
    rw [← hl', hs, Option.some.injEq] at hs'
    rw [hs']

/-- At every moment of every run, the servers that were started are all there,
and closed if and only if no registered session owns them, and when the client
has ended all of them are closed. -/
theorem custody_of_run (settings : Settings) (processId : Nat) (launcher : Launcher)
    (operations : List Operation) :
    ((initial settings processId launcher).run operations).Custody
        ((initial settings processId launcher).started operations) ∧
      (((initial settings processId launcher).run (operations ++ [.shutdown])).links.map
          fun l => (l.server.processId, l.server.closed)) =
        ((initial settings processId launcher).started operations).map
          fun server => (server.processId, true) := by
  have hordered := ordered_initial settings processId launcher
  obtain ⟨hheld, hlisted⟩ := (allHeld_initial settings processId launcher).run operations hordered
  refine ⟨hheld.custody (hordered.run operations) hlisted, ?_⟩
  let links := ((initial settings processId launcher).run operations).links
  rw [run_append]
  calc (links.map Link.retire).map (fun l => (l.server.processId, l.server.closed))
      = links.map fun l => (l.server.processId, true) := by
        rw [List.map_map]
        exact List.map_congr_left fun l hl => (hheld l hl).retired
    _ = (links.map fun l => l.server.processId).map fun process => (process, true) := by
        rw [List.map_map]
        rfl
    _ = (((initial settings processId launcher).started operations).map
          Server.processId).map fun process => (process, true) := by
        rw [hlisted]
        rfl
    _ = ((initial settings processId launcher).started operations).map
          fun server => (server.processId, true) := List.map_map

/-- One server cannot be written to from the start, one is lost when it is
asked to end, one ends in the read that brings more with it, and one stays. -/
example :
    ((initial {} 0 {}).run
      [.failNewServers (some .brokenPipe), .connect "a" {}, .failNewServers none,
        .connect "b" {}, .connect "c" {}, .connect "d" {},
        .server 1 (.failWrites (some .brokenPipe)), .close 2, .close 3,
        .server 2 (.emit (Wire.frameText "\x7b\"id\":2,\"result\":null\x7d" ++
          Wire.frameText "\x7b\"method\":\"late\"\x7d")),
        .process]).links.map (fun l => l.server.closed) = [true, true, true, false] := by
  decide +kernel

end Client

end LspClient
