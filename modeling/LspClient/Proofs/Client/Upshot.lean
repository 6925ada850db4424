import LspClient.Proofs.Client.Outcomes

/-!
# A client is its links

What an operation does to a client it does to one link, or to every link on its
own. `Peer.upshot` is what an operation comes to for one session and its server,
the answer included, and `Link.after` is the link that it leaves behind. Neither
of them sees the client.

The file proves that this is all there is: an operation that names a session
answers with the upshot of that session (`step_of_target`), every link that was
there becomes what `Link.after` says (`getElem?_step`), a link that was not there
is one that was just opened (`getElem?_step_new`), and what is recorded is what
is recorded at the links (`records_step`). What is to be shown of every link in
every run can so be shown of one link and one operation.

Most of it needs that no two links have the same session, since a number is
looked up at the first link that has it and put back at all of them.
-/

namespace LspClient

open Json (Value)

/-- What an operation comes to for one session and its server. -/
structure Upshot where
  reply : Reply
  link : Link
  records : List Record

namespace Peer

/-- The session is registered afterwards. -/
def stays (p : Peer) (reply : Reply) : Upshot :=
  ⟨reply, ⟨p.server, some p.session⟩, p.records⟩

/-- The session is gone afterwards, and its server is closed. -/
def goes (p : Peer) (reply : Reply) : Upshot :=
  ⟨reply, ⟨p.server.close, none⟩, p.records⟩

/-- Whether a caller may send on a session, and why not. -/
def admits (p : Peer) : Except ClientError Unit :=
  if p.session.closing then .error (.shutdownPending p.session.id)
  else if p.session.status ≠ .connected then .error (.notConnected p.session.id)
  else .ok ()

/-- What opening a session comes to. -/
def opening (keep : Bool) (p : Peer) (params : Value) : Upshot :=
  match p.openSession keep params with
  | (.ok (), q) => q.stays (.opened p.session.id)
  | (.error e, q) => q.goes (.refused (.transport e))

/-- What an operation comes to for a session that it names, and for every
session if it names none. -/
def upshot (keep : Bool) (p : Peer) : Operation → Upshot
  | .close _ =>
    if p.session.closing then p.stays .done
    else
      match p.endSession keep with
      | (.ok (), q) => q.stays .done
      | (.error e, q) => q.goes (.refused (.transport e))
  | .request _ method params =>
    match p.admits with
    | .error e => p.stays (.refused e)
    | .ok () =>
      match p.request keep method params with
      | (.ok number, q) => q.stays (.sent number)
      | (.error e, q) => q.stays (.refused (.transport e))
  | .notify _ method params =>
    match p.admits with
    | .error e => p.stays (.refused e)
    | .ok () =>
      match p.notify keep method params with
      | (.ok (), q) => q.stays .done
      | (.error e, q) => q.stays (.refused (.transport e))
  | .process =>
    let pumped := p.pump keep
    ⟨.progressed pumped.progressed,
      ⟨pumped.peer.server, if pumped.finished then none else some pumped.peer.session⟩,
      pumped.peer.records⟩
  | .takeCompletions _ =>
    stays { p with session := { p.session with completions := [] } }
      (.completions p.session.completions)
  | .takeNotices _ =>
    stays { p with session := { p.session with notices := [] } } (.notices p.session.notices)
  | .shutdown => p.goes .done
  | .connect .. | .adjust _ | .server .. | .lose _ | .failNewServers _ => p.stays .done

end Peer

/-- What there is for an operation to do something to. -/
inductive Scope where
  /-- one session -/
  | session (id : SessionId)
  /-- every session -/
  | sessions
  /-- a server, at its side of the pipes -/
  | server (index : Nat) (event : ServerEvent)
  /-- no session and no server that is there already -/
  | nothing

namespace Operation

/-- What an operation does something to. -/
def scope : Operation → Scope
  | .close id => .session id
  | .request id _ _ => .session id
  | .notify id _ _ => .session id
  | .takeCompletions id => .session id
  | .takeNotices id => .session id
  | .process => .sessions
  | .shutdown => .sessions
  | .server index event => .server index event
  | .connect .. => .nothing
  | .adjust _ => .nothing
  | .lose _ => .nothing
  | .failNewServers _ => .nothing

/-- What an operation answers if it names a session that is not registered. -/
def unknown : Operation → Reply
  | .close id => .refused (.unknownSession id)
  | .request id _ _ => .refused (.unknownSession id)
  | .notify id _ _ => .refused (.unknownSession id)
  | .takeCompletions _ => .completions []
  | .takeNotices _ => .notices []
  | _ => .done

end Operation

namespace Link

/-- What an operation comes to for the session of a link, if the operation
does something to it. -/
def upshot? (keep : Bool) (l : Link) (operation : Operation) : Option Upshot :=
  match operation.scope with
  | .session id =>
    l.peer?.bind fun p =>
      if p.session.id = id then some (p.upshot keep operation) else none
  | .sessions => l.peer?.map fun p => p.upshot keep operation
  | .server .. => none
  | .nothing => none

/-- The records that an operation adds at a link. -/
def newRecords (keep : Bool) (l : Link) (operation : Operation) : List Record :=
  ((l.upshot? keep operation).map Upshot.records).getD []

/-- The link after an operation, if it is the one with some index. -/
def after (keep : Bool) (index : Nat) (l : Link) (operation : Operation) : Link :=
  match operation.scope with
  | .server target event =>
    if target = index then { l with server := event.apply l.server } else l
  | _ => ((l.upshot? keep operation).map Upshot.link).getD l

end Link

/-! ## Links with different sessions -/

theorem findPeer_of_getElem? {id : SessionId} {links : List Link} {index : Nat} {l : Link}
    (hids : (links.filterMap Link.id?).Nodup) (hl : links[index]? = some l)
    (hid : l.id? = some id) : findPeer id links = l.peer? := by
  induction links generalizing index with
  | nil => cases hl
  | cons first links ih =>
      rw [findPeer_cons]
      cases index with
      | zero =>
          obtain rfl := Option.some.inj hl
          rw [if_pos hid]
      | succ index =>
          have hmem : l ∈ links := List.mem_of_getElem? hl
          split
          · next hfirst =>
              rw [List.filterMap_cons_some hfirst, List.nodup_cons] at hids
              exact absurd (List.mem_filterMap.2 ⟨l, hmem, hid⟩) hids.1
          · exact ih (hids.sublist ((List.sublist_cons_self _ _).filterMap _)) hl

theorem Link.peer?_of_id? {l : Link} {id : SessionId} (h : l.id? = some id) :
    ∃ s, s.id = id ∧ l = ⟨l.server, some s⟩ ∧
      l.peer? = some { session := s, server := l.server } := by
  obtain ⟨s, hs, rfl⟩ := Option.map_eq_some_iff.1 h
  refine ⟨s, rfl, ?_, ?_⟩
  · rw [← hs]
  · rw [Link.peer?, hs]
    rfl

theorem flatten_map_nil {α β : Type} {f : α → List β} {xs : List α} (h : ∀ a ∈ xs, f a = []) :
    (xs.map f).flatten = [] := by
  refine List.flatten_eq_nil_iff.2 fun ys hys => ?_
  obtain ⟨a, ha, rfl⟩ := List.mem_map.1 hys
  exact h a ha

/-- Of lists that are empty but for one, the concatenation is that one. -/
theorem flatten_map_single {α β : Type} {f : α → List β} {xs : List α} {i : Nat} {a : α}
    (h : xs[i]? = some a) (hothers : ∀ j b, xs[j]? = some b → j ≠ i → f b = []) :
    (xs.map f).flatten = f a := by
  induction xs generalizing i with
  | nil => cases h
  | cons x xs ih =>
      rw [List.map_cons, List.flatten_cons]
      cases i with
      | zero =>
          obtain rfl := Option.some.inj h
          have hrest : (xs.map f).flatten = [] := by
            refine flatten_map_nil fun b hb => ?_
            obtain ⟨j, hj⟩ := List.getElem?_of_mem hb
            exact hothers (j + 1) b hj (Nat.succ_ne_zero j)
          rw [hrest, List.append_nil]
      | succ i =>
          rw [hothers 0 x rfl (Nat.succ_ne_zero i).symm, List.nil_append]
          exact ih h fun j b hj hne => hothers (j + 1) b hj fun heq => hne (Nat.succ.inj heq)

namespace Client

/-- A session has one link. -/
theorem Ordered.index_eq {c : Client} (hc : c.Ordered) {id : SessionId} {i j : Nat}
    {l l' : Link} (hl : c.links[i]? = some l) (hl' : c.links[j]? = some l')
    (hid : l.id? = some id) (hid' : l'.id? = some id) : i = j := by
  have hpairs : c.links.Pairwise fun l l' =>
      ∀ a, l.id? = some a → ∀ b, l'.id? = some b → a ≠ b :=
    List.pairwise_filterMap.1 hc.nodup
  obtain ⟨hi, rfl⟩ := List.getElem?_eq_some_iff.1 hl
  obtain ⟨hj, rfl⟩ := List.getElem?_eq_some_iff.1 hl'
  rw [List.pairwise_iff_getElem] at hpairs
  rcases Nat.lt_trichotomy i j with hlt | heq | hgt
  · exact absurd rfl (hpairs i j hi hj hlt id hid id hid')
  · exact heq
  · exact absurd rfl (hpairs j i hj hi hgt id hid' id hid)

theorem exists_link_of_peer? {c : Client} {id : SessionId} {p : Peer} (h : c.peer? id = some p) :
    ∃ (index : Nat) (l : Link), c.links[index]? = some l ∧ l.id? = some id := by
  obtain ⟨l, hfind, -⟩ := Option.bind_eq_some_iff.1 h
  obtain ⟨index, hindex⟩ := List.getElem?_of_mem (List.mem_of_find?_eq_some hfind)
  exact ⟨index, l, hindex, Link.owns_iff.1 (List.find?_some hfind)⟩

theorem peer?_of_getElem? {c : Client} (hc : c.Ordered) {index : Nat} {l : Link}
    {id : SessionId} (hl : c.links[index]? = some l) (hid : l.id? = some id) :
    c.peer? id = l.peer? :=
  findPeer_of_getElem? hc.nodup hl hid

/-- The link that has a session is what looking the session up gives. -/
theorem link_of_owns {c : Client} (hc : c.Ordered) {id : SessionId} {p : Peer}
    (hp : c.peer? id = some p) {l : Link} (hl : l ∈ c.links) (howns : l.owns id = true) :
    l = ⟨p.server, some p.session⟩ := by
  obtain ⟨index, hindex⟩ := List.getElem?_of_mem hl
  have hid := Link.owns_iff.1 howns
  obtain ⟨s, -, hlink, hpeer⟩ := Link.peer?_of_id? hid
  rw [peer?_of_getElem? hc hindex hid, hpeer, Option.some.injEq] at hp
  rw [← hp]
  exact hlink

/-- Putting back what was looked up changes nothing. -/
theorem putLink_self {c : Client} (hc : c.Ordered) {id : SessionId} {p : Peer}
    (hp : c.peer? id = some p) : c.putLink id ⟨p.server, some p.session⟩ = c := by
  have hlinks : (c.links.map fun old => if old.owns id then ⟨p.server, some p.session⟩ else old) =
      c.links := by
    refine (List.map_congr_left fun old hold => ?_).trans (List.map_id c.links)
    split
    · next howns => exact (link_of_owns hc hp hold howns).symm
    · rfl
  rw [putLink, hlinks]

/-- The client after an operation on one session. -/
def settle (c : Client) (id : SessionId) (u : Upshot) : Client :=
  { c.putLink id u.link with records := c.records ++ u.records }

theorem settle_stays {c : Client} (hc : c.Ordered) {id : SessionId} {p : Peer}
    (hp : c.peer? id = some p) (hrecords : p.records = []) (reply : Reply) :
    c.settle id (p.stays reply) = c := by
  rw [settle, Peer.stays, putLink_self hc hp, hrecords, List.append_nil]

theorem records_of_peer? {c : Client} {id : SessionId} {p : Peer} (h : c.peer? id = some p) :
    p.records = [] := by
  obtain ⟨l, -, hl⟩ := Option.bind_eq_some_iff.1 h
  obtain ⟨s, -, rfl⟩ := Option.map_eq_some_iff.1 hl
  rfl

/-! ## One operation -/

/-- An operation that names a session which is not registered does nothing. -/
theorem step_of_unknown {c : Client} {operation : Operation} {id : SessionId}
    (hscope : operation.scope = .session id) (hp : c.peer? id = none) :
    c.step operation = (operation.unknown, c) := by
  have hconnected : c.connectedPeer id = .error (.unknownSession id) := by
    rw [connectedPeer, hp]
  cases operation with
  | close target =>
      obtain rfl := Scope.session.inj hscope
      rw [step, close, hp]
      rfl
  | request target method params =>
      obtain rfl := Scope.session.inj hscope
      rw [step, request, hconnected]
      rfl
  | notify target method params =>
      obtain rfl := Scope.session.inj hscope
      rw [step, notify, hconnected]
      rfl
  | takeCompletions target =>
      obtain rfl := Scope.session.inj hscope
      rw [step, takeCompletions, hp]
      rfl
  | takeNotices target =>
      obtain rfl := Scope.session.inj hscope
      rw [step, takeNotices, hp]
      rfl
  | _ => cases hscope

theorem connectedPeer_eq {c : Client} {id : SessionId} {p : Peer} (hp : c.peer? id = some p) :
    c.connectedPeer id = p.admits.map fun _ => p := by
  have hid : p.session.id = id := id_of_findPeer hp
  rw [connectedPeer, hp, Peer.admits, hid]
  dsimp only
  split
  · rfl
  · split <;> rfl

/-- An operation that names a registered session is its upshot for that
session. -/
theorem step_of_target {c : Client} (hc : c.Ordered) {operation : Operation} {id : SessionId}
    {p : Peer} (hscope : operation.scope = .session id) (hp : c.peer? id = some p) :
    c.step operation =
      ((p.upshot c.settings.debug operation).reply,
        c.settle id (p.upshot c.settings.debug operation)) := by
  have hrecords := records_of_peer? hp
  cases operation with
  | close target =>
      obtain rfl := Scope.session.inj hscope
      rw [step, close, hp, Peer.upshot]
      dsimp only
      split
      · rw [settle_stays hc hp hrecords]
        rfl
      · cases p.endSession c.settings.debug with
        | mk result q => cases result <;> rfl
  | request target method params =>
      obtain rfl := Scope.session.inj hscope
      rw [step, request, connectedPeer_eq hp, Peer.upshot]
      cases p.admits with
      | error e =>
          dsimp only [Except.map]
          rw [settle_stays hc hp hrecords]
          rfl
      | ok _ =>
          dsimp only [Except.map]
          cases p.request c.settings.debug method params with
          | mk result q => cases result <;> rfl
  | notify target method params =>
      obtain rfl := Scope.session.inj hscope
      rw [step, notify, connectedPeer_eq hp, Peer.upshot]
      cases p.admits with
      | error e =>
          dsimp only [Except.map]
          rw [settle_stays hc hp hrecords]
          rfl
      | ok _ =>
          dsimp only [Except.map]
          cases p.notify c.settings.debug method params with
          | mk result q => cases result <;> rfl
  | takeCompletions target =>
      obtain rfl := Scope.session.inj hscope
      rw [step, takeCompletions, hp]
      rfl
  | takeNotices target =>
      obtain rfl := Scope.session.inj hscope
      rw [step, takeNotices, hp]
      rfl
  | _ => cases hscope

/-- A new server is open, and nothing was written to it. -/
theorem Launcher.start_ok {launcher : Launcher} {index : Nat} {command : String}
    {args : List String} {server : Server}
    (h : launcher.start index command args = .ok server) :
    server.closed = false ∧ server.writes = [] := by
  rw [Launcher.start] at h
  split at h
  · cases h
  · cases h
    exact ⟨rfl, rfl⟩

/-- What opening a session with a new server comes to. -/
def opening (c : Client) (command : String) (connection : Connection) (server : Server) :
    Upshot :=
  Peer.opening c.settings.debug { session := { id := c.lastSession + 1, command }, server }
    (handshakeParameters c.processId c.settings connection)

theorem step_connect (c : Client) (command : String) (connection : Connection) :
    c.step (.connect command connection) =
      match c.launcher.start c.links.length command connection.args with
      | .error e => (.refused (.transport e), c)
      | .ok server =>
        ((c.opening command connection server).reply,
          { c with lastSession := c.lastSession + 1,
                   links := c.links ++ [(c.opening command connection server).link],
                   records := c.records ++ (c.opening command connection server).records }) := by
  rw [step, connect]
  cases c.launcher.start c.links.length command connection.args with
  | error e => rfl
  | ok server =>
      dsimp only
      rw [opening, Peer.opening]
      cases Peer.openSession c.settings.debug
          { session := { id := c.lastSession + 1, command }, server }
          (handshakeParameters c.processId c.settings connection) with
      | mk result q => cases result <;> rfl

end Client

/-! ## Every link on its own -/

namespace Link

theorem upshot?_of_session {keep : Bool} {l : Link} {id : SessionId} {operation : Operation}
    (hscope : operation.scope = .session id) :
    l.upshot? keep operation =
      if l.id? = some id then l.peer?.map fun p => p.upshot keep operation else none := by
  rw [upshot?, hscope, id?, peer?]
  cases l.session with
  | none => rfl
  | some s => by_cases hid : s.id = id <;> simp [hid]

theorem newRecords_of_session {keep : Bool} {l : Link} {id : SessionId} {operation : Operation}
    (hscope : operation.scope = .session id) :
    l.newRecords keep operation =
      if l.id? = some id then ((l.peer?.map fun p => p.upshot keep operation).map Upshot.records).getD []
      else [] := by
  rw [newRecords, upshot?_of_session hscope]
  split <;> rfl

theorem after_of_session {keep : Bool} {index : Nat} {l : Link} {id : SessionId}
    {operation : Operation} (hscope : operation.scope = .session id) :
    l.after keep index operation =
      if l.id? = some id then ((l.peer?.map fun p => p.upshot keep operation).map Upshot.link).getD l
      else l := by
  rw [after, upshot?_of_session hscope, hscope]
  dsimp only
  split <;> rfl

theorem after_of_sessions {keep : Bool} {index : Nat} {l : Link} {operation : Operation}
    (hscope : operation.scope = .sessions) :
    l.after keep index operation =
      ((l.peer?.map fun p => p.upshot keep operation).map Upshot.link).getD l := by
  rw [after, upshot?, hscope]

theorem after_of_nothing {keep : Bool} {index : Nat} {l : Link} {operation : Operation}
    (hscope : operation.scope = .nothing) : l.after keep index operation = l := by
  rw [after, upshot?, hscope]
  rfl

end Link

namespace Client

/-- The link that an operation adds. -/
def newLinks (c : Client) : Operation → List Link
  | .connect command connection =>
    match c.launcher.start c.links.length command connection.args with
    | .error _ => []
    | .ok server => [(c.opening command connection server).link]
  | _ => []

/-- An operation on one session does to its link what it does to that link
alone. -/
theorem links_of_session {c : Client} (hc : c.Ordered) {operation : Operation} {id : SessionId}
    (hscope : operation.scope = .session id) :
    (c.step operation).2.links =
      c.links.mapIdx fun index l => l.after c.settings.debug index operation := by
  refine List.ext_getElem? fun index => ?_
  rw [List.getElem?_mapIdx]
  cases hp : c.peer? id with
  | none =>
      rw [step_of_unknown hscope hp]
      cases hl : c.links[index]? with
      | none => rfl
      | some l =>
          have hid : l.id? ≠ some id := by
            intro hid
            obtain ⟨s, -, -, hpeer⟩ := Link.peer?_of_id? hid
            rw [peer?_of_getElem? hc hl hid, hpeer] at hp
            cases hp
          rw [Option.map_some, Link.after_of_session hscope, if_neg hid]
  | some p =>
      rw [step_of_target hc hscope hp, settle, putLink, List.getElem?_map]
      cases hl : c.links[index]? with
      | none => rfl
      | some l =>
          rw [Option.map_some, Option.map_some, Link.after_of_session hscope]
          by_cases hid : l.id? = some id
          · have hpeer : l.peer? = some p := by rw [← peer?_of_getElem? hc hl hid, hp]
            rw [if_pos (Link.owns_iff.2 hid), if_pos hid, hpeer]
            rfl
          · rw [if_neg fun howns => hid (Link.owns_iff.1 howns), if_neg hid]

theorem links_of_sessions {c : Client} {operation : Operation}
    (hscope : operation.scope = .sessions) :
    (c.step operation).2.links =
      c.links.mapIdx fun index l => l.after c.settings.debug index operation := by
  refine List.ext_getElem? fun index => ?_
  rw [List.getElem?_mapIdx]
  cases operation with
  | process =>
      show c.process.2.links[index]? = _
      rw [process_links, List.getElem?_map]
      congr 1
      funext l
      rw [Link.after_of_sessions hscope, pumpLink, Link.peer?]
      cases l.session <;> rfl
  | shutdown =>
      show (c.links.map Link.retire)[index]? = _
      rw [List.getElem?_map]
      congr 1
      funext l
      rw [Link.after_of_sessions hscope, Link.retire, Link.peer?]
      cases l.session <;> rfl
  | _ => cases hscope

theorem links_of_server (c : Client) (target : Nat) (event : ServerEvent) :
    (c.step (.server target event)).2.links =
      c.links.mapIdx fun index l => l.after c.settings.debug index (.server target event) := by
  refine List.ext_getElem? fun index => ?_
  show (c.links.modify target fun l => { l with server := event.apply l.server })[index]? = _
  rw [List.getElem?_mapIdx, List.getElem?_modify]
  rfl

/-- An operation does to every link what it does to that link alone, and adds
at most one. -/
theorem links_step {c : Client} (hc : c.Ordered) (operation : Operation) :
    (c.step operation).2.links =
      (c.links.mapIdx fun index l => l.after c.settings.debug index operation) ++
        c.newLinks operation := by
  cases hscope : operation.scope with
  | session id =>
      rw [links_of_session hc hscope]
      cases operation <;> first | exact (List.append_nil _).symm | cases hscope
  | sessions =>
      rw [links_of_sessions hscope]
      cases operation <;> first | exact (List.append_nil _).symm | cases hscope
  | server target event =>
      cases operation with
      | server => rw [links_of_server]; exact (List.append_nil _).symm
      | _ => cases hscope
  | nothing =>
      have hsame : (c.links.mapIdx fun index l => l.after c.settings.debug index operation) =
          c.links := by
        refine List.ext_getElem? fun index => ?_
        rw [List.getElem?_mapIdx]
        simp only [Link.after_of_nothing hscope, Option.map_id']
      rw [hsame]
      cases operation with
      | connect command connection =>
          rw [step_connect, newLinks]
          cases c.launcher.start c.links.length command connection.args with
          | error e => exact (List.append_nil _).symm
          | ok server => rfl
      | adjust change => exact (List.append_nil _).symm
      | lose command => exact (List.append_nil _).symm
      | failNewServers failure => exact (List.append_nil _).symm
      | _ => cases hscope

theorem getElem?_step {c : Client} (hc : c.Ordered) {index : Nat} {l : Link}
    (hl : c.links[index]? = some l) (operation : Operation) :
    (c.step operation).2.links[index]? =
      some (l.after c.settings.debug index operation) := by
  have hlt : index < c.links.length := (List.getElem?_eq_some_iff.1 hl).1
  rw [links_step hc, List.getElem?_append_left (by rwa [List.length_mapIdx]),
    List.getElem?_mapIdx, hl]
  rfl

/-- A link that was not there before was opened. -/
theorem getElem?_step_new {c : Client} (hc : c.Ordered) {index : Nat} {l : Link}
    {operation : Operation} (hnew : c.links[index]? = none)
    (hl : (c.step operation).2.links[index]? = some l) :
    index = c.links.length ∧ ∃ command connection server,
      operation = .connect command connection ∧
      c.launcher.start c.links.length command connection.args = .ok server ∧
      l = (c.opening command connection server).link := by
  have hle : c.links.length ≤ index := List.getElem?_eq_none_iff.1 hnew
  rw [links_step hc, List.getElem?_append_right (by rwa [List.length_mapIdx]),
    List.length_mapIdx] at hl
  cases operation with
  | connect command connection =>
      rw [newLinks] at hl
      cases hstart : c.launcher.start c.links.length command connection.args with
      | error e =>
          rw [hstart] at hl
          cases hl
      | ok server =>
          rw [hstart] at hl
          obtain ⟨hlt, heq⟩ := List.getElem?_eq_some_iff.1 hl
          rw [List.length_singleton] at hlt
          rw [List.getElem_singleton] at heq
          exact ⟨by omega, command, connection, server, rfl, hstart, heq.symm⟩
  | _ => cases hl

/-- A `connect` that adds no link started no server. -/
theorem start_of_none {c : Client} (hc : c.Ordered) {command : String} {connection : Connection}
    (h : (c.step (.connect command connection)).2.links[c.links.length]? = none) :
    ∃ e, c.launcher.start c.links.length command connection.args = .error e := by
  rw [links_step hc, List.getElem?_append_right (Nat.le_of_eq List.length_mapIdx),
    List.length_mapIdx, Nat.sub_self, newLinks] at h
  cases hstart : c.launcher.start c.links.length command connection.args with
  | error e => exact ⟨e, rfl⟩
  | ok server =>
      rw [hstart] at h
      cases h

/-- The records that opening a session adds. -/
def openingRecords (c : Client) : Operation → List Record
  | .connect command connection =>
    match c.launcher.start c.links.length command connection.args with
    | .error _ => []
    | .ok server => (c.opening command connection server).records
  | _ => []

/-- An operation on one session adds the records that it adds at its link. -/
theorem records_of_session {c : Client} (hc : c.Ordered) {operation : Operation}
    {id : SessionId} (hscope : operation.scope = .session id) :
    (c.step operation).2.records =
      c.records ++ (c.links.map fun l => l.newRecords c.settings.debug operation).flatten := by
  cases hp : c.peer? id with
  | none =>
      have hnothing : ∀ l ∈ c.links, l.newRecords c.settings.debug operation = [] := by
        intro l hl
        obtain ⟨index, hindex⟩ := List.getElem?_of_mem hl
        refine (Link.newRecords_of_session hscope).trans (if_neg fun hid => ?_)
        obtain ⟨s, -, -, hpeer⟩ := Link.peer?_of_id? hid
        rw [peer?_of_getElem? hc hindex hid, hpeer] at hp
        cases hp
      rw [step_of_unknown hscope hp, flatten_map_nil hnothing, List.append_nil]
  | some p =>
      obtain ⟨index, l, hl, hid⟩ := exists_link_of_peer? hp
      have hpeer : l.peer? = some p := by rw [← peer?_of_getElem? hc hl hid, hp]
      have hothers : ∀ j other, c.links[j]? = some other → j ≠ index →
          other.newRecords c.settings.debug operation = [] := by
        intro j other hj hne
        refine (Link.newRecords_of_session hscope).trans (if_neg fun hother => ?_)
        exact hne (hc.index_eq hj hl hother hid)
      rw [step_of_target hc hscope hp, flatten_map_single hl hothers,
        Link.newRecords_of_session hscope, if_pos hid, hpeer]
      rfl

theorem pumpLink_records (keep : Bool) (l : Link) :
    (pumpLink keep l).records = l.newRecords keep .process := by
  rw [Link.newRecords, Link.upshot?, pumpLink, Link.peer?]
  cases l.session <;> rfl

theorem process_records (c : Client) :
    c.process.2.records =
      c.records ++ (c.links.map fun l => (pumpLink c.settings.debug l).records).flatten := by
  show c.records ++ ((c.links.map (pumpLink c.settings.debug)).map LinkPumped.records).flatten = _
  rw [List.map_map]
  rfl

theorem records_of_sessions {c : Client} {operation : Operation}
    (hscope : operation.scope = .sessions) :
    (c.step operation).2.records =
      c.records ++ (c.links.map fun l => l.newRecords c.settings.debug operation).flatten := by
  cases operation with
  | process =>
      show c.process.2.records = _
      rw [process_records]
      simp only [pumpLink_records]
  | shutdown =>
      have hnothing : ∀ l ∈ c.links, l.newRecords c.settings.debug .shutdown = [] := by
        intro l _
        rw [Link.newRecords, Link.upshot?, Link.peer?]
        cases l.session <;> rfl
      rw [flatten_map_nil hnothing, List.append_nil]
      rfl
  | _ => cases hscope

/-- An operation adds the records that it adds at every link, and those of the
session that it opens. -/
theorem records_step {c : Client} (hc : c.Ordered) (operation : Operation) :
    (c.step operation).2.records =
      c.records ++ (c.links.map fun l => l.newRecords c.settings.debug operation).flatten ++
        c.openingRecords operation := by
  have hnothing : (∀ l : Link, l.upshot? c.settings.debug operation = none) →
      (c.links.map fun l => l.newRecords c.settings.debug operation).flatten = [] := by
    intro hnone
    refine flatten_map_nil fun l _ => ?_
    rw [Link.newRecords, hnone]
    rfl
  cases hscope : operation.scope with
  | session id =>
      rw [records_of_session hc hscope]
      cases operation <;> first | exact (List.append_nil _).symm | cases hscope
  | sessions =>
      rw [records_of_sessions hscope]
      cases operation <;> first | exact (List.append_nil _).symm | cases hscope
  | server target event =>
      rw [hnothing fun l => by rw [Link.upshot?, hscope], List.append_nil]
      cases operation <;> first | exact (List.append_nil _).symm | cases hscope
  | nothing =>
      rw [hnothing fun l => by rw [Link.upshot?, hscope], List.append_nil]
      cases operation with
      | connect command connection =>
          rw [step_connect, openingRecords]
          cases c.launcher.start c.links.length command connection.args with
          | error e => exact (List.append_nil _).symm
          | ok server => rfl
      | adjust change => exact (List.append_nil _).symm
      | lose command => exact (List.append_nil _).symm
      | failNewServers failure => exact (List.append_nil _).symm
      | _ => cases hscope

end Client

end LspClient
