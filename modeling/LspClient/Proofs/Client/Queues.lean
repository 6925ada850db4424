import LspClient.Proofs.Client.History
import LspClient.Proofs.Client.Upshot
import LspClient.Proofs.Session.Queues

/-!
# The queues of the sessions in a run

After any run, and for each of the two queues of a registered session, what a caller
gets by taking it is the newest of what has arrived since it was taken before, and all
that taking does is to leave the queue empty.

That a queue is of no consequence for anything else is said of clients that differ in
nothing but one of the two queues of their sessions. Whatever happens to such clients
later, they give the same answers and differ in nothing but that queue, apart from the
answers that are the contents of that queue (`run_of_without`). One of them may have
been relieved of its entries and the other be full, so that entries get lost there:
nothing of this shows in the other queue, in the requests that wait, in the status or
anywhere else.
-/

namespace LspClient

open Json (Value)

/-! ## Leaving a queue out -/

/-- The session with nothing in a queue. -/
def Session.without : Queue → Session → Session
  | .completions, s => s.holding [] s.notices
  | .notices, s => s.holding s.completions []

/-- The peer with nothing in a queue. -/
def Peer.without (q : Queue) (p : Peer) : Peer :=
  { p with session := p.session.without q }

/-- The link with nothing in a queue of its session. -/
def Link.without (q : Queue) (l : Link) : Link :=
  { l with session := l.session.map (Session.without q) }

/-- The answer without the entries of a queue. -/
def Reply.without : Queue → Reply → Reply
  | .completions, .completions _ => .completions []
  | .notices, .notices _ => .notices []
  | _, reply => reply

def Upshot.without (q : Queue) (u : Upshot) : Upshot :=
  { u with reply := u.reply.without q, link := u.link.without q }

/-- The client with nothing in a queue of any session. -/
def Client.without (q : Queue) (c : Client) : Client :=
  { c with links := c.links.map (Link.without q) }

namespace Queue

/-- What the caller does to take a queue. -/
def take : Queue → SessionId → Operation
  | completions, id => .takeCompletions id
  | notices, id => .takeNotices id

/-- The answer that hands out entries of a queue. -/
def reply : (q : Queue) → List q.Entry → Reply
  | completions, entries => .completions entries
  | notices, entries => .notices entries

/-- Whether two pairs of queues differ in one of them at most. -/
def Spares (completions completions' : List Completion) (notices notices' : List Notice) :
    Queue → Prop
  | .completions => notices = notices'
  | .notices => completions = completions'

variable {q : Queue}

theorem Spares.pushAll {completions completions' : List Completion}
    {notices notices' : List Notice} (h : Spares completions completions' notices notices' q)
    (made : List Completion) (heard : List Notice) :
    Spares (pushAll completions made) (pushAll completions' made)
      (pushAll notices heard) (pushAll notices' heard) q := by
  cases q <;> cases h <;> rfl

end Queue

variable {q : Queue} {completions completions' : List Completion} {notices notices' : List Notice}

theorem Session.without_holding (h : q.Spares completions completions' notices notices')
    (s : Session) :
    (s.holding completions notices).without q = (s.holding completions' notices').without q := by
  cases q <;> cases h <;> rfl

theorem Session.holding_of_without {s t : Session} (h : s.without q = t.without q) :
    t = s.holding t.completions t.notices ∧
      q.Spares s.completions t.completions s.notices t.notices := by
  obtain ⟨id, command, status, pending, nextRequest, frames, info, made, heard, ended, closing⟩ := s
  cases t
  cases q <;> cases h <;> exact ⟨rfl, rfl⟩

/-! ## One session -/

namespace Peer

theorem stays_without (h : q.Spares completions completions' notices notices') (p : Peer)
    (reply : Reply) :
    ((p.holding completions notices).stays reply).without q =
      ((p.holding completions' notices').stays reply).without q :=
  congrArg (fun s => (⟨reply.without q, ⟨p.server, some s⟩, p.records⟩ : Upshot))
    (Session.without_holding h p.session)

/-- An operation on a session comes to the same up to the queue in which the session
differs. -/
theorem upshot_without {operation : Operation} {id : SessionId}
    (hscope : operation.scope = .session id)
    (h : q.Spares completions completions' notices notices') (keep : Bool) (p : Peer) :
    ((p.holding completions notices).upshot keep operation).without q =
      ((p.holding completions' notices').upshot keep operation).without q := by
  have hadmits : ∀ completions notices, (p.holding completions notices).admits = p.admits :=
    fun _ _ => rfl
  cases operation with
  | close target =>
      have hclosing : ∀ completions notices,
          (p.holding completions notices).session.closing = p.session.closing := fun _ _ => rfl
      simp only [upshot, hclosing, endSession_holding]
      split
      · exact stays_without h p _
      · cases p.endSession keep with
        | mk result r =>
            cases result with
            | ok _ => exact stays_without h r _
            | error e => rfl
  | request target method params =>
      simp only [upshot, hadmits, request_holding]
      cases p.admits with
      | error e => exact stays_without h p _
      | ok _ =>
          cases p.request keep method params with
          | mk result r => cases result <;> exact stays_without h r _
  | notify target method params =>
      simp only [upshot, hadmits, notify_holding]
      cases p.admits with
      | error e => exact stays_without h p _
      | ok _ =>
          cases p.notify keep method params with
          | mk result r => cases result <;> exact stays_without h r _
  | takeCompletions target | takeNotices target => cases q <;> cases h <;> rfl
  | _ => cases hscope

end Peer

/-! ## One link -/

namespace Link

/-- A link that differs from another in a queue has the same server, and its session differs
from the other's in that queue. -/
theorem cases_of_without {l l' : Link} (h : l.without q = l'.without q) :
    l = l' ∨ ∃ (s : Session) (completions completions' : List Completion)
        (notices notices' : List Notice),
      q.Spares completions completions' notices notices' ∧
      l = ⟨l.server, some (s.holding completions notices)⟩ ∧
      l' = ⟨l.server, some (s.holding completions' notices')⟩ := by
  obtain ⟨server, session⟩ := l
  obtain ⟨server', session'⟩ := l'
  obtain ⟨rfl, hsession⟩ := Link.mk.inj h
  cases session with
  | none =>
      cases session' with
      | none => exact .inl rfl
      | some t => cases hsession
  | some s =>
      cases session' with
      | none => cases hsession
      | some t =>
          obtain ⟨ht, hspares⟩ := Session.holding_of_without (Option.some.inj hsession)
          exact .inr ⟨s, _, _, _, _, hspares, rfl, congrArg (fun t => Link.mk server (some t)) ht⟩

theorem id?_of_without {l l' : Link} (h : l.without q = l'.without q) : l.id? = l'.id? := by
  rcases cases_of_without h with rfl | ⟨s, _, _, _, _, -, hl, hl'⟩
  · rfl
  · rw [hl, hl']
    rfl

/-- One read of links that differ in a queue. -/
theorem pumpLink_of_without {l l' : Link} (h : l.without q = l'.without q) (keep : Bool) :
    (Client.pumpLink keep l).link.without q = (Client.pumpLink keep l').link.without q ∧
    (Client.pumpLink keep l).records = (Client.pumpLink keep l').records ∧
    (Client.pumpLink keep l).progressed = (Client.pumpLink keep l').progressed := by
  rcases cases_of_without h with rfl | ⟨s, _, _, _, _, hspares, hl, hl'⟩
  · exact ⟨rfl, rfl, rfl⟩
  · obtain ⟨made, heard, hpump⟩ :=
      Peer.pump_holding keep { session := s, server := l.server }
    have hheld : ∀ completions notices,
        Client.pumpLink keep ⟨l.server, some (s.holding completions notices)⟩ =
          let pumped := Peer.pump keep { session := s, server := l.server }
          let p := pumped.peer.holding (pushAll completions made) (pushAll notices heard)
          { link := ⟨p.server, if pumped.finished then none else some p.session⟩
            records := p.records
            progressed := pumped.progressed } := by
      intro completions notices
      have := hpump completions notices
      dsimp only [Peer.holding] at this
      rw [Client.pumpLink]
      simp only [this]
      rfl
    rw [hl, hl', hheld, hheld]
    refine ⟨?_, rfl, rfl⟩
    dsimp only
    cases (Peer.pump keep { session := s, server := l.server }).finished with
    | true => rfl
    | false =>
        exact congrArg (fun s => Link.mk _ (some s))
          (Session.without_holding (hspares.pushAll made heard) _)

end Link

/-! ## One operation -/

namespace Client

theorem map_congr_of_without {β : Type} {f : Link → β} {links links' : List Link}
    (hf : ∀ l l', l.without q = l'.without q → f l = f l')
    (h : links.map (Link.without q) = links'.map (Link.without q)) :
    links.map f = links'.map f := by
  induction links generalizing links' with
  | nil => rw [List.map_eq_nil_iff.1 h.symm]
  | cons l links ih =>
      cases links' with
      | nil => cases h
      | cons l' links' =>
          obtain ⟨hl, hrest⟩ := List.cons.inj h
          rw [List.map_cons, List.map_cons, hf l l' hl, ih hrest]

theorem peer?_without (c : Client) (id : SessionId) :
    (c.without q).peer? id = (c.peer? id).map (Peer.without q) := by
  rw [peer?_eq, peer?_eq]
  show findPeer id (c.links.map (Link.without q)) = _
  induction c.links with
  | nil => rfl
  | cons l links ih =>
      obtain ⟨server, session⟩ := l
      rw [List.map_cons, findPeer_cons, findPeer_cons, ih]
      cases session with
      | none => rfl
      | some s =>
          have hid : (Link.without q ⟨server, some s⟩).id? = (Link.mk server (some s)).id? := by
            cases q <;> rfl
          rw [hid]
          split <;> rfl

theorem settle_without (c : Client) (id : SessionId) (u : Upshot) :
    (c.settle id u).without q = (c.without q).settle id (u.without q) := by
  have howns : ∀ l : Link, (l.without q).owns id = l.owns id := by
    rintro ⟨server, _ | s⟩
    · rfl
    · cases q <;> rfl
  have hlinks : (c.links.map fun old => if old.owns id then u.link else old).map (Link.without q) =
      (c.links.map (Link.without q)).map fun old =>
        if old.owns id then u.link.without q else old := by
    rw [List.map_map, List.map_map]
    refine List.map_congr_left fun l _ => ?_
    rw [Function.comp_apply, Function.comp_apply, howns]
    split <;> rfl
  rw [settle, without, putLink, hlinks]
  rfl

/-- Clients that differ in a queue have the rest in common. -/
theorem cases_of_without {c d : Client} (h : c.without q = d.without q) :
    ∃ links, d = { c with links := links } ∧
      c.links.map (Link.without q) = links.map (Link.without q) := by
  obtain ⟨settings, processId, launcher, links, lastSession, records⟩ := c
  obtain ⟨settings', processId', launcher', links', lastSession', records'⟩ := d
  obtain ⟨rfl, rfl, rfl, hlinks, rfl, rfl⟩ := Client.mk.inj h
  exact ⟨links', rfl, hlinks⟩

theorem Ordered.of_without {c d : Client} (hc : c.Ordered) (h : c.without q = d.without q) :
    d.Ordered := by
  obtain ⟨links, rfl, hlinks⟩ := cases_of_without h
  have hids : ids { c with links := links } = c.ids := by
    have hmap := map_congr_of_without (f := Link.id?) (fun _ _ => Link.id?_of_without) hlinks
    have hid : ∀ links : List Link,
        links.filterMap Link.id? = (links.map Link.id?).filterMap id := by
      intro links
      rw [List.filterMap_map]
      rfl
    rw [ids, ids, hid, hid, hmap]
  exact hc.of_sublist (hids ▸ List.Sublist.refl _) rfl

theorem step_of_without_session {c d : Client} (hc : c.Ordered)
    (h : c.without q = d.without q) {operation : Operation} {id : SessionId}
    (hscope : operation.scope = .session id) :
    (c.step operation).1.without q = (d.step operation).1.without q ∧
      (c.step operation).2.without q = (d.step operation).2.without q := by
  have hd := hc.of_without h
  have hpeers : (c.peer? id).map (Peer.without q) = (d.peer? id).map (Peer.without q) := by
    rw [← peer?_without, h, peer?_without]
  cases hp : c.peer? id with
  | none =>
      rw [hp, Option.map_none, eq_comm, Option.map_eq_none_iff] at hpeers
      rw [step_of_unknown hscope hp, step_of_unknown hscope hpeers]
      exact ⟨rfl, h⟩
  | some p =>
      obtain ⟨p', hp', hsame⟩ := Option.map_eq_some_iff.1 (hp ▸ hpeers.symm)
      obtain ⟨s, server, records⟩ := p
      obtain ⟨t, server', records'⟩ := p'
      obtain ⟨hsession, rfl, rfl⟩ := Peer.mk.inj hsame
      obtain ⟨ht, hspares⟩ := Session.holding_of_without hsession.symm
      have hdebug : d.settings.debug = c.settings.debug := by
        obtain ⟨links, rfl, -⟩ := cases_of_without h
        rfl
      have hupshot := Peer.upshot_without hscope hspares c.settings.debug
        { session := s, server := server', records := records' }
      have ht' : Peer.holding t.completions t.notices
          { session := s, server := server', records := records' } =
            { session := t, server := server', records := records' } :=
        congrArg (fun t => Peer.mk t server' records') ht.symm
      rw [ht'] at hupshot
      rw [step_of_target hc hscope hp, step_of_target hd hscope hp', hdebug]
      refine ⟨congrArg Upshot.reply hupshot, ?_⟩
      rw [settle_without, settle_without, h]
      exact congrArg _ hupshot

theorem map_modify_server (event : Server → Server) (target : Nat) (links : List Link) :
    (links.modify target fun l => { l with server := event l.server }).map (Link.without q) =
      (links.map (Link.without q)).modify target fun l => { l with server := event l.server } := by
  refine List.ext_getElem? fun index => ?_
  rw [List.getElem?_map, List.getElem?_modify, List.getElem?_modify, List.getElem?_map]
  cases links[index]? with
  | none => rfl
  | some l =>
      by_cases htarget : target = index
      · simp [htarget, Link.without]
      · simp [htarget]

theorem process_of_without {c d : Client} (h : c.without q = d.without q) :
    c.process.1 = d.process.1 ∧ c.process.2.without q = d.process.2.without q := by
  obtain ⟨links, rfl, hlinks⟩ := cases_of_without h
  have hpumped : ∀ l l' : Link, l.without q = l'.without q → _ := fun l l' h =>
    Link.pumpLink_of_without h c.settings.debug
  have hafter := map_congr_of_without (fun l l' h => (hpumped l l' h).1) hlinks
  have hrecords := map_congr_of_without (fun l l' h => (hpumped l l' h).2.1) hlinks
  have hprogressed := map_congr_of_without (fun l l' h => (hpumped l l' h).2.2) hlinks
  have hany : ∀ links : List Link, (process { c with links := links }).1 =
      (links.map fun l => (pumpLink c.settings.debug l).progressed).any id := by
    intro links
    simp [process, Function.comp_def]
  have hclient : ∀ links : List Link, (process { c with links := links }).2.without q =
      { c with
        links := links.map fun l => (pumpLink c.settings.debug l).link.without q
        records := c.records ++
          (links.map fun l => (pumpLink c.settings.debug l).records).flatten } := by
    intro links
    simp [process, without, Function.comp_def]
  refine ⟨(hany c.links).trans ?_, (hclient c.links).trans ?_⟩
  · rw [hany, hprogressed]
  · rw [hclient, hafter, hrecords]

/-- Clients that differ in a queue give the same answer, and differ in that queue
afterwards. -/
theorem step_of_without {c d : Client} (hc : c.Ordered) (h : c.without q = d.without q)
    (operation : Operation) :
    (c.step operation).1.without q = (d.step operation).1.without q ∧
      (c.step operation).2.without q = (d.step operation).2.without q := by
  cases hscope : operation.scope with
  | session id => exact step_of_without_session hc h hscope
  | sessions =>
      cases operation with
      | process =>
          obtain ⟨hany, hafter⟩ := process_of_without h
          exact ⟨congrArg (fun any => (Reply.progressed any).without q) hany, hafter⟩
      | shutdown =>
          obtain ⟨links, rfl, hlinks⟩ := cases_of_without h
          have hretired := map_congr_of_without (f := fun l => l.retire.without q) (fun l l' h => by
            rcases Link.cases_of_without h with rfl | ⟨s, _, _, _, _, -, hl, hl'⟩
            · rfl
            · rw [hl, hl']
              rfl) hlinks
          refine ⟨rfl, ?_⟩
          simp only [step, shutdown, without, List.map_map, Function.comp_def, hretired]
      | _ => cases hscope
  | server target event =>
      obtain ⟨links, rfl, hlinks⟩ := cases_of_without h
      cases operation with
      | server target event =>
          have hmodify := map_modify_server (q := q) (fun v => event.apply v) target
          refine ⟨rfl, ?_⟩
          simp only [step, atServer, without, hmodify, hlinks]
      | _ => cases hscope
  | nothing =>
      obtain ⟨links, rfl, hlinks⟩ := cases_of_without h
      have hlength : c.links.length = links.length := by
        simpa using congrArg List.length hlinks
      cases operation with
      | connect command connection =>
          rw [step_connect, step_connect, hlength]
          dsimp only
          cases c.launcher.start links.length command connection.args with
          | error e => exact ⟨rfl, h⟩
          | ok server =>
              refine ⟨rfl, ?_⟩
              dsimp only [without]
              rw [List.map_append, List.map_append, hlinks]
              rfl
      | adjust change =>
          refine ⟨rfl, ?_⟩
          dsimp only [step, without]
          rw [hlinks]
      | lose command =>
          refine ⟨rfl, ?_⟩
          dsimp only [step, without]
          rw [hlinks]
      | failNewServers failure =>
          refine ⟨rfl, ?_⟩
          dsimp only [step, without]
          rw [hlinks]
      | _ => cases hscope

/-! ## Any run -/

/-- What the operations of a run answer. -/
def answers (c : Client) : List Operation → List Reply
  | [] => []
  | operation :: rest => (c.step operation).1 :: (c.step operation).2.answers rest

/-- Whatever happens later to clients that differ in a queue, their answers and what
becomes of them differ in that queue only. -/
theorem run_of_without (operations : List Operation) {c d : Client} (hc : c.Ordered)
    (h : c.without q = d.without q) :
    (c.answers operations).map (Reply.without q) = (d.answers operations).map (Reply.without q) ∧
      (c.run operations).without q = (d.run operations).without q := by
  induction operations generalizing c d with
  | nil => exact ⟨rfl, h⟩
  | cons operation rest ih =>
      obtain ⟨hreply, hafter⟩ := step_of_without hc h operation
      obtain ⟨hreplies, hrun⟩ := ih (hc.step operation) hafter
      rw [answers, answers, List.map_cons, List.map_cons, hreply, hreplies]
      exact ⟨rfl, hrun⟩

/-- What a queue of a registered session is, and what taking it comes to. -/
structure KeepsNewest (c : Client) (id : SessionId) (s : Session) (history : List Event)
    (q : Queue) : Prop where
  /-- it holds the newest of what has arrived since it was taken -/
  newest : q.entries s = q.newest history
  /-- so it is never longer than what is kept -/
  bounded : (q.entries s).length ≤ maxQueued
  /-- whenever the caller took it, it was given the newest of what had arrived since it was
  taken before -/
  takings : ∀ before e later entries, history = before ++ e :: later →
    q.taken? e = some entries → entries = q.newest before
  /-- and so it would be now -/
  given : (c.step (q.take id)).1 = q.reply (q.newest history)
  /-- the session is left with an empty queue and is otherwise as it was -/
  left : (c.step (q.take id)).2.session? id = some (s.without q)
  /-- no other session is touched -/
  others : ∀ other, other ≠ id → (c.step (q.take id)).2.session? other = c.session? other
  /-- nor anything else -/
  apart : (c.step (q.take id)).2.without q = c.without q
  /-- if the queues were otherwise, taken or full, nothing else would ever be -/
  independent : ∀ (d : Client) (later : List Operation), d.without q = c.without q →
    (d.answers later).map (Reply.without q) = (c.answers later).map (Reply.without q) ∧
      (d.run later).without q = (c.run later).without q

theorem step_take {c : Client} {id : SessionId} {p : Peer} (hp : c.peer? id = some p) (q : Queue) :
    c.step (q.take id) = (q.reply (q.entries p.session), c.putPeer id (p.without q)) := by
  cases q with
  | completions =>
      show c.step (.takeCompletions id) = _
      rw [step, takeCompletions, hp]
      rfl
  | notices =>
      show c.step (.takeNotices id) = _
      rw [step, takeNotices, hp]
      rfl

/-- Taking a queue changes that queue. -/
theorem putPeer_without {c : Client} (hc : c.Ordered) {id : SessionId} {p : Peer}
    (hp : c.peer? id = some p) : (c.putPeer id (p.without q)).without q = c.without q := by
  have hlinks : (c.links.map fun old =>
      if old.owns id then Link.mk p.server (some (p.session.without q)) else old).map
        (Link.without q) = c.links.map (Link.without q) := by
    rw [List.map_map]
    refine List.map_congr_left fun l hl => ?_
    rw [Function.comp_apply]
    split
    · next howns =>
        rw [link_of_owns hc hp hl howns]
        cases q <;> rfl
    · rfl
  have hrecords : c.records ++ (p.without q).records = c.records := by
    show c.records ++ p.records = c.records
    rw [records_of_peer? hp, List.append_nil]
  rw [putPeer, putLink, without, hrecords]
  dsimp only [Peer.without]
  rw [hlinks]
  rfl

/-- In every run, each queue of a registered session keeps the newest of what has arrived,
in order, and is of no consequence for anything else. -/
theorem keepsNewest_of_run {settings : Settings} {processId : Nat} {launcher : Launcher}
    {operations : List Operation} {id : SessionId} {s : Session}
    (h : ((initial settings processId launcher).run operations).session? id = some s)
    (q : Queue) :
    KeepsNewest ((initial settings processId launcher).run operations) id s
      ((initial settings processId launcher).history id operations) q := by
  have hholds : q.Holds s ((initial settings processId launcher).history id operations) :=
    run_preserves (P := q.Holds) (fun _ _ ho => Queue.holds_of_opened q ho)
      (fun _ hs move => hs.moves move) h
  have hordered := (ordered_initial settings processId launcher).run operations
  generalize (initial settings processId launcher).run operations = c at h hordered ⊢
  generalize (initial settings processId launcher).history id operations = history at hholds ⊢
  rw [session?_eq, Option.map_eq_some_iff] at h
  obtain ⟨p, hp, rfl⟩ := h
  have hstep := step_take hp q
  have hid : (p.without q).session.id = id := by
    rw [← session_id_of_peer? hp]
    cases q <;> rfl
  refine ⟨hholds.newest, ?_, hholds.takings, ?_, ?_, fun other hother => ?_, ?_, ?_⟩
  · rw [hholds.newest]
    exact q.length_newest_le history
  · rw [hstep, hholds.newest]
  · rw [hstep, session?_eq, peer?_putPeer_self hp hid]
    rfl
  · rw [hstep, session?_eq, session?_eq, peer?_putPeer_of_ne hother hid]
  · rw [hstep]
    exact putPeer_without hordered hp
  · intro d later hd
    obtain ⟨hanswers, hrun⟩ := run_of_without later hordered hd.symm
    exact ⟨hanswers.symm, hrun.symm⟩

/-- A notice comes and is taken, and then two more come with the answer to a request. -/
def noticesAroundAnAnswer : List Operation :=
  [.connect "server" {},
    .server 0 (.emit (Wire.frameText "\x7b\"id\":1,\"result\":null\x7d" ++
      Wire.frameText "\x7b\"method\":\"a\"\x7d")),
    .process,
    .takeNotices 1,
    .request 1 "textDocument/hover" .null,
    .server 0 (.emit (Wire.frameText "\x7b\"method\":\"b\"\x7d" ++
      Wire.frameText "\x7b\"id\":2,\"result\":7\x7d" ++
      Wire.frameText "\x7b\"method\":\"c\"\x7d")),
    .process]

theorem keepsNewest_of_noticesAroundAnAnswer :
    ∃ s, ((initial {} 0 {}).run noticesAroundAnAnswer).session? 1 = some s ∧
      s.notices.map Notice.method = ["b", "c"] ∧ s.completions.length = 1 ∧
      ∀ q, KeepsNewest ((initial {} 0 {}).run noticesAroundAnAnswer) 1 s
        ((initial {} 0 {}).history 1 noticesAroundAnAnswer) q := by
  have hqueues : (((initial {} 0 {}).run noticesAroundAnAnswer).session? 1).map
      (fun s => (s.notices.map Notice.method, s.completions.length)) = some (["b", "c"], 1) := by
    decide +kernel
  obtain ⟨s, hs, hheld⟩ := Option.map_eq_some_iff.1 hqueues
  obtain ⟨hnotices, hcompletions⟩ := Prod.ext_iff.1 hheld
  exact ⟨s, hs, hnotices, hcompletions, keepsNewest_of_run hs⟩

end Client

end LspClient
