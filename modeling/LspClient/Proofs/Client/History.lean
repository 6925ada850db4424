import LspClient.Proofs.Client.Outcomes

/-!
# Histories of sessions, and what a run preserves

A run of a client is a list of operations, and the history of a session is
what they add to it one after another, read off the answers of the operations
and off the frames that each read completes.

Most operations name a session, and then nothing happens to any other. Reading
happens to all sessions at once, each on its own link. The only thing to know
of the client as a whole is that no two links have the same session, which
follows from the numbers being handed out in increasing order.

`run_preserves` is the induction that every statement about the sessions of a
run goes through. A session is registered by an opened handshake, an operation
that leaves it registered is a path of moves, and so whatever holds of an
opened session and its one-event history, and is kept by every move, holds of
every registered session at the end of every run.
-/

namespace LspClient

open Json (Value)

/-- Whether something may be noted of a session when an operation happens:
the operation names it, or reads from every server. -/
def Operation.concerns (id : SessionId) : Operation → Bool
  | .close target => target == id
  | .request target _ _ => target == id
  | .takeCompletions target => target == id
  | .takeNotices target => target == id
  | .process => true
  | _ => false

/-- What is noted of the session that an operation concerns. -/
def Peer.noted (keep : Bool) (p : Peer) : Operation → Reply → List Event
  | .close _, .done => p.closeEvents
  | .request _ method _, .sent number => [.sent number method]
  | .request .., .refused (.transport _) => [.unsent p.session.nextRequest]
  | .process, _ => p.pumpEvents keep
  | .takeCompletions _, .completions entries => [.taken entries]
  | .takeNotices _, .notices entries => [.takenNotices entries]
  | _, _ => []

/-- What is noted of the session that an operation opened. -/
def Reply.openingEvents (id : SessionId) : Reply → List Event
  | .opened new => if new = id then [.sent .first Lifecycle.opening.method] else []
  | _ => []

theorem mem_openingEvents {id : SessionId} {reply : Reply} {e : Event}
    (h : e ∈ reply.openingEvents id) : e = .sent .first Lifecycle.opening.method := by
  unfold Reply.openingEvents at h
  split at h
  · split at h
    · exact List.mem_singleton.1 h
    · cases h
  · cases h

namespace Client

/-- A client that has started no server yet. -/
def initial (settings : Settings) (processId : Nat) (launcher : Launcher) : Client :=
  { settings, processId, launcher }

/-- What an operation adds to the history of a session. -/
def eventsOf (id : SessionId) (c : Client) (operation : Operation) : List Event :=
  match c.peer? id with
  | none => (c.step operation).1.openingEvents id
  | some p =>
    if operation.concerns id then p.noted c.settings.debug operation (c.step operation).1
    else []

/-- What is noted of a session during a run. -/
def history (id : SessionId) (c : Client) : List Operation → List Event
  | [] => []
  | operation :: rest =>
    c.eventsOf id operation ++ (c.step operation).2.history id rest

theorem run_cons (c : Client) (operation : Operation) (rest : List Operation) :
    c.run (operation :: rest) = (c.step operation).2.run rest := rfl

theorem run_append (c : Client) (operations later : List Operation) :
    c.run (operations ++ later) = (c.run operations).run later :=
  List.foldl_append

theorem history_append (id : SessionId) (c : Client) (operations later : List Operation) :
    c.history id (operations ++ later) =
      c.history id operations ++ (c.run operations).history id later := by
  induction operations generalizing c with
  | nil => rfl
  | cons operation rest ih =>
      rw [List.cons_append, history, history, ih, List.append_assoc, run_cons]

/-! ## The peer with a number -/

theorem session?_eq (c : Client) (id : SessionId) :
    c.session? id = (c.peer? id).map Peer.session := by
  rw [peer?_eq, session?, sessions]
  induction c.links with
  | nil => rfl
  | cons l links ih =>
      rw [findPeer_cons, List.filterMap_cons, Link.id?, Link.peer?]
      cases hs : l.session with
      | none => simpa using ih
      | some s =>
          by_cases hid : s.id = id
          · simp [hid]
          · simpa [hid] using ih

theorem session?_of_peer? {c : Client} {id : SessionId} {p : Peer} (h : c.peer? id = some p) :
    c.session? id = some p.session := by
  rw [session?_eq, h, Option.map_some]

theorem peer?_putPeer_of_ne {c : Client} {id target : SessionId} {q : Peer}
    (hne : id ≠ target) (hq : q.session.id = target) :
    (c.putPeer target q).peer? id = c.peer? id :=
  findPeer_put_of_ne hne (by simpa [Link.id?, hq] using Ne.symm hne)

theorem peer?_putPeer_self {c : Client} {id : SessionId} {p q : Peer}
    (hp : c.peer? id = some p) (hq : q.session.id = id) :
    (c.putPeer id q).peer? id = some { session := q.session, server := q.server } := by
  have h := findPeer_put_self hp ⟨q.server, some q.session⟩
  rw [if_pos (by simp [Link.id?, hq])] at h
  exact h

theorem peer?_dropPeer_of_ne {c : Client} {id target : SessionId} {q : Peer}
    (hne : id ≠ target) : (c.dropPeer target q).peer? id = c.peer? id :=
  findPeer_put_of_ne hne (by simp [Link.id?])

theorem peer?_dropPeer_self {c : Client} {id : SessionId} {p q : Peer}
    (hp : c.peer? id = some p) : (c.dropPeer id q).peer? id = none := by
  have h := findPeer_put_self hp ⟨q.server.close, none⟩
  rw [if_neg (by simp [Link.id?])] at h
  exact h

theorem session_id_of_peer? {c : Client} {id : SessionId} {p : Peer}
    (h : c.peer? id = some p) : p.session.id = id :=
  id_of_findPeer h

/-! ## One operation -/

/-- How a session came to be what it is: it was registered already and followed
a path, or its handshake was opened and it followed a path from there. -/
def Follows (c : Client) (id : SessionId) (events : List Event) (t : Session) : Prop :=
  (∃ p, c.peer? id = some p ∧ p.session.Path events t) ∨
  (c.lastSession < id ∧ ∃ s later, Peer.Opened id s ∧ s.Path later t ∧
    events = .sent .first Lifecycle.opening.method :: later)

theorem Follows.stay {c : Client} {id : SessionId} {q : Peer} (h : c.peer? id = some q) :
    c.Follows id [] q.session :=
  .inl ⟨q, h, .nil q.session⟩

theorem Follows.append {c : Client} {id : SessionId} {events later : List Event}
    {s t : Session} (h : c.Follows id events s) (path : s.Path later t) :
    c.Follows id (events ++ later) t := by
  rcases h with ⟨p, hp, before⟩ | ⟨hnew, o, between, ho, before, rfl⟩
  · exact .inl ⟨p, hp, before.append path⟩
  · exact .inr ⟨hnew, o, between ++ later, ho, before.append path, rfl⟩

theorem eventsOf_of_peer? {c : Client} {id : SessionId} {p : Peer} (h : c.peer? id = some p)
    (operation : Operation) :
    c.eventsOf id operation =
      if operation.concerns id then p.noted c.settings.debug operation (c.step operation).1
      else [] := by
  rw [eventsOf, h]

/-- An operation that leaves the session of a number alone. -/
theorem follows_of_quiet {c d : Client} {id : SessionId} {q : Peer} {operation : Operation}
    (hpeer : d.peer? id = c.peer? id) (hconcerns : operation.concerns id = false)
    (h : d.peer? id = some q) : c.Follows id (c.eventsOf id operation) q.session := by
  rw [hpeer] at h
  rw [eventsOf_of_peer? h, hconcerns]
  exact .stay h

theorem follows_of_nothing {c : Client} {id : SessionId} {q : Peer} {operation : Operation}
    {reply : Reply} (hstep : c.step operation = (reply, c))
    (hnoted : ∀ p, c.peer? id = some p → operation.concerns id = true →
      p.noted c.settings.debug operation reply = [])
    (h : (c.step operation).2.peer? id = some q) :
    c.Follows id (c.eventsOf id operation) q.session := by
  rw [hstep] at h
  rw [eventsOf_of_peer? h, hstep]
  cases hconcerns : operation.concerns id with
  | false => exact .stay h
  | true =>
      rw [if_pos rfl, hnoted q h hconcerns]
      exact .stay h

/-- An operation on one session, which leaves every other session as it is. -/
theorem follows_of_target {c : Client} {id target : SessionId} {p q r : Peer}
    {operation : Operation} {reply : Reply} (hp : c.peer? target = some p)
    (hstep : c.step operation = (reply, c.putPeer target q))
    (hconcerns : operation.concerns id = (target == id))
    (path : p.session.Path (p.noted c.settings.debug operation reply) q.session)
    (h : (c.step operation).2.peer? id = some r) :
    c.Follows id (c.eventsOf id operation) r.session := by
  have hq : q.session.id = target := path.id_eq.trans (session_id_of_peer? hp)
  rw [hstep] at h
  by_cases hid : target = id
  · subst hid
    rw [peer?_putPeer_self hp hq, Option.some.injEq] at h
    rw [eventsOf_of_peer? hp, hconcerns, beq_self_eq_true, if_pos rfl, hstep, ← h]
    exact .inl ⟨p, hp, path⟩
  · exact follows_of_quiet (peer?_putPeer_of_ne (Ne.symm hid) hq)
      (by rw [hconcerns]; exact beq_false_of_ne hid) h

theorem connect_follows {c : Client} {command : String}
    {connection : Connection} {id : SessionId} {q : Peer} (hc : c.Ordered)
    (h : (c.step (.connect command connection)).2.peer? id = some q) :
    c.Follows id (c.eventsOf id (.connect command connection)) q.session := by
  rcases connect_cases c command connection with
    ⟨e, heq⟩ | ⟨e, server, records, heq⟩ | ⟨r, hr, heq⟩
  · have hstep : (c.step (.connect command connection)).2 = c := by simp only [step, heq]
    exact follows_of_quiet (by rw [hstep]) rfl h
  · refine follows_of_quiet ?_ rfl h
    simp only [step, heq]
    exact findPeer_append_of_ne (by simp [Link.id?])
  · have hnew : (Link.mk r.server (some r.session)).id? = some (c.lastSession + 1) := by
      obtain ⟨command, payload, hs⟩ := hr
      rw [Link.id?, hs]
      rfl
    by_cases hid : c.lastSession + 1 = id
    · subst hid
      have hfresh := hc.id?_ne (Nat.lt_succ_self c.lastSession)
      have hnone : c.peer? (c.lastSession + 1) = none := findPeer_eq_none hfresh
      simp only [step, heq] at h ⊢
      rw [peer?_eq, findPeer_append_self hfresh hnew, Link.peer?, Option.map_some,
        Option.some.injEq] at h
      have hevents : c.eventsOf (c.lastSession + 1) (.connect command connection) =
          [.sent .first Lifecycle.opening.method] := by
        rw [eventsOf, hnone]
        simp only [step, heq, Reply.openingEvents, if_pos]
      rw [hevents, ← h]
      exact .inr ⟨Nat.lt_succ_self _, r.session, [], hr, .nil r.session, rfl⟩
    · refine follows_of_quiet ?_ rfl h
      simp only [step, heq]
      exact findPeer_append_of_ne (by rw [hnew]; simpa using hid)

theorem close_follows {c : Client} {target id : SessionId} {q : Peer}
    (h : (c.step (.close target)).2.peer? id = some q) :
    c.Follows id (c.eventsOf id (.close target)) q.session := by
  rcases close_cases c target with
    ⟨hnone, heq⟩ | ⟨p, hp, ⟨hclosing, heq⟩ | ⟨r, hopen, hend, heq⟩ | ⟨e, r, heq⟩⟩
  · exact follows_of_nothing (by simp only [step, heq]; rfl) (fun _ _ _ => rfl) h
  · refine follows_of_nothing (by simp only [step, heq]; rfl) (fun p' hp' hconcerns => ?_) h
    obtain rfl : target = id := by simpa [Operation.concerns] using hconcerns
    obtain rfl : p' = p := by rw [hp, Option.some.injEq] at hp'; exact hp'.symm
    exact if_pos hclosing
  · have hstep : c.step (.close target) = (.done, c.putPeer target r) := by
      simp only [step, heq]
      rfl
    refine follows_of_target hp hstep rfl ?_ h
    have hnoted : p.noted c.settings.debug (.close target) .done =
        [.sent p.session.nextRequest Lifecycle.ending.method, .closing] :=
      if_neg (by simp [hopen])
    rw [hnoted]
    exact .single (Peer.endSession_ok hopen hend)
  · have hstep : (c.step (.close target)).2 = c.dropPeer target r := by simp only [step, heq]
    rw [hstep] at h
    by_cases hid : target = id
    · subst hid
      rw [peer?_dropPeer_self hp] at h
      cases h
    · exact follows_of_quiet (peer?_dropPeer_of_ne (Ne.symm hid)) (beq_false_of_ne hid) h

theorem request_follows {c : Client} {target id : SessionId} {method : String}
    {params : Value} {q : Peer}
    (h : (c.step (.request target method params)).2.peer? id = some q) :
    c.Follows id (c.eventsOf id (.request target method params)) q.session := by
  rcases request_cases c target method params with
    ⟨e, he, heq⟩ | ⟨p, r, hp, hconnected, hopen, ⟨number, hreq, heq⟩ | ⟨e, hreq, heq⟩⟩
  · have hstep : c.step (.request target method params) = (.refused e, c) := by
      simp only [step, heq]
    refine follows_of_nothing hstep (fun _ _ _ => ?_) h
    cases e with
    | transport t => exact absurd rfl (he t)
    | _ => rfl
  · have hstep : c.step (.request target method params) =
        (.sent number, c.putPeer target r) := by simp only [step, heq]
    refine follows_of_target hp hstep rfl ?_ h
    obtain ⟨rfl, payload, hr⟩ := Peer.request_ok hreq
    rw [hr]
    exact .single (.sent p.session method payload hconnected hopen)
  · have hstep : c.step (.request target method params) =
        (.refused (.transport e), c.putPeer target r) := by simp only [step, heq]
    refine follows_of_target hp hstep rfl ?_ h
    rw [Peer.request_error hreq]
    exact .single (.unsent p.session hconnected hopen)

theorem notify_follows {c : Client} {target id : SessionId} {method : String}
    {params : Value} {q : Peer}
    (h : (c.step (.notify target method params)).2.peer? id = some q) :
    c.Follows id (c.eventsOf id (.notify target method params)) q.session := by
  rcases notify_cases c target method params with ⟨e, heq⟩ | ⟨p, r, result, hp, hr, heq⟩
  · exact follows_of_nothing (by simp only [step, heq]; rfl) (fun _ _ hc => nomatch hc) h
  · have hstep : (c.step (.notify target method params)).2 = c.putPeer target r := by
      simp only [step, heq]
    rw [hstep] at h
    have hid : r.session.id = target := by rw [hr]; exact session_id_of_peer? hp
    by_cases hne : target = id
    · subst hne
      rw [peer?_putPeer_self hp hid, Option.some.injEq] at h
      rw [eventsOf_of_peer? hp, ← h, hr]
      exact .stay hp
    · exact follows_of_quiet (peer?_putPeer_of_ne (Ne.symm hne) hid) rfl h

/-- An operation that hands out what a session has kept, and nothing for a
number that names no session. -/
theorem follows_of_taking {c : Client} {target id : SessionId} {q : Peer}
    {operation : Operation} (nothing : Reply) (kept : Peer → Reply) (emptied : Peer → Peer)
    (hnone : c.peer? target = none → c.step operation = (nothing, c))
    (hsome : ∀ p, c.peer? target = some p →
      c.step operation = (kept p, c.putPeer target (emptied p)))
    (hconcerns : operation.concerns id = (target == id))
    (path : ∀ p : Peer, p.session.Path (p.noted c.settings.debug operation (kept p))
      (emptied p).session)
    (h : (c.step operation).2.peer? id = some q) :
    c.Follows id (c.eventsOf id operation) q.session := by
  cases hp : c.peer? target with
  | none =>
      refine follows_of_nothing (hnone hp) (fun p hpeer hid => ?_) h
      rw [hconcerns, beq_iff_eq] at hid
      rw [← hid, hp] at hpeer
      cases hpeer
  | some p => exact follows_of_target hp (hsome p hp) hconcerns (path p) h

theorem takeCompletions_follows {c : Client} {target id : SessionId} {q : Peer}
    (h : (c.step (.takeCompletions target)).2.peer? id = some q) :
    c.Follows id (c.eventsOf id (.takeCompletions target)) q.session := by
  refine follows_of_taking (.completions []) (fun p => .completions p.session.completions)
    (fun p => { p with session := { p.session with completions := [] } })
    (fun hp => ?_) (fun p hp => ?_) rfl (fun p => .single (.taken p.session)) h
  · simp only [step, takeCompletions, hp]
  · simp only [step, takeCompletions, hp]

theorem takeNotices_follows {c : Client} {target id : SessionId} {q : Peer}
    (h : (c.step (.takeNotices target)).2.peer? id = some q) :
    c.Follows id (c.eventsOf id (.takeNotices target)) q.session := by
  refine follows_of_taking (.notices []) (fun p => .notices p.session.notices)
    (fun p => { p with session := { p.session with notices := [] } })
    (fun hp => ?_) (fun p hp => ?_) rfl (fun p => .single (.takenNotices p.session)) h
  · simp only [step, takeNotices, hp]
  · simp only [step, takeNotices, hp]

theorem process_follows {c : Client} (hc : c.Ordered) {id : SessionId} {q : Peer}
    (h : (c.step .process).2.peer? id = some q) :
    c.Follows id (c.eventsOf id .process) q.session := by
  have hlinks : findPeer id (c.links.map fun l => (pumpLink c.settings.debug l).link) =
      some q := by
    rw [← process_links]
    exact h
  obtain ⟨l, -, hfind, hq⟩ := findPeer_map (pumpLink_id? c.settings.debug) hc.nodup hlinks
  cases hs : l.session with
  | none =>
      rw [Link.peer?, pumpLink, hs] at hq
      simp [hs] at hq
  | some s =>
      have hp : c.peer? id = some { session := s, server := l.server } := by
        rw [peer?_eq, hfind, Link.peer?, hs]
        rfl
      rw [Link.peer?, pumpLink, hs] at hq
      cases hfinished :
          (Peer.pump c.settings.debug { session := s, server := l.server }).finished with
      | true => simp [hfinished] at hq
      | false =>
          simp only [hfinished, Bool.false_eq_true, if_false, Option.map_some,
            Option.some.injEq] at hq
          rw [eventsOf_of_peer? hp, ← hq]
          exact .inl ⟨_, hp, Peer.pump_path hfinished⟩

theorem shutdown_peer? (c : Client) (id : SessionId) : c.shutdown.peer? id = none := by
  refine findPeer_eq_none fun l hl => ?_
  obtain ⟨old, -, rfl⟩ := List.mem_map.1 hl
  rw [Link.retire]
  cases hs : old.session with
  | none => simp [Link.id?, hs]
  | some s => simp [Link.id?]

/-- Whatever happens to a client, a session that is registered afterwards
followed a path or was just opened. -/
theorem step_follows {c : Client} (hc : c.Ordered) {id : SessionId} {q : Peer}
    (operation : Operation) (h : (c.step operation).2.peer? id = some q) :
    c.Follows id (c.eventsOf id operation) q.session := by
  cases operation with
  | connect command connection => exact connect_follows hc h
  | close target => exact close_follows h
  | request target method params => exact request_follows h
  | notify target method params => exact notify_follows h
  | process => exact process_follows hc h
  | takeCompletions target => exact takeCompletions_follows h
  | takeNotices target => exact takeNotices_follows h
  | shutdown =>
      have hnone := c.shutdown_peer? id
      rw [step, hnone] at h
      cases h
  | server index event =>
      obtain ⟨p, hp, hsession⟩ := findPeer_modify
        (g := fun l => { l with server := event.apply l.server }) (fun l => rfl) h
      have hpeer : c.peer? id = some p := hp
      rw [eventsOf_of_peer? hpeer, ← hsession]
      exact .stay hpeer
  | adjust change => exact follows_of_quiet rfl rfl h
  | lose command => exact follows_of_quiet rfl rfl h
  | failNewServers failure => exact follows_of_quiet rfl rfl h

/-- Only opening a session spends a number, and only then does an operation
answer that a session was opened. -/
theorem step_lastSession (c : Client) (operation : Operation) :
    ((c.step operation).2.lastSession = c.lastSession ∧
      ∀ id, (c.step operation).1.openingEvents id = []) ∨
    ((c.step operation).2.lastSession = c.lastSession + 1 ∧
      ∀ id, c.lastSession + 1 ≠ id → (c.step operation).1.openingEvents id = []) := by
  cases operation with
  | connect command connection =>
      rw [step]
      rcases connect_cases c command connection with
        ⟨e, heq⟩ | ⟨e, server, records, heq⟩ | ⟨r, hr, heq⟩
      · rw [heq]
        exact .inl ⟨rfl, fun _ => rfl⟩
      · rw [heq]
        exact .inr ⟨rfl, fun _ _ => rfl⟩
      · rw [heq]
        exact .inr ⟨rfl, fun _ hne => if_neg hne⟩
  | close target =>
      left
      rcases close_cases c target with
        ⟨-, heq⟩ | ⟨p, -, ⟨-, heq⟩ | ⟨q, -, -, heq⟩ | ⟨e, q, heq⟩⟩
      all_goals
        rw [step, heq]
        exact ⟨rfl, fun _ => rfl⟩
  | request target method params =>
      left
      rw [step]
      rcases request_cases c target method params with
        ⟨e, -, heq⟩ | ⟨p, q, -, -, -, ⟨number, -, heq⟩ | ⟨e, -, heq⟩⟩
      all_goals
        rw [heq]
        exact ⟨rfl, fun _ => rfl⟩
  | notify target method params =>
      left
      rcases notify_cases c target method params with ⟨e, heq⟩ | ⟨p, q, r, -, -, heq⟩
      · rw [step, heq]
        exact ⟨rfl, fun _ => rfl⟩
      · rw [step, heq]
        cases r <;> exact ⟨rfl, fun _ => rfl⟩
  | takeCompletions target =>
      left
      simp only [step, takeCompletions]
      cases c.peer? target <;> exact ⟨rfl, fun _ => rfl⟩
  | takeNotices target =>
      left
      simp only [step, takeNotices]
      cases c.peer? target <;> exact ⟨rfl, fun _ => rfl⟩
  | _ => exact .inl ⟨rfl, fun _ => rfl⟩

/-- Nothing is noted of a session that is still to come. -/
theorem fresh_of_step {c : Client} (hc : c.Ordered) {id : SessionId} {operation : Operation}
    (h : (c.step operation).2.lastSession < id) :
    c.lastSession < id ∧ c.eventsOf id operation = [] := by
  have hlt : c.lastSession < id := by
    rcases c.step_lastSession operation with ⟨hlast, -⟩ | ⟨hlast, -⟩
    · rwa [hlast] at h
    · rw [hlast] at h
      exact Nat.lt_of_succ_lt h
  have hnone : c.peer? id = none := findPeer_eq_none (hc.id?_ne hlt)
  refine ⟨hlt, ?_⟩
  rw [eventsOf, hnone]
  rcases c.step_lastSession operation with ⟨-, hquiet⟩ | ⟨hlast, hquiet⟩
  · exact hquiet id
  · rw [hlast] at h
    exact hquiet id (Nat.ne_of_lt h)

/-! ## Runs -/

/-- A session that is registered after a run followed a path, from where it
was or from where it was opened. -/
theorem run_follows (operations : List Operation) {c : Client} (hc : c.Ordered)
    {id : SessionId} {q : Peer} (h : (c.run operations).peer? id = some q) :
    c.Follows id (c.history id operations) q.session := by
  induction operations generalizing c with
  | nil => exact .stay h
  | cons operation rest ih =>
      rw [history]
      rcases ih (hc.step operation) h with ⟨p, hp, path⟩ | ⟨hnew, s, later, hs, path, heq⟩
      · exact (step_follows hc operation hp).append path
      · -- the session was opened later, so nothing was noted of it before
        obtain ⟨hlt, hquiet⟩ := fresh_of_step hc hnew
        rw [hquiet, heq]
        exact .inr ⟨hlt, s, later, hs, path, rfl⟩

theorem ordered_initial (settings : Settings) (processId : Nat) (launcher : Launcher) :
    (initial settings processId launcher).Ordered :=
  ⟨.nil, fun _ h => nomatch h⟩

theorem Ordered.run {c : Client} (h : c.Ordered) (operations : List Operation) :
    (c.run operations).Ordered := by
  induction operations generalizing c with
  | nil => exact h
  | cons operation rest ih => exact ih (h.step operation)

/-- What holds of an opened session and is kept by every move holds of every
registered session after every run. -/
theorem run_preserves {P : Session → List Event → Prop}
    (opened : ∀ id s, Peer.Opened id s → P s [.sent .first Lifecycle.opening.method])
    (moves : ∀ {s t events} history, P s history → s.Moves events t → P t (history ++ events))
    {settings : Settings} {processId : Nat} {launcher : Launcher}
    {operations : List Operation} {id : SessionId} {s : Session}
    (h : ((initial settings processId launcher).run operations).session? id = some s) :
    P s ((initial settings processId launcher).history id operations) := by
  rw [session?_eq, Option.map_eq_some_iff] at h
  obtain ⟨q, hq, rfl⟩ := h
  have follows := run_follows operations (ordered_initial settings processId launcher) hq
  rcases follows with ⟨p, hp, -⟩ | ⟨-, o, later, ho, path, heq⟩
  · cases hp
  · rw [heq]
    exact path.preserves moves _ (opened id o ho)

end Client

end LspClient
