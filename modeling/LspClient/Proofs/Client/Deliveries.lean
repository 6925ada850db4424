import LspClient.Proofs.Client.Custody
import LspClient.Proofs.Client.Isolation
import LspClient.Proofs.Session.Hearing

/-!
# Only messages matter

A server says bodies, and the client reads them. Of all this nothing makes a
difference to the session but the messages among the bodies: not how the output
is cut, not when it is read, not what other servers do meanwhile, and not the
junk between the messages.

Two runs are never compared with each other. Each is compared with what the
session makes of the messages that were said (`Link.Heard`), which
`Proofs/Session/Hearing.lean` computes without a server and without reading.
During a delivery a link is somewhere in the middle (`Link.Heeds`): the session
has heard the bodies that have arrived in full, and the rest waits at the server
or is still to come. Every operation of a delivery keeps that (`Delivers.run`),
and a read takes a chunk, so as many reads as there are chunks get to the end
(`Link.Heeds.reads`, `Link.Heeds.heard`). If a message ends the session, what is
behind it is dropped if it came in the same read and stays unread otherwise, and
`Session.hearAll` does not look at it either.

Whether a write succeeds is not decided by messages. So the tries to write are
counted (`Client.tries`), and the same of them have to fail in both runs.
-/

namespace LspClient

open Json (Value)

/-- What is written of envelopes, given which of the tries to write fail. -/
def written (failed : List Bool) (envelopes : List Value) : List (List UInt8) :=
  (failed.zip envelopes).filterMap fun (failed, envelope) =>
    if failed then none else some (Envelope.wire envelope)

theorem written_append {failed later : List Bool} {envelopes more : List Value}
    (h : failed.length = envelopes.length) :
    written (failed ++ later) (envelopes ++ more) =
      written failed envelopes ++ written later more := by
  rw [written, List.zip_append h, List.filterMap_append]
  rfl

/-- While nothing changes at the server, all tries fail or none. -/
theorem written_alike (failed : Bool) (envelopes : List Value) :
    written (envelopes.map fun _ => failed) envelopes =
      if failed then [] else envelopes.map Envelope.wire := by
  induction envelopes with
  | nil => cases failed <;> rfl
  | cons envelope envelopes ih =>
      show written ([failed] ++ envelopes.map fun _ => failed) ([envelope] ++ envelopes) = _
      rw [written_append rfl, ih]
      cases failed <;> rfl

namespace Link

/-- What has become of a session and its server when messages were received
and the tries to write came to what they did. -/
structure Heard (l : Link) (s : Session) (v : Server) (ms : List Incoming)
    (failed : List Bool) : Prop where
  session : l.session.map Session.bare =
    if (s.hearAll ms).2 then none else some (s.hearAll ms).1.bare
  tries : failed.length = (s.repliesAll ms).length
  writes : l.server.writes = v.writes ++ written failed (s.repliesAll ms)

theorem Heard.append {l : Link} {s t : Session} {v w : Server} {ms later : List Incoming}
    {failed more : List Bool} (first : (Link.mk w (some t)).Heard s v ms failed)
    (second : l.Heard t w later more) : l.Heard s v (ms ++ later) (failed ++ more) := by
  have hsession := first.session
  split at hsession
  · cases hsession
  · next hgoes =>
      -- what was heard first left `t`, as far as hearing goes
      have hbare : t.bare = (s.hearAll ms).1.bare := Option.some.inj hsession
      have hhears : t.bare.hearAll later = (s.hearAll ms).1.bare.hearAll later := by rw [hbare]
      have hreplies : t.repliesAll later = (s.hearAll ms).1.repliesAll later := by
        rw [← Session.repliesAll_bare, hbare, Session.repliesAll_bare]
      rw [Session.hearAll_bare, Session.hearAll_bare] at hhears
      obtain ⟨hafter, hended⟩ := Prod.mk.inj hhears
      have hall : s.repliesAll (ms ++ later) = s.repliesAll ms ++ t.repliesAll later := by
        rw [Session.repliesAll_append, if_neg hgoes, hreplies]
      constructor
      · rw [second.session, Session.hearAll_append, if_neg hgoes, hended, hafter]
      · rw [hall, List.length_append, List.length_append, first.tries, second.tries]
      · rw [hall, second.writes, first.writes, written_append first.tries, List.append_assoc]

/-- If the same was made of messages and of the tries to write, the same has
become of a session and its server. -/
theorem Heard.alike {l l' : Link} {s : Session} {v : Server} {ms ms' : List Incoming}
    {failed failed' : List Bool} (h : l.Heard s v ms failed) (h' : l'.Heard s v ms' failed')
    (hsame : s.hearAll ms = s.hearAll ms' ∧ s.repliesAll ms = s.repliesAll ms')
    {fails : Nat → Bool} (hfailed : ∀ i (hi : i < failed.length), failed[i] = fails i)
    (hfailed' : ∀ i (hi : i < failed'.length), failed'[i] = fails i) :
    l.session.map Session.bare = l'.session.map Session.bare ∧
      l.server.writes = l'.server.writes := by
  obtain ⟨hhears, hreplies⟩ := hsame
  have htries : failed = failed' := by
    refine List.ext_getElem (by rw [h.tries, h'.tries, hreplies]) fun i hi hi' => ?_
    rw [hfailed i hi, hfailed' i hi']
  constructor
  · rw [h.session, h'.session, hhears]
  · rw [h.writes, h'.writes, hreplies, htries]

/-- What comes behind the end of a session makes no difference. -/
theorem Heard.of_gone {l : Link} {s : Session} {v : Server} {ms : List Incoming}
    {failed : List Bool} (h : l.Heard s v ms failed) (hgone : l.session = none)
    (later : List Incoming) : l.Heard s v (ms ++ later) failed := by
  have hended : (s.hearAll ms).2 = true := by
    have hsession := h.session
    rw [hgone] at hsession
    by_contra hgoes
    rw [if_neg hgoes] at hsession
    cases hsession
  have hreplies : s.repliesAll (ms ++ later) = s.repliesAll ms := by
    rw [Session.repliesAll_append, if_pos hended, List.append_nil]
  constructor
  · rw [Session.hearAll_append, if_pos hended]
    exact h.session
  · rw [hreplies]
    exact h.tries
  · rw [hreplies]
    exact h.writes

end Link

namespace Peer

/-- One read of a session that has heard what has arrived. -/
theorem Attends.pump (keep : Bool) {p : Peer} {ended : Bool} {ahead : List UInt8}
    {bodies : List (List UInt8)} (h : p.Attends ended ahead bodies) :
    ∃ out rest, bodies = out ++ rest ∧
      (p.upshot keep .process).link.Heard p.session p.server (messagesIn out) p.pumpTries ∧
      ((p.pump keep).finished = false →
        (p.pump keep).peer.Attends ended ahead rest ∧
          (p.pump keep).peer.server.output = p.server.output.tail) := by
  cases hreads : p.session.outputEnded with
  | true =>
      have htries : p.pumpTries = [] := by rw [pumpTries, if_pos hreads]
      refine ⟨[], bodies, rfl, ?_, fun _ => ?_⟩
      · rw [upshot, pump_of_ended hreads, htries]
        exact ⟨rfl, rfl, (List.append_nil _).symm⟩
      · rw [pump_of_ended hreads, (h.atEnd hreads).2]
        exact ⟨h, rfl⟩
  | false =>
      obtain ⟨out, rest, hsplit, hframes, hfetched, hserver, hbare⟩ := h.fetched hreads
      have hheard := receiveAll_heard keep out hfetched.opened
      have hreplies : p.fetched.session.repliesAll (messagesIn out) =
          p.session.repliesAll (messagesIn out) := by
        rw [← Session.repliesAll_bare, hbare, Session.repliesAll_bare]
      have htries : p.pumpTries =
          (p.session.repliesAll (messagesIn out)).map fun _ => p.server.writeFailure.isSome := by
        rw [pumpTries, if_neg (by simp [hreads]), hframes, filterMap_resultMessage?]
      -- reading is no part of hearing, so the read may come first
      have houtcome : p.session.bare.hearAll (messagesIn out) =
          p.fetched.session.bare.hearAll (messagesIn out) := by rw [hbare]
      rw [Session.hearAll_bare, Session.hearAll_bare, hheard.outcome] at houtcome
      obtain ⟨hsession, hended⟩ := Prod.mk.inj houtcome
      have hpump : p.pump keep = _ := pump_of_open hreads
      rw [hframes] at hpump
      refine ⟨out, rest, hsplit, ?_, ?_⟩
      · rw [upshot, hpump]
        constructor
        · rw [hended, hsession]
          dsimp only
          split <;> rfl
        · rw [htries, List.length_map]
        · dsimp only
          rw [hheard.server, htries, written_alike, hreplies, hserver]
          rfl
      · rw [hpump]
        intro hgoes
        dsimp only at hgoes
        rw [hgoes] at hheard
        obtain ⟨hattends, houtput⟩ := hfetched.hear hheard
        rw [hserver] at houtput
        exact ⟨hattends, houtput⟩

end Peer

/-! ## Deliveries -/

/-- Operations during which the server with an index says octets in chunks, and
which no caller asks for. Once its output has ended it says nothing. -/
inductive Delivers (index : Nat) : Bool → List (List UInt8) → List Operation → Prop where
  | nil (ended : Bool) : Delivers index ended [] []
  | process {ended : Bool} {chunks : List (List UInt8)} {rest : List Operation}
      (h : Delivers index ended chunks rest) : Delivers index ended chunks (.process :: rest)
  | emit (chunk : List UInt8) {chunks : List (List UInt8)} {rest : List Operation}
      (h : Delivers index false chunks rest) :
      Delivers index false (chunk :: chunks) (.server index (.emit chunk) :: rest)
  | endOutput {ended : Bool} {chunks : List (List UInt8)} {rest : List Operation}
      (h : Delivers index true chunks rest) :
      Delivers index ended chunks (.server index .endOutput :: rest)
  | failWrites (failure : Option SystemError) {ended : Bool} {chunks : List (List UInt8)}
      {rest : List Operation} (h : Delivers index ended chunks rest) :
      Delivers index ended chunks (.server index (.failWrites failure) :: rest)
  | elsewhere {other : Nat} (hother : other ≠ index) (event : ServerEvent) {ended : Bool}
      {chunks : List (List UInt8)} {rest : List Operation}
      (h : Delivers index ended chunks rest) :
      Delivers index ended chunks (.server other event :: rest)

/-- The tries to write that an operation makes at a link because of what is read, and
whether they fail. -/
def Link.tries (l : Link) : Operation → List Bool
  | .process => (l.peer?.map Peer.pumpTries).getD []
  | _ => []

/-- The tries to write in a run of reads at the link with an index. -/
def Client.tries (index : Nat) (c : Client) : List Operation → List Bool
  | [] => []
  | operation :: rest =>
    (c.links[index]?.map fun l => l.tries operation).getD [] ++
      (c.step operation).2.tries index rest

namespace Client

theorem tries_append (index : Nat) (c : Client) (operations later : List Operation) :
    c.tries index (operations ++ later) =
      c.tries index operations ++ (c.run operations).tries index later := by
  induction operations generalizing c with
  | nil => rfl
  | cons operation rest ih =>
      rw [List.cons_append, tries, tries, ih, List.append_assoc, run_cons]

theorem getElem?_server {c : Client} (hc : c.Ordered) {index : Nat} {l : Link}
    (hl : c.links[index]? = some l) (target : Nat) (event : ServerEvent) :
    (c.step (.server target event)).2.links[index]? =
      some (if target = index then { l with server := event.apply l.server } else l) :=
  getElem?_step hc hl (.server target event)

theorem tries_cons {index : Nat} {c : Client} {l : Link} (hl : c.links[index]? = some l)
    (operation : Operation) (rest : List Operation) :
    c.tries index (operation :: rest) =
      l.tries operation ++ (c.step operation).2.tries index rest := by
  rw [tries, hl]
  rfl

end Client

/-- Where a link has got to whose server says bodies: its session has heard the
first of them, and what it has not heard is still to come or waits to be
read. -/
def Link.Heeds (l : Link) (s : Session) (v : Server) (failed : List Bool) (ended : Bool)
    (ahead : List UInt8) (bodies : List (List UInt8)) : Prop :=
  ∃ out rest, bodies = out ++ rest ∧ l.Heard s v (Peer.messagesIn out) failed ∧
    ∀ p, l.peer? = some p → p.Attends ended ahead rest

namespace Link

variable {l : Link} {s : Session} {v : Server} {failed : List Bool} {ended : Bool}
  {ahead : List UInt8} {bodies : List (List UInt8)}

/-- Reading takes one chunk from a server whose session stays. -/
theorem Heeds.process (h : l.Heeds s v failed ended ahead bodies) (keep : Bool) (index : Nat) :
    (l.after keep index .process).Heeds s v (failed ++ l.tries .process) ended ahead bodies ∧
      ∀ p, (l.after keep index .process).peer? = some p →
        ∃ q, l.peer? = some q ∧ p.server.output = q.server.output.tail := by
  obtain ⟨out, rest, rfl, hheard, hattends⟩ := h
  obtain ⟨w, session⟩ := l
  cases session with
  | none =>
      refine ⟨⟨out, rest, rfl, ?_, fun p hp => (nomatch hp)⟩, fun p hp => (nomatch hp)⟩
      show Heard _ s v _ (failed ++ [])
      rw [List.append_nil]
      exact hheard
  | some t =>
      obtain ⟨more, later, rfl, hmore, hlater⟩ := (hattends _ rfl).pump keep
      let p : Peer := { session := t, server := w }
      have hstays : ∀ q, (p.upshot keep .process).link.peer? = some q →
          (p.pump keep).finished = false ∧ q.session = (p.pump keep).peer.session ∧
            q.server = (p.pump keep).peer.server := by
        intro q hq
        obtain ⟨u, hu, rfl⟩ := Option.map_eq_some_iff.1 hq
        cases hfinished : (p.pump keep).finished with
        | true => simp [Peer.upshot, hfinished] at hu
        | false =>
            simp only [Peer.upshot, hfinished, Bool.false_eq_true, if_false,
              Option.some.injEq] at hu
            exact ⟨rfl, hu.symm, rfl⟩
      refine ⟨⟨out ++ more, later, (List.append_assoc ..).symm, ?_, fun q hq => ?_⟩,
        fun q hq => ?_⟩
      · rw [Peer.messagesIn_append]
        exact hheard.append hmore
      · obtain ⟨hgoes, hsession, hserver⟩ := hstays q hq
        exact (hlater hgoes).1.congr hsession hserver
      · obtain ⟨hgoes, -, hserver⟩ := hstays q hq
        exact ⟨p, rfl, by rw [hserver, (hlater hgoes).2]⟩

/-- What a server does at its side of the pipes leaves what was heard as it is. -/
theorem Heeds.event {endedAfter : Bool} {after : List UInt8} {event : ServerEvent}
    (h : l.Heeds s v failed ended ahead bodies)
    (hwrites : (event.apply l.server).writes = l.server.writes)
    (hattends : ∀ (p : Peer) (rest), p.Attends ended ahead rest →
      { p with server := event.apply p.server }.Attends endedAfter after rest) :
    (Link.mk (event.apply l.server) l.session).Heeds s v failed endedAfter after bodies := by
  obtain ⟨out, rest, rfl, hheard, hrest⟩ := h
  refine ⟨out, rest, rfl, ⟨hheard.session, hheard.tries, hwrites.trans hheard.writes⟩, ?_⟩
  intro p hp
  obtain ⟨t, ht, rfl⟩ := Option.map_eq_some_iff.1 hp
  let q : Peer := { session := t, server := l.server }
  exact hattends q rest (hrest q (by rw [peer?, ht]; rfl))

/-- When nothing is left to read, everything was heard. -/
theorem Heeds.heard (h : l.Heeds s v failed ended [] bodies)
    (hread : ∀ p, l.peer? = some p → p.server.output = []) :
    l.Heard s v (Peer.messagesIn bodies) failed := by
  obtain ⟨out, rest, rfl, hheard, hattends⟩ := h
  cases hsession : l.session with
  | none =>
      rw [Peer.messagesIn_append]
      exact hheard.of_gone hsession _
  | some t =>
      have hpeer : l.peer? = some { session := t, server := l.server } := by
        rw [peer?, hsession]
        rfl
      have hp := hattends _ hpeer
      have hawaits := hp.awaits
      rw [hread _ hpeer] at hawaits
      have hrest := Wire.FrameBuffer.Awaits.eq_nil hp.size hawaits (by rw [hp.drained])
      rw [hrest, List.append_nil]
      exact hheard

end Link

section

variable {index : Nat} {s : Session} {v : Server} {bodies : List (List UInt8)}

/-- However chunks are delivered, what was said is heard or waits to be read. -/
theorem Delivers.run {ended : Bool} {chunks : List (List UInt8)} {operations : List Operation}
    (h : Delivers index ended chunks operations) : ∀ {c : Client} {l : Link} {failed : List Bool},
    c.Ordered → c.links[index]? = some l → l.Heeds s v failed ended chunks.flatten bodies →
    ∃ l' endedAfter, (c.run operations).links[index]? = some l' ∧
      l'.Heeds s v (failed ++ c.tries index operations) endedAfter [] bodies := by
  induction h with
  | nil ended =>
      intro c l failed _ hl hheeds
      rw [Client.tries, List.append_nil]
      exact ⟨l, ended, hl, hheeds⟩
  | process _ ih =>
      intro c l failed hc hl hheeds
      rw [Client.tries_cons hl, ← List.append_assoc]
      exact ih (hc.step .process) (Client.getElem?_step hc hl .process)
        (hheeds.process c.settings.debug index).1
  | emit chunk _ ih =>
      intro c l failed hc hl hheeds
      rw [Client.tries_cons hl]
      refine ih (hc.step _) (Client.getElem?_server hc hl _ _) ?_
      rw [if_pos rfl]
      exact hheeds.event rfl fun _ _ hp => hp.emit
  | endOutput _ ih =>
      intro c l failed hc hl hheeds
      rw [Client.tries_cons hl]
      refine ih (hc.step _) (Client.getElem?_server hc hl _ _) ?_
      rw [if_pos rfl]
      exact hheeds.event rfl fun _ _ hp => hp.endOutput
  | failWrites failure _ ih =>
      intro c l failed hc hl hheeds
      rw [Client.tries_cons hl]
      refine ih (hc.step _) (Client.getElem?_server hc hl _ _) ?_
      rw [if_pos rfl]
      exact hheeds.event rfl fun _ _ hp => hp.failWrites failure
  | elsewhere hother event _ ih =>
      intro c l failed hc hl hheeds
      rw [Client.tries_cons hl]
      refine ih (hc.step _) (Client.getElem?_server hc hl _ _) ?_
      rw [if_neg hother]
      exact hheeds

theorem Delivers.not_connect {ended : Bool} {chunks : List (List UInt8)}
    {operations : List Operation} (h : Delivers index ended chunks operations) (command : String)
    (connection : Connection) : .connect command connection ∉ operations := by
  induction h with
  | nil ended => exact List.not_mem_nil
  | _ _ ih => simpa

/-- As many reads as there are chunks read all of them. -/
theorem Link.Heeds.reads {ended : Bool} (n : Nat) : ∀ {c : Client} {l : Link}
    {failed : List Bool}, c.Ordered → c.links[index]? = some l →
    l.Heeds s v failed ended [] bodies →
    (∀ p, l.peer? = some p → p.server.output.length ≤ n) →
    ∃ l', (c.run (List.replicate n .process)).links[index]? = some l' ∧
      l'.Heeds s v (failed ++ c.tries index (List.replicate n .process)) ended [] bodies ∧
      ∀ p, l'.peer? = some p → p.server.output = [] := by
  induction n with
  | zero =>
      intro c l failed _ hl hheeds hlength
      rw [List.replicate_zero, Client.tries, List.append_nil]
      refine ⟨l, hl, hheeds, fun p hp => ?_⟩
      simpa using hlength p hp
  | succ n ih =>
      intro c l failed hc hl hheeds hlength
      obtain ⟨hafter, htail⟩ := hheeds.process c.settings.debug index
      rw [List.replicate_succ, Client.tries_cons hl, ← List.append_assoc]
      refine ih (hc.step .process) (Client.getElem?_step hc hl .process) hafter ?_
      intro p hp
      obtain ⟨q, hq, houtput⟩ := htail p hp
      have hbound := hlength q hq
      rw [houtput, List.length_tail]
      omega

end

namespace Client

/-- The link with an index has the session with a number or none, and no other
link has it. -/
def SoleAt (c : Client) (id : SessionId) (index : Nat) : Prop :=
  ∀ j l other, c.links[j]? = some l → l.id? = some other → (other = id ↔ j = index)

theorem Ordered.soleAt {c : Client} (hc : c.Ordered) {id : SessionId} {index : Nat} {l : Link}
    (hl : c.links[index]? = some l) (hid : l.id? = some id) : c.SoleAt id index := by
  intro j l' other hl' hother
  constructor
  · rintro rfl
    exact hc.index_eq hl' hl hother hid
  · rintro rfl
    obtain rfl := Option.some.inj (hl.symm.trans hl')
    exact Option.some.inj (hother.symm.trans hid)

theorem SoleAt.run {id : SessionId} {index : Nat} {operations : List Operation}
    (hold : ∀ command connection, .connect command connection ∉ operations) :
    ∀ {c : Client}, c.Ordered → c.SoleAt id index → (c.run operations).SoleAt id index := by
  induction operations with
  | nil =>
      intro c _ h
      exact h
  | cons operation rest ih =>
      intro c hc h
      refine ih (fun command connection hmem => hold command connection (.tail _ hmem))
        (hc.step operation) fun j l' other hl' hother => ?_
      cases hl : c.links[j]? with
      | none =>
          obtain ⟨-, command, connection, -, rfl, -⟩ := getElem?_step_new hc hl hl'
          exact absurd List.mem_cons_self (hold command connection)
      | some l =>
          rw [getElem?_step hc hl, Option.some.injEq] at hl'
          subst hl'
          exact h j l other hl (Link.id?_of_after hother)

theorem SoleAt.session? {c : Client} {id : SessionId} {index : Nat} {l : Link}
    (h : c.SoleAt id index) (hc : c.Ordered) (hl : c.links[index]? = some l) :
    c.session? id = l.session := by
  cases hsession : l.session with
  | none =>
      by_contra hsome
      have hregistered : (c.session? id).isSome := Option.isSome_iff_ne_none.2 hsome
      obtain ⟨j, l', t, hl', ht, hid⟩ := (c.exists_owns_iff id).1 hregistered
      obtain rfl := (h j l' id hl' ((owns_iff hl').1 ⟨l', t, hl', ht, hid⟩)).1 rfl
      obtain rfl := Option.some.inj (hl.symm.trans hl')
      rw [hsession] at ht
      cases ht
  | some t =>
      have howner : l.id? = some t.id := by rw [Link.id?, hsession, Option.map_some]
      obtain rfl := (h index l t.id hl howner).2 rfl
      rw [session?_eq, peer?_of_getElem? hc hl howner, Link.peer?, hsession]
      rfl

/-- A run in which the server with an index says bodies and everything that it
says is read. Of the tries to write that this leads to, some fail. -/
structure Hears (c : Client) (index : Nat) (v : Server) (fails : Nat → Bool)
    (bodies chunks : List (List UInt8)) (operations : List Operation) (reads : Nat) : Prop where
  delivers : Delivers index v.outputEnded chunks operations
  framed : (v.output ++ chunks).flatten = Wire.frames bodies
  size : ∀ body ∈ bodies, body.length ≤ Wire.maxMessageSize
  enough : ∀ w ∈ (c.run operations).server? index, w.output.length ≤ reads
  writes : ∀ i (hi : i < (c.tries index (operations ++ List.replicate reads .process)).length),
    (c.tries index (operations ++ List.replicate reads .process))[i] = fails i

theorem Hears.heard {c : Client} {index : Nat} {s : Session} {v : Server} {fails : Nat → Bool}
    {bodies chunks : List (List UInt8)} {operations : List Operation} {reads : Nat}
    (h : c.Hears index v fails bodies chunks operations reads) (hc : c.Ordered)
    (hl : c.links[index]? = some ⟨v, some s⟩) (hopen : v.closed = false)
    (halive : s.isAlive = true) (hframes : s.frames = .empty) :
    ∃ l failed,
      (c.run (operations ++ List.replicate reads .process)).links[index]? = some l ∧
      (c.run (operations ++ List.replicate reads .process)).session? s.id = l.session ∧
      l.Heard s v (Peer.messagesIn bodies) failed ∧
      ∀ i (hi : i < failed.length), failed[i] = fails i := by
  have hstart : (Link.mk v (some s)).Heeds s v [] v.outputEnded chunks.flatten bodies := by
    refine ⟨[], bodies, rfl, ⟨rfl, rfl, (List.append_nil _).symm⟩, fun p hp => ?_⟩
    obtain rfl := Option.some.inj hp
    constructor
    · exact hopen
    · rfl
    · show s.frames.Awaits (v.output.flatten ++ chunks.flatten) bodies
      rw [hframes, ← List.flatten_append, h.framed]
      rfl
    · show s.frames.next = (none, s.frames)
      rw [hframes]
      rfl
    · intro hended
      have hopen : s.outputEnded = false := by simpa [Session.isAlive] using halive
      exact absurd (hopen.symm.trans hended) (by simp)
    · exact h.size
  have hsole : c.SoleAt s.id index := hc.soleAt hl rfl
  obtain ⟨l, endedAfter, hdelivered, hheeds⟩ := h.delivers.run hc hl hstart
  obtain ⟨l', hread, hheeds', hnothing⟩ := by
    refine hheeds.reads reads (hc.run operations) hdelivered fun p hp => ?_
    obtain ⟨t, -, rfl⟩ := Option.map_eq_some_iff.1 hp
    exact h.enough l.server (by rw [server?, hdelivered]; rfl)
  rw [List.nil_append, ← tries_append] at hheeds'
  rw [← run_append] at hread
  refine ⟨l', _, hread, ?_, hheeds'.heard hnothing, h.writes⟩
  refine (hsole.run (fun command connection hmem => ?_) hc).session? (hc.run _) hread
  rcases List.mem_append.1 hmem with hdelivery | hread
  · exact h.delivers.not_connect command connection hdelivery
  · cases List.eq_of_mem_replicate hread

/-- The same messages make the same of a session, whatever junk is between
them, however the output is cut and whenever it is read. What they make of it is
what it makes of them without any reading. -/
theorem alike_of_deliveries {settings : Settings} {processId : Nat} {launcher : Launcher}
    {before : List Operation} {index : Nat} {s : Session} {v : Server}
    (hlink : ((initial settings processId launcher).run before).links[index]? = some ⟨v, some s⟩)
    (halive : s.isAlive = true) (hboundary : s.frames = .empty) {fails : Nat → Bool}
    {bodies chunks : List (List UInt8)} {operations : List Operation} {reads : Nat}
    (hears : ((initial settings processId launcher).run before).Hears index v fails bodies chunks
      operations reads)
    {bodies' chunks' : List (List UInt8)} {operations' : List Operation} {reads' : Nat}
    (hears' : ((initial settings processId launcher).run before).Hears index v fails bodies'
      chunks' operations' reads')
    (hsame : bodies.filter (fun body => !Peer.isJunk
        (issuedIds ((initial settings processId launcher).history s.id before)) body) =
      bodies'.filter fun body => !Peer.isJunk
        (issuedIds ((initial settings processId launcher).history s.id before)) body) :
    let c := ((initial settings processId launcher).run before).run
      (operations ++ List.replicate reads .process)
    let d := ((initial settings processId launcher).run before).run
      (operations' ++ List.replicate reads' .process)
    (c.session? s.id).map Session.bare = (d.session? s.id).map Session.bare ∧
      (c.server? index).map Server.writes = (d.server? index).map Server.writes ∧
      (c.session? s.id).map Session.bare =
        if (s.hearAll (Peer.messagesIn bodies)).2 then none
        else some (s.hearAll (Peer.messagesIn bodies)).1.bare := by
  have hordered := (ordered_initial settings processId launcher).run before
  have hheld := ((allHeld_initial settings processId launcher).run before
    (ordered_initial settings processId launcher)).1
  have hopen : v.closed = false := hheld _ (List.mem_of_getElem? hlink)
  have hregistered : ((initial settings processId launcher).run before).session? s.id = some s :=
    (hordered.soleAt hlink rfl).session? hordered hlink
  have hwaits : s.WaitsFor
      (issuedIds ((initial settings processId launcher).history s.id before)) :=
    (run_preserves (fun _ _ ho => ho.ledger) (fun _ h move => h.moves move) hregistered).waitsFor
  obtain ⟨l, failed, hl, hsession, hheard, hfailed⟩ :=
    hears.heard hordered hlink hopen halive hboundary
  obtain ⟨l', failed', hl', hsession', hheard', hfailed'⟩ :=
    hears'.heard hordered hlink hopen halive hboundary
  obtain ⟨hbare, hwrites⟩ :=
    hheard.alike hheard' (Peer.alike_of_meaning hwaits hsame) hfailed hfailed'
  refine ⟨?_, ?_, ?_⟩
  · rw [hsession, hsession', hbare]
  · rw [server?, server?, hl, hl']
    exact congrArg some hwrites
  · rw [hsession]
    exact hheard.session

/-- An answer to the handshake and a notification, with a body between them
that is no document. -/
def greetingBodies : List (List UInt8) :=
  [Utf8.octets "\x7b\"id\":1,\"result\":\x7b\x7d\x7d", Utf8.octets "\x7b",
    Utf8.octets "\x7b\"method\":\"m\"\x7d"]

/-- The same behind a body that is no text and a response to nothing. -/
def noisyBodies : List (List UInt8) :=
  [0xff] :: Utf8.octets "\x7b\"id\":7,\"result\":1\x7d" :: greetingBodies

/-- Once the output is cut inside a header, and once it is read when it has
ended. -/
theorem alike_of_noisyGreeting :
    let c := ((initial {} 0 {}).run [.connect "a" {}]).run
      ([.server 0 (.emit ((Wire.frames noisyBodies).take 30)), .process,
        .server 0 (.emit ((Wire.frames noisyBodies).drop 30))] ++ List.replicate 1 .process)
    let d := ((initial {} 0 {}).run [.connect "a" {}]).run
      ([.server 0 (.emit (Wire.frames greetingBodies)), .server 0 .endOutput] ++
        List.replicate 2 .process)
    (c.session? 1).map Session.bare = (d.session? 1).map Session.bare ∧
      (c.server? 0).map Server.writes = (d.server? 0).map Server.writes := by
  obtain ⟨v, s, hlink, houtput, hended, hid, halive, hframes⟩ :
      ∃ v s, ((initial {} 0 {}).run [.connect "a" {}]).links[0]? = some ⟨v, some s⟩ ∧
        v.output = [] ∧ v.outputEnded = false ∧ s.id = 1 ∧ s.isAlive = true ∧
        s.frames = .empty :=
    ⟨_, _, rfl, rfl, rfl, rfl, rfl, rfl⟩
  have hloud : ((initial {} 0 {}).run [.connect "a" {}]).Hears 0 v (fun _ => false) noisyBodies
      [(Wire.frames noisyBodies).take 30, (Wire.frames noisyBodies).drop 30]
      [.server 0 (.emit ((Wire.frames noisyBodies).take 30)), .process,
        .server 0 (.emit ((Wire.frames noisyBodies).drop 30))] 1 := by
    constructor
    · rw [hended]
      exact .emit _ (.process (.emit _ (.nil false)))
    · rw [houtput]
      simp
    · decide
    · decide +kernel
    · decide +kernel
  have hquiet : ((initial {} 0 {}).run [.connect "a" {}]).Hears 0 v (fun _ => false)
      greetingBodies [Wire.frames greetingBodies]
      [.server 0 (.emit (Wire.frames greetingBodies)), .server 0 .endOutput] 2 := by
    constructor
    · rw [hended]
      exact .emit _ (.endOutput (.nil true))
    · rw [houtput]
      simp
    · decide
    · decide +kernel
    · decide +kernel
  have halike := alike_of_deliveries hlink halive hframes hloud hquiet (by
    rw [hid]
    decide +kernel)
  rw [hid] at halike
  exact ⟨halike.1, halike.2.1⟩

end Client

end LspClient
