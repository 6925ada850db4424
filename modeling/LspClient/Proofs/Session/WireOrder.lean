import LspClient.Proofs.Session.Handshake

/-!
# The order of messages

What a session writes to its server follows an order. The handshake is asked for
first, the client is ready once, the end is asked for once, and after that the
server gets answers to its own requests until it is told to leave. Callers write
after the handshake was accepted and before the end is asked for.

The traffic of a session is what it wrote and heard, one after another, as far
as the writes succeeded. `Timely` says what a message requires of the traffic
before it, and `Server.InOrder` that the writes of a server are the written part
of some traffic in which every message is timely.

A session does not remember its traffic. What it knows of it is listed in
`Session.Course`: its status says whether the handshake was accepted and that
the client is not ready yet, the closing flag says whether the end was asked
for, and what waits says which answers are still to come. A message that is
written is timely because of these, however the writes before it went.
-/

namespace LspClient

open Json (Value)

/-- Something that passes between a session and its server. -/
inductive Traffic where
  /-- a message was written -/
  | wrote (envelope : Value)
  /-- a message was received -/
  | heard (m : Incoming)

namespace Traffic

/-- The message that was written. -/
def envelope? : Traffic → Option Value
  | .wrote envelope => some envelope
  | .heard _ => none

/-- The response that names the number of the handshake. -/
def greeting? : Traffic → Option Response
  | .heard (.response r) => if r.requestId? = some .first then some r else none
  | _ => none

end Traffic

/-- The method of a message, if it is a call. -/
def Envelope.method? (envelope : Value) : Option String :=
  (envelope.member "method").string?

/-- The messages that were written. -/
def writtenIn (traffic : List Traffic) : List Value :=
  traffic.filterMap Traffic.envelope?

/-- Whether a call of the engine's own was written. -/
def Wrote (traffic : List Traffic) (l : Lifecycle) : Prop :=
  ∃ envelope ∈ writtenIn traffic, Envelope.method? envelope = some l.method

/-- The first response that names the number of the handshake. -/
def firstGreeting? (traffic : List Traffic) : Option Response :=
  traffic.findSome? Traffic.greeting?

/-- Whether the handshake was answered with success. -/
def Accepted (traffic : List Traffic) : Prop :=
  ∃ r, firstGreeting? traffic = some r ∧ r.error = none

/-- Whether a method is none of the engine's own. -/
def IsFree (method : String) : Prop :=
  method ≠ Lifecycle.opening.method ∧ method ≠ Lifecycle.ready.method ∧
    method ≠ Lifecycle.ending.method ∧ method ≠ Lifecycle.leaving.method

instance (method : String) : Decidable (IsFree method) :=
  inferInstanceAs (Decidable (_ ∧ _))

/-- What a written message requires of the traffic before it. -/
structure Timely (before : List Traffic) (envelope : Value) : Prop where
  /-- the handshake is asked for first and at no other time -/
  opening : Envelope.method? envelope = some Lifecycle.opening.method ↔ writtenIn before = []
  /-- its request has the number 1 -/
  number : Envelope.method? envelope = some Lifecycle.opening.method →
    ∃ params, envelope = Envelope.request .first Lifecycle.opening.method params
  /-- the client is ready once, and not after the end was asked for -/
  ready : Envelope.method? envelope = some Lifecycle.ready.method →
    ¬ Wrote before .ready ∧ ¬ Wrote before .ending
  /-- the end is asked for once -/
  ending : Envelope.method? envelope = some Lifecycle.ending.method → ¬ Wrote before .ending
  /-- after that there are answers, and the call to leave -/
  late : Wrote before .ending →
    Envelope.method? envelope = none ∨
      Envelope.method? envelope = some Lifecycle.leaving.method
  /-- the server is told to leave after the end was asked for -/
  leaving : Envelope.method? envelope = some Lifecycle.leaving.method → Wrote before .ending
  /-- and after that there is nothing -/
  last : ¬ Wrote before .leaving
  /-- what is no call answers a request of the server -/
  answer : Envelope.method? envelope = none →
    ∃ id method params, .heard (.request id method params) ∈ before ∧
      envelope = Envelope.response id .null
  /-- callers write after the handshake was accepted and before the end is
  asked for -/
  free : ∀ method, Envelope.method? envelope = some method → IsFree method →
    Accepted before ∧ ¬ Wrote before .ending

/-- The writes of a server are the written part of some traffic, in which every
message is timely. -/
structure Server.InOrder (v : Server) (traffic : List Traffic) : Prop where
  writes : v.writes = (writtenIn traffic).map Envelope.wire
  timely : ∀ before envelope after, traffic = before ++ .wrote envelope :: after →
    Timely before envelope

/-! ## The traffic of a session -/

/-- What passes if a message is to be written. -/
def Server.takes (v : Server) (envelope : Value) : List Traffic :=
  match (v.write (Envelope.wire envelope)).1 with
  | .ok () => [.wrote envelope]
  | .error _ => []

namespace Peer

/-- What is written when the handshake is answered. -/
def greetingTraffic (p : Peer) (r : Response) : List Traffic :=
  match r.outcome with
  | .error _ => []
  | .ok _ =>
    if p.session.status ≠ .connecting then []
    else if p.session.closing then []
    else p.server.takes (Envelope.notification Lifecycle.ready.method (.object []))

/-- What is written when a message is received. -/
def answerTraffic (p : Peer) : Incoming → List Traffic
  | .request id _ _ => p.server.takes (Envelope.response id .null)
  | .notification .. => []
  | .response r =>
    match p.session.answered? r with
    | none => []
    | some entry =>
      if entry.method = Lifecycle.opening.method then p.greetingTraffic r
      else if entry.method = Lifecycle.ending.method then
        p.server.takes (Envelope.notification Lifecycle.leaving.method .null)
      else []

/-- What passes when a body is received. -/
def bodyTraffic (p : Peer) (body : List UInt8) : List Traffic :=
  match bodyMessage? body with
  | none => []
  | some m => .heard m :: p.answerTraffic m

/-- What passes as the results of a frame buffer are received. -/
def receiveTraffic (keep : Bool) (p : Peer) : List Wire.FrameResult → List Traffic
  | [] => []
  | .error _ :: rest => p.receiveTraffic keep rest
  | .ok body :: rest =>
    p.bodyTraffic body ++
      match p.receiveBody keep body with
      | (_, true) => []
      | (p, false) => p.receiveTraffic keep rest

/-- What passes in one read. -/
def pumpTraffic (keep : Bool) (p : Peer) : List Traffic :=
  if p.session.outputEnded then [] else p.fetched.receiveTraffic keep p.fetchedFrames

end Peer

/-! ## Reading traffic -/

theorem writtenIn_append (traffic later : List Traffic) :
    writtenIn (traffic ++ later) = writtenIn traffic ++ writtenIn later :=
  List.filterMap_append

theorem wrote_append {traffic later : List Traffic} {l : Lifecycle} :
    Wrote (traffic ++ later) l ↔ Wrote traffic l ∨ Wrote later l := by
  simp only [Wrote, writtenIn_append, List.mem_append, or_and_right, exists_or]

theorem wrote_singleton {envelope : Value} {l : Lifecycle} :
    Wrote [.wrote envelope] l ↔ Envelope.method? envelope = some l.method := by
  show (∃ e ∈ [envelope], _) ↔ _
  simp only [List.mem_singleton, exists_eq_left]

theorem firstGreeting?_append (traffic later : List Traffic) :
    firstGreeting? (traffic ++ later) = (firstGreeting? traffic).or (firstGreeting? later) :=
  List.findSome?_append

theorem Accepted.append {traffic : List Traffic} (h : Accepted traffic)
    (later : List Traffic) : Accepted (traffic ++ later) := by
  obtain ⟨r, hr, herror⟩ := h
  refine ⟨r, ?_, herror⟩
  rw [firstGreeting?_append, hr]
  rfl

namespace Envelope

theorem method?_request (id : RequestId) (method : String) (params : Value) :
    method? (request id method params) = some method := rfl

theorem method?_notification (method : String) (params : Value) :
    method? (notification method params) = some method := rfl

theorem method?_response (id : Value) : method? (response id .null) = none := rfl

end Envelope

/-! ## What is timely -/

theorem timely_opening (params : Value) :
    Timely [] (Envelope.request .first Lifecycle.opening.method params) := by
  have hmethod := Envelope.method?_request .first Lifecycle.opening.method params
  have hnone : ∀ l, ¬ Wrote [] l := fun l ⟨_, h, _⟩ => nomatch h
  constructor
  case opening => exact ⟨fun _ => rfl, fun _ => hmethod⟩
  case number => exact fun _ => ⟨params, rfl⟩
  case ready => exact fun _ => ⟨hnone _, hnone _⟩
  case ending => exact fun _ => hnone _
  case late => exact fun h => absurd h (hnone _)
  case leaving =>
    intro h
    rw [hmethod, Option.some.injEq] at h
    exact absurd h (by decide)
  case last => exact hnone _
  case answer =>
    intro h
    rw [hmethod] at h
    cases h
  case free =>
    intro method h hfree
    rw [hmethod, Option.some.injEq] at h
    exact absurd h.symm hfree.1

/-- A call that is not the request for the handshake. -/
theorem timely_call {before : List Traffic} {envelope : Value} {method : String}
    (hmethod : Envelope.method? envelope = some method) (hbegun : writtenIn before ≠ [])
    (hlast : ¬ Wrote before .leaving) (hopening : method ≠ Lifecycle.opening.method)
    (hready : method = Lifecycle.ready.method → ¬ Wrote before .ready)
    (hleaving : Wrote before .ending ↔ method = Lifecycle.leaving.method)
    (hfree : IsFree method → Accepted before) : Timely before envelope := by
  have hnot : Envelope.method? envelope ≠ some Lifecycle.opening.method := by
    rw [hmethod, Ne, Option.some.injEq]
    exact hopening
  have hopen : method ≠ Lifecycle.leaving.method → ¬ Wrote before .ending := fun hne hended =>
    hne (hleaving.1 hended)
  constructor
  case opening => exact ⟨fun h => absurd h hnot, fun h => absurd h hbegun⟩
  case number => exact fun h => absurd h hnot
  case ready =>
    intro h
    obtain rfl := Option.some.inj (hmethod.symm.trans h)
    exact ⟨hready rfl, hopen (by decide)⟩
  case ending =>
    intro h
    obtain rfl := Option.some.inj (hmethod.symm.trans h)
    exact hopen (by decide)
  case late =>
    intro hended
    rw [hmethod, hleaving.1 hended]
    exact .inr rfl
  case leaving =>
    intro h
    exact hleaving.2 (Option.some.inj (hmethod.symm.trans h))
  case last => exact hlast
  case answer =>
    intro h
    rw [hmethod] at h
    cases h
  case free =>
    intro other h hother
    obtain rfl := Option.some.inj (hmethod.symm.trans h)
    exact ⟨hfree hother, hopen hother.2.2.2⟩

theorem timely_answer {before : List Traffic} {id params : Value} {method : String}
    (hheard : .heard (.request id method params) ∈ before) (hbegun : writtenIn before ≠ [])
    (hlast : ¬ Wrote before .leaving) : Timely before (Envelope.response id .null) := by
  have hmethod := Envelope.method?_response id
  have hnot : ∀ other, Envelope.method? (Envelope.response id .null) ≠ some other := by
    intro other h
    rw [hmethod] at h
    cases h
  constructor
  case opening => exact ⟨fun h => absurd h (hnot _), fun h => absurd h hbegun⟩
  case number => exact fun h => absurd h (hnot _)
  case ready => exact fun h => absurd h (hnot _)
  case ending => exact fun h => absurd h (hnot _)
  case late => exact fun _ => .inl hmethod
  case leaving => exact fun h => absurd h (hnot _)
  case last => exact hlast
  case answer => exact fun _ => ⟨id, method, params, hheard, rfl⟩
  case free => exact fun _ h => absurd h (hnot _)

namespace Server

theorem InOrder.of_writes {v w : Server} {traffic : List Traffic} (h : v.InOrder traffic)
    (hwrites : w.writes = v.writes) : w.InOrder traffic :=
  ⟨hwrites.trans h.writes, h.timely⟩

theorem InOrder.hear {v : Server} {traffic : List Traffic} (h : v.InOrder traffic)
    (m : Incoming) : v.InOrder (traffic ++ [.heard m]) where
  writes := by
    rw [h.writes, writtenIn_append]
    exact congrArg _ (List.append_nil _).symm
  timely := by
    intro before envelope after heq
    rcases split_concat heq with ⟨-, hlast⟩ | ⟨later, -, hearlier⟩
    · cases hlast
    · exact h.timely before envelope later hearlier

theorem InOrder.write {v w : Server} {traffic : List Traffic} {envelope : Value}
    (h : v.InOrder traffic) (hwrites : w.writes = v.writes ++ [Envelope.wire envelope])
    (ht : Timely traffic envelope) : w.InOrder (traffic ++ [.wrote envelope]) where
  writes := by
    rw [hwrites, h.writes, writtenIn_append, List.map_append]
    rfl
  timely := by
    intro before other after heq
    rcases split_concat heq with ⟨rfl, hlast⟩ | ⟨later, -, hearlier⟩
    · cases hlast
      exact ht
    · exact h.timely before other later hearlier

/-- A message is written or nothing happens. -/
theorem write_cases (v : Server) (envelope : Value) :
    (∃ e, v.write (Envelope.wire envelope) = (.error e, v) ∧ v.takes envelope = []) ∨
    ∃ w : Server, v.write (Envelope.wire envelope) = (.ok (), w) ∧
      w.writes = v.writes ++ [Envelope.wire envelope] ∧ v.takes envelope = [.wrote envelope] := by
  rw [takes, write]
  split
  · exact .inl ⟨_, rfl, rfl⟩
  · split
    · exact .inl ⟨_, rfl, rfl⟩
    · exact .inr ⟨_, rfl, rfl, rfl⟩

end Server

theorem wrote_takes {v : Server} {envelope : Value} {l : Lifecycle}
    (h : Wrote (v.takes envelope) l) : Envelope.method? envelope = some l.method := by
  rcases v.write_cases envelope with ⟨e, -, htakes⟩ | ⟨w, -, -, htakes⟩
  · rw [htakes] at h
    obtain ⟨_, hmem, _⟩ := h
    cases hmem
  · rw [htakes] at h
    exact wrote_singleton.1 h

theorem firstGreeting?_takes (v : Server) (envelope : Value) :
    firstGreeting? (v.takes envelope) = none := by
  rcases v.write_cases envelope with ⟨e, -, htakes⟩ | ⟨w, -, -, htakes⟩
  · rw [htakes]
    rfl
  · rw [htakes]
    rfl

namespace Peer

/-- A message is sent or nothing passes. -/
theorem send_cases (keep : Bool) (p : Peer) (envelope : Value) :
    (∃ e, (p.send keep envelope).1 = .error e ∧ (p.send keep envelope).2.server = p.server ∧
      p.server.takes envelope = []) ∨
    ((p.send keep envelope).1 = .ok () ∧
      (p.send keep envelope).2.server.writes = p.server.writes ++ [Envelope.wire envelope] ∧
      p.server.takes envelope = [.wrote envelope]) := by
  rw [send, record_server]
  rcases p.server.write_cases envelope with ⟨e, hwrite, htakes⟩ | ⟨w, hwrite, hwrites, htakes⟩
  · rw [hwrite]
    exact .inl ⟨e, rfl, rfl, htakes⟩
  · rw [hwrite]
    exact .inr ⟨rfl, hwrites, htakes⟩

theorem send_inOrder {keep : Bool} {p : Peer} {envelope : Value} {traffic : List Traffic}
    (h : p.server.InOrder traffic) (ht : Timely traffic envelope) :
    (p.send keep envelope).2.server.InOrder (traffic ++ p.server.takes envelope) := by
  rcases p.send_cases keep envelope with ⟨e, -, hserver, htakes⟩ | ⟨-, hwrites, htakes⟩
  · rw [htakes, List.append_nil, hserver]
    exact h
  · rw [htakes]
    exact h.write hwrites ht

end Peer

/-! ## What a session knows of its traffic -/

/-- What the state of a session says of the traffic so far. -/
structure Session.Course (s : Session) (traffic : List Traffic) : Prop where
  begun : writtenIn traffic ≠ []
  ready : s.status = .connecting → ¬ Wrote traffic .ready
  ending : s.closing = true ↔ Wrote traffic .ending
  leaving : ¬ Wrote traffic .leaving
  accepted : s.status = .connected → Accepted traffic
  /-- a handshake that waits has the number 1, which was not named yet -/
  greeting : ∀ id entry, s.pending? id = some entry → entry.method = Lifecycle.opening.method →
    id = .first ∧ firstGreeting? traffic = none
  /-- an end that waits was asked for -/
  granted : ∀ id entry, s.pending? id = some entry → entry.method = Lifecycle.ending.method →
    s.closing = true

theorem Response.error_of_outcome {r : Response} {result : Value}
    (h : r.outcome = .ok result) : r.error = none := by
  rw [outcome] at h
  split at h
  · cases h
  · next herror => exact herror

namespace Session

theorem Course.extend {s t : Session} {traffic later : List Traffic} (h : s.Course traffic)
    (hready : t.status = .connecting → s.status = .connecting ∧ ¬ Wrote later .ready)
    (hending : t.closing = true ↔ s.closing = true ∨ Wrote later .ending)
    (hleaving : ¬ Wrote later .leaving)
    (haccepted : t.status = .connected → Accepted traffic)
    (hgreeting : ∀ id entry, t.pending? id = some entry →
      entry.method = Lifecycle.opening.method →
        s.pending? id = some entry ∧ (id = .first → firstGreeting? later = none))
    (hgranted : ∀ id entry, t.pending? id = some entry →
      entry.method = Lifecycle.ending.method → t.closing = true) :
    t.Course (traffic ++ later) := by
  constructor
  case begun =>
    rw [writtenIn_append]
    exact fun hnil => h.begun (List.append_eq_nil_iff.1 hnil).1
  case ready =>
    intro hstatus
    obtain ⟨hold, hlater⟩ := hready hstatus
    rw [wrote_append]
    exact not_or_intro (h.ready hold) hlater
  case ending => rw [hending, wrote_append, h.ending]
  case leaving =>
    rw [wrote_append]
    exact not_or_intro h.leaving hleaving
  case accepted => exact fun hconnected => (haccepted hconnected).append later
  case greeting =>
    intro id entry hp hmethod
    obtain ⟨hold, hquiet⟩ := hgreeting id entry hp hmethod
    obtain ⟨hid, hnone⟩ := h.greeting id entry hold hmethod
    refine ⟨hid, ?_⟩
    rw [firstGreeting?_append, hnone, hquiet hid]
    rfl
  case granted => exact hgranted

/-- Traffic without a call of the engine's own, while nothing new waits that
looks like one. -/
theorem Course.keep {s t : Session} {traffic later : List Traffic} (h : s.Course traffic)
    (hlater : ∀ l, ¬ Wrote later l) (hstatus : t.status = s.status)
    (hclosing : t.closing = s.closing)
    (hopening : ∀ id entry, t.pending? id = some entry →
      entry.method = Lifecycle.opening.method →
        s.pending? id = some entry ∧ (id = .first → firstGreeting? later = none))
    (hending : ∀ id entry, t.pending? id = some entry →
      entry.method = Lifecycle.ending.method → s.pending? id = some entry) :
    t.Course (traffic ++ later) := by
  refine h.extend (fun ht => ⟨hstatus ▸ ht, hlater _⟩) ?_ (hlater _) (fun ht => ?_) hopening
    fun id entry hp hmethod => ?_
  · rw [hclosing, or_iff_left (hlater _)]
  · exact h.accepted (hstatus ▸ ht)
  · rw [hclosing]
    exact h.granted id entry (hending id entry hp hmethod) hmethod

/-- A change that the course of a session does not depend on. -/
theorem Course.same {s t : Session} {traffic : List Traffic} (h : s.Course traffic)
    (hstatus : t.status = s.status) (hclosing : t.closing = s.closing)
    (hpending : t.pending = s.pending) : t.Course traffic := by
  have hp : ∀ id, t.pending? id = s.pending? id := fun id => by rw [pending?, hpending, pending?]
  have hkept : t.Course (traffic ++ []) := by
    refine h.keep (fun l hwrote => ?_) hstatus hclosing
      (fun id entry hentry _ => ⟨?_, fun _ => rfl⟩) fun id entry hentry _ => ?_
    · obtain ⟨_, hmem, _⟩ := hwrote
      cases hmem
    · rwa [← hp]
    · rwa [← hp]
  rwa [List.append_nil] at hkept

theorem not_wrote_heard (m : Incoming) (l : Lifecycle) : ¬ Wrote [.heard m] l :=
  fun ⟨_, hmem, _⟩ => nomatch hmem

theorem Course.hear {s : Session} {traffic : List Traffic} (h : s.Course traffic) {m : Incoming}
    (hm : (Traffic.heard m).greeting? = none) : s.Course (traffic ++ [.heard m]) := by
  refine h.keep (not_wrote_heard m) rfl rfl (fun _ _ hp _ => ⟨hp, fun _ => ?_⟩)
    fun _ _ hp _ => hp
  rw [firstGreeting?, List.findSome?_singleton, hm]

/-- A response takes from those that wait the request that it names. -/
theorem Course.answer {s t : Session} {traffic : List Traffic} (h : s.Course traffic)
    {r : Response} (hstatus : t.status = s.status) (hclosing : t.closing = s.closing)
    (hpending : ∀ id, t.pending? id = if r.requestId? = some id then none else s.pending? id) :
    t.Course (traffic ++ [.heard (.response r)]) := by
  have hold : ∀ id entry, t.pending? id = some entry →
      r.requestId? ≠ some id ∧ s.pending? id = some entry := by
    intro id entry hp
    rw [hpending] at hp
    split at hp
    · cases hp
    · next hne => exact ⟨hne, hp⟩
  refine h.keep (not_wrote_heard _) hstatus hclosing (fun id entry hp _ => ?_)
    fun id entry hp _ => (hold id entry hp).2
  obtain ⟨hne, hs⟩ := hold id entry hp
  refine ⟨hs, ?_⟩
  rintro rfl
  rw [firstGreeting?, List.findSome?_singleton, Traffic.greeting?, if_neg hne]

/-- A message that is no call of the engine's own concerns nothing that a session
knows. -/
theorem Course.takes {s : Session} {traffic : List Traffic} (h : s.Course traffic) (v : Server)
    {envelope : Value} (hmethod : ∀ l : Lifecycle, Envelope.method? envelope ≠ some l.method) :
    s.Course (traffic ++ v.takes envelope) :=
  h.keep (fun l hl => hmethod l (wrote_takes hl)) rfl rfl
    (fun _ _ hp _ => ⟨hp, fun _ => firstGreeting?_takes v envelope⟩) fun _ _ hp _ => hp

/-- The handshake is accepted, and the client is ready or cannot say so. -/
theorem Course.connect {s : Session} {traffic : List Traffic} (h : s.Course traffic)
    (haccepted : Accepted traffic) (v : Server) (info : Option ServerInfo) :
    { s with info := info, status := .connected }.Course
      (traffic ++ v.takes (Envelope.notification Lifecycle.ready.method (.object []))) := by
  have hending : ¬ Wrote (v.takes (Envelope.notification Lifecycle.ready.method (.object [])))
      .ending := fun hw => absurd (wrote_takes hw) (by decide)
  have hleaving : ¬ Wrote (v.takes (Envelope.notification Lifecycle.ready.method (.object [])))
      .leaving := fun hw => absurd (wrote_takes hw) (by decide)
  exact h.extend (fun hstatus => nomatch hstatus) (or_iff_left hending).symm hleaving
    (fun _ => haccepted) (fun _ _ hp _ => ⟨hp, fun _ => firstGreeting?_takes v _⟩) h.granted

end Session

namespace Peer

/-- A session and its server after some traffic. What a session knew matters no
more once it has ended. -/
structure Orderly (p : Peer) (ended : Bool) (traffic : List Traffic) : Prop where
  server : p.server.InOrder traffic
  session : ended = false → p.session.Course traffic

/-! ## Receiving -/

theorem finishHandshake_orderly {keep : Bool} {p : Peer} {r : Response}
    {traffic : List Traffic} (h : p.Orderly false traffic)
    (haccepted : r.error = none → Accepted traffic) :
    (p.finishHandshake keep r).Orderly false (traffic ++ p.greetingTraffic r) := by
  have hsame : p.Orderly false (traffic ++ []) := by rwa [List.append_nil]
  have hcourse := h.session rfl
  rw [finishHandshake, greetingTraffic]
  cases houtcome : r.outcome with
  | error e => exact hsame
  | ok result =>
      dsimp only
      split
      · exact hsame
      · next hstatus =>
          rw [Decidable.not_not] at hstatus
          split
          · rw [List.append_nil]
            exact ⟨h.server, fun _ => hcourse.same rfl rfl rfl⟩
          · next hopen =>
              have hended : ¬ Wrote traffic .ending := fun hended => hopen (hcourse.ending.2 hended)
              have ht : Timely traffic (Envelope.notification Lifecycle.ready.method (.object [])) :=
                timely_call (Envelope.method?_notification _ _) hcourse.begun hcourse.leaving
                  (by decide) (fun _ => hcourse.ready hstatus)
                  ⟨fun hw => absurd hw hended, fun heq => absurd heq (by decide)⟩
                  (fun hfree => absurd rfl hfree.2.1)
              refine ⟨send_inOrder (p := { p with session := _ }) h.server ht, fun _ => ?_⟩
              rw [notify_session]
              exact hcourse.connect (haccepted (r.error_of_outcome houtcome)) p.server _

theorem finishSession_orderly {keep : Bool} {p : Peer} {traffic : List Traffic}
    (h : p.Orderly false traffic) (hclosing : p.session.closing = true) :
    (p.finishSession keep).Orderly true
      (traffic ++ p.server.takes (Envelope.notification Lifecycle.leaving.method .null)) := by
  have hcourse := h.session rfl
  have ht : Timely traffic (Envelope.notification Lifecycle.leaving.method .null) :=
    timely_call (Envelope.method?_notification _ _) hcourse.begun hcourse.leaving (by decide)
      (fun heq => absurd heq (by decide)) ⟨fun _ => rfl, fun _ => hcourse.ending.1 hclosing⟩
      (fun hfree => absurd rfl hfree.2.2.2)
  exact ⟨(send_inOrder h.server ht).of_writes rfl, fun hended => nomatch hended⟩

theorem receiveResponse_orderly {keep : Bool} {p : Peer} {r : Response}
    {traffic : List Traffic} (h : p.Orderly false traffic) :
    (p.receiveResponse keep r).1.Orderly (p.receiveResponse keep r).2
      (traffic ++ .heard (.response r) :: p.answerTraffic (.response r)) := by
  have hcourse := h.session rfl
  have hserver := h.server.hear (.response r)
  rw [List.append_cons, receiveResponse, answerTraffic]
  cases hanswers : p.session.answered? r with
  | none =>
      have hnone : p.answered? r = none := hanswers
      rw [hnone, List.append_nil]
      refine ⟨hserver, fun _ => hcourse.answer (t := p.session) rfl rfl fun id => ?_⟩
      split
      · next hid => rwa [Session.answered?, hid, Option.bind_some] at hanswers
      · rfl
  | some entry =>
      have hsome : p.answered? r = some entry := hanswers
      have hretired : { p with session := p.session.retire entry.id }.Orderly false
          (traffic ++ [Traffic.heard (.response r)]) :=
        ⟨hserver, fun _ => hcourse.answer (t := p.session.retire entry.id) rfl rfl fun id =>
          Session.pending?_retire_answered hanswers id⟩
      rw [hsome]
      obtain ⟨hid, hp⟩ := Session.answered?_eq_some hanswers
      dsimp only
      split
      · next hopening =>
          refine finishHandshake_orderly hretired fun herror => ⟨r, ?_, herror⟩
          obtain ⟨hentry, hnone⟩ := hcourse.greeting entry.id entry hp hopening
          rw [hentry] at hid
          rw [firstGreeting?_append, hnone, firstGreeting?, List.findSome?_singleton,
            Traffic.greeting?, if_pos hid]
          rfl
      · split
        · next hending =>
            exact finishSession_orderly hretired (hcourse.granted entry.id entry hp hending)
        · rw [List.append_nil]
          exact ⟨hserver, fun _ => (hretired.session rfl).same rfl rfl rfl⟩

/-- Every message leaves the order as it is, whatever is written because of
it. -/
theorem receiveMessage_orderly {keep : Bool} {p : Peer} {m : Incoming}
    {traffic : List Traffic} (h : p.Orderly false traffic) :
    (p.receiveMessage keep m).1.Orderly (p.receiveMessage keep m).2
      (traffic ++ .heard m :: p.answerTraffic m) := by
  have hcourse := h.session rfl
  cases m with
  | response r => exact receiveResponse_orderly h
  | request id method params =>
      have hheard := hcourse.hear (m := .request id method params) rfl
      have ht : Timely (traffic ++ [.heard (.request id method params)])
          (Envelope.response id .null) :=
        timely_answer (List.mem_append_right _ List.mem_cons_self) hheard.begun hheard.leaving
      rw [List.append_cons]
      refine ⟨send_inOrder (h.server.hear _) ht, fun _ => ?_⟩
      rw [receiveMessage, send_session]
      refine hheard.takes p.server fun l hmethod => ?_
      cases hmethod
  | notification method params =>
      have hheard := hcourse.hear (m := .notification method params) rfl
      exact ⟨h.server.hear _, fun _ => hheard.same rfl rfl rfl⟩

theorem answerTraffic_record (keep : Bool) (p : Peer) (text : String) (m : Incoming) :
    (p.record keep .incoming text).answerTraffic m = p.answerTraffic m := by
  rw [record]
  split
  · cases m <;> rfl
  · rfl

theorem receiveBody_orderly (keep : Bool) {p : Peer} {traffic : List Traffic}
    (h : p.Orderly false traffic) (body : List UInt8) :
    (p.receiveBody keep body).1.Orderly (p.receiveBody keep body).2
      (traffic ++ p.bodyTraffic body) := by
  rw [receiveBody, bodyTraffic, bodyMessage?]
  cases Utf8.text? body with
  | none =>
      rw [Option.bind_none, List.append_nil]
      exact h
  | some text =>
      have hrecorded : (p.record keep .incoming text).Orderly false traffic := by
        refine ⟨?_, fun _ => ?_⟩
        · rw [record_server]
          exact h.server
        · rw [record_session]
          exact h.session rfl
      rw [Option.bind_some]
      dsimp only
      cases messageOf? text with
      | none =>
          rw [List.append_nil]
          exact hrecorded
      | some m =>
          dsimp only
          rw [← answerTraffic_record keep p text]
          exact receiveMessage_orderly hrecorded

theorem receiveAll_orderly {keep : Bool} {results : List Wire.FrameResult} :
    ∀ {p : Peer} {traffic : List Traffic}, p.Orderly false traffic →
      (p.receiveAll keep results).1.Orderly (p.receiveAll keep results).2
        (traffic ++ p.receiveTraffic keep results) := by
  induction results with
  | nil =>
      intro p traffic h
      rw [receiveTraffic, List.append_nil]
      exact h
  | cons result rest ih =>
      intro p traffic h
      cases result with
      | error e => exact ih h
      | ok body =>
          have hbody := receiveBody_orderly keep h body
          rw [receiveAll, receiveTraffic, ← List.append_assoc]
          cases heq : p.receiveBody keep body with
          | mk q ended =>
              rw [heq] at hbody
              cases ended with
              | true =>
                  rw [List.append_nil]
                  exact hbody
              | false => exact ih hbody

theorem fetched_writes (p : Peer) : p.fetched.server.writes = p.server.writes := by
  have hread : p.server.read.2.writes = p.server.writes := by
    rw [Server.read]
    split
    · rfl
    · split
      · rfl
      · split <;> rfl
  rw [fetched, readChunk]
  cases h : p.server.read with
  | mk result server =>
      rw [h] at hread
      cases result with
      | error e => exact hread
      | ok chunk => cases chunk <;> exact hread

theorem fetched_course {p : Peer} {traffic : List Traffic} (h : p.session.Course traffic) :
    p.fetched.session.Course traffic := by
  rw [fetched, readChunk]
  cases p.server.read with
  | mk result server =>
      cases result with
      | error e => exact h.same rfl rfl rfl
      | ok chunk => cases chunk <;> exact h.same rfl rfl rfl

/-- One read leaves the order as it is, however much arrives in it. -/
theorem pump_orderly (keep : Bool) {p : Peer} {traffic : List Traffic}
    (h : p.Orderly false traffic) :
    (p.pump keep).peer.Orderly (p.pump keep).finished (traffic ++ p.pumpTraffic keep) := by
  cases hended : p.session.outputEnded with
  | true =>
      rw [pump_of_ended hended, pumpTraffic, if_pos hended, List.append_nil]
      exact h
  | false =>
      have hfetched : p.fetched.Orderly false traffic :=
        ⟨h.server.of_writes (fetched_writes p), fun _ => fetched_course (h.session rfl)⟩
      rw [pump_of_open hended, pumpTraffic, if_neg (by simp [hended])]
      exact receiveAll_orderly hfetched

end Peer

end LspClient
