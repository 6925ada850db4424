import LspClient.Proofs.Client.History
import LspClient.Proofs.Session.Ledger

/-!
# The handshake

The status of a session and what its server announced depend on one response,
the first that names the number 1, and on whether the end of the session was
asked for before it came.

The reason is that only the answer to a handshake changes them, and that there
is one handshake to answer. It waits under the number 1 until that response
comes. Up to then nothing else can be sent but the request that the session
end, which takes the number 2, so nothing takes the handshake's place and
nothing else waits that looks like a handshake. After a successful answer the
caller may send what it likes, under the handshake's method as well, but then
the session is no longer connecting and an answer to that changes nothing.
After an answer that fails, the session is connecting for good.
`Session.Greeting` is this argument as an invariant.
-/

namespace LspClient

theorem Lifecycle.ending_ne_opening : ending.method ≠ opening.method := by decide

/-- What a response announces if it answers the handshake. A response with an
error member announces nothing. -/
def Response.announced? (r : Response) : Option ServerInfo :=
  match r.error with
  | none => some (.ofResult r.result)
  | some _ => none

/-- Whether the first response that names the number 1 is a success that came
before the end of the session was asked for. -/
def Welcomed (history : List Event) : Prop :=
  ∃ before r made after, history = before ++ .heard (.response r) made :: after ∧
    firstAnswer? .first before = none ∧ r.requestId? = some .first ∧ r.error = none ∧
    ¬ .closing ∈ before

theorem Welcomed.append {history : List Event} (h : Welcomed history) (later : List Event) :
    Welcomed (history ++ later) := by
  obtain ⟨before, r, made, after, rfl, h⟩ := h
  exact ⟨before, r, made, after ++ later, by simp, h⟩

theorem firstAnswer?_append (id : RequestId) (history later : List Event) :
    firstAnswer? id (history ++ later) = (firstAnswer? id history).or (firstAnswer? id later) := by
  rw [firstAnswer?, List.findSome?_append]
  rfl

theorem firstAnswer?_of_split {id : RequestId} {before after : List Event} {r : Response}
    {made : Option Completion} (hfirst : firstAnswer? id before = none)
    (hid : r.requestId? = some id) :
    firstAnswer? id (before ++ .heard (.response r) made :: after) = some r := by
  rw [firstAnswer?_append, hfirst, Option.none_or, firstAnswer?, List.findSome?_cons,
    Event.answer?, if_pos hid]

/-- Whether a session was welcomed is decided when the number 1 is first
named. -/
theorem welcomed_append_iff {history later : List Event}
    (h : firstAnswer? .first (history ++ later) = firstAnswer? .first history) :
    Welcomed (history ++ later) ↔ Welcomed history := by
  refine ⟨fun hw => ?_, fun hw => hw.append later⟩
  obtain ⟨before, r, made, after, heq, hfirst, hid, hrest⟩ := hw
  rw [heq, firstAnswer?_of_split hfirst hid] at h
  rcases List.append_eq_append_iff.1 heq with ⟨between, rfl, -⟩ | ⟨between, rfl, hlater⟩
  · rw [firstAnswer?_append, ← h] at hfirst
    cases hfirst
  · cases between with
    | nil =>
        rw [List.append_nil, hfirst] at h
        cases h
    | cons e between =>
        obtain ⟨rfl, -⟩ := List.cons.inj hlater
        exact ⟨before, r, made, between, rfl, hfirst, hid, hrest⟩

theorem welcomed_concat_answer {history : List Event} {r : Response}
    (hfirst : firstAnswer? .first history = none) (hid : r.requestId? = some .first)
    (made : Option Completion) :
    Welcomed (history ++ [.heard (.response r) made]) ↔
      r.error = none ∧ ¬ .closing ∈ history := by
  constructor
  · rintro ⟨before, r', made', after, heq, hbefore, hid', herror, hclosing⟩
    rcases split_concat heq with ⟨rfl, hlast⟩ | ⟨later, -, rfl⟩
    · cases hlast
      exact ⟨herror, hclosing⟩
    · rw [firstAnswer?_of_split hbefore hid'] at hfirst
      cases hfirst
  · rintro ⟨herror, hclosing⟩
    exact ⟨history, r, made, [], rfl, hfirst, hid, herror, hclosing⟩

/-! ## The invariant -/

/-- What the handshake has come to, by the history of a session. -/
structure Session.Greeting (s : Session) (history : List Event) : Prop where
  registered : s.status ≠ .notConnected
  connected : s.status = .connected ↔ Welcomed history
  info : s.info = (firstAnswer? .first history).bind Response.announced?
  closing : s.closing = true ↔ .closing ∈ history
  /-- the handshake waits until it is answered -/
  unanswered : firstAnswer? .first history = none →
    (s.pending? .first).map PendingRequest.method = some Lifecycle.opening.method
  /-- while the session is connecting, nothing else looks like a handshake -/
  single : s.status = .connecting → ∀ id entry, s.pending? id = some entry →
    entry.method = Lifecycle.opening.method →
    id = .first ∧ firstAnswer? .first history = none
  /-- while the session is connecting, the number 2 is left for the end -/
  next : s.status = .connecting → s.closing = false →
    s.nextRequest = RequestId.first.next

namespace Session

theorem Greeting.connecting {s : Session} {history : List Event} (g : s.Greeting history)
    (h : firstAnswer? .first history = none) : s.status = .connecting := by
  have hnot : s.status ≠ .connected := fun hconnected => by
    obtain ⟨before, r, made, after, rfl, hfirst, hid, -⟩ := g.connected.1 hconnected
    rw [firstAnswer?_of_split hfirst hid] at h
    cases h
  cases hstatus : s.status with
  | notConnected => exact absurd hstatus g.registered
  | connecting => rfl
  | connected => exact absurd hstatus hnot

/-- A move that leaves the handshake alone. -/
theorem Greeting.keep {s t : Session} {history later : List Event} (g : s.Greeting history)
    (hanswer : firstAnswer? .first history = none → firstAnswer? .first later = none)
    (hstatus : t.status = s.status) (hinfo : t.info = s.info)
    (hclosing : t.closing = true ↔ .closing ∈ history ++ later)
    (hunanswered : firstAnswer? .first history = none →
      (t.pending? .first).map PendingRequest.method = some Lifecycle.opening.method)
    (hsingle : s.status = .connecting → ∀ id entry, t.pending? id = some entry →
      entry.method = Lifecycle.opening.method → s.pending? id = some entry)
    (hnext : s.status = .connecting → t.closing = false →
      s.closing = false ∧ t.nextRequest = s.nextRequest) :
    t.Greeting (history ++ later) := by
  have hfirst : firstAnswer? .first (history ++ later) = firstAnswer? .first history := by
    rw [firstAnswer?_append]
    cases h : firstAnswer? .first history with
    | none => rw [hanswer h]; rfl
    | some r => rfl
  constructor
  · rw [hstatus]; exact g.registered
  · rw [hstatus, g.connected, welcomed_append_iff hfirst]
  · rw [hinfo, hfirst, g.info]
  · exact hclosing
  · rw [hfirst]; exact hunanswered
  · rw [hstatus, hfirst]
    intro hs id entry hp hmethod
    exact g.single hs id entry (hsingle hs id entry hp hmethod) hmethod
  · rw [hstatus]
    intro hs ht
    obtain ⟨hopen, hsame⟩ := hnext hs ht
    rw [hsame, g.next hs hopen]

/-- A move that changes nothing the handshake depends on. -/
theorem Greeting.quiet {s t : Session} {history : List Event} {e : Event}
    (g : s.Greeting history) (hanswer : e.answer? .first = none) (he : e ≠ .closing)
    (hstatus : t.status = s.status) (hinfo : t.info = s.info) (hclosing : t.closing = s.closing)
    (hpending : t.pending = s.pending) (hnext : t.nextRequest = s.nextRequest) :
    t.Greeting (history ++ [e]) := by
  have hp : ∀ id, t.pending? id = s.pending? id := fun id => by rw [pending?, hpending, pending?]
  refine g.keep (fun _ => ?_) hstatus hinfo ?_ (fun h => ?_) (fun _ id entry h _ => ?_)
    fun _ h => ⟨by rw [← hclosing, h], hnext⟩
  · simpa [firstAnswer?] using hanswer
  · rw [hclosing, g.closing]
    simp [Ne.symm he]
  · rw [hp]
    exact g.unanswered h
  · rwa [← hp]

/-- While the handshake is unanswered, it is what waits under the number 1. -/
theorem Greeting.opening_of_answered {s : Session} {history : List Event}
    (g : s.Greeting history) (h : firstAnswer? .first history = none) {r : Response}
    (hid : r.requestId? = some .first) :
    ∃ entry, s.answered? r = some entry ∧ entry.method = Lifecycle.opening.method := by
  obtain ⟨entry, hp, hmethod⟩ := Option.map_eq_some_iff.1 (g.unanswered h)
  refine ⟨entry, ?_, hmethod⟩
  rw [answered?, hid, Option.bind_some, hp]

theorem Greeting.send {s t : Session} {history : List Event} {e : Event}
    (g : s.Greeting history) (hconnected : s.status = .connected)
    (hanswer : e.answer? .first = none) (he : e ≠ .closing)
    (hstatus : t.status = s.status) (hinfo : t.info = s.info)
    (hclosing : t.closing = s.closing) : t.Greeting (history ++ [e]) := by
  have hnot : s.status ≠ .connecting := by
    rw [hconnected]
    decide
  refine g.keep (fun _ => ?_) hstatus hinfo ?_ (fun h => absurd (g.connecting h) hnot)
    (fun h => absurd h hnot) fun h => absurd h hnot
  · simpa [firstAnswer?] using hanswer
  · rw [hclosing, g.closing]
    simp [Ne.symm he]

theorem Greeting.other {s t : Session} {history : List Event} {r : Response}
    {made : Option Completion} (g : s.Greeting history)
    (hother : ∀ entry, s.answered? r = some entry → entry.method = Lifecycle.opening.method →
      s.status ≠ .connecting)
    (hstatus : t.status = s.status) (hinfo : t.info = s.info)
    (hclosing : t.closing = s.closing) (hnext : t.nextRequest = s.nextRequest)
    (hpending : ∀ id, t.pending? id = if r.requestId? = some id then none else s.pending? id) :
    t.Greeting (history ++ [.heard (.response r) made]) := by
  have hid : firstAnswer? .first history = none → r.requestId? ≠ some .first := fun h hid => by
    obtain ⟨entry, hanswers, hmethod⟩ := g.opening_of_answered h hid
    exact hother entry hanswers hmethod (g.connecting h)
  refine g.keep (fun h => ?_) hstatus hinfo ?_ (fun h => ?_) (fun _ id entry hp _ => ?_)
    fun _ h => ⟨by rw [← hclosing, h], hnext⟩
  · rw [firstAnswer?, List.findSome?_cons, Event.answer?, if_neg (hid h)]
    rfl
  · rw [hclosing, g.closing]
    simp
  · rw [hpending, if_neg (hid h)]
    exact g.unanswered h
  · rw [hpending] at hp
    split at hp
    · cases hp
    · exact hp

theorem pending?_retire_answered {s : Session} {r : Response} {entry : PendingRequest}
    (h : s.answered? r = some entry) (id : RequestId) :
    (s.retire entry.id).pending? id =
      if r.requestId? = some id then none else s.pending? id := by
  rw [pending?_retire]
  simp [(answered?_eq_some h).1]

/-- Once the handshake is answered there is no other. -/
theorem Greeting.of_answered {s : Session} {history : List Event} {r : Response}
    (hfirst : firstAnswer? .first history = some r) (hregistered : s.status ≠ .notConnected)
    (hconnected : s.status = .connected ↔ Welcomed history) (hinfo : s.info = r.announced?)
    (hclosing : s.closing = true ↔ .closing ∈ history)
    (hnone : ∀ id entry, s.pending? id = some entry →
      entry.method ≠ Lifecycle.opening.method)
    (hnext : s.closing = false → s.nextRequest = RequestId.first.next) :
    s.Greeting history where
  registered := hregistered
  connected := hconnected
  info := by rw [hinfo, hfirst, Option.bind_some]
  closing := hclosing
  unanswered := fun h => by
    rw [hfirst] at h
    cases h
  single := fun _ id entry hp hmethod => absurd hmethod (hnone id entry hp)
  next := fun _ => hnext

theorem Greeting.answer {s : Session} {history : List Event} (g : s.Greeting history)
    {r : Response} {entry : PendingRequest} (hanswers : s.answered? r = some entry)
    (hmethod : entry.method = Lifecycle.opening.method) (hs : s.status = .connecting) :
    ((s.retire entry.id).greeted r).Greeting (history ++ [.heard (.response r) none]) := by
  obtain ⟨hid, hp⟩ := answered?_eq_some hanswers
  obtain ⟨hentry, hfirst⟩ := g.single hs entry.id entry hp hmethod
  rw [hentry] at hid ⊢
  have hnow : firstAnswer? .first (history ++ [.heard (.response r) none]) = some r :=
    firstAnswer?_of_split hfirst hid
  have hwelcomed := welcomed_concat_answer hfirst hid none
  have hclosing : s.closing = true ↔
      Event.closing ∈ history ++ [Event.heard (.response r) none] := by
    rw [g.closing]
    simp
  have hgone : ∀ id other, (s.retire .first).pending? id = some other →
      other.method ≠ Lifecycle.opening.method := by
    intro id other hother hopening
    rw [pending?_retire] at hother
    split at hother
    · cases hother
    · next hne => exact hne (g.single hs id other hother hopening).1.symm
  have hnot : s.status ≠ .connected := by
    rw [hs]
    decide
  cases herror : r.error with
  | some e =>
      have hsame : (s.retire .first).greeted r = s.retire .first := by
        rw [greeted, Response.outcome, herror]
      rw [hsame]
      refine .of_answered hnow g.registered ⟨fun h => absurd h hnot, fun h => ?_⟩ ?_ hclosing
        hgone (g.next hs)
      · rw [hwelcomed, herror] at h
        cases h.1
      · rw [Response.announced?, herror]
        exact g.info.trans (by rw [hfirst]; rfl)
  | none =>
      have hinfo : r.announced? = some (.ofResult r.result) := by
        rw [Response.announced?, herror]
      have hok : r.outcome = .ok r.result := by rw [Response.outcome, herror]
      have hstatus : ¬ (s.retire .first).status ≠ .connecting := fun h => h hs
      rw [greeted, hok]
      dsimp only
      rw [if_neg hstatus]
      split
      · next hend =>
          refine .of_answered hnow g.registered ⟨fun h => absurd h hnot, fun h => ?_⟩ hinfo.symm
            hclosing hgone (g.next hs)
          exact absurd (g.closing.1 hend) (hwelcomed.1 h).2
      · next hopen =>
          have hnotClosing : ¬ Event.closing ∈ history := fun h => hopen (g.closing.2 h)
          exact .of_answered hnow (by simp)
            ⟨fun _ => hwelcomed.2 ⟨herror, hnotClosing⟩, fun _ => rfl⟩ hinfo.symm hclosing hgone
            (g.next hs)

theorem Greeting.moves {s t : Session} {history events : List Event} (g : s.Greeting history)
    (move : s.Moves events t) : t.Greeting (history ++ events) := by
  cases move with
  | read frames outputEnded =>
      rw [List.append_nil]
      exact ⟨g.registered, g.connected, g.info, g.closing, g.unanswered, g.single, g.next⟩
  | unsent hconnected hopen => exact g.send hconnected rfl (by simp) rfl rfl rfl
  | sent method payload hconnected hopen => exact g.send hconnected rfl (by simp) rfl rfl rfl
  | closing payload hopen =>
      refine g.keep (fun _ => rfl) rfl rfl (by simp) (fun h => ?_) (fun hs id entry hp he => ?_)
        fun _ h => by cases h
      · -- the request to end takes the number 2, so the handshake keeps its place
        show ((s.numbered.await _).pending? .first).map PendingRequest.method = _
        have hnext : s.nextRequest ≠ .first := by
          rw [g.next (g.connecting h) hopen]
          decide
        rw [pending?_await, if_neg hnext]
        exact g.unanswered h
      · change (s.numbered.await _).pending? id = some entry at hp
        rw [pending?_await] at hp
        split at hp
        · cases hp
          exact absurd he Lifecycle.ending_ne_opening
        · exact hp
  | ignored r hanswers =>
      refine g.other (fun entry h => ?_) rfl rfl rfl rfl fun id => ?_
      · rw [hanswers] at h
        cases h
      · split
        · next hid => rwa [answered?, hid, Option.bind_some] at hanswers
        · rfl
  | greeted r entry hanswers hmethod =>
      -- a connected caller may send a request under this method too
      by_cases hs : s.status = .connecting
      · exact g.answer hanswers hmethod hs
      · have hsame : (s.retire entry.id).greeted r = s.retire entry.id := by
          rw [greeted]
          split
          · rfl
          · exact if_pos hs
        rw [hsame]
        refine g.other (fun _ _ _ => hs) rfl rfl rfl rfl fun id => ?_
        exact pending?_retire_answered hanswers id
  | completed r entry hanswers hmethod =>
      refine g.other (fun other h hopening => ?_) rfl rfl rfl rfl fun id => ?_
      · rw [hanswers, Option.some.injEq] at h
        rw [h] at hmethod
        exact absurd hopening hmethod.1
      · exact pending?_retire_answered hanswers id
  | acknowledged id method params => exact g.quiet rfl (by simp) rfl rfl rfl rfl rfl
  | noticed method params => exact g.quiet rfl (by simp) rfl rfl rfl rfl rfl
  | taken => exact g.quiet rfl (by simp) rfl rfl rfl rfl rfl
  | takenNotices => exact g.quiet rfl (by simp) rfl rfl rfl rfl rfl

end Session

theorem Peer.Opened.greeting {id : SessionId} {s : Session} (h : Peer.Opened id s) :
    s.Greeting [.sent .first Lifecycle.opening.method] := by
  obtain ⟨command, payload, rfl⟩ := h
  constructor
  · simp
  · refine ⟨by simp, ?_⟩
    rintro ⟨before, r, made, after, heq, -⟩
    simp [List.cons_eq_append_iff] at heq
  · rfl
  · simp [Session.await, Session.numbered]
  · intro _
    rfl
  · intro _ number entry hp _
    refine ⟨?_, rfl⟩
    change (Session.await _ _).pending? number = some entry at hp
    rw [Session.pending?_await] at hp
    split at hp
    · next hnumber => exact hnumber.symm
    · cases hp
  · intro _ _
    rfl

/-! ## Runs -/

/-- What is true of a registered session. -/
structure Session.Standing (s : Session) (history : List Event) : Prop where
  registered : s.status ≠ .notConnected
  info : s.info = (firstAnswer? .first history).bind Response.announced?
  connected : s.status = .connected ↔ Welcomed history

/-- What remains true of a registered session as long as it is registered. -/
structure Session.Settled (s : Session) (history : List Event) (t : Session)
    (later : List Event) : Prop where
  /-- being connected is for good -/
  connected : s.status = .connected → t.status = .connected
  /-- after the answer to the handshake nothing changes status and
  announcement -/
  answered : firstAnswer? .first history ≠ none → t.status = s.status ∧ t.info = s.info
  /-- before it, nothing else does -/
  unanswered : firstAnswer? .first later = none → t.status = s.status ∧ t.info = s.info

theorem Session.Greeting.settled {s t : Session} {history later : List Event}
    (g : s.Greeting history) (g' : t.Greeting (history ++ later)) :
    s.Settled history t later := by
  have hsame : firstAnswer? .first (history ++ later) = firstAnswer? .first history →
      t.status = s.status ∧ t.info = s.info := by
    intro hfirst
    have hiff : t.status = .connected ↔ s.status = .connected := by
      rw [g'.connected, g.connected, welcomed_append_iff hfirst]
    refine ⟨?_, by rw [g'.info, g.info, hfirst]⟩
    have hs := g.registered
    have ht := g'.registered
    cases hold : s.status with
    | notConnected => exact absurd hold hs
    | connected => exact hiff.2 hold
    | connecting =>
        cases hnew : t.status with
        | notConnected => exact absurd hnew ht
        | connecting => rfl
        | connected =>
            rw [hiff.1 hnew] at hold
            cases hold
  constructor
  · exact fun hs => g'.connected.2 ((g.connected.1 hs).append later)
  · intro hanswered
    refine hsame ?_
    rw [firstAnswer?_append]
    cases h : firstAnswer? .first history with
    | none => exact absurd h hanswered
    | some r => rfl
  · intro hlater
    refine hsame ?_
    rw [firstAnswer?_append, hlater, Option.or_none]

namespace Client

theorem greeting_of_run {settings : Settings} {processId : Nat} {launcher : Launcher}
    {operations : List Operation} {id : SessionId} {s : Session}
    (h : ((initial settings processId launcher).run operations).session? id = some s) :
    s.Greeting ((initial settings processId launcher).history id operations) :=
  run_preserves (fun _ _ ho => ho.greeting) (fun _ g move => g.moves move) h

theorem firstAnswer?_eventsOf_request (c : Client) (id target : SessionId) (method : String)
    (params : Json.Value) (number : RequestId) :
    firstAnswer? number (c.eventsOf id (.request target method params)) = none := by
  rw [eventsOf]
  cases c.peer? id with
  | none =>
      cases (c.step (.request target method params)).1 with
      | opened new =>
          show firstAnswer? number (if new = id then _ else _) = none
          split <;> rfl
      | _ => rfl
  | some p =>
      dsimp only
      split
      · cases (c.step (.request target method params)).1 with
        | refused e => cases e <;> rfl
        | _ => rfl
      · rfl

/-- In every run, the first response to the number 1 decides about the status
of a session that is still registered and about what its server announced, and
the decision stands for as long as the session is registered. -/
theorem handshake_of_run {settings : Settings} {processId : Nat} {launcher : Launcher}
    {operations : List Operation} {id : SessionId} {s : Session}
    (h : ((initial settings processId launcher).run operations).session? id = some s) :
    s.Standing ((initial settings processId launcher).history id operations) ∧
    (∀ later t,
      ((initial settings processId launcher).run (operations ++ later)).session? id = some t →
      s.Settled ((initial settings processId launcher).history id operations) t
        (((initial settings processId launcher).run operations).history id later)) ∧
    ∀ target method params t,
      ((initial settings processId launcher).run
        (operations ++ [.request target method params])).session? id = some t →
      t.status = s.status ∧ t.info = s.info := by
  have g := greeting_of_run h
  have hsettled : ∀ later t,
      ((initial settings processId launcher).run (operations ++ later)).session? id = some t →
      s.Settled ((initial settings processId launcher).history id operations) t
        (((initial settings processId launcher).run operations).history id later) := by
    intro later t ht
    have g' := greeting_of_run ht
    rw [history_append] at g'
    exact g.settled g'
  refine ⟨⟨g.registered, g.info, g.connected⟩, hsettled, fun target method params t ht => ?_⟩
  refine (hsettled [.request target method params] t ht).unanswered ?_
  rw [history, history, List.append_nil]
  exact firstAnswer?_eventsOf_request _ id target method params .first

/-- A server accepts the handshake and rejects it, both in one read. -/
def contraryAnswers : List Operation :=
  [.connect "server" {},
    .server 0 (.emit (Wire.frameText "\x7b\"id\":1,\"result\":null\x7d" ++
      Wire.frameText "\x7b\"id\":1,\"error\":null\x7d")),
    .process]

theorem handshake_of_contraryAnswers :
    ∃ s, ((initial {} 0 {}).run contraryAnswers).session? 1 = some s ∧
      s.status = .connected ∧
      s.Standing ((initial {} 0 {}).history 1 contraryAnswers) := by
  have hdone : (((initial {} 0 {}).run contraryAnswers).session? 1).map Session.status =
      some .connected := by decide +kernel
  obtain ⟨s, hs, hstatus⟩ := Option.map_eq_some_iff.1 hdone
  exact ⟨s, hs, hstatus, (handshake_of_run hs).1⟩

end Client

end LspClient
