import LspClient.Proofs.Client.Exchanges

/-!
# Whether the server knows that the client is ready

A session is connected as soon as the handshake is accepted, and then the server
is told. These are two steps and the second can fail. Nothing looks at whether it
did, and nothing tries again. So what is true of a connected session is that the
message was tried, once, behind the request for the handshake and before
anything that a caller sent. It is in its place among what was written if that
one try succeeded, and missing if not, however well later writes go
(`mutedGreeting`).

The invariant looks at nothing of a session but its status. While it is
connecting, what has passed is the engine's own and the message is not among it.
The one step that makes it connected is the one that tries the message. After
that nothing tries it again, because the answer to a second request for a
handshake finds the session connected.
-/

namespace LspClient

open Json (Value)

/-- The message that the client is ready. -/
def readyCall : Value :=
  Envelope.notification Lifecycle.ready.method (.object [])

namespace Passage

/-- Whether something is no message of a caller's, and not the one that the client
is ready. -/
def IsQuiet : Passage → Prop
  | .tried caller envelope _ =>
    caller = false ∧ Envelope.method? envelope ≠ some Lifecycle.ready.method
  | .handled _ => True

/-- Whether something is the engine's message that the client is ready. -/
def Announces : Passage → Prop
  | .tried caller envelope _ =>
    caller = false ∧ Envelope.method? envelope = some Lifecycle.ready.method
  | .handled _ => False

theorem IsQuiet.not_announces {x : Passage} (h : x.IsQuiet) : ¬ x.Announces := by
  cases x with
  | tried caller envelope written => exact fun ha => h.2 ha.2
  | handled body => exact fun ha => ha

end Passage

/-- What has passed begins with the request for the handshake, which was
written. -/
def Begun (passed : List Passage) : Prop :=
  ∃ params, passed.head? =
    some (.tried false (Envelope.request .first Lifecycle.opening.method params) true)

/-- The client was to say that it is ready, once, before anything of a
caller's. -/
def Readied (passed : List Passage) : Prop :=
  ∃ before written after, passed = before ++ .tried false readyCall written :: after ∧
    Begun before ∧ (∀ x ∈ before, x.IsQuiet) ∧ ∀ x ∈ after, ¬ x.Announces

theorem Begun.append {passed : List Passage} (h : Begun passed) (later : List Passage) :
    Begun (passed ++ later) := by
  obtain ⟨params, hhead⟩ := h
  refine ⟨params, ?_⟩
  rw [List.head?_append, hhead]
  rfl

theorem Readied.append {passed later : List Passage} (h : Readied passed)
    (hlater : ∀ x ∈ later, ¬ x.Announces) : Readied (passed ++ later) := by
  obtain ⟨before, written, after, rfl, hbegun, hbefore, hafter⟩ := h
  refine ⟨before, written, after ++ later, by simp, hbegun, hbefore, fun x hx => ?_⟩
  rcases List.mem_append.1 hx with hx | hx
  · exact hafter x hx
  · exact hlater x hx

/-! ## The invariant -/

/-- What the status of a session says of what has passed. -/
structure Session.Announced (s : Session) (passed : List Passage) : Prop where
  connecting : s.status = .connecting → Begun passed ∧ ∀ x ∈ passed, x.IsQuiet
  connected : s.status = .connected → Readied passed

namespace Session

theorem Announced.keep {s t : Session} {passed later : List Passage} (h : s.Announced passed)
    (hstatus : t.status = s.status)
    (hquiet : s.status = .connecting → ∀ x ∈ later, x.IsQuiet)
    (hlater : ∀ x ∈ later, ¬ x.Announces) : t.Announced (passed ++ later) where
  connecting := by
    rw [hstatus]
    intro hconnecting
    obtain ⟨hbegun, hpassed⟩ := h.connecting hconnecting
    refine ⟨hbegun.append later, fun x hx => ?_⟩
    rcases List.mem_append.1 hx with hx | hx
    · exact hpassed x hx
    · exact hquiet hconnecting x hx
  connected := by
    rw [hstatus]
    exact fun hconnected => (h.connected hconnected).append hlater

theorem Announced.quiet {s t : Session} {passed later : List Passage} (h : s.Announced passed)
    (hstatus : t.status = s.status) (hlater : ∀ x ∈ later, x.IsQuiet) :
    t.Announced (passed ++ later) :=
  h.keep hstatus (fun _ => hlater) fun x hx => (hlater x hx).not_announces

theorem Announced.same {s t : Session} {passed : List Passage} (h : s.Announced passed)
    (hstatus : t.status = s.status) : t.Announced passed := by
  have hnothing : t.Announced (passed ++ []) :=
    h.quiet hstatus fun _ hx => absurd hx List.not_mem_nil
  rwa [List.append_nil] at hnothing

/-- The answer to the handshake connects a session as it tries to say so. -/
theorem Announced.greet {s : Session} {passed : List Passage} (h : s.Announced passed)
    (gone : RequestId) (r : Response) (written : Bool) :
    ((s.retire gone).greeted r).Announced
      (passed ++ (s.greetingReplies r).map fun e => .tried false e written) := by
  have hsame : ∀ {u : Session}, u.status = s.status → u.Announced (passed ++ []) := by
    intro u hu
    rw [List.append_nil]
    exact h.same hu
  rw [retire, greeted, greetingReplies]
  cases r.outcome with
  | error e => exact hsame rfl
  | ok result =>
      dsimp only
      split
      · exact hsame rfl
      · next hconnecting =>
          rw [Decidable.not_not] at hconnecting
          split
          · exact hsame rfl
          · -- the one answer that connects the session is the one that has this tried
            obtain ⟨hbegun, hpassed⟩ := h.connecting hconnecting
            refine { connecting := fun hs => ?_, connected := fun _ => ?_ }
            · cases hs
            · refine ⟨passed, written, [], rfl, hbegun, hpassed, fun x hx => ?_⟩
              cases hx

/-- A caller's message is tried only when the session is connected. -/
theorem Announced.called {s t : Session} {passed : List Passage} (h : s.Announced passed)
    (hconnected : s.status = .connected) (hstatus : t.status = s.status) (envelope : Value)
    (written : Bool) : t.Announced (passed ++ [.tried true envelope written]) := by
  refine h.keep hstatus (fun hconnecting => ?_) (List.forall_mem_singleton.2 fun ha => ?_)
  · rw [hconnected] at hconnecting
    cases hconnecting
  · cases ha.1

theorem Announced.exchange {s : Session} {o : Option Session} {passed xs : List Passage}
    (h : s.Announced passed) (exchange : s.Exchange xs o) {t : Session} (ht : o = some t) :
    t.Announced (passed ++ xs) := by
  cases exchange with
  | quiet =>
      cases ht
      exact h.quiet rfl (List.forall_mem_nil _)
  | handled body =>
      cases ht
      exact h.quiet rfl (List.forall_mem_singleton.2 trivial)
  | acknowledged id written =>
      cases ht
      refine h.quiet rfl (List.forall_mem_singleton.2 ⟨rfl, ?_⟩)
      rw [Envelope.method?_response]
      decide
  | greeted r entry written hanswers hmethod =>
      cases ht
      exact h.greet entry.id r written
  | completed r entry hanswers hmethod =>
      cases ht
      exact h.quiet rfl (List.forall_mem_nil _)
  | granted r entry written hanswers hmethod => cases ht
  | sent method params hconnected hopen =>
      cases ht
      exact h.called (t := s.asking method params) hconnected rfl _ true
  | unsent method params hconnected hopen =>
      cases ht
      exact h.called (t := s.numbered) hconnected rfl _ false
  | told method params written hconnected hopen =>
      cases ht
      exact h.called hconnected rfl _ written
  | closing hopen =>
      cases ht
      refine h.quiet rfl (List.forall_mem_singleton.2 ⟨rfl, ?_⟩)
      rw [Envelope.method?_request]
      decide
  | severed hopen => cases ht
  | dropped => cases ht

theorem Life.announced {o : Option Session} {passed : List Passage} (h : Life o passed) :
    ∀ s, o = some s → s.Announced passed := by
  refine h.preserves (P := fun o passed => ∀ s, o = some s → s.Announced passed)
    (fun id command params written s hs => ?_) fun passed hp exchange t ht =>
      Announced.exchange (hp _ rfl) exchange ht
  cases written <;> cases hs
  refine { connecting := fun _ => ⟨⟨params, rfl⟩, ?_⟩, connected := fun hs => ?_ }
  · refine List.forall_mem_singleton.2 ⟨rfl, ?_⟩
    rw [Envelope.method?_request]
    decide
  · cases hs

end Session

/-! ## Runs -/

/-- What is true of a link and of what has passed at it. -/
structure Link.Tells (l : Link) (passed : List Passage) : Prop where
  reached : Client.Reached l passed
  session : ∀ s, l.session = some s → s.Announced passed

namespace Client

theorem tells_run {index : Nat} (operations : List Operation) {c : Client}
    {passed : List Passage} (h : c.PassedAt Told index passed) (hc : c.Ordered)
    (hheld : c.AllHeld) :
    (c.run operations).PassedAt Link.Tells index (passed ++ c.passages index operations) :=
  (told_run operations h hc hheld).imp fun _ htold =>
    { reached := htold.reached, session := htold.life.announced }

/-- In every run, the client has told the server of a connected session that it is
ready, or tried to, once and in time. -/
theorem readied_of_run {settings : Settings} {processId : Nat} {launcher : Launcher}
    {operations : List Operation} {id : SessionId} {p : Peer}
    (hp : ((initial settings processId launcher).run operations).peer? id = some p)
    (hconnected : p.session.status = .connected) :
    ∃ index, ((initial settings processId launcher).run operations).Owns id index ∧
      p.server.writes =
        ((initial settings processId launcher).passages index operations).filterMap
          Passage.wire? ∧
      Readied ((initial settings processId launcher).passages index operations) := by
  have hordered := ordered_initial settings processId launcher
  obtain ⟨index, l, hl, hid⟩ := exists_link_of_peer? hp
  have hpeer : l.peer? = some p := by
    rw [← peer?_of_getElem? (hordered.run operations) hl hid, hp]
  have hrun : ((initial settings processId launcher).run operations).PassedAt Link.Tells index
      ([] ++ (initial settings processId launcher).passages index operations) :=
    tells_run operations rfl hordered (allHeld_initial settings processId launcher)
  rw [PassedAt, hl, List.nil_append] at hrun
  obtain ⟨s, hs, rfl⟩ := Option.map_eq_some_iff.1 hpeer
  exact ⟨index, (owns_iff hl).2 hid, hrun.reached, (hrun.session s hs).connected hconnected⟩

/-- Writes fail while the handshake is accepted, and succeed when the caller sends
its first request. -/
def mutedGreeting : List Operation :=
  [.connect "server" {},
    .server 0 (.emit (Wire.frameText "\x7b\"id\":1,\"result\":null\x7d")),
    .server 0 (.failWrites (some .brokenPipe)),
    .process,
    .server 0 (.failWrites none),
    .request 1 "textDocument/hover" .null]

theorem readied_of_mutedGreeting :
    ∃ p, ((initial {} 0 {}).run mutedGreeting).peer? 1 = some p ∧
      p.session.status = .connected ∧
      ∃ index, ((initial {} 0 {}).run mutedGreeting).Owns 1 index ∧
        p.server.writes =
          ((initial {} 0 {}).passages index mutedGreeting).filterMap Passage.wire? ∧
        Readied ((initial {} 0 {}).passages index mutedGreeting) := by
  have hdone : (((initial {} 0 {}).run mutedGreeting).peer? 1).map
      (fun p => p.session.status) = some .connected := by decide +kernel
  obtain ⟨p, hp, hconnected⟩ := Option.map_eq_some_iff.1 hdone
  exact ⟨p, hp, hconnected, readied_of_run hp hconnected⟩

/-- A session is connected whose server was never told that the client is
ready, and has been sent a request. -/
theorem not_all_told : ¬ ∀ operations id p,
    ((initial {} 0 {}).run operations).peer? id = some p → p.session.status = .connected →
      ∃ opening rest, p.server.writes = opening :: rest ∧ Envelope.wire readyCall ∈ rest := by
  intro h
  have hdone : (((initial {} 0 {}).run mutedGreeting).peer? 1).map
      (fun p => (p.session.status, (p.server.writes.drop 1).map List.length)) =
        some (.connected, [81]) := by decide +kernel
  obtain ⟨p, hp, hpair⟩ := Option.map_eq_some_iff.1 hdone
  obtain ⟨hconnected, hlengths⟩ := Prod.mk.inj hpair
  obtain ⟨opening, rest, hwrites, htold⟩ := h mutedGreeting 1 p hp hconnected
  rw [hwrites, List.drop_one, List.tail_cons] at hlengths
  have hlength : (Envelope.wire readyCall).length ∈ [81] :=
    hlengths ▸ List.mem_map_of_mem htold
  have hshorter : (Envelope.wire readyCall).length = 79 := by decide +kernel
  rw [hshorter] at hlength
  cases List.mem_singleton.1 hlength

end Client

end LspClient
