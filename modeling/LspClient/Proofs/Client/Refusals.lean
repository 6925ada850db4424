import LspClient.Proofs.Client.Exchanges

/-!
# What refused operations change

An operation can be refused for what the session is, or because its transport fails.
In the first case nothing has happened, whatever the operation was. In the second
something has: the message was recorded, if records are kept, a request has used up
its number, and a session that could not be asked to end is gone. Nothing else
changes, at that session or at any other (`Client.Refusals`).

All of this is read off `Peer.upshot`, since an operation that names a session is its
upshot for that session (`step_of_target`). What is put back into the client then
amounts to a change of the links that have the session (`putLink_eq_amend`).
-/

namespace LspClient

open Json (Value)

namespace Client

/-- The client after something happened to the link of a session. -/
def amend (c : Client) (id : SessionId) (change : Link → Link) : Client :=
  { c with links := c.links.map fun l => if l.owns id then change l else l }

/-- The client after a message of a session was recorded, if records are kept. -/
def mirror (c : Client) (id : SessionId) (envelope : Value) : Client :=
  { c with records := c.records ++ mirrored c.settings.debug id envelope }

end Client

/-- The link whose session has used up a number. -/
def Link.spend (l : Link) : Link :=
  { l with session := l.session.map Session.numbered }

namespace Client

theorem putLink_eq_amend {c : Client} (hc : c.Ordered) {id : SessionId} {p : Peer}
    (hp : c.peer? id = some p) (change : Link → Link) :
    c.putLink id (change ⟨p.server, some p.session⟩) = c.amend id change := by
  have hlinks : (c.links.map fun old => if old.owns id then change ⟨p.server, some p.session⟩
      else old) = c.links.map fun l => if l.owns id then change l else l := by
    refine List.map_congr_left fun old hold => ?_
    split
    · next howns => rw [← link_of_owns hc hp hold howns]
    · rfl
  rw [putLink, hlinks, amend]

/-- The sessions, if the one with a number becomes another or goes. -/
theorem sessions_amend (c : Client) (id : SessionId) {change : Link → Link}
    (becomes : Session → Option Session)
    (hchange : ∀ l s, l.session = some s → (change l).session = becomes s) :
    (c.amend id change).sessions =
      c.sessions.filterMap fun s => if s.id = id then becomes s else some s := by
  rw [sessions, amend, sessions, List.filterMap_map, List.filterMap_filterMap]
  congr 1
  funext l
  rw [Function.comp_apply, Link.owns]
  cases hs : l.session with
  | none => simp [hs]
  | some s =>
      by_cases hid : s.id = id
      · simp [hid, hchange l s hs]
      · simp [hid, hs]

/-! ## Refused for what the session is -/

end Client

theorem Peer.upshot_refused {keep : Bool} {p : Peer} {operation : Operation} {e : ClientError}
    (h : (p.upshot keep operation).reply = .refused e) (he : ∀ t, e ≠ .transport t) :
    p.upshot keep operation = p.stays (.refused e) := by
  cases operation with
  | close id =>
      rw [upshot] at h
      split at h
      · cases h
      · split at h
        · cases h
        · cases h
          exact absurd rfl (he _)
  | request id method params =>
      rw [upshot] at h ⊢
      split at h
      · cases h
        rfl
      · split at h
        · cases h
        · cases h
          exact absurd rfl (he _)
  | notify id method params =>
      rw [upshot] at h ⊢
      split at h
      · cases h
        rfl
      · split at h
        · cases h
        · cases h
          exact absurd rfl (he _)
  | _ => cases h

namespace Client

theorem opening_not_refused {c : Client} {command : String} {connection : Connection}
    {server : Server} {e : ClientError}
    (h : (c.opening command connection server).reply = .refused e) : ∃ t, e = .transport t := by
  rw [opening, Peer.opening] at h
  split at h
  · cases h
  · cases h
    exact ⟨_, rfl⟩

/-- A refusal that is not the transport's changes nothing. -/
theorem step_refused {c : Client} (hc : c.Ordered) {operation : Operation} {e : ClientError}
    (h : (c.step operation).1 = .refused e) (he : ∀ t, e ≠ .transport t) :
    (c.step operation).2 = c := by
  cases hscope : operation.scope with
  | session id =>
      cases hp : c.peer? id with
      | none => rw [step_of_unknown hscope hp]
      | some p =>
          rw [step_of_target hc hscope hp] at h ⊢
          rw [Peer.upshot_refused h he]
          exact settle_stays hc hp (records_of_peer? hp) _
  | sessions => cases operation <;> first | cases h | cases hscope
  | server target event => cases operation <;> first | cases h | cases hscope
  | nothing =>
      cases operation with
      | connect command connection =>
          rw [step_connect] at h ⊢
          split at h
          · rfl
          · obtain ⟨t, rfl⟩ := opening_not_refused h
            exact absurd rfl (he t)
      | _ => first | cases h | cases hscope

end Client

/-! ## Refused by the transport -/

namespace Peer

theorem admits_error {p : Peer} {e : ClientError} (h : p.admits = .error e) :
    ∀ t, e ≠ .transport t := by
  rintro t rfl
  rw [admits] at h
  split at h
  · cases h
  · split at h <;> cases h

theorem close_refused {p : Peer} (hopen : p.server.closed = false) {keep : Bool} {id : SessionId}
    {t : TransportError} (h : (p.upshot keep (.close id)).reply = .refused (.transport t)) :
    p.upshot keep (.close id) =
      ⟨.refused (.transport t), Link.retire ⟨p.server, some p.session⟩,
        p.records ++ mirrored keep p.session.id
          (Envelope.request p.session.nextRequest Lifecycle.ending.method .null)⟩ := by
  rw [upshot] at h ⊢
  split at h
  · cases h
  · next hclosing =>
      rw [if_neg hclosing]
      rw [endSession] at h ⊢
      cases hwrites : p.server.writeFailure with
      | none =>
          rw [request_written hopen hwrites] at h
          cases h
      | some failure =>
          rw [request_failed hopen hwrites] at h ⊢
          cases h
          rfl

theorem request_refused {p : Peer} (hopen : p.server.closed = false) {keep : Bool}
    {id : SessionId} {method : String} {params : Value} {t : TransportError}
    (h : (p.upshot keep (.request id method params)).reply = .refused (.transport t)) :
    p.upshot keep (.request id method params) =
      ⟨.refused (.transport t), Link.spend ⟨p.server, some p.session⟩,
        p.records ++ mirrored keep p.session.id
          (Envelope.request p.session.nextRequest method params)⟩ := by
  rw [upshot] at h ⊢
  cases hadmits : p.admits with
  | error e =>
      rw [hadmits] at h
      cases h
      exact absurd rfl (admits_error hadmits t)
  | ok _ =>
      rw [hadmits] at h
      dsimp only at h ⊢
      cases hwrites : p.server.writeFailure with
      | none =>
          rw [request_written hopen hwrites] at h
          cases h
      | some failure =>
          rw [request_failed hopen hwrites] at h ⊢
          cases h
          rfl

theorem notify_refused {p : Peer} (hopen : p.server.closed = false) {keep : Bool}
    {id : SessionId} {method : String} {params : Value} {t : TransportError}
    (h : (p.upshot keep (.notify id method params)).reply = .refused (.transport t)) :
    p.upshot keep (.notify id method params) =
      ⟨.refused (.transport t), ⟨p.server, some p.session⟩,
        p.records ++ mirrored keep p.session.id (Envelope.notification method params)⟩ := by
  rw [upshot] at h ⊢
  cases hadmits : p.admits with
  | error e =>
      rw [hadmits] at h
      cases h
      exact absurd rfl (admits_error hadmits t)
  | ok _ =>
      rw [hadmits] at h
      dsimp only at h ⊢
      rw [notify_eq hopen] at h ⊢
      cases hwrites : p.server.writeFailure with
      | none =>
          rw [hwrites] at h
          cases h
      | some failure =>
          rw [hwrites] at h
          rw [Server.sent_failed hwrites]
          cases h
          rfl

end Peer

namespace Client

/-- Where the transport refuses an operation there is a session, and an open server. -/
theorem step_transport {c : Client} (hc : c.Ordered) (hheld : c.AllHeld) {operation : Operation}
    {id : SessionId} (hscope : operation.scope = .session id) {t : TransportError}
    (h : (c.step operation).1 = .refused (.transport t)) :
    ∃ p, c.peer? id = some p ∧ p.server.closed = false ∧
      (p.upshot c.settings.debug operation).reply = .refused (.transport t) ∧
      (c.step operation).2 = c.settle id (p.upshot c.settings.debug operation) := by
  cases hp : c.peer? id with
  | none =>
      rw [step_of_unknown hscope hp] at h
      cases operation <;> cases h
  | some p =>
      rw [step_of_target hc hscope hp] at h ⊢
      exact ⟨p, rfl, hheld.opened hc hp, h, rfl⟩

theorem settle_eq_amend {c : Client} (hc : c.Ordered) {id : SessionId} {p : Peer}
    (hp : c.peer? id = some p) (reply : Reply) (change : Link → Link) (envelope : Value) :
    c.settle id ⟨reply, change ⟨p.server, some p.session⟩,
        p.records ++ mirrored c.settings.debug p.session.id envelope⟩ =
      (c.amend id change).mirror id envelope := by
  have hid : p.session.id = id := id_of_findPeer hp
  rw [settle, putLink_eq_amend hc hp, records_of_peer? hp, hid, List.nil_append]
  rfl

/-- What refused operations leave as it was. -/
structure Refusals (c : Client) : Prop where
  /-- what is refused for another reason than the transport has changed nothing -/
  untouched : ∀ operation e, (c.step operation).1 = .refused e → (∀ t, e ≠ .transport t) →
    (c.step operation).2 = c
  /-- asking twice for the end changes nothing -/
  repeated : ∀ id s, c.session? id = some s → s.closing = true → c.step (.close id) = (.done, c)
  /-- a notification that is not written is recorded -/
  notify : ∀ id method params t,
    (c.step (.notify id method params)).1 = .refused (.transport t) →
      (c.step (.notify id method params)).2 = c.mirror id (Envelope.notification method params)
  /-- a request that is not written uses up its number -/
  request : ∀ id method params t,
    (c.step (.request id method params)).1 = .refused (.transport t) →
      ∃ s, c.session? id = some s ∧
        (c.step (.request id method params)).2 =
          (c.amend id Link.spend).mirror id (Envelope.request s.nextRequest method params) ∧
        (c.step (.request id method params)).2.sessions =
          c.sessions.map fun other => if other.id = id then other.numbered else other
  /-- a session that cannot be asked to end is gone -/
  close : ∀ id t, (c.step (.close id)).1 = .refused (.transport t) →
    ∃ s, c.session? id = some s ∧
      (c.step (.close id)).2 = (c.amend id Link.retire).mirror id
        (Envelope.request s.nextRequest Lifecycle.ending.method .null) ∧
      (c.step (.close id)).2.sessions = c.sessions.filter fun other => other.id != id

theorem Ordered.refusals {c : Client} (hc : c.Ordered) (hheld : c.AllHeld) : c.Refusals where
  untouched := fun _ _ h he => step_refused hc h he
  repeated := by
    intro id s hs hclosing
    rw [session?_eq] at hs
    obtain ⟨p, hp, rfl⟩ := Option.map_eq_some_iff.1 hs
    rw [step_of_target hc rfl hp, Peer.upshot, if_pos hclosing,
      settle_stays hc hp (records_of_peer? hp)]
    rfl
  notify := by
    intro id method params t h
    obtain ⟨p, hp, hopen, hreply, hstep⟩ := step_transport hc hheld rfl h
    rw [hstep, Peer.notify_refused hopen hreply]
    refine (settle_eq_amend hc hp _ (fun l => l) _).trans ?_
    simp [amend]
  request := by
    intro id method params t h
    obtain ⟨p, hp, hopen, hreply, hstep⟩ := step_transport hc hheld rfl h
    have hchanged : (c.step (.request id method params)).2 = (c.amend id Link.spend).mirror id
        (Envelope.request p.session.nextRequest method params) := by
      rw [hstep, Peer.request_refused hopen hreply]
      exact settle_eq_amend hc hp _ Link.spend _
    refine ⟨p.session, session?_of_peer? hp, hchanged, ?_⟩
    rw [hchanged]
    refine (sessions_amend c id (fun s => some s.numbered) ?_).trans ?_
    · intro l s hs
      rw [Link.spend, hs]
      rfl
    · rw [← List.filterMap_eq_map]
      congr 1
      funext s
      split <;> simp [*]
  close := by
    intro id t h
    obtain ⟨p, hp, hopen, hreply, hstep⟩ := step_transport hc hheld rfl h
    have hchanged : (c.step (.close id)).2 = (c.amend id Link.retire).mirror id
        (Envelope.request p.session.nextRequest Lifecycle.ending.method .null) := by
      rw [hstep, Peer.close_refused hopen hreply]
      exact settle_eq_amend hc hp _ Link.retire _
    refine ⟨p.session, session?_of_peer? hp, hchanged, ?_⟩
    rw [hchanged]
    refine (sessions_amend c id (fun _ => none) ?_).trans ?_
    · intro l s hs
      rw [Link.retire, hs]
    · rw [← List.filterMap_eq_filter]
      congr 1
      funext s
      by_cases hs : s.id = id <;> simp [hs, Option.guard]

/-- In every state of every run, refused operations change nothing but what the
transport's refusals cost. -/
theorem refusals_of_run (settings : Settings) (processId : Nat) (launcher : Launcher)
    (operations : List Operation) :
    ((initial settings processId launcher).run operations).Refusals := by
  have hordered := ordered_initial settings processId launcher
  have hheld := (allHeld_initial settings processId launcher).run operations hordered
  exact (hordered.run operations).refusals hheld.1

/-- Where nothing can be written, a request costs its number and the attempt to end the
session ends it. -/
example :
    let c := (initial {} 0 {}).run [.connect "server" {},
      .server 0 (.emit (Wire.frameText "\x7b\"id\":1,\"result\":null\x7d")), .process,
      .server 0 (.failWrites (some .brokenPipe))]
    let d := (c.step (.request 1 "textDocument/hover" .null)).2
    let e := (d.step (.close 1)).2
    [c, d, e].map (fun c => c.sessions.map fun s => s.nextRequest.number) = [[2], [3], []] := by
  decide +kernel

end Client

end LspClient
