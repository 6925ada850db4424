import LspClient.Probe.Program
import LspClient.Proofs.Client.Connecting
import LspClient.Proofs.Client.Stranded

/-!
# Waiting for the handshake

A wait is a run in which the caller does nothing but read. `vigil` is that run, round by
round, for as many rounds as one likes, and `waitWhile` stops in the first of them in
which the session has left its status or the time is over (`waitWhile_stops`).

If the caller does nothing but read, a session that was opened stays registered whatever
its server does: a read ends a session only in answer to a request that it end, and
nobody has sent one (`peer?_of_passive`). So a session that has left the handshake
behind is connected, and what its server announced is there to be reported. The other
outcome is that time runs out. It cannot be avoided once the server has rejected the
handshake, or has ended its output before it accepted: the first response under the
number of the handshake decides about it, and after the end of the output nothing is
read any more.
-/

namespace LspClient

variable {σ : Type}

/-- What happens in a round: servers act, and the client reads. -/
def Round.operations (round : Round σ) : List Operation :=
  (round.events.map fun (index, event) => .server index event) ++ [.process]

/-- A wait after some rounds. -/
structure Vigil (σ : Type) where
  surroundings : σ
  happened : List Operation
  elapsed : Nat

/-- The first rounds of a wait, whether or not it goes on for so long. -/
def vigil (next : σ → Client → Round σ) (surroundings : σ) (c : Client) : Nat → Vigil σ
  | 0 => ⟨surroundings, [], 0⟩
  | rounds + 1 =>
    let round := next surroundings c
    let rest := vigil next round.surroundings (c.run round.operations) rounds
    ⟨rest.surroundings, round.operations ++ rest.happened, round.pause + 1 + rest.elapsed⟩

/-- Whether an operation can happen while the caller does nothing but read. -/
def Operation.IsPassive : Operation → Prop
  | .server _ _ => True
  | .process => True
  | _ => False

theorem Round.operations_passive (round : Round σ) :
    ∀ operation ∈ round.operations, operation.IsPassive := by
  intro operation h
  rcases List.mem_append.1 h with hevent | hread
  · obtain ⟨event, -, rfl⟩ := List.mem_map.1 hevent
    trivial
  · rw [List.mem_singleton.1 hread]
    trivial

theorem vigil_passive (next : σ → Client → Round σ) (rounds : Nat) :
    ∀ (surroundings : σ) (c : Client),
      ∀ operation ∈ (vigil next surroundings c rounds).happened, operation.IsPassive := by
  induction rounds with
  | zero => exact fun _ _ _ h => nomatch h
  | succ rounds ih =>
      intro surroundings c operation h
      rcases List.mem_append.1 h with hfirst | hrest
      · exact Round.operations_passive _ operation hfirst
      · exact ih _ _ operation hrest

/-- What has happened after some rounds has happened after more of them. -/
theorem vigil_prefix (next : σ → Client → Round σ) {rounds more : Nat} (hle : rounds ≤ more) :
    ∀ (surroundings : σ) (c : Client),
      (vigil next surroundings c rounds).happened <+:
        (vigil next surroundings c more).happened := by
  induction rounds generalizing more with
  | zero => exact fun _ _ => List.nil_prefix
  | succ rounds ih =>
      intro surroundings c
      cases more with
      | zero => cases hle
      | succ more => exact (List.prefix_append_right_inj _).2 (ih (Nat.le_of_succ_le_succ hle) _ _)

namespace Client

/-! ## Rounds -/

/-- A wait, of which the rounds are known, stops after so many of them and not before. -/
structure StopsAfter (c : Client) (id : SessionId) (status : Status) (limit : Nat)
    (watch : Nat → Vigil σ) (rounds : Nat) (waited : Waited σ) : Prop where
  client : waited.client = c.run (watch rounds).happened
  /-- before the last round there was no reason to stop -/
  waits : ∀ earlier < rounds,
    (c.run (watch earlier).happened).status id = status ∧ (watch earlier).elapsed < limit
  /-- after it there is one, and the status is looked at before the clock -/
  reason : waited.changed = true ∧ waited.client.status id ≠ status ∨
    waited.changed = false ∧ waited.client.status id = status ∧ limit ≤ (watch rounds).elapsed

theorem afterEvents_process (c : Client) (round : Round σ) :
    (c.afterEvents round.events).process.2 = c.run round.operations := by
  rw [Round.operations, run_append]
  rfl

/-- A round that is waited for comes before those of the rest of the wait. -/
theorem StopsAfter.round {next : σ → Client → Round σ} {surroundings : σ} {c : Client}
    {id : SessionId} {status : Status} {limit rounds : Nat} {waited : Waited σ}
    (hsame : c.status id = status) (hlimit : limit ≠ 0)
    (h : (c.run (next surroundings c).operations).StopsAfter id status
      (limit - ((next surroundings c).pause + 1))
      (vigil next (next surroundings c).surroundings (c.run (next surroundings c).operations))
      rounds waited) :
    c.StopsAfter id status limit (vigil next surroundings c) (rounds + 1) waited where
  client := by rw [h.client, vigil, run_append]
  waits := by
    intro earlier hearlier
    cases earlier with
    | zero => exact ⟨hsame, Nat.pos_of_ne_zero hlimit⟩
    | succ earlier =>
        obtain ⟨hstill, helapsed⟩ := h.waits earlier (Nat.lt_of_succ_lt_succ hearlier)
        rw [vigil, run_append]
        exact ⟨hstill, by dsimp only; omega⟩
  reason := by
    rcases h.reason with hchanged | ⟨hchanged, hstill, helapsed⟩
    · exact .inl hchanged
    · refine .inr ⟨hchanged, hstill, ?_⟩
      rw [vigil]
      dsimp only
      omega

theorem waitWhile_stops (next : σ → Client → Round σ) (id : SessionId) (status : Status)
    (limit : Nat) (surroundings : σ) (c : Client) :
    ∃ rounds, c.StopsAfter id status limit (vigil next surroundings c) rounds
      (c.waitWhile next id status limit surroundings) := by
  induction limit, surroundings, c using waitWhile.induct next id status with
  | case1 limit surroundings c hchanged =>
      rw [waitWhile, if_pos hchanged]
      exact ⟨0, rfl, fun _ h => absurd h (Nat.not_lt_zero _), .inl ⟨rfl, hchanged⟩⟩
  | case2 surroundings c hsame =>
      rw [waitWhile, if_neg hsame, if_pos rfl]
      exact ⟨0, rfl, fun _ h => absurd h (Nat.not_lt_zero _),
        .inr ⟨rfl, Decidable.not_not.1 hsame, Nat.zero_le _⟩⟩
  | case3 limit surroundings c hsame hlimit round ih =>
      obtain ⟨rounds, hrest⟩ := ih
      rw [waitWhile, if_neg hsame, if_neg hlimit]
      rw [afterEvents_process] at hrest
      dsimp only
      rw [afterEvents_process]
      exact ⟨rounds + 1, hrest.round (Decidable.not_not.1 hsame) hlimit⟩

/-! ## What a caller does not do -/

theorem not_asksEnd_of_passive {c : Client} {id : SessionId} {number : RequestId}
    {operation : Operation} (h : operation.IsPassive) : ¬ c.AsksEnd id number operation := by
  rintro (⟨rfl, -⟩ | ⟨params, rfl, -⟩) <;> exact h

/-- The client after a session was opened, as a run. -/
theorem run_connect {c d : Client} {command : String} {connection : Connection} {id : SessionId}
    (h : c.connect command connection = (.ok id, d)) (operations : List Operation) :
    c.run (.connect command connection :: operations) = d.run operations := by
  rw [run_cons, step, h]

theorem peer?_of_connect {c d : Client} (hc : c.Ordered) {command : String}
    {connection : Connection} {id : SessionId}
    (h : c.connect command connection = (.ok id, d)) : ∃ p, d.peer? id = some p := by
  have hordered := hc.step (.connect command connection)
  rw [step, h] at hordered
  rcases connect_outcomes c command connection with
    ⟨e, herror⟩ | ⟨e, v, records, -, herror⟩ | ⟨s, v, records, hid, -, hok⟩
  · rw [herror] at h
    cases h
  · rw [herror] at h
    cases h
  · rw [hok] at h
    cases h
    have hl : (c.links ++ [⟨v, some s⟩])[c.links.length]? = some ⟨v, some s⟩ := by simp
    exact ⟨_, peer?_of_getElem? hordered hl (congrArg some hid)⟩

section Handshake

variable {settings : Settings} {processId : Nat} {launcher : Launcher} {command : String}
  {connection : Connection} {id : SessionId} {c : Client}

/-- A session stays registered as long as the caller does nothing but read. -/
theorem peer?_of_passive
    (hconnect : (initial settings processId launcher).connect command connection = (.ok id, c))
    {operations : List Operation} (hpassive : ∀ operation ∈ operations, operation.IsPassive) :
    ∃ p, (c.run operations).peer? id = some p := by
  induction operations using List.reverseRecOn with
  | nil => exact peer?_of_connect (ordered_initial settings processId launcher) hconnect
  | append_singleton earlier operation ih =>
      obtain ⟨p, hp⟩ := ih fun other hother => hpassive other (List.mem_append_left _ hother)
      have hlast := hpassive operation (by simp)
      rw [run_append]
      cases hgone : ((c.run earlier).run [operation]).peer? id with
      | some q => exact ⟨q, rfl⟩
      | none =>
          rw [← run_connect hconnect] at hp hgone
          have hordered := (ordered_initial settings processId launcher).run
            (.connect command connection :: earlier)
          rcases gone_of_step hordered hp hgone with ⟨rfl, hfinished⟩ | ⟨rfl, -⟩ | rfl
          · -- the last message of the read answers a request that nobody sent
            cases ends_of_finished hp hfinished with
            | @granted before between asking _ _ _ hrun hasks =>
                have hasking : asking ∈ before ++ asking :: between := by simp
                rw [← hrun] at hasking
                rcases List.mem_cons.1 hasking with rfl | hearlier
                · rcases hasks with ⟨hclose, -⟩ | ⟨params, hrequest, -⟩
                  · cases hclose
                  · cases hrequest
                · exact absurd hasks
                    (not_asksEnd_of_passive (hpassive _ (List.mem_append_left _ hearlier)))
          · exact hlast.elim
          · exact hlast.elim

/-- What is known of a session that is waited for. -/
theorem greeting_of_passive
    (hconnect : (initial settings processId launcher).connect command connection = (.ok id, c))
    {operations : List Operation} (hpassive : ∀ operation ∈ operations, operation.IsPassive) :
    ∃ p, (c.run operations).peer? id = some p ∧
      p.session.Greeting ((initial settings processId launcher).history id
        (.connect command connection :: operations)) := by
  obtain ⟨p, hp⟩ := peer?_of_passive hconnect hpassive
  refine ⟨p, hp, greeting_of_run ?_⟩
  rw [run_connect hconnect]
  exact session?_of_peer? hp

end Handshake

/-! ## After the end of the output -/

/-- Nothing is noted of a session whose output has ended, and nothing changes it. -/
theorem deaf_step {c : Client} (hc : c.Ordered) {id : SessionId} {p : Peer}
    (hp : c.peer? id = some p) (hended : p.session.outputEnded = true) {operation : Operation}
    (hpassive : operation.IsPassive) :
    c.eventsOf id operation = [] ∧
      ∃ q, (c.step operation).2.peer? id = some q ∧ q.session.outputEnded = true := by
  obtain ⟨index, l, hl, hid⟩ := exists_link_of_peer? hp
  have hpeer : l.peer? = some p := by rw [← peer?_of_getElem? hc hl hid, hp]
  obtain ⟨s, hs, rfl⟩ := Option.map_eq_some_iff.1 hpeer
  have hafter := getElem?_step hc hl operation
  have hsame : (l.after c.settings.debug index operation).session = some s := by
    cases operation with
    | server target event =>
        have hconcerned : l.concerned? (.server target event) = none := rfl
        rw [(Link.after_of_not_concerned hconcerned).1, hs]
    | process =>
        have hconcerned : l.concerned? .process = _ := hpeer
        rw [Link.after_of_concerned hconcerned, Peer.upshot,
          Peer.pump_of_ended hended]
        rfl
    | _ => exact hpassive.elim
  have hid' : (l.after c.settings.debug index operation).id? = some id := by
    rw [Link.id?, hsame, ← hid, Link.id?, hs]
  refine ⟨?_, { session := s, server := (l.after c.settings.debug index operation).server }, ?_,
    hended⟩
  · rw [eventsOf_of_peer? hp]
    cases operation with
    | server target event => rfl
    | process => exact if_pos hended
    | _ => exact hpassive.elim
  · rw [peer?_of_getElem? (hc.step operation) hafter hid', Link.peer?, hsame]
    rfl

theorem deaf_run {id : SessionId} (operations : List Operation) {c : Client} (hc : c.Ordered)
    {p : Peer} (hp : c.peer? id = some p) (hended : p.session.outputEnded = true)
    (hpassive : ∀ operation ∈ operations, operation.IsPassive) : c.history id operations = [] := by
  induction operations generalizing c p with
  | nil => rfl
  | cons operation rest ih =>
      rw [List.forall_mem_cons] at hpassive
      obtain ⟨hnothing, q, hq, hstill⟩ := deaf_step hc hp hended hpassive.1
      rw [history, hnothing, List.nil_append]
      exact ih (hc.step operation) hq hstill hpassive.2

/-! ## The two outcomes -/

/-- Whether a handshake has failed: it was answered with an error, or the output of the
server has ended before it was accepted. -/
inductive Failed (c : Client) (id : SessionId) (history : List Event) : Prop where
  | rejected {r : Response} (hanswer : firstAnswer? .first history = some r)
      (herror : r.error ≠ none)
  | ended (hdead : c.isAlive id = false)
      (hnone : ∀ r, firstAnswer? .first history = some r → r.error ≠ none)

/-- What a wait for a handshake comes to, whatever the server does in it. -/
structure HandshakeWait (next : σ → Client → Round σ) (surroundings : σ) (limit : Nat)
    (id : SessionId) (c : Client) (history : List Operation → List Event)
    (waited : Waited σ) : Prop where
  /-- if it is over in time, there is something to report -/
  greeted : waited.changed = true → ∃ s info, waited.client.session? id = some s ∧
    s.status = .connected ∧ s.info = some info
  /-- else the wait goes on to the deadline, with the session still registered -/
  overdue : waited.changed = false → ∃ s rounds, waited.client.session? id = some s ∧
    s.status = .connecting ∧
    waited.client = c.run (vigil next surroundings c rounds).happened ∧
    limit ≤ (vigil next surroundings c rounds).elapsed ∧
    ∀ earlier < rounds, (vigil next surroundings c earlier).elapsed < limit
  /-- a handshake that fails sooner or later is never over in time -/
  failed : ∀ rounds, Failed (c.run (vigil next surroundings c rounds).happened) id
    (history (vigil next surroundings c rounds).happened) → waited.changed = false

theorem error_of_welcomed {history : List Event} (h : Welcomed history) :
    ∃ r, firstAnswer? .first history = some r ∧ r.error = none := by
  obtain ⟨before, r, made, after, rfl, hfirst, hid, herror, -⟩ := h
  exact ⟨r, firstAnswer?_of_split hfirst hid, herror⟩

theorem Failed.not_welcomed {c : Client} {id : SessionId} {history : List Event}
    (h : c.Failed id history) : ¬ Welcomed history := by
  intro hwelcomed
  obtain ⟨r, hr, herror⟩ := error_of_welcomed hwelcomed
  cases h with
  | rejected hanswer hrejected =>
      obtain rfl := Option.some.inj (hanswer.symm.trans hr)
      exact hrejected herror
  | ended hdead hnone => exact hnone r hr herror

section Handshake

variable {settings : Settings} {processId : Nat} {launcher : Launcher} {command : String}
  {connection : Connection} {id : SessionId} {c : Client}

/-- A handshake that has failed does not succeed later. -/
theorem Failed.not_welcomed_later
    (hconnect : (initial settings processId launcher).connect command connection = (.ok id, c))
    {operations later : List Operation}
    (hpassive : ∀ operation ∈ operations ++ later, operation.IsPassive)
    (h : (c.run operations).Failed id ((initial settings processId launcher).history id
      (.connect command connection :: operations))) :
    ¬ Welcomed ((initial settings processId launcher).history id
      (.connect command connection :: (operations ++ later))) := by
  rw [← List.cons_append, history_append, run_connect hconnect]
  cases h with
  | rejected hanswer hrejected =>
      have hlater : c.Failed id ((initial settings processId launcher).history id
          (.connect command connection :: operations) ++ (c.run operations).history id later) :=
        .rejected (by rw [firstAnswer?_append, hanswer]; rfl) hrejected
      exact hlater.not_welcomed
  | ended hdead hnone =>
      obtain ⟨p, hp⟩ := peer?_of_passive hconnect fun operation hoperation =>
        hpassive operation (List.mem_append_left _ hoperation)
      have hended := ended_of_dead hp hdead
      have hordered := (ordered_initial settings processId launcher).run
        (.connect command connection :: operations)
      rw [run_connect hconnect] at hordered
      rw [deaf_run later hordered hp hended fun operation hoperation =>
        hpassive operation (List.mem_append_right _ hoperation), List.append_nil]
      exact Failed.not_welcomed (.ended hdead hnone)

theorem wait_of_connect
    (hconnect : (initial settings processId launcher).connect command connection = (.ok id, c))
    (next : σ → Client → Round σ) (surroundings : σ) (limit : Nat) :
    HandshakeWait next surroundings limit id c
      (fun operations => (initial settings processId launcher).history id
        (.connect command connection :: operations))
      (c.waitWhile next id .connecting limit surroundings) := by
  obtain ⟨rounds, hstops⟩ := waitWhile_stops next id .connecting limit surroundings c
  have hpassive := vigil_passive next
  obtain ⟨p, hp, greeting⟩ := greeting_of_passive hconnect (hpassive rounds surroundings c)
  have hsession := session?_of_peer? hp
  rw [← hstops.client] at hsession
  have hstatus : (c.waitWhile next id .connecting limit surroundings).client.status id =
      p.session.status := by
    rw [status, hsession]
  have hconnected : (c.waitWhile next id .connecting limit surroundings).changed = true →
      p.session.status = .connected := by
    intro hchanged
    rcases hstops.reason with ⟨-, hleft⟩ | ⟨hsame, -⟩
    · rw [hstatus] at hleft
      cases hnow : p.session.status with
      | notConnected => exact absurd hnow greeting.registered
      | connecting => exact absurd hnow hleft
      | connected => rfl
    · rw [hsame] at hchanged
      cases hchanged
  refine ⟨fun hchanged => ?_, fun hsame => ?_, fun failing hfailed => ?_⟩
  · obtain ⟨r, hr, herror⟩ := error_of_welcomed (greeting.connected.1 (hconnected hchanged))
    refine ⟨p.session, .ofResult r.result, hsession, hconnected hchanged, ?_⟩
    rw [greeting.info, hr, Option.bind_some, Response.announced?, herror]
  · rcases hstops.reason with ⟨hchanged, -⟩ | ⟨-, hstill, hlimit⟩
    · rw [hsame] at hchanged
      cases hchanged
    · exact ⟨p.session, rounds, hsession, hstatus ▸ hstill, hstops.client, hlimit,
        fun earlier hearlier => (hstops.waits earlier hearlier).2⟩
  · by_contra hchanged
    have hwelcomed := greeting.connected.1 (hconnected (by simpa using hchanged))
    rcases Nat.le_total failing rounds with hle | hle
    · obtain ⟨later, hlater⟩ := vigil_prefix next hle surroundings c
      have hall := hpassive rounds surroundings c
      rw [← hlater] at hall hwelcomed
      exact hfailed.not_welcomed_later hconnect hall hwelcomed
    · -- what is heard after the wait does not undo an answer
      obtain ⟨later, hlater⟩ := vigil_prefix next hle surroundings c
      refine hfailed.not_welcomed ?_
      rw [← hlater, ← List.cons_append, history_append]
      exact hwelcomed.append _

/-- A client that has waited is one that a run leads to. -/
theorem kept_of_wait
    (hconnect : (initial settings processId launcher).connect command connection = (.ok id, c))
    (next : σ → Client → Round σ) (surroundings : σ) (limit : Nat) :
    (c.waitWhile next id .connecting limit surroundings).client.Ordered ∧
      (c.waitWhile next id .connecting limit surroundings).client.AllHeld := by
  obtain ⟨rounds, hstops⟩ := waitWhile_stops next id .connecting limit surroundings c
  have hordered := ordered_initial settings processId launcher
  rw [hstops.client, ← run_connect hconnect]
  exact ⟨hordered.run _, ((allHeld_initial settings processId launcher).run _ hordered).1⟩

end Handshake

/-- All that keeps a registered session from being closed is that its server cannot be
written to. -/
theorem close_refused {c : Client} (hc : c.Ordered) (hheld : c.AllHeld) {id : SessionId} {p : Peer}
    (hp : c.peer? id = some p) {e : ClientError} (h : (c.close id).1 = .error e) :
    ∃ reason, e = .transport (.io reason) := by
  have hreply : (c.step (.close id)).1 = .refused e := congrArg Reply.ofUnit h
  have hscope : (Operation.close id).scope = .session id := rfl
  rw [step_of_target hc hscope hp] at hreply
  rcases Peer.close_outcomes (hheld.opened hc hp) c.settings.debug id with ⟨failure, -, -, hrefused, -⟩ | ⟨-, hdone, -⟩
  · exact ⟨failure.message, Reply.refused.inj (hreply.symm.trans hrefused)⟩
  · rw [hdone] at hreply
    cases hreply

end Client

/-! ## The probe -/

namespace Program

open CommandLine (ProbeRequest)

theorem first_append {s : String} {letter : Char} (h : s.toList.head? = some letter)
    (t : String) : (s ++ t).toList.head? = some letter := by
  rw [String.toList_append, List.head?_append, h]
  rfl

theorem last_append (s : String) {t : String} {letter : Char}
    (h : t.toList.getLast? = some letter) : (s ++ t).toList.getLast? = some letter := by
  rw [String.toList_append, List.getLast?_append, h]
  rfl

theorem first_of_exited (request : ProbeRequest) :
    (ProbeFailure.exited.message request).toList.head? = some '\'' :=
  first_append (first_append (by decide +kernel) request.server) _

/-- The two texts about the handshake differ in how they end. -/
theorem ProbeFailure.handshakeTimeout_ne (request : ProbeRequest) :
    ProbeFailure.handshakeTimeout.message request ≠ ProbeFailure.exited.message request := by
  intro h
  have hexited : (ProbeFailure.exited.message request).toList.getLast? = some 'e' :=
    last_append ("'" ++ request.server) (by decide +kernel)
  have htimeout : (ProbeFailure.handshakeTimeout.message request).toList.getLast? = some 's' :=
    last_append ("'" ++ request.server ++ "' did not complete the handshake within " ++
      toString request.timeout) (by decide +kernel)
  rw [h, hexited] at htimeout
  cases htimeout

theorem ProbeFailure.leave_ne (request : ProbeRequest) (reason : String) :
    (ProbeFailure.leave (.transport (.io reason))).message request ≠
      ProbeFailure.exited.message request := by
  intro h
  have hexited := first_of_exited request
  have hleave : ((ProbeFailure.leave (.transport (.io reason))).message request).toList.head? =
      some 's' := first_append (by decide +kernel) reason
  rw [h, hexited] at hleave
  cases hleave

theorem Outcome.failed_ne {request : ProbeRequest} {failure other : ProbeFailure}
    (h : failure.message request ≠ other.message request) (output : String)
    (client : Option Client) :
    (Outcome.failed (failure.message request) output client).complaint ≠
      some ("Error: " ++ other.message request) :=
  fun heq => h ((String.append_right_inj _).1 (Option.some.inj heq))

theorem takeLeave_refused {next : σ → Client → Round σ} {request : ProbeRequest}
    {id : SessionId} {surroundings : σ} {c : Client} {e : ClientError}
    (h : (takeLeave next request id surroundings c).1 = .error e) :
    (c.close id).1 = .error e := by
  rw [takeLeave] at h
  split at h
  · next hclose =>
      rw [hclose]
      exact h
  · cases h

variable {settings : Settings} {processId : Nat} {launcher : Launcher} {command : String}
  {connection : Connection} {id : SessionId} {c : Client}

/-- A conversation does not fail for want of something to report, whatever happens in it. -/
theorem converse_complaint_ne
    (hconnect : (Client.initial settings processId launcher).connect command connection =
      (.ok id, c)) (next : σ → Client → Round σ) (request : ProbeRequest) (colours : Bool)
    (surroundings : σ) : (converse next request id colours surroundings c).complaint ≠
      some ("Error: " ++ ProbeFailure.exited.message request) := by
  have hwait := Client.wait_of_connect hconnect next surroundings request.timeout
  rw [converse]
  dsimp only
  split
  · exact Outcome.failed_ne (ProbeFailure.handshakeTimeout_ne request) _ _
  · next hchanged =>
      obtain ⟨s, info, hs, -, hinfo⟩ := hwait.greeted (by simpa using hchanged)
      rw [Client.serverInfo?, hs, Option.bind_some, hinfo]
      dsimp only
      split
      · next e d hleave =>
          obtain ⟨hordered, hheld⟩ :=
            Client.kept_of_wait hconnect next surroundings request.timeout
          rw [Client.session?_eq] at hs
          obtain ⟨p, hp, -⟩ := Option.map_eq_some_iff.1 hs
          obtain ⟨reason, rfl⟩ := Client.close_refused hordered hheld hp
            (takeLeave_refused (congrArg Prod.fst hleave))
          exact Outcome.failed_ne (ProbeFailure.leave_ne request reason) _ _
      · exact nofun

theorem ProbeFailure.start_ne (request : ProbeRequest) :
    ProbeFailure.start.message request ≠ ProbeFailure.exited.message request := by
  intro h
  have hexited := first_of_exited request
  have hstart : (ProbeFailure.start.message request).toList.head? = some 'f' :=
    first_append (first_append (by decide +kernel) request.server) _
  rw [h, hexited] at hstart
  cases hstart

/-- No probe ends in saying that the server exited during the handshake. -/
theorem probe_complaint_ne (s : Surroundings) (settings : Settings) (request : ProbeRequest) :
    (probe s settings request).complaint ≠
      some ("Error: " ++ ProbeFailure.exited.message request) := by
  rw [probe]
  dsimp only
  split
  · exact Outcome.failed_ne (ProbeFailure.start_ne request) _ _
  · split
    · exact Outcome.failed_ne (ProbeFailure.start_ne request) _ _
    · next hconnect => exact converse_complaint_ne hconnect Attachment.next request _ _

/-- A wait for the handshake comes to a report or to the deadline, and to the deadline
if the handshake fails. So no conversation ends in between, whatever its server does. -/
theorem outcomes_of_connect
    (hconnect : (Client.initial settings processId launcher).connect command connection =
      (.ok id, c)) :
    ∀ (σ : Type) (next : σ → Client → Round σ) (surroundings : σ),
      (∀ limit, Client.HandshakeWait next surroundings limit id c
        (fun operations => (Client.initial settings processId launcher).history id
          (.connect command connection :: operations))
        (c.waitWhile next id .connecting limit surroundings)) ∧
      ∀ request colours, (converse next request id colours surroundings c).complaint ≠
        some ("Error: " ++ ProbeFailure.exited.message request) :=
  fun _ next surroundings =>
    ⟨Client.wait_of_connect hconnect next surroundings, fun request colours =>
      converse_complaint_ne hconnect next request colours surroundings⟩

/-- Surroundings in which the server does in each round what is written down for it. -/
def scripted (script : List (List ServerEvent)) (_ : Client) : Round (List (List ServerEvent)) where
  events := (script.headD []).map fun event => (0, event)
  pause := 0
  surroundings := script.tail

/-- A server that rejects the handshake, and accepts it a round later. -/
def secondThoughts : List (List ServerEvent) :=
  [[.emit (Wire.frameText "\x7b\"id\":1,\"error\":null\x7d")],
    [.emit (Wire.frameText "\x7b\"id\":1,\"result\":null\x7d")]]

theorem outcomes_of_secondThoughts :
    ∃ c, (Client.initial {} 0 {}).connect "server" {} = (.ok 1, c) ∧
      (c.waitWhile scripted 1 .connecting 5 secondThoughts).changed = false := by
  have hopened : ((Client.initial {} 0 {}).connect "server" {}).1.toOption = some 1 := by
    decide +kernel
  have hrejected : ((firstAnswer? .first ((Client.initial {} 0 {}).history 1
      (.connect "server" {} :: (vigil scripted secondThoughts
        ((Client.initial {} 0 {}).connect "server" {}).2 1).happened))).map
          fun r => r.error.isSome) = some true := by
    decide +kernel
  obtain ⟨r, hanswer, herror⟩ := Option.map_eq_some_iff.1 hrejected
  cases hresult : (Client.initial {} 0 {}).connect "server" {} with
  | mk result c =>
      rw [hresult] at hopened hanswer
      cases result with
      | error e => cases hopened
      | ok id =>
          obtain rfl : id = 1 := Option.some.inj hopened
          refine ⟨c, rfl, ((outcomes_of_connect hresult _ scripted secondThoughts).1 5).failed 1 ?_⟩
          exact .rejected hanswer (Option.isSome_iff_ne_none.1 herror)

end Program

end LspClient
