import LspClient.Proofs.Client.Passages
import LspClient.Proofs.Wire.Chunking

/-!
# Reads that get nowhere

A caller that reads until a read gets nowhere may stop: nothing is left that a further
read could bring up. For this no session may hold a complete frame between two reads,
and asking its buffer once more must not change it. Both are so in every run
(`sifted_of_run`), since only reads put octets into a buffer and every read takes out
what is complete (`Wire.FrameBuffer.next_drain`).

A read gets nowhere if no server has a chunk of output waiting, and all that it then does
is to note where the output has ended. It stays like this as long as no server puts out
anything and the caller does nothing but read. A server may still end its output in the
meantime, and then the next read notes that, which is no progress either. So such reads
change nothing but the one mark, and nothing at all if no output ends.
-/

namespace LspClient

open Json (Value)

namespace Peer

/-! ## Buffers between reads -/

theorem request_frames (keep : Bool) (p : Peer) (method : String) (params : Value) :
    (p.request keep method params).2.session.frames = p.session.frames := by
  have hsend := send_session keep { p with session := p.session.numbered }
    (Envelope.request p.session.nextRequest method params)
  rw [request_eq]
  split
  all_goals
    next heq =>
      rw [heq] at hsend
      have hframes := congrArg Session.frames hsend
      exact hframes

theorem receiveMessage_frames (keep : Bool) (p : Peer) (m : Incoming) :
    (p.receiveMessage keep m).1.session.frames = p.session.frames := by
  cases m with
  | request id method params => exact congrArg Session.frames (send_session keep p _)
  | notification method params => rfl
  | response r =>
      rw [receiveMessage, receiveResponse]
      split
      · rfl
      · next entry _ =>
          dsimp only
          split
          · obtain ⟨info, status, heq⟩ := (p.session.retire entry.id).greeted_eq r
            rw [finishHandshake_session, heq]
            rfl
          · split
            · have hsession := notify_session keep { p with session := p.session.retire entry.id }
                Lifecycle.leaving.method .null
              have hframes := congrArg Session.frames hsession
              exact hframes
            · rfl

theorem receiveBody_frames (keep : Bool) (p : Peer) (body : List UInt8) :
    (p.receiveBody keep body).1.session.frames = p.session.frames := by
  rw [receiveBody]
  split
  · rfl
  · dsimp only
    split
    · rw [record_session]
    · rw [receiveMessage_frames, record_session]

theorem receiveAll_frames (keep : Bool) (results : List Wire.FrameResult) :
    ∀ p : Peer, (p.receiveAll keep results).1.session.frames = p.session.frames := by
  induction results with
  | nil => exact fun p => rfl
  | cons result rest ih =>
      intro p
      cases result with
      | error e => exact ih p
      | ok body =>
          have hbody := receiveBody_frames keep p body
          rw [receiveAll]
          cases hreceived : p.receiveBody keep body with
          | mk q ended =>
              rw [hreceived] at hbody
              cases ended with
              | true => exact hbody
              | false => exact (ih q).trans hbody

end Peer

/-- No complete frame is left in the buffer of a session, and asking for one changes
nothing. -/
def Session.Sifted (s : Session) : Prop :=
  s.frames.next = (none, s.frames)

def Link.Sifted (l : Link) : Prop :=
  ∀ s, l.session = some s → s.Sifted

theorem Link.sifted_of_frames {s t : Session} {v : Server} (h : s.Sifted)
    (hframes : t.frames = s.frames) : Link.Sifted ⟨v, some t⟩ := by
  intro u hu
  obtain rfl := Option.some.inj hu
  rw [Session.Sifted, hframes]
  exact h

/-- Without a session there is no buffer. -/
theorem Link.sifted_of_none (v : Server) : Link.Sifted ⟨v, none⟩ := by
  intro s hs
  cases hs

namespace Peer

open Link (sifted_of_frames sifted_of_none)

theorem pump_sifted (keep : Bool) {p : Peer} (h : p.session.Sifted) :
    (p.pump keep).peer.session.Sifted := by
  cases hended : p.session.outputEnded with
  | true =>
      rw [pump_of_ended hended]
      exact h
  | false =>
      rw [pump_of_open hended, Session.Sifted, receiveAll_frames]
      exact Wire.FrameBuffer.next_drain _

theorem upshot_sifted (keep : Bool) {p : Peer} (h : p.session.Sifted) (operation : Operation) :
    (p.upshot keep operation).link.Sifted := by
  cases operation with
  | close id =>
      have hframes := request_frames keep p Lifecycle.ending.method .null
      rw [upshot, endSession]
      split
      · exact sifted_of_frames h rfl
      · cases hrequest : p.request keep Lifecycle.ending.method .null with
        | mk result q =>
            rw [hrequest] at hframes
            cases result with
            | ok number => exact sifted_of_frames h hframes
            | error e => exact sifted_of_none _
  | request id method params =>
      have hframes := request_frames keep p method params
      rw [upshot]
      split
      · exact sifted_of_frames h rfl
      · cases hrequest : p.request keep method params with
        | mk result q =>
            rw [hrequest] at hframes
            cases result <;> exact sifted_of_frames h hframes
  | notify id method params =>
      have hframes := congrArg Session.frames (notify_session keep p method params)
      rw [upshot]
      split
      · exact sifted_of_frames h rfl
      · cases hnotify : p.notify keep method params with
        | mk result q =>
            rw [hnotify] at hframes
            cases result <;> exact sifted_of_frames h hframes
  | process =>
      intro s hs
      change (if (p.pump keep).finished then none else some (p.pump keep).peer.session) = some s
        at hs
      split at hs
      · cases hs
      · obtain rfl := Option.some.inj hs
        exact pump_sifted keep h
  | shutdown => exact sifted_of_none _
  | _ => exact sifted_of_frames h rfl

theorem opening_sifted (keep : Bool) {p : Peer} (h : p.session.Sifted) (params : Value) :
    (p.opening keep params).link.Sifted := by
  have hframes := request_frames keep p Lifecycle.opening.method params
  rw [opening, openSession]
  cases hrequest : p.request keep Lifecycle.opening.method params with
  | mk result q =>
      rw [hrequest] at hframes
      cases result with
      | ok number => exact sifted_of_frames h hframes
      | error e => exact sifted_of_none _

end Peer

theorem Link.Sifted.after {l : Link} (h : l.Sifted) (keep : Bool) (index : Nat)
    (operation : Operation) : (l.after keep index operation).Sifted := by
  cases hconcerned : l.concerned? operation with
  | some p =>
      obtain ⟨s, hs, rfl⟩ := Option.map_eq_some_iff.1 (peer?_of_concerned hconcerned)
      rw [after_of_concerned hconcerned]
      exact Peer.upshot_sifted keep (h s hs) operation
  | none =>
      rw [Link.Sifted, (after_of_not_concerned hconcerned).1]
      exact h

namespace Client

theorem sifted_step {c : Client} (hc : c.Ordered) (h : ∀ l ∈ c.links, l.Sifted)
    (operation : Operation) : ∀ l ∈ (c.step operation).2.links, l.Sifted := by
  intro l hl
  obtain ⟨index, hindex⟩ := List.getElem?_of_mem hl
  cases hold : c.links[index]? with
  | some old =>
      rw [getElem?_step hc hold, Option.some.injEq] at hindex
      rw [← hindex]
      exact (h old (List.mem_of_getElem? hold)).after c.settings.debug index operation
  | none =>
      obtain ⟨-, command, connection, server, -, -, rfl⟩ := getElem?_step_new hc hold hindex
      refine Peer.opening_sifted _ ?_ _
      rfl

/-- Between two operations no session holds a complete frame. -/
theorem sifted_of_run (operations : List Operation) {c : Client} (hc : c.Ordered)
    (h : ∀ l ∈ c.links, l.Sifted) : ∀ l ∈ (c.run operations).links, l.Sifted := by
  induction operations generalizing c with
  | nil => exact h
  | cons operation rest ih => exact ih (hc.step operation) (sifted_step hc h operation)

end Client

/-! ## Servers with nothing to read -/

namespace Server

/-- No chunk of output waits to be read. -/
def Silent (v : Server) : Prop :=
  v.closed = true ∨ v.output = []

/-- Whether the output has ended and has been read. -/
def exhausted (v : Server) : Bool :=
  v.closed || v.output.isEmpty && v.outputEnded

theorem read_of_silent {v : Server} (h : v.Silent) :
    v.read = (if v.exhausted then .error .closed else .ok none, v) := by
  obtain ⟨command, args, process, output, writes, outputEnded, failure, closed⟩ := v
  cases closed with
  | true => rfl
  | false =>
      obtain rfl : output = [] := h.resolve_left Bool.false_ne_true
      cases outputEnded <;> rfl

theorem read_of_not_silent {v : Server} (h : ¬ v.Silent) :
    ∃ chunk, v.read.1 = .ok (some chunk) := by
  obtain ⟨command, args, process, output, writes, outputEnded, failure, closed⟩ := v
  cases closed with
  | true => exact absurd (.inl rfl) h
  | false =>
      cases output with
      | nil => exact absurd (.inr rfl) h
      | cons chunk rest => exact ⟨chunk, rfl⟩

end Server

/-- The session, with the end of the output noted if it is there. -/
def Session.noting (ended : Bool) (s : Session) : Session :=
  { s with outputEnded := s.outputEnded || ended }

/-- The link, with the end of the server's output noted if all of it has been read. -/
def Link.noted (l : Link) : Link :=
  { l with session := l.session.map (Session.noting l.server.exhausted) }

/-- A link whose session has nothing to read. -/
def Link.Quiet (l : Link) : Prop :=
  ∀ s, l.session = some s → s.outputEnded = true ∨ l.server.Silent

namespace Peer

/-- If a read gets nowhere, there is nothing to read. -/
theorem quiet_of_pump {keep : Bool} {p : Peer} (h : (p.pump keep).progressed = false) :
    p.session.outputEnded = true ∨ p.server.Silent := by
  cases hended : p.session.outputEnded with
  | true => exact .inl rfl
  | false =>
      right
      by_contra hsilent
      obtain ⟨chunk, hread⟩ := Server.read_of_not_silent hsilent
      have hchunk : p.readChunk.2 = true := by
        rw [readChunk]
        cases hresult : p.server.read with
        | mk result server =>
            rw [hresult] at hread
            obtain rfl : result = .ok (some chunk) := hread
            rfl
      rw [pump_of_open hended, hchunk] at h
      cases h

/-- If there is nothing to read, a read notes the end of the output at most. -/
theorem pump_of_quiet (keep : Bool) {p : Peer} (hsifted : p.session.Sifted)
    (h : p.session.outputEnded = true ∨ p.server.Silent) :
    p.pump keep = ⟨{ p with session := p.session.noting p.server.exhausted }, false, false⟩ := by
  cases hended : p.session.outputEnded with
  | true =>
      have hsame : p.session.noting p.server.exhausted = p.session := by
        rw [Session.noting, hended, Bool.true_or, ← hended]
      rw [pump_of_ended hended, hsame]
  | false =>
      have hsilent : p.server.Silent := h.resolve_left (by rw [hended]; exact Bool.false_ne_true)
      have hread := Server.read_of_silent hsilent
      have hchunk : p.readChunk =
          ({ p with session := p.session.noting p.server.exhausted }, false) := by
        rw [readChunk, hread, Session.noting]
        cases p.server.exhausted with
        | true => rw [Bool.or_true]; rfl
        | false => rw [Bool.or_false]; rfl
      have hdrain : p.session.frames.drain = ([], p.session.frames) :=
        Wire.FrameBuffer.drain_of_none hsifted
      have hfetched : p.fetched = { p with session := p.session.noting p.server.exhausted } := by
        rw [fetched, hchunk]
        dsimp only [Session.noting]
        rw [hdrain]
      have hframes : p.fetchedFrames = [] := by
        rw [fetchedFrames, hchunk]
        exact congrArg Prod.fst hdrain
      rw [pump_of_open hended, hfetched, hframes, hchunk]
      rfl

end Peer

namespace Link

theorem quiet_of_pumpLink {keep : Bool} {l : Link}
    (h : (Client.pumpLink keep l).progressed = false) : l.Quiet := by
  obtain ⟨server, session⟩ := l
  intro s hs
  obtain rfl : session = some s := hs
  exact Peer.quiet_of_pump (p := { session := s, server }) h

theorem pumpLink_of_quiet (keep : Bool) {l : Link} (hsifted : l.Sifted) (h : l.Quiet) :
    Client.pumpLink keep l = ⟨l.noted, [], false⟩ := by
  obtain ⟨server, session⟩ := l
  cases session with
  | none => rfl
  | some s =>
      have hpump := Peer.pump_of_quiet keep (p := { session := s, server }) (hsifted s rfl)
        (h s rfl)
      rw [Client.pumpLink]
      dsimp only
      rw [hpump]
      rfl

theorem noted_of_same {l l' : Link} (hsession : l'.session = l.session)
    (hexhausted : l'.server.exhausted = l.server.exhausted) (h : l.noted = l) : l'.noted = l' := by
  have hsame : l.session.map (Session.noting l.server.exhausted) = l.session :=
    congrArg Link.session h
  rw [noted, hsession, hexhausted, hsame, ← hsession]

theorem noted_noted (l : Link) : l.noted.noted = l.noted := by
  obtain ⟨server, session⟩ := l
  cases session with
  | none => rfl
  | some s => simp [noted, Session.noting]

theorem Quiet.noted {l : Link} (h : l.Quiet) : l.noted.Quiet := by
  intro t ht
  obtain ⟨s, hs, rfl⟩ := Option.map_eq_some_iff.1 ht
  exact (h s hs).imp_left fun hended => by rw [Session.noting, hended, Bool.true_or]

theorem Sifted.noted {l : Link} (h : l.Sifted) : l.noted.Sifted := by
  intro t ht
  obtain ⟨s, hs, rfl⟩ := Option.map_eq_some_iff.1 ht
  exact h s hs

end Link

/-! ## While nothing is put out -/

/-- Whether an operation is one more read, or a happening around the client by which no
server puts out anything. -/
def Operation.IsIdle (c : Client) : Operation → Prop
  | .process => True
  | .server index event => ∀ v, c.server? index = some v → (event.apply v).output = v.output
  | .lose _ => True
  | .failNewServers _ => True
  | _ => False

/-- The server without what says that its output ends or that writes to it fail. -/
def Server.unflagged (v : Server) : Server :=
  { v with writeFailure := none, outputEnded := false }

/-- The session without what says whether it is alive. -/
def Session.unflagged (s : Session) : Session :=
  { s with outputEnded := false }

def Link.unflagged (l : Link) : Link where
  server := l.server.unflagged
  session := l.session.map Session.unflagged

/-- An event by which a server puts out nothing changes flags at most, and ends the output
only if that is the event. -/
theorem ServerEvent.apply_of_idle {v : Server} {event : ServerEvent}
    (h : (event.apply v).output = v.output) :
    (event.apply v).unflagged = v.unflagged ∧ (event.apply v).closed = v.closed ∧
      (event ≠ .endOutput → (event.apply v).outputEnded = v.outputEnded) := by
  cases event with
  | emit chunk => simp [apply, Server.emit] at h
  | endOutput => exact ⟨rfl, rfl, fun hends => absurd rfl hends⟩
  | failWrites failure => exact ⟨rfl, rfl, fun _ => rfl⟩
  | answer method result =>
      have hnone : v.lastRequest? method = none := by
        cases hlast : v.lastRequest? method with
        | none => rfl
        | some id =>
            simp [apply, Server.answer, hlast, Server.emitMessage, Server.emitBody,
              Server.emit] at h
      have hsame : apply v (.answer method result) = v := by
        show (v.answer method result).2 = v
        rw [Server.answer, hnone]
      rw [hsame]
      exact ⟨rfl, rfl, fun _ => rfl⟩

namespace Client

/-- The client with the ends of outputs noted that have been read to the end. -/
def noted (c : Client) : Client :=
  { c with links := c.links.map Link.noted }

/-- The client without what says whether sessions are alive, whether outputs end and
whether servers can be started and written to. -/
def unflagged (c : Client) : Client :=
  { c with launcher := {}, links := c.links.map Link.unflagged }

/-- The caller does nothing but read, and no server puts out anything. -/
def Undisturbed (c : Client) : List Operation → Prop
  | [] => True
  | operation :: rest => operation.IsIdle c ∧ (c.step operation).2.Undisturbed rest

/-- A client none of whose sessions has anything to read or to hand out. -/
structure Quiet (c : Client) : Prop where
  sifted : ∀ l ∈ c.links, l.Sifted
  quiet : ∀ l ∈ c.links, l.Quiet

theorem process_of_quiet {c : Client} (h : c.Quiet) : c.process = (false, c.noted) := by
  have hpumped : c.links.map (pumpLink c.settings.debug) =
      c.links.map fun l => ⟨l.noted, [], false⟩ :=
    List.map_congr_left fun l hl => Link.pumpLink_of_quiet _ (h.sifted l hl) (h.quiet l hl)
  rw [process, hpumped]
  simp [noted, Function.comp_def]

/-- If a read gets nowhere, nothing is left to read. -/
theorem quiet_of_process {c : Client} (hsifted : ∀ l ∈ c.links, l.Sifted)
    (h : c.process.1 = false) : c.Quiet := by
  refine ⟨hsifted, fun l hl => ?_⟩
  have hnone : ∀ pumped ∈ c.links.map (pumpLink c.settings.debug), pumped.progressed = false := by
    simpa [process] using h
  exact Link.quiet_of_pumpLink (hnone _ (List.mem_map_of_mem hl))

theorem Quiet.noted {c : Client} (h : c.Quiet) : c.noted.Quiet := by
  constructor
  all_goals
    intro l hl
    obtain ⟨old, hold, rfl⟩ := List.mem_map.1 hl
  · exact (h.sifted old hold).noted
  · exact (h.quiet old hold).noted

theorem unflagged_noted (c : Client) : c.noted.unflagged = c.unflagged := by
  have hlinks : (c.links.map Link.noted).map Link.unflagged = c.links.map Link.unflagged := by
    rw [List.map_map]
    refine List.map_congr_left fun l _ => ?_
    obtain ⟨server, session⟩ := l
    cases session <;> rfl
  rw [unflagged, noted, hlinks]
  rfl

theorem noted_of_all {c : Client} (h : ∀ l ∈ c.links, l.noted = l) : c.noted = c := by
  have hlinks : c.links.map Link.noted = c.links :=
    (List.map_congr_left h).trans (List.map_id c.links)
  rw [noted, hlinks]

/-- A link after an event at some server by which that puts out nothing. -/
theorem link_of_event {c : Client} {target : Nat} {event : ServerEvent}
    (hidle : (Operation.server target event).IsIdle c) {l : Link}
    (hl : l ∈ (c.step (.server target event)).2.links) :
    ∃ old ∈ c.links, l.session = old.session ∧ (old.server.Silent → l.server.Silent) ∧
      (event ≠ .endOutput → l.server.exhausted = old.server.exhausted) := by
  obtain ⟨index, hindex⟩ := List.getElem?_of_mem hl
  change (c.links.modify target fun l => { l with server := event.apply l.server })[index]? =
    some l at hindex
  rw [List.getElem?_modify, Option.map_eq_map, Option.map_eq_some_iff] at hindex
  obtain ⟨old, hold, rfl⟩ := hindex
  refine ⟨old, List.mem_of_getElem? hold, ?_⟩
  split
  · next htarget =>
      subst htarget
      have houtput := hidle old.server (by rw [server?, hold, Option.map_some])
      obtain ⟨-, hclosed, hends⟩ := event.apply_of_idle houtput
      refine ⟨rfl, fun hsilent => ?_, fun hne => ?_⟩
      · rw [Server.Silent, hclosed, houtput]
        exact hsilent
      · rw [Server.exhausted, hclosed, houtput, hends hne, Server.exhausted]
  · exact ⟨rfl, id, fun _ => rfl⟩

theorem unflagged_of_event {c : Client} {target : Nat} {event : ServerEvent}
    (hidle : (Operation.server target event).IsIdle c) :
    (c.step (.server target event)).2.unflagged = c.unflagged := by
  have hlinks : (c.step (.server target event)).2.links.map Link.unflagged =
      c.links.map Link.unflagged := by
    show (c.links.modify target fun l => { l with server := event.apply l.server }).map _ = _
    refine List.ext_getElem? fun index => ?_
    rw [List.getElem?_map, List.getElem?_map, List.getElem?_modify]
    cases hl : c.links[index]? with
    | none => rfl
    | some l =>
        by_cases htarget : target = index
        · subst htarget
          have houtput := hidle l.server (by rw [server?, hl, Option.map_some])
          simp [Link.unflagged, (event.apply_of_idle houtput).1]
        · simp [htarget]
  rw [unflagged, hlinks]
  rfl

theorem Quiet.step {c : Client} (h : c.Quiet) {operation : Operation} (hidle : operation.IsIdle c) :
    (c.step operation).2.Quiet ∧ (c.step operation).2.unflagged = c.unflagged := by
  cases operation with
  | process =>
      have hstep : (c.step .process).2 = c.noted := congrArg Prod.snd (process_of_quiet h)
      rw [hstep]
      exact ⟨h.noted, c.unflagged_noted⟩
  | server target event =>
      refine ⟨⟨fun l hl => ?_, fun l hl => ?_⟩, unflagged_of_event hidle⟩
      all_goals obtain ⟨old, hold, hsession, hsilent, -⟩ := link_of_event hidle hl
      · rw [Link.Sifted, hsession]
        exact h.sifted old hold
      · rw [Link.Quiet, hsession]
        exact fun s hs => (h.quiet old hold s hs).imp_right hsilent
  | lose command => exact ⟨⟨h.sifted, h.quiet⟩, rfl⟩
  | failNewServers failure => exact ⟨⟨h.sifted, h.quiet⟩, rfl⟩
  | _ => exact hidle.elim

theorem Quiet.run (operations : List Operation) {c : Client} (h : c.Quiet)
    (hidle : c.Undisturbed operations) :
    (c.run operations).Quiet ∧ (c.run operations).unflagged = c.unflagged := by
  induction operations generalizing c with
  | nil => exact ⟨h, rfl⟩
  | cons operation rest ih =>
      obtain ⟨hstep, hsame⟩ := h.step hidle.1
      obtain ⟨hrun, hrest⟩ := ih hstep hidle.2
      exact ⟨hrun, hrest.trans hsame⟩

theorem sessions_of_event (c : Client) (target : Nat) (event : ServerEvent) :
    (c.step (.server target event)).2.sessions = c.sessions := by
  show (c.links.modify target fun l => { l with server := event.apply l.server }).filterMap
    Link.session = c.links.filterMap Link.session
  generalize c.links = links
  induction links generalizing target with
  | nil => rw [List.modify_nil]
  | cons l links ih =>
      cases target with
      | zero => rfl
      | succ target => rw [List.modify_succ_cons, List.filterMap_cons, ih, List.filterMap_cons]

/-- If every end has been noted and no output ends, nothing is to be noted. -/
theorem noted_step {c : Client} (hquiet : c.Quiet) (h : ∀ l ∈ c.links, l.noted = l)
    {operation : Operation} (hidle : operation.IsIdle c)
    (hends : ∀ index, operation ≠ .server index .endOutput) :
    (∀ l ∈ (c.step operation).2.links, l.noted = l) ∧
      (c.step operation).2.sessions = c.sessions := by
  cases operation with
  | process =>
      have hstep : (c.step .process).2 = c :=
        (congrArg Prod.snd (process_of_quiet hquiet)).trans (noted_of_all h)
      rw [hstep]
      exact ⟨h, rfl⟩
  | server target event =>
      refine ⟨fun l hl => ?_, c.sessions_of_event target event⟩
      obtain ⟨old, hold, hsession, -, hexhausted⟩ := link_of_event hidle hl
      have hne : event ≠ .endOutput := fun heq => hends target (heq ▸ rfl)
      exact Link.noted_of_same hsession (hexhausted hne) (h old hold)
  | lose command => exact ⟨h, rfl⟩
  | failNewServers failure => exact ⟨h, rfl⟩
  | _ => exact hidle.elim

theorem noted_run (operations : List Operation) {c : Client} (hquiet : c.Quiet)
    (h : ∀ l ∈ c.links, l.noted = l) (hidle : c.Undisturbed operations)
    (hends : ∀ index, .server index .endOutput ∉ operations) :
    (∀ l ∈ (c.run operations).links, l.noted = l) ∧
      (c.run operations).sessions = c.sessions := by
  induction operations generalizing c with
  | nil => exact ⟨h, rfl⟩
  | cons operation rest ih =>
      have hfirst : ∀ index, operation ≠ .server index .endOutput := fun index heq =>
        hends index (heq ▸ List.mem_cons_self)
      have hrest : ∀ index, .server index .endOutput ∉ rest := fun index hmem =>
        hends index (List.mem_cons_of_mem operation hmem)
      obtain ⟨hstep, hsame⟩ := noted_step hquiet h hidle.1 hfirst
      obtain ⟨hrun, hsessions⟩ := ih (hquiet.step hidle.1).1 hstep hidle.2 hrest
      exact ⟨hrun, hsessions.trans hsame⟩

/-! ## Any run -/

/-- A read of every session got nowhere. -/
structure GotNowhere (c : Client) : Prop where
  /-- it has noted the ends of outputs, and changed nothing else -/
  now : c.process.2 = c.noted
  /-- as long as no server puts out anything and the caller does nothing but read, every
  further read gets nowhere and changes nothing else either -/
  later : ∀ operations, c.process.2.Undisturbed operations →
    (c.process.2.run operations).process = (false, (c.process.2.run operations).noted) ∧
      (c.process.2.run operations).unflagged = c.process.2.unflagged
  /-- and nothing at all if no output has ended meanwhile -/
  still : ∀ operations, c.process.2.Undisturbed operations →
    (∀ index, .server index .endOutput ∉ operations) →
    (c.process.2.run operations).process = (false, c.process.2.run operations) ∧
      (c.process.2.run operations).sessions = c.process.2.sessions

/-- In every run, a read that gets nowhere leaves nothing behind that a further one could
find. -/
theorem gotNowhere_of_run {settings : Settings} {processId : Nat} {launcher : Launcher}
    {operations : List Operation}
    (h : ((initial settings processId launcher).run operations).process.1 = false) :
    ((initial settings processId launcher).run operations).GotNowhere := by
  have hsifted := sifted_of_run operations (ordered_initial settings processId launcher)
    (fun l hl => nomatch hl)
  generalize (initial settings processId launcher).run operations = c at h hsifted ⊢
  have hquiet := quiet_of_process hsifted h
  have hprocess : c.process.2 = c.noted := congrArg Prod.snd (process_of_quiet hquiet)
  have hnoted : ∀ l ∈ c.noted.links, l.noted = l := by
    intro l hl
    obtain ⟨old, -, rfl⟩ := List.mem_map.1 hl
    exact old.noted_noted
  refine ⟨hprocess, fun later hidle => ?_, fun later hidle hends => ?_⟩
  · rw [hprocess] at hidle ⊢
    obtain ⟨hlater, hsame⟩ := hquiet.noted.run later hidle
    exact ⟨process_of_quiet hlater, hsame⟩
  · rw [hprocess] at hidle ⊢
    obtain ⟨hall, hsessions⟩ := noted_run later hquiet.noted hnoted hidle hends
    have hlater := process_of_quiet (hquiet.noted.run later hidle).1
    rw [noted_of_all hall] at hlater
    exact ⟨hlater, hsessions⟩

/-- Half a frame has come, and the rest of it is still to come. -/
def halfAFrame : List Operation :=
  [.connect "server" {},
    .server 0 (.emit ((Wire.frameText "\x7b\"method\":\"a\"\x7d").take 20)),
    .process]

theorem gotNowhere_of_halfAFrame :
    ((initial {} 0 {}).run halfAFrame).process.1 = false ∧
      ((initial {} 0 {}).run halfAFrame).GotNowhere := by
  have hidle : ((initial {} 0 {}).run halfAFrame).process.1 = false := by decide +kernel
  exact ⟨hidle, gotNowhere_of_run hidle⟩

/-- An output may end in the meantime, and a further read then changes what is said of the
session. -/
theorem not_unchanged_of_ending : ¬ ∀ (operations later : List Operation) (id : SessionId),
    ((initial {} 0 {}).run operations).process.1 = false →
    ((initial {} 0 {}).run operations).process.2.Undisturbed later →
    (((initial {} 0 {}).run operations).process.2.run later).process.2.isAlive id =
      (((initial {} 0 {}).run operations).process.2.run later).isAlive id := by
  intro h
  have hidle : ((initial {} 0 {}).run [.connect "server" {}]).process.1 = false := by
    decide +kernel
  have hundisturbed : ((initial {} 0 {}).run [.connect "server" {}]).process.2.Undisturbed
      [.server 0 .endOutput] := ⟨fun _ _ => rfl, trivial⟩
  have hsame := h [.connect "server" {}] [.server 0 .endOutput] 1 hidle hundisturbed
  revert hsame
  decide +kernel

end Client

end LspClient
