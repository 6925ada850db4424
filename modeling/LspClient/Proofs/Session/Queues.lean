import LspClient.Proofs.Session.Ledger
import Mathlib.Data.List.DropRight

/-!
# The two queues of a session

A session keeps the completions that were made and the notices that came until the
caller takes them, each in a queue of its own, and of each only the newest. A full
queue loses its oldest entry to the next one, so at any time it holds the last of what
has arrived since it was last taken, as many as it keeps (`Queue.Holds.moves`).

Nothing else that a peer does looks at a queue, and this is what the second half says.
It replaces both queues by others: what is sent, read and recorded stays the same, and
so does the session in all other parts. In each queue the entries that arrive are
pushed behind what was there before, whatever it was, so what is in the one queue has
no part in what becomes of the other.
-/

namespace LspClient

open Json (Value)

/-! ## What a queue holds -/

/-- The queues of a session. -/
inductive Queue where
  /-- the answers to the caller's requests -/
  | completions
  /-- the notifications of the server -/
  | notices

namespace Queue

/-- What stands in a queue. -/
def Entry : Queue → Type
  | completions => Completion
  | notices => Notice

/-- What stands in a queue of a session, oldest first. -/
def entries : (q : Queue) → Session → List q.Entry
  | completions, s => s.completions
  | notices, s => s.notices

/-- The entry that arrives with an event. -/
def arrival? : (q : Queue) → Event → Option q.Entry
  | completions, .heard _ made => made
  | notices, .heard (.notification method params) _ => some (⟨method, params⟩ : Notice)
  | _, _ => none

/-- What the caller is given as it takes the queue. -/
def taken? : (q : Queue) → Event → Option (List q.Entry)
  | completions, .taken entries => some entries
  | notices, .takenNotices entries => some entries
  | _, _ => none

/-- The entries that have arrived since the queue was last taken, or since the session was
opened. -/
def arrived (q : Queue) (history : List Event) : List q.Entry :=
  (history.rtakeWhile fun e => (q.taken? e).isNone).filterMap q.arrival?

/-- The last of them, as many as a queue keeps. -/
def newest (q : Queue) (history : List Event) : List q.Entry :=
  (q.arrived history).rtake maxQueued

/-- A queue after an event. -/
def after (q : Queue) (queue : List q.Entry) (e : Event) : List q.Entry :=
  match q.taken? e, q.arrival? e with
  | some _, _ => []
  | none, some entry => pushBounded queue entry
  | none, none => queue

theorem length_newest_le (q : Queue) (history : List Event) :
    (q.newest history).length ≤ maxQueued := by
  rw [newest, List.rtake, List.length_drop]
  omega

/-- One more entry pushes out the oldest of as many as are kept. -/
theorem rtake_concat {α : Type} (entries : List α) (entry : α) :
    (entries ++ [entry]).rtake maxQueued = pushBounded (entries.rtake maxQueued) entry := by
  refine (List.rtake_concat_succ entries 1023 entry).trans ?_
  rw [pushBounded, List.rtake, List.rtake, List.length_drop, List.drop_drop]
  have hmax : maxQueued = 1024 := rfl
  split
  · next hfull =>
      have hsame : entries.length - 1023 = entries.length - maxQueued + 1 := by omega
      rw [hsame]
  · next hroom =>
      have hsame : entries.length - 1023 = entries.length - maxQueued := by omega
      rw [hsame]

theorem newest_concat (q : Queue) (history : List Event) (e : Event) :
    q.newest (history ++ [e]) = q.after (q.newest history) e := by
  rw [newest, arrived, List.rtakeWhile_concat, after]
  cases htaken : q.taken? e with
  | some entries => rw [if_neg (by simp), List.filterMap_nil, List.rtake_nil]
  | none =>
      rw [Option.isNone_none, if_pos rfl, List.filterMap_append]
      cases harrival : q.arrival? e with
      | none => simp [harrival, newest, arrived]
      | some entry =>
          have hlast : [e].filterMap q.arrival? = [entry] := by simp [harrival]
          rw [hlast, rtake_concat, newest, arrived]

/-- A queue of a session holds the newest entries, and always did as the caller took it. -/
structure Holds (q : Queue) (s : Session) (history : List Event) : Prop where
  newest : q.entries s = q.newest history
  takings : ∀ before e later entries, history = before ++ e :: later →
    q.taken? e = some entries → entries = q.newest before

variable {q : Queue} {s t : Session} {history : List Event}

theorem Holds.concat {e : Event} (h : q.Holds s history)
    (hqueue : q.entries t = q.after (q.entries s) e)
    (htaken : ∀ entries, q.taken? e = some entries → entries = q.entries s) :
    q.Holds t (history ++ [e]) where
  newest := by rw [newest_concat, hqueue, h.newest]
  takings := by
    intro before e' later entries heq he'
    rcases split_concat heq with ⟨rfl, rfl⟩ | ⟨later, -, hearlier⟩
    · rw [htaken entries he', h.newest]
    · exact h.takings before e' later entries hearlier he'

/-- An event that neither brings an entry nor takes the queue. -/
theorem Holds.quiet {e : Event} (h : q.Holds s history) (hsame : q.entries t = q.entries s)
    (hnoArrival : q.arrival? e = none) (hnotTaken : q.taken? e = none) :
    q.Holds t (history ++ [e]) := by
  refine h.concat ?_ fun entries he => ?_
  · rw [after, hnotTaken, hnoArrival]
    exact hsame
  · rw [hnotTaken] at he
    cases he

theorem Holds.moves {events : List Event} (h : q.Holds s history) (move : s.Moves events t) :
    q.Holds t (history ++ events) := by
  cases move with
  | read frames outputEnded =>
      rw [List.append_nil]
      have hsame : q.entries { s with frames := frames, outputEnded := outputEnded } =
          q.entries s := by cases q <;> rfl
      exact ⟨hsame.trans h.newest, h.takings⟩
  | closing payload hopen =>
      rw [List.append_cons]
      have hsent : q.Holds (s.numbered.await ⟨s.nextRequest, Lifecycle.ending.method, payload⟩)
          (history ++ [.sent s.nextRequest Lifecycle.ending.method]) :=
        h.quiet (by cases q <;> rfl) (by cases q <;> rfl) (by cases q <;> rfl)
      exact hsent.quiet (by cases q <;> rfl) (by cases q <;> rfl) (by cases q <;> rfl)
  | greeted r entry hanswers hmethod =>
      obtain ⟨info, status, heq⟩ := (s.retire entry.id).greeted_eq r
      rw [heq]
      exact h.quiet (by cases q <;> rfl) (by cases q <;> rfl) (by cases q <;> rfl)
  | completed | noticed =>
      refine h.concat (by cases q <;> rfl) fun entries he => ?_
      cases q <;> cases he
  | taken =>
      refine h.concat (by cases q <;> rfl) fun entries he => ?_
      cases q with
      | completions => exact (Option.some.inj he).symm
      | notices => cases he
  | takenNotices =>
      refine h.concat (by cases q <;> rfl) fun entries he => ?_
      cases q with
      | completions => cases he
      | notices => exact (Option.some.inj he).symm
  | _ => exact h.quiet (by cases q <;> rfl) (by cases q <;> rfl) (by cases q <;> rfl)

theorem holds_of_opened (q : Queue) {id : SessionId} (h : Peer.Opened id s) :
    q.Holds s [.sent .first Lifecycle.opening.method] := by
  obtain ⟨command, payload, rfl⟩ := h
  have hnew : q.Holds { id, command } [] := by
    refine ⟨?_, fun before => by simp⟩
    cases q <;> rfl
  exact hnew.quiet (by cases q <;> rfl) (by cases q <;> rfl) (by cases q <;> rfl)

end Queue

/-! ## Other queues in the place of a session's -/

/-- The session with other queues. -/
def Session.holding (completions : List Completion) (notices : List Notice) (s : Session) :
    Session :=
  { s with completions, notices }

/-- Entries pushed one after another. -/
def pushAll {α : Type} (queue entries : List α) : List α :=
  entries.foldl pushBounded queue

theorem pushAll_append {α : Type} (queue entries later : List α) :
    pushAll queue (entries ++ later) = pushAll (pushAll queue entries) later :=
  List.foldl_append

namespace Peer

/-- The peer with other queues. -/
def holding (completions : List Completion) (notices : List Notice) (p : Peer) : Peer :=
  { p with session := p.session.holding completions notices }

variable (completions : List Completion) (notices : List Notice)

/-! ## Sending -/

theorem record_holding (keep : Bool) (p : Peer) (d : Direction) (text : String) :
    (p.holding completions notices).record keep d text =
      (p.record keep d text).holding completions notices := by
  cases keep <;> rfl

theorem send_holding (keep : Bool) (p : Peer) (envelope : Value) :
    (p.holding completions notices).send keep envelope =
      Prod.map id (holding completions notices) (p.send keep envelope) := by
  rw [send, record_holding]
  rfl

theorem request_holding (keep : Bool) (p : Peer) (method : String) (params : Value) :
    (p.holding completions notices).request keep method params =
      Prod.map id (holding completions notices) (p.request keep method params) := by
  have hsend :
      send keep { p.holding completions notices with
          session := (p.holding completions notices).session.numbered }
          (Envelope.request p.session.nextRequest method params) =
        Prod.map id (holding completions notices)
          (send keep { p with session := p.session.numbered }
            (Envelope.request p.session.nextRequest method params)) :=
    send_holding completions notices keep { p with session := p.session.numbered } _
  have hnext : (p.holding completions notices).session.nextRequest = p.session.nextRequest := rfl
  rw [request_eq, hnext, hsend, request_eq]
  cases send keep { p with session := p.session.numbered }
      (Envelope.request p.session.nextRequest method params) with
  | mk result q => cases result <;> rfl

theorem notify_holding (keep : Bool) (p : Peer) (method : String) (params : Value) :
    (p.holding completions notices).notify keep method params =
      Prod.map id (holding completions notices) (p.notify keep method params) :=
  send_holding completions notices keep p _

theorem endSession_holding (keep : Bool) (p : Peer) :
    (p.holding completions notices).endSession keep =
      Prod.map id (holding completions notices) (p.endSession keep) := by
  rw [endSession, request_holding, endSession]
  cases p.request keep Lifecycle.ending.method .null with
  | mk result q => cases result <;> rfl

/-! ## Receiving -/

theorem finishHandshake_holding (keep : Bool) (p : Peer) (r : Response) :
    (p.holding completions notices).finishHandshake keep r =
      (p.finishHandshake keep r).holding completions notices := by
  rw [finishHandshake, finishHandshake]
  cases r.outcome with
  | error e => rfl
  | ok result =>
      dsimp only
      by_cases hstatus : p.session.status ≠ .connecting
      · rw [if_pos hstatus]
        exact if_pos hstatus
      · rw [if_neg hstatus]
        refine (if_neg hstatus).trans ?_
        by_cases hclosing : p.session.closing = true
        · rw [if_pos hclosing]
          exact if_pos hclosing
        · rw [if_neg hclosing]
          refine (if_neg hclosing).trans ?_
          exact congrArg Prod.snd (notify_holding completions notices keep
            { p with session :=
              { p.session with info := some (.ofResult result), status := .connected } } _ _)

theorem finishSession_holding (keep : Bool) (p : Peer) :
    (p.holding completions notices).finishSession keep =
      (p.finishSession keep).holding completions notices := by
  rw [finishSession, notify_holding]
  rfl

variable {completions notices}

/-- What a peer comes to whatever its queues hold, each entry that arrives being pushed
behind what was there. -/
def Feeds {β : Type} (work : Peer → Peer × β) (p : Peer) : Prop :=
  ∃ made heard, ∀ completions notices, work (p.holding completions notices) =
    Prod.map (holding (pushAll completions made) (pushAll notices heard)) id (work p)

theorem Feeds.of_holding {β : Type} {work : Peer → Peer × β} {p : Peer}
    (h : ∀ completions notices, work (p.holding completions notices) =
      Prod.map (holding completions notices) id (work p)) : Feeds work p :=
  ⟨[], [], h⟩

theorem feeds_receiveResponse (keep : Bool) (p : Peer) (r : Response) :
    Feeds (fun p => p.receiveResponse keep r) p := by
  have hanswered : ∀ completions notices,
      (p.holding completions notices).answered? r = p.answered? r := fun _ _ => rfl
  cases hentry : p.answered? r with
  | none =>
      refine .of_holding fun completions notices => ?_
      simp only [receiveResponse, hanswered, hentry]
      rfl
  | some entry =>
      by_cases hopening : entry.method = Lifecycle.opening.method
      · refine .of_holding fun completions notices => ?_
        simp only [receiveResponse, hanswered, hentry, if_pos hopening]
        exact congrArg (·, false) (finishHandshake_holding completions notices keep
          { p with session := p.session.retire entry.id } r)
      · by_cases hending : entry.method = Lifecycle.ending.method
        · refine .of_holding fun completions notices => ?_
          simp only [receiveResponse, hanswered, hentry, if_neg hopening, if_pos hending]
          exact congrArg (·, true) (finishSession_holding completions notices keep
            { p with session := p.session.retire entry.id })
        · refine ⟨[⟨entry.id, entry.method, r.outcome⟩], [], fun completions notices => ?_⟩
          simp only [receiveResponse, hanswered, hentry, if_neg hopening, if_neg hending]
          rfl

theorem feeds_receiveMessage (keep : Bool) (p : Peer) (m : Incoming) :
    Feeds (fun p => p.receiveMessage keep m) p := by
  cases m with
  | response r => exact feeds_receiveResponse keep p r
  | request id method params =>
      refine .of_holding fun completions notices => ?_
      simp only [receiveMessage, send_holding]
      rfl
  | notification method params => exact ⟨[], [⟨method, params⟩], fun _ _ => rfl⟩

theorem feeds_receiveBody (keep : Bool) (p : Peer) (body : List UInt8) :
    Feeds (fun p => p.receiveBody keep body) p := by
  cases htext : Utf8.text? body with
  | none =>
      refine .of_holding fun completions notices => ?_
      simp only [receiveBody, htext]
      rfl
  | some text =>
      cases hmessage : messageOf? text with
      | none =>
          refine .of_holding fun completions notices => ?_
          simp only [receiveBody, htext, hmessage, record_holding]
          rfl
      | some m =>
          obtain ⟨made, heard, h⟩ := feeds_receiveMessage keep (p.record keep .incoming text) m
          refine ⟨made, heard, fun completions notices => ?_⟩
          simp only [receiveBody, htext, hmessage, record_holding]
          exact h completions notices

theorem feeds_receiveAll (keep : Bool) (results : List Wire.FrameResult) :
    ∀ p : Peer, Feeds (fun p => p.receiveAll keep results) p := by
  induction results with
  | nil =>
      intro p
      exact .of_holding fun completions notices => rfl
  | cons result rest ih =>
      intro p
      cases result with
      | error e => exact ih p
      | ok body =>
          obtain ⟨made, heard, h⟩ := feeds_receiveBody keep p body
          dsimp only at h
          cases hbody : p.receiveBody keep body with
          | mk q ended =>
              rw [hbody] at h
              cases ended with
              | true =>
                  refine ⟨made, heard, fun completions notices => ?_⟩
                  simp only [receiveAll, hbody]
                  rw [h]
                  rfl
              | false =>
                  obtain ⟨later, more, hrest⟩ := ih q
                  refine ⟨made ++ later, heard ++ more, fun completions notices => ?_⟩
                  simp only [receiveAll, hbody]
                  rw [h, pushAll_append, pushAll_append]
                  exact hrest _ _

theorem readChunk_holding (completions : List Completion) (notices : List Notice) (p : Peer) :
    (p.holding completions notices).readChunk =
      Prod.map (holding completions notices) id p.readChunk := by
  rw [readChunk, readChunk]
  have hread : (p.holding completions notices).server.read = p.server.read := rfl
  rw [hread]
  cases p.server.read with
  | mk result server =>
      cases result with
      | error e => rfl
      | ok chunk => cases chunk <;> rfl

/-- One read, with other queues. -/
theorem pump_holding (keep : Bool) (p : Peer) : ∃ made heard, ∀ completions notices,
    (p.holding completions notices).pump keep =
      ⟨(p.pump keep).peer.holding (pushAll completions made) (pushAll notices heard),
        (p.pump keep).progressed, (p.pump keep).finished⟩ := by
  cases hended : p.session.outputEnded with
  | true =>
      refine ⟨[], [], fun completions notices => ?_⟩
      have hholding : (p.holding completions notices).session.outputEnded = true := hended
      rw [pump_of_ended hholding, pump_of_ended hended]
      rfl
  | false =>
      obtain ⟨made, heard, h⟩ := feeds_receiveAll keep p.fetchedFrames p.fetched
      refine ⟨made, heard, fun completions notices => ?_⟩
      have hholding : (p.holding completions notices).session.outputEnded = false := hended
      have hfetched : (p.holding completions notices).fetched =
          p.fetched.holding completions notices := by
        rw [fetched, readChunk_holding]
        rfl
      have hframes : (p.holding completions notices).fetchedFrames = p.fetchedFrames := by
        rw [fetchedFrames, readChunk_holding]
        rfl
      have hchunk : (p.holding completions notices).readChunk.2 = p.readChunk.2 := by
        rw [readChunk_holding]
        rfl
      rw [pump_of_open hholding, pump_of_open hended, hfetched, hframes, hchunk]
      dsimp only at h
      rw [h]
      rfl

end Peer

end LspClient
