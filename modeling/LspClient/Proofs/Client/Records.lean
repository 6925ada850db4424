import LspClient.Proofs.Client.Isolation
import LspClient.Proofs.Client.Passages

/-!
# What records show

While records are kept, those of a session are its passages: every message that
the client tried to write and the text of every frame that it handled, in the
order of the program. They are made before the write, so they show what was tried
and not what reached the server. The two are the same as long as no write fails,
and never again after one did (`frames_eq_iff`), since a frame is not empty.

A record names its session by number. The sessions of a client are numbered in
the order of its servers, one server for each number that was spent (`Counted`),
which is how the records of a server are found, also if its session was never
registered.
-/

namespace LspClient

open Json (Value)

/-! ## Tries and bodies -/

namespace Passage

def envelope? : Passage → Option Value
  | .tried _ envelope _ => some envelope
  | .handled _ => none

def body? : Passage → Option (List UInt8)
  | .tried .. => none
  | .handled body => some body

def failed : Passage → Bool
  | .tried _ _ written => !written
  | .handled _ => false

end Passage

/-- The texts that were recorded of a session in one direction. -/
def textsOf (id : SessionId) (direction : Direction) (records : List Record) : List String :=
  (records.filter fun r => r.session == id && r.direction == direction).map Record.text

theorem length_frameText_pos (text : String) : 0 < (Wire.frameText text).length := by
  rw [Wire.frameText, Wire.frame, Wire.header]
  simp only [List.length_append, Wire.lineBreak, List.length_cons]
  omega

/-- The frames of all messages that were tried. -/
def framesOf (passed : List Passage) : List UInt8 :=
  ((passed.filterMap Passage.envelope?).map Envelope.wire).flatten

theorem framesOf_tried (caller written : Bool) (envelope : Value) (passed : List Passage) :
    framesOf (.tried caller envelope written :: passed) =
      Envelope.wire envelope ++ framesOf passed := rfl

theorem written_le_frames (passed : List Passage) :
    (passed.filterMap Passage.wire?).flatten.length ≤ (framesOf passed).length := by
  induction passed with
  | nil => exact Nat.le_refl _
  | cons x passed ih =>
      cases x with
      | handled body => exact ih
      | tried caller envelope written =>
          rw [framesOf_tried, List.length_append]
          cases written with
          | false => exact Nat.le_trans ih (Nat.le_add_left _ _)
          | true =>
              show (Envelope.wire envelope ++ _).length ≤ _
              rw [List.length_append]
              exact Nat.add_le_add_left ih _

/-- The frames of all tries are what was written if and only if no try failed. -/
theorem frames_eq_iff (passed : List Passage) :
    framesOf passed = (passed.filterMap Passage.wire?).flatten ↔
      passed.any Passage.failed = false := by
  induction passed with
  | nil => exact iff_of_true rfl rfl
  | cons x passed ih =>
      cases x with
      | handled body => exact ih
      | tried caller envelope written =>
          rw [framesOf_tried]
          cases written with
          | true =>
              show _ = Envelope.wire envelope ++ _ ↔ _
              rw [List.append_cancel_left_eq]
              exact ih
          | false =>
              -- a frame is not empty, so what is left of the writes is too short
              refine iff_of_false (fun heq => ?_) Bool.noConfusion
              have hlength := congrArg List.length heq
              rw [List.length_append] at hlength
              have hframe : 0 < (Envelope.wire envelope).length :=
                length_frameText_pos (Json.encode envelope)
              have hle := written_le_frames passed
              change _ = (passed.filterMap Passage.wire?).flatten.length at hlength
              omega

/-- What is recorded of passages shows the tries in one direction and the texts of
the bodies in the other. -/
theorem textsOf_passed (id : SessionId) {records : List Record} {passed : List Passage}
    (h : (records.filter fun r => r.session == id) = passed.filterMap (Passage.record? id)) :
    textsOf id .outgoing records = (passed.filterMap Passage.envelope?).map Json.encode ∧
      textsOf id .incoming records =
        (passed.filterMap Passage.body?).filterMap Utf8.text? := by
  have hfilter : ∀ direction, textsOf id direction records =
      ((passed.filterMap (Passage.record? id)).filter fun r => r.direction == direction).map
        Record.text := by
    intro direction
    rw [← h, List.filter_filter, textsOf]
    simp only [Bool.and_comm]
  rw [hfilter, hfilter]
  clear h hfilter
  induction passed with
  | nil => exact ⟨rfl, rfl⟩
  | cons x passed ih =>
      obtain ⟨houtgoing, hincoming⟩ := ih
      cases x with
      | tried caller envelope written =>
          exact ⟨congrArg (Json.encode envelope :: ·) houtgoing, hincoming⟩
      | handled body =>
          have hbody : (Passage.handled body :: passed).filterMap Passage.body? =
              body :: passed.filterMap Passage.body? := rfl
          have hnone : (Passage.handled body :: passed).filterMap Passage.envelope? =
              passed.filterMap Passage.envelope? := rfl
          rw [hbody, hnone, List.filterMap_cons, List.filterMap_cons, Passage.record?]
          cases Utf8.text? body with
          | none => exact ⟨houtgoing, hincoming⟩
          | some text => exact ⟨houtgoing, congrArg (text :: ·) hincoming⟩

/-! ## The numbers of servers -/

namespace Client

/-- Sessions are numbered in the order of their servers. -/
structure Counted (c : Client) : Prop where
  spent : c.lastSession = c.links.length
  numbers : ∀ (index : Nat) l s, c.links[index]? = some l → l.session = some s → s.id = index + 1

theorem lastSession_step {c : Client} (hc : c.Ordered) (operation : Operation) :
    (c.step operation).2.lastSession = c.lastSession + (c.newLinks operation).length := by
  cases hscope : operation.scope with
  | session id =>
      have hsame : (c.step operation).2.lastSession = c.lastSession := by
        cases hp : c.peer? id with
        | none => rw [step_of_unknown hscope hp]
        | some p => rw [step_of_target hc hscope hp]; rfl
      rw [hsame]
      cases operation <;> first | rfl | cases hscope
  | sessions => cases operation <;> first | rfl | cases hscope
  | server target event => cases operation <;> first | rfl | cases hscope
  | nothing =>
      cases operation with
      | connect command connection =>
          rw [step_connect, newLinks]
          cases c.launcher.start c.links.length command connection.args <;> rfl
      | adjust change => rfl
      | lose command => rfl
      | failNewServers failure => rfl
      | _ => cases hscope

theorem id_of_opening {c : Client} {command : String} {connection : Connection} {server : Server}
    {t : Session} (ht : (c.opening command connection server).link.session = some t) :
    t.id = c.lastSession + 1 := by
  have hself := Upshot.session_of_under (c.opening_under command connection server)
  refine hself.2 t.id ?_
  rw [Link.id?, ht]
  rfl

theorem Counted.step {c : Client} (h : c.Counted) (hc : c.Ordered) (operation : Operation) :
    (c.step operation).2.Counted where
  spent := by
    rw [lastSession_step hc, links_step hc, List.length_append, List.length_mapIdx, h.spent]
  numbers := by
    intro index l t hl ht
    cases hold : c.links[index]? with
    | some old =>
        rw [getElem?_step hc hold, Option.some.injEq] at hl
        rw [← hl] at ht
        have hid : (old.after c.settings.debug index operation).id? = some t.id := by
          rw [Link.id?, ht]
          rfl
        obtain ⟨s, hs, hsame⟩ := Option.map_eq_some_iff.1 (Link.id?_of_after hid)
        rw [← hsame]
        exact h.numbers index old s hold hs
    | none =>
        obtain ⟨hindex, command, connection, server, -, -, rfl⟩ := getElem?_step_new hc hold hl
        rw [id_of_opening ht, h.spent, hindex]

/-! ## One operation -/

theorem newRecords_passed {l : Link} (hheld : l.Held) {id : SessionId}
    (hid : ∀ s, l.session = some s → s.id = id) (operation : Operation) :
    l.newRecords true operation = (l.passages operation).filterMap (Passage.record? id) := by
  rw [Link.newRecords, Link.upshot?_eq, Link.passages]
  cases hconcerned : l.concerned? operation with
  | none => rfl
  | some p =>
      obtain ⟨s, hs, rfl⟩ := Option.map_eq_some_iff.1 (Link.peer?_of_concerned hconcerned)
      rw [Link.Held, hs] at hheld
      rw [← hid s hs]
      exact (Peer.upshot_passes true (p := { session := s, server := l.server }) hheld
        operation).records rfl

/-- What the records show of a link, while all of them are kept. -/
structure Shows (records : List Record) (index : Nat) (l : Link) (passed : List Passage) :
    Prop where
  reached : Reached l passed
  recorded : (records.filter fun r => r.session == index + 1) =
    passed.filterMap (Passage.record? (index + 1))

/-- What is assumed of a client whose records are all kept. -/
structure Recording (c : Client) : Prop where
  ordered : c.Ordered
  held : c.AllHeld
  counted : c.Counted
  filed : c.Filed
  debug : c.settings.debug = true

theorem Recording.step {c : Client} (h : c.Recording) {operation : Operation}
    (hon : operation.debug? ≠ some false) : (c.step operation).2.Recording where
  ordered := h.ordered.step operation
  held := (h.held.step h.ordered operation).1
  counted := h.counted.step h.ordered operation
  filed := h.filed.step h.ordered operation
  debug := by
    rw [debug_step h.ordered, h.debug]
    cases hdebug : operation.debug? with
    | none => rfl
    | some on =>
        cases on with
        | true => rfl
        | false => exact absurd hdebug hon

theorem shows_after {c : Client} (h : c.Recording) {index : Nat} {l : Link}
    {passed : List Passage} (hl : c.links[index]? = some l)
    (hshows : Shows c.records index l passed) (operation : Operation) :
    Shows (c.step operation).2.records index (l.after c.settings.debug index operation)
      (passed ++ l.passages operation) := by
  have hheld := h.held l (List.mem_of_getElem? hl)
  have hspent : index + 1 ≤ c.lastSession := by
    rw [h.counted.spent]
    exact (List.getElem?_eq_some_iff.1 hl).1
  have hown : ∀ s, l.session = some s → s.id = index + 1 := fun s hs =>
    h.counted.numbers index l s hl hs
  have helsewhere : ∀ j other, c.links[j]? = some other → other.id? = some (index + 1) →
      j = index := by
    intro j other hj hid
    obtain ⟨s, hs, hnumber⟩ := Option.map_eq_some_iff.1 hid
    have hcount := h.counted.numbers j other s hj hs
    exact (Nat.succ.inj (hnumber.symm.trans hcount)).symm
  refine ⟨reached_after hheld hshows.reached c.settings.debug index operation, ?_⟩
  rw [filter_records_step h.ordered operation hspent hl hown helsewhere, hshows.recorded, h.debug,
    newRecords_passed hheld hown, List.filterMap_append]

theorem shows_opening {c : Client} (h : c.Recording) {command : String} {connection : Connection}
    {server : Server}
    (hstart : c.launcher.start c.links.length command connection.args = .ok server) :
    Shows (c.step (.connect command connection)).2.records c.links.length
      (c.opening command connection server).link
      (c.openingPassages (.connect command connection)) := by
  have hpassed := opening_passed hstart
  constructor
  case reached => exact opening_reached hstart
  case recorded =>
    -- the number is new, so nothing is filed under it yet
    have hnone : (c.records.filter fun r => r.session == c.links.length + 1) = [] := by
      refine List.filter_eq_nil_iff.2 fun r hr heq => ?_
      have hfiled := h.filed r hr
      rw [beq_iff_eq.1 heq, h.counted.spent] at hfiled
      exact Nat.not_succ_le_self _ hfiled
    have hself := Upshot.session_of_under (c.opening_under command connection server)
    have hall : ((c.opening command connection server).records.filter
        fun r => r.session == c.links.length + 1) =
          (c.opening command connection server).records := by
      refine List.filter_eq_self.2 fun r hr => ?_
      rw [hself.1 r hr, h.counted.spent, beq_self_eq_true]
    rw [step_connect, hstart]
    dsimp only
    rw [List.filter_append, hnone, hall, List.nil_append, ← h.counted.spent]
    exact hpassed.records h.debug

/-! ## Runs -/

theorem shows_run {index : Nat} (operations : List Operation) {c : Client}
    {passed : List Passage} (h : c.Recording) (hat : c.PassedAt (Shows c.records index) index passed)
    (hon : ∀ operation ∈ operations, operation.debug? ≠ some false) :
    (c.run operations).PassedAt (Shows (c.run operations).records index) index
      (passed ++ c.passages index operations) := by
  induction operations generalizing c passed with
  | nil => rwa [passages, List.append_nil]
  | cons operation rest ih =>
      have hstep : (c.step operation).2.PassedAt (Shows (c.step operation).2.records index) index
          (passed ++ c.passagesOf index operation) := by
        refine hat.step h.ordered operation (fun l hl hshows => shows_after h hl hshows operation)
          fun command connection server heq hindex hstart => ?_
        rw [heq, hindex]
        exact shows_opening h hstart
      rw [passages, ← List.append_assoc]
      exact ih (h.step (hon operation List.mem_cons_self)) hstep
        fun later hlater => hon later (List.mem_cons_of_mem _ hlater)

theorem shows_of_run {settings : Settings} {processId : Nat} {launcher : Launcher}
    {operations : List Operation} (hdebug : settings.debug = true)
    (hon : ∀ operation ∈ operations, operation.debug? ≠ some false) {index : Nat} {l : Link}
    (hl : ((initial settings processId launcher).run operations).links[index]? = some l) :
    Shows ((initial settings processId launcher).run operations).records index l
      ((initial settings processId launcher).passages index operations) := by
  have hrecording : (initial settings processId launcher).Recording :=
    { ordered := ordered_initial settings processId launcher
      held := allHeld_initial settings processId launcher
      counted := ⟨rfl, fun _ _ _ hl => nomatch hl⟩
      filed := fun r hr => nomatch hr
      debug := hdebug }
  have hnothing : (initial settings processId launcher).PassedAt
      (Shows (initial settings processId launcher).records index) index [] := rfl
  have hrun := shows_run operations hrecording hnothing hon
  rw [PassedAt, hl, List.nil_append] at hrun
  exact hrun

/-- What records show of a server and its session, by what has passed. -/
structure Mirrored (records : List Record) (index : Nat) (v : Server) (passed : List Passage) :
    Prop where
  /-- every message that was tried is recorded -/
  outgoing : textsOf (index + 1) .outgoing records =
    (passed.filterMap Passage.envelope?).map Json.encode
  /-- and the body of every frame that was handled, if it is text -/
  incoming : textsOf (index + 1) .incoming records =
    (passed.filterMap Passage.body?).filterMap Utf8.text?
  /-- what was written are the tries that succeeded -/
  writes : v.writes = passed.filterMap Passage.wire?
  /-- so records show what was written if and only if no try has failed -/
  inStep : ((textsOf (index + 1) .outgoing records).map Wire.frameText).flatten = v.written ↔
    passed.any Passage.failed = false

theorem Shows.mirrored {records : List Record} {index : Nat} {l : Link} {passed : List Passage}
    (h : Shows records index l passed) : Mirrored records index l.server passed := by
  obtain ⟨houtgoing, hincoming⟩ := textsOf_passed (index + 1) h.recorded
  refine ⟨houtgoing, hincoming, h.reached, ?_⟩
  rw [houtgoing, List.map_map, Server.written, show l.server.writes = _ from h.reached,
    ← frames_eq_iff]
  rfl

/-- In every run whose records are all kept, they show what was tried and handled at
each server, and what was written as long as no write fails. -/
theorem mirrored_of_run {settings : Settings} {processId : Nat} {launcher : Launcher}
    {operations : List Operation} (hdebug : settings.debug = true)
    (hon : ∀ operation ∈ operations, operation.debug? ≠ some false) {index : Nat} {v : Server}
    (hv : ((initial settings processId launcher).run operations).server? index = some v) :
    Mirrored ((initial settings processId launcher).run operations).records index v
      ((initial settings processId launcher).passages index operations) := by
  obtain ⟨l, hl, rfl⟩ := Option.map_eq_some_iff.1 hv
  exact (shows_of_run hdebug hon hl).mirrored

/-- Writes begin to fail when the handshake is done, and a caller's notification is
not written. -/
def failingNotice : List Operation :=
  [.connect "server" {},
    .server 0 (.emit (Wire.frameText "\x7b\"id\":1,\"result\":null\x7d")),
    .process,
    .server 0 (.failWrites (some .brokenPipe)),
    .notify 1 "textDocument/didSave" .null]

theorem mirrored_of_failingNotice :
    ∃ v, ((initial { debug := true } 0 {}).run failingNotice).server? 0 = some v ∧
      v.writes.length = 2 ∧
      Mirrored ((initial { debug := true } 0 {}).run failingNotice).records 0 v
        ((initial { debug := true } 0 {}).passages 0 failingNotice) := by
  have hdone : (((initial { debug := true } 0 {}).run failingNotice).server? 0).map
      (fun v => v.writes.length) = some 2 := by decide +kernel
  obtain ⟨v, hv, hlength⟩ := Option.map_eq_some_iff.1 hdone
  exact ⟨v, hv, hlength, mirrored_of_run rfl (by decide) hv⟩

/-- A message that is not written is recorded all the same. -/
theorem not_all_written : ¬ ∀ operations : List Operation,
    (∀ operation ∈ operations, operation.debug? ≠ some false) →
    ∀ index v, ((initial { debug := true } 0 {}).run operations).server? index = some v →
      ((textsOf (index + 1) .outgoing
        ((initial { debug := true } 0 {}).run operations).records).map Wire.frameText).flatten =
          v.written := by
  intro h
  have hon : ∀ operation ∈ failingNotice, operation.debug? ≠ some false := by decide
  have hdone : (((initial { debug := true } 0 {}).run failingNotice).links[0]?).isSome = true := by
    decide +kernel
  have hfailed : ((initial { debug := true } 0 {}).passages 0 failingNotice).any Passage.failed =
      true := by decide +kernel
  obtain ⟨l, hl⟩ := Option.isSome_iff_exists.1 hdone
  have hserver : ((initial { debug := true } 0 {}).run failingNotice).server? 0 = some l.server := by
    rw [server?, hl]
    rfl
  have hshows : Shows ((initial { debug := true } 0 {}).run failingNotice).records 0 l
      ((initial { debug := true } 0 {}).passages 0 failingNotice) := shows_of_run rfl hon hl
  rw [hshows.mirrored.inStep.1 (h failingNotice hon 0 l.server hserver)] at hfailed
  cases hfailed

end Client

end LspClient
