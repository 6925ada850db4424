import LspClient.Proofs.Client.Outcomes
import LspClient.Proofs.Session.Hearing

/-!
# What passes at a session

Between a session and its server there pass the frames that the session handles
and the messages that it tries to write. A try may fail, and then nothing has
reached the server, so what was tried and what was written are two things. The
passages of a session are both in one list, in the order of the program: each
body, and behind it what the session tries to write because of it.

Two things are read off passages. What reached the server is the tries that
succeeded (`Passage.wire?`). What is recorded, while records are kept, is every
try and every body that is text (`Passage.record?`), since a try is recorded
before it is known what comes of it.
-/

namespace LspClient

open Json (Value)

/-- Something that passes between a session and its server. -/
inductive Passage where
  /-- a message was to be written, for a caller or for the engine itself, and was
  written or not -/
  | tried (caller : Bool) (envelope : Value) (written : Bool)
  /-- the body of a complete frame was handled -/
  | handled (body : List UInt8)

namespace Passage

/-- What reached the server. -/
def wire? : Passage → Option (List UInt8)
  | .tried _ envelope written => if written then some (Envelope.wire envelope) else none
  | .handled _ => none

/-- What is recorded of the session with a number, while records are kept. -/
def record? (id : SessionId) : Passage → Option Record
  | .tried _ envelope _ => some ⟨id, .outgoing, Json.encode envelope⟩
  | .handled body => (Utf8.text? body).map fun text => ⟨id, .incoming, text⟩

end Passage

theorem wires_of_tries (caller written : Bool) (envelopes : List Value) :
    (envelopes.map fun e => Passage.tried caller e written).filterMap Passage.wire? =
      if written then envelopes.map Envelope.wire else [] := by
  rw [List.filterMap_map]
  cases written with
  | false => exact List.filterMap_eq_nil_iff.2 fun _ _ => rfl
  | true => exact congrFun (List.filterMap_eq_map (f := Envelope.wire)) envelopes

theorem records_of_tries (id : SessionId) (caller written : Bool) (envelopes : List Value) :
    (envelopes.map fun e => Passage.tried caller e written).filterMap (Passage.record? id) =
      envelopes.map fun e => ⟨id, .outgoing, Json.encode e⟩ := by
  rw [List.filterMap_map]
  exact congrFun (List.filterMap_eq_map (f := fun e => Record.mk id .outgoing (Json.encode e)))
    envelopes

/-- The bodies that a frame buffer has handed out. -/
def bodiesIn (results : List Wire.FrameResult) : List (List UInt8) :=
  results.filterMap Except.toOption

namespace Session

/-- What passes when a body is handled. -/
def bodyPassages (written : Bool) (s : Session) (body : List UInt8) : List Passage :=
  .handled body ::
    (s.repliesAll (Peer.bodyMessage? body).toList).map fun e => .tried false e written

/-- What passes when bodies are handled, up to the one that ends the session. -/
def passages (written : Bool) (s : Session) : List (List UInt8) → List Passage
  | [] => []
  | body :: rest =>
    s.bodyPassages written body ++
      match s.hearAll (Peer.bodyMessage? body).toList with
      | (_, true) => []
      | (t, false) => t.passages written rest

theorem repliesAll_singleton (s : Session) (m : Incoming) : s.repliesAll [m] = s.replies m := by
  rw [repliesAll]
  split <;> exact List.append_nil _

end Session

namespace Peer

/-! ## Records -/

theorem finishHandshake_records (p : Peer) (r : Response) :
    (p.finishHandshake true r).records =
      p.records ++ (p.session.greetingReplies r).map
        fun e => ⟨p.session.id, .outgoing, Json.encode e⟩ := by
  rw [finishHandshake, Session.greetingReplies]
  cases r.outcome with
  | error e => exact (List.append_nil _).symm
  | ok result =>
      dsimp only
      split
      · exact (List.append_nil _).symm
      · split
        · exact (List.append_nil _).symm
        · rfl

theorem receiveMessage_records (p : Peer) (m : Incoming) :
    (p.receiveMessage true m).1.records =
      p.records ++ (p.session.replies m).map fun e => ⟨p.session.id, .outgoing, Json.encode e⟩ := by
  cases m with
  | request id method params => rfl
  | notification method params => exact (List.append_nil _).symm
  | response r =>
      have hanswers : p.answered? r = p.session.answered? r := rfl
      rw [receiveMessage, receiveResponse, hanswers, Session.replies]
      cases p.session.answered? r with
      | none => exact (List.append_nil _).symm
      | some entry =>
          dsimp only
          split
          · exact finishHandshake_records { p with session := p.session.retire entry.id } r
          · split
            · rfl
            · exact (List.append_nil _).symm

theorem receiveBody_records (p : Peer) (written : Bool) (body : List UInt8) :
    (p.receiveBody true body).1.records =
      p.records ++ (p.session.bodyPassages written body).filterMap
        (Passage.record? p.session.id) := by
  rw [receiveBody, Session.bodyPassages, List.filterMap_cons, records_of_tries, bodyMessage?,
    Passage.record?]
  cases Utf8.text? body with
  | none => exact (List.append_nil _).symm
  | some text =>
      rw [Option.bind_some]
      dsimp only [Option.map_some]
      cases messageOf? text with
      | none => rfl
      | some m =>
          dsimp only [Option.toList_some]
          rw [receiveMessage_records, record_session, Session.repliesAll_singleton, List.append_cons]
          rfl

/-! ## Passages -/

/-- What a peer has become when some passed: what reached the server, and what was
recorded. -/
structure Passes (keep : Bool) (p q : Peer) (passed : List Passage) : Prop where
  writes : q.server.writes = p.server.writes ++ passed.filterMap Passage.wire?
  records : keep = true →
    q.records = p.records ++ passed.filterMap (Passage.record? p.session.id)

theorem Passes.nothing {keep : Bool} {p q : Peer} (hwrites : q.server.writes = p.server.writes)
    (hrecords : q.records = p.records) : p.Passes keep q [] where
  writes := hwrites.trans (List.append_nil _).symm
  records := fun _ => hrecords.trans (List.append_nil _).symm

theorem Passes.append {keep : Bool} {p q r : Peer} {passed later : List Passage}
    (first : p.Passes keep q passed) (hid : q.session.id = p.session.id)
    (second : q.Passes keep r later) : p.Passes keep r (passed ++ later) where
  writes := by
    rw [second.writes, first.writes, List.filterMap_append, List.append_assoc]
  records := by
    intro hkeep
    rw [second.records hkeep, first.records hkeep, hid, List.filterMap_append, List.append_assoc]

theorem receiveBody_passes (keep : Bool) {p : Peer} (hopen : p.server.closed = false)
    (body : List UInt8) :
    p.Passes keep (p.receiveBody keep body).1
      (p.session.bodyPassages p.server.writeFailure.isNone body) where
  writes := by
    rw [(receiveBody_heard keep hopen body).server, Session.bodyPassages, List.filterMap_cons,
      wires_of_tries]
    show p.server.writes ++ _ = p.server.writes ++ _
    cases p.server.writeFailure <;> rfl
  records := by
    rintro rfl
    exact p.receiveBody_records _ body

theorem receiveAll_passes (keep : Bool) (results : List Wire.FrameResult) :
    ∀ {p : Peer}, p.server.closed = false →
      p.Passes keep (p.receiveAll keep results).1
        (p.session.passages p.server.writeFailure.isNone (bodiesIn results)) := by
  induction results with
  | nil => exact fun _ => .nothing rfl rfl
  | cons result rest ih =>
      intro p hopen
      cases result with
      | error e => exact ih hopen
      | ok body =>
          have hbodies : bodiesIn (.ok body :: rest) = body :: bodiesIn rest := rfl
          have hbody := receiveBody_passes keep hopen body
          have hheard := receiveBody_heard keep hopen body
          rw [hbodies, receiveAll, Session.passages, hheard.outcome]
          cases hreceived : p.receiveBody keep body with
          | mk q ended =>
              rw [hreceived] at hbody hheard
              cases ended with
              | true =>
                  rw [List.append_nil]
                  exact hbody
              | false =>
                  -- what is received does not change whether writes fail
                  have hfailure : q.server.writeFailure = p.server.writeFailure := by
                    rw [hheard.server]
                    rfl
                  rw [← hfailure]
                  exact (hfailure ▸ hbody).append (receiveBody_path hreceived).id_eq
                    (ih (by rw [hheard.server]))

end Peer

end LspClient
