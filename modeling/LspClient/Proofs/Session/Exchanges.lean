import LspClient.Proofs.Session.Passages

/-!
# What can happen to a session, with what passes

A move of a session (`Session.Moves`) says what becomes of it and what is noted. It
does not say what was written, and it has nothing to say of a session that ends. For
statements that tie a session to the messages that were tried there is the exchange:
one thing that happens to a registered session, what passes as it happens, and the
session afterwards if it is still registered. Handling a frame and what the session
makes of the message in it are two exchanges, one after the other.

Whether a write succeeds shows in an exchange only where it makes a difference to the
session, that is for requests. Everywhere else both are possible.

Everything that the operations of a client do to a session is a sequence of
exchanges. For reading this is `Peer.pump_exchanges`. What every exchange keeps is so
kept by every run (`Exchanges.preserves`), and a proof of that is a case for each
line of the list below.
-/

namespace LspClient

open Json (Value)

namespace Session

/-- The session after a request was written that takes its next number. -/
def asking (s : Session) (method : String) (params : Value) : Session :=
  s.numbered.await ⟨s.nextRequest, method,
    Json.encode (Envelope.request s.nextRequest method params)⟩

theorem retire_sublist (s : Session) (id : RequestId) :
    (s.retire id).pending.Sublist s.pending :=
  List.filter_sublist

/-- One thing that happens to a registered session, what passes, and the session
afterwards, if it is still registered. -/
inductive Exchange : Session → List Passage → Option Session → Prop where
  /-- octets arrive, the output ends, a notification is kept, or the caller takes what
  is kept -/
  | quiet (s : Session) (frames : Wire.FrameBuffer) (outputEnded : Bool)
      (completions : List Completion) (notices : List Notice) :
      Exchange s [] (some { s with frames, outputEnded, completions, notices })
  /-- a complete frame is handled -/
  | handled (s : Session) (body : List UInt8) : Exchange s [.handled body] (some s)
  /-- the server's request is answered -/
  | acknowledged (s : Session) (id : Value) (written : Bool) :
      Exchange s [.tried false (Envelope.response id .null) written] (some s)
  /-- a response answers the handshake -/
  | greeted (s : Session) (r : Response) (entry : PendingRequest) (written : Bool)
      (hanswers : s.answered? r = some entry)
      (hmethod : entry.method = Lifecycle.opening.method) :
      Exchange s ((s.greetingReplies r).map fun e => .tried false e written)
        (some ((s.retire entry.id).greeted r))
  /-- a response answers the caller's request -/
  | completed (s : Session) (r : Response) (entry : PendingRequest)
      (hanswers : s.answered? r = some entry) (hmethod : IsOrdinary entry.method) :
      Exchange s [] (some { s.retire entry.id with
        completions := pushBounded s.completions ⟨entry.id, entry.method, r.outcome⟩ })
  /-- a response grants the end of the session -/
  | granted (s : Session) (r : Response) (entry : PendingRequest) (written : Bool)
      (hanswers : s.answered? r = some entry)
      (hmethod : entry.method = Lifecycle.ending.method) :
      Exchange s [.tried false (Envelope.notification Lifecycle.leaving.method .null) written] none
  /-- the caller's request is written -/
  | sent (s : Session) (method : String) (params : Value) (hconnected : s.status = .connected)
      (hopen : s.closing = false) :
      Exchange s [.tried true (Envelope.request s.nextRequest method params) true]
        (some (s.asking method params))
  /-- the caller's request cannot be written -/
  | unsent (s : Session) (method : String) (params : Value) (hconnected : s.status = .connected)
      (hopen : s.closing = false) :
      Exchange s [.tried true (Envelope.request s.nextRequest method params) false]
        (some s.numbered)
  /-- the caller's notification is tried -/
  | told (s : Session) (method : String) (params : Value) (written : Bool)
      (hconnected : s.status = .connected) (hopen : s.closing = false) :
      Exchange s [.tried true (Envelope.notification method params) written] (some s)
  /-- the end of the session is asked for -/
  | closing (s : Session) (hopen : s.closing = false) :
      Exchange s
        [.tried false (Envelope.request s.nextRequest Lifecycle.ending.method .null) true]
        (some { s.asking Lifecycle.ending.method .null with closing := true })
  /-- the end of the session cannot be asked for -/
  | severed (s : Session) (hopen : s.closing = false) :
      Exchange s
        [.tried false (Envelope.request s.nextRequest Lifecycle.ending.method .null) false] none
  /-- the client ends -/
  | dropped (s : Session) : Exchange s [] none

/-- What happens to a session over a while, from where it is registered or gone. -/
inductive Exchanges : Option Session → List Passage → Option Session → Prop where
  | nil (o : Option Session) : Exchanges o [] o
  | cons {s : Session} {o t : Option Session} {passed later : List Passage}
      (first : s.Exchange passed o) (rest : Exchanges o later t) :
      Exchanges (some s) (passed ++ later) t

theorem Exchange.single {s : Session} {o : Option Session} {passed : List Passage}
    (h : s.Exchange passed o) : Exchanges (some s) passed o := by
  have hcons := Exchanges.cons h (.nil o)
  rwa [List.append_nil] at hcons

theorem Exchanges.append {o t u : Option Session} {passed later : List Passage}
    (h : Exchanges o passed t) (h' : Exchanges t later u) : Exchanges o (passed ++ later) u := by
  induction h with
  | nil o => exact h'
  | cons first rest ih =>
      rw [List.append_assoc]
      exact .cons first (ih h')

/-- What every exchange preserves, every sequence of exchanges preserves. -/
theorem Exchanges.preserves {P : Option Session → List Passage → Prop}
    (exchange : ∀ {s : Session} {xs o} passed, P (some s) passed → s.Exchange xs o →
      P o (passed ++ xs))
    {o t : Option Session} {xs : List Passage} (h : Exchanges o xs t) :
    ∀ passed, P o passed → P t (passed ++ xs) := by
  induction h with
  | nil o =>
      intro passed hp
      rwa [List.append_nil]
  | cons first rest ih =>
      intro passed hp
      rw [← List.append_assoc]
      exact ih _ (exchange passed hp first)

/-! ## What has become of a session -/

/-- A session whose handshake was written. -/
def opened (id : SessionId) (command : String) (params : Value) : Session :=
  { ({ id, command } : Session).asking Lifecycle.opening.method params with status := .connecting }

/-- What has become of a session since its server was started, and what has
passed. -/
def Life (o : Option Session) (passed : List Passage) : Prop :=
  ∃ id command params written later,
    passed = .tried false (Envelope.request .first Lifecycle.opening.method params) written ::
      later ∧
    Exchanges (if written then some (opened id command params) else none) later o

theorem Life.append {o t : Option Session} {passed later : List Passage} (h : Life o passed)
    (rest : Exchanges o later t) : Life t (passed ++ later) := by
  obtain ⟨id, command, params, written, earlier, rfl, hlife⟩ := h
  exact ⟨id, command, params, written, earlier ++ later, rfl, hlife.append rest⟩

/-- What holds when the handshake was asked for, and is preserved by every exchange,
holds ever after. -/
theorem Life.preserves {P : Option Session → List Passage → Prop} {o : Option Session}
    {passed : List Passage} (h : Life o passed)
    (opening : ∀ id command params written,
      P (if written then some (opened id command params) else none)
        [.tried false (Envelope.request .first Lifecycle.opening.method params) written])
    (exchange : ∀ {s : Session} {xs o} passed, P (some s) passed → s.Exchange xs o →
      P o (passed ++ xs)) : P o passed := by
  obtain ⟨id, command, params, written, later, rfl, hlife⟩ := h
  exact hlife.preserves exchange _ (opening id command params written)

/-! ## Receiving -/

/-- The session that is left of what messages have made of it. -/
def kept (outcome : Session × Bool) : Option Session :=
  if outcome.2 then none else some outcome.1

theorem hears_exchanges (s : Session) (m : Incoming) (written : Bool) :
    Exchanges (some s) ((s.replies m).map fun e => .tried false e written) (kept (s.hears m)) := by
  cases m with
  | request id method params => exact (Exchange.acknowledged s id written).single
  | notification method params =>
      exact (Exchange.quiet s s.frames s.outputEnded s.completions _).single
  | response r =>
      rw [hears, replies]
      cases hanswers : s.answered? r with
      | none => exact .nil (some s)
      | some entry =>
          dsimp only
          split
          · next hopening => exact (Exchange.greeted s r entry written hanswers hopening).single
          · next hopening =>
              split
              · next hending => exact (Exchange.granted s r entry written hanswers hending).single
              · next hending =>
                  exact (Exchange.completed s r entry hanswers ⟨hopening, hending⟩).single

theorem hearAll_singleton (s : Session) (m : Incoming) : s.hearAll [m] = s.hears m := by
  rw [hearAll]
  cases s.hears m with
  | mk t ended => cases ended <;> rfl

theorem bodyPassages_exchanges (s : Session) (written : Bool) (body : List UInt8) :
    Exchanges (some s) (s.bodyPassages written body)
      (kept (s.hearAll (Peer.bodyMessage? body).toList)) := by
  refine .cons (.handled s body) ?_
  cases Peer.bodyMessage? body with
  | none => exact .nil (some s)
  | some m =>
      rw [Option.toList_some, repliesAll_singleton, hearAll_singleton]
      exact s.hears_exchanges m written

theorem passages_exchanges (written : Bool) (bodies : List (List UInt8)) : ∀ s : Session,
    Exchanges (some s) (s.passages written bodies) (kept (s.hearAll (Peer.messagesIn bodies))) := by
  induction bodies with
  | nil =>
      intro s
      exact .nil (some s)
  | cons body bodies ih =>
      intro s
      have hsplit : Peer.messagesIn (body :: bodies) =
          (Peer.bodyMessage? body).toList ++ Peer.messagesIn bodies := by
        rw [Peer.messagesIn, List.filterMap_cons]
        cases Peer.bodyMessage? body <;> rfl
      have hbody := s.bodyPassages_exchanges written body
      rw [passages, hsplit, hearAll_append]
      cases hheard : s.hearAll (Peer.bodyMessage? body).toList with
      | mk t ended =>
          rw [hheard] at hbody
          refine hbody.append ?_
          cases ended with
          | true => exact .nil none
          | false => exact ih t

/-- What a session may say because of a body. -/
inductive Answers (body : List UInt8) : Value → Prop where
  /-- the answer to a request of the server -/
  | echo {id params : Value} {method : String}
      (h : Peer.bodyMessage? body = some (.request id method params)) :
      Answers body (Envelope.response id .null)
  | ready : Answers body (Envelope.notification Lifecycle.ready.method (.object []))
  | leaving : Answers body (Envelope.notification Lifecycle.leaving.method .null)

theorem answers_of_replies {s : Session} {body : List UInt8} {m : Incoming}
    (hm : Peer.bodyMessage? body = some m) {envelope : Value} (h : envelope ∈ s.replies m) :
    Answers body envelope := by
  cases m with
  | request id method params =>
      rw [List.mem_singleton.1 h]
      exact .echo hm
  | notification method params => cases h
  | response r =>
      rw [replies] at h
      split at h
      · cases h
      · split at h
        · rw [greetingReplies] at h
          repeat' split at h
          all_goals simp at h
          rw [h]
          exact .ready
        · split at h
          · rw [List.mem_singleton.1 h]
            exact .leaving
          · cases h

/-- What passes while bodies are handled: the bodies, and what is said because of
them. -/
theorem mem_passages {written : Bool} {bodies : List (List UInt8)} : ∀ {s : Session} {x : Passage},
    x ∈ s.passages written bodies →
      ∃ body, x = .handled body ∨ ∃ envelope, Answers body envelope ∧
        x = .tried false envelope written := by
  induction bodies with
  | nil => exact fun h => nomatch h
  | cons body bodies ih =>
      intro s x h
      rw [passages, bodyPassages] at h
      rcases List.mem_append.1 h with hnow | hlater
      · refine ⟨body, (List.mem_cons.1 hnow).imp_right fun htried => ?_⟩
        obtain ⟨envelope, henvelope, rfl⟩ := List.mem_map.1 htried
        refine ⟨envelope, ?_, rfl⟩
        cases hm : Peer.bodyMessage? body with
        | none =>
            rw [hm] at henvelope
            cases henvelope
        | some m =>
            rw [hm, Option.toList_some, repliesAll_singleton] at henvelope
            exact answers_of_replies hm henvelope
      · split at hlater
        · cases hlater
        · exact ih hlater

end Session

namespace Peer

open Session (Exchanges Exchange kept)

/-- Errors of the frame buffer are passed over. -/
theorem receiveAll_bodiesIn (keep : Bool) (results : List Wire.FrameResult) : ∀ p : Peer,
    p.receiveAll keep results = p.receiveAll keep ((bodiesIn results).map .ok) := by
  induction results with
  | nil => exact fun _ => rfl
  | cons result rest ih =>
      intro p
      cases result with
      | error e => exact ih p
      | ok body =>
          have hbodies : bodiesIn (.ok body :: rest) = body :: bodiesIn rest := rfl
          rw [hbodies, List.map_cons, receiveAll, receiveAll]
          split
          · rfl
          · exact ih _

theorem fetched_exchange (p : Peer) : p.session.Exchange [] (some p.fetched.session) := by
  rw [fetched, readChunk]
  cases p.server.read with
  | mk result server =>
      cases result with
      | error e => exact .quiet p.session _ true p.session.completions p.session.notices
      | ok chunk =>
          cases chunk
          all_goals
            exact .quiet p.session _ p.session.outputEnded p.session.completions p.session.notices

end Peer

end LspClient
