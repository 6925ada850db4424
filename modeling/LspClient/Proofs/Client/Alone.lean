import LspClient.Proofs.Client.Upshot
import LspClient.Proofs.Session.Renumbering

/-!
# An operation on a session that is alone

A session that is alone in its client has the number 1, and its server is the
first. `Operation.alone` says which operations remain for it of those that happen
to a client with many sessions, and what becomes of the numbers in them.

By `Proofs/Session/Renumbering.lean` the numbers make no difference to a session.
So what an operation comes to at the link of the session is what the rest of it
comes to at the link of the session alone, and an operation of which nothing
remains comes to nothing there (`Link.upshot?_alone`).
-/

namespace LspClient

open Json (Value)

/-! ## Numbers in what an operation comes to -/

/-- The refusal for a session under another number. -/
def ClientError.under (number : SessionId) : ClientError → ClientError
  | .transport e => .transport e
  | .unknownSession _ => .unknownSession number
  | .notConnected _ => .notConnected number
  | .shutdownPending _ => .shutdownPending number

/-- The answer for a session under another number. -/
def Reply.under (number : SessionId) : Reply → Reply
  | .refused e => .refused (e.under number)
  | .opened _ => .opened number
  | reply => reply

/-- The link of a session and its server under other numbers. -/
def Link.under (number : SessionId) (process : Nat) (l : Link) : Link where
  server := l.server.under process
  session := l.session.map (Session.under number)

/-- What an operation comes to for a session and its server under other
numbers. -/
def Upshot.under (number : SessionId) (process : Nat) (u : Upshot) : Upshot where
  reply := u.reply.under number
  link := u.link.under number process
  records := u.records.map (Record.under number)

theorem ServerEvent.apply_under (process : Nat) (v : Server) (event : ServerEvent) :
    event.apply (v.under process) = (event.apply v).under process := by
  cases event with
  | answer method result => exact congrArg Prod.snd (v.answer_under process method result)
  | _ => rfl

namespace Peer

variable (number : SessionId) (process : Nat)

theorem opening_under (keep : Bool) (p : Peer) (params : Value) :
    (p.under number process).opening keep params =
      (p.opening keep params).under number process := by
  rw [opening, openSession_under, opening]
  cases p.openSession keep params with
  | mk result q => cases result <;> rfl

/-- An operation comes to the same for a session under another number. -/
theorem upshot_under (keep : Bool) (p : Peer) (operation : Operation) :
    (p.under number process).upshot keep operation =
      (p.upshot keep operation).under number process := by
  have hadmits : (p.under number process).admits =
      p.admits.mapError (ClientError.under number) := by
    rw [admits, admits]
    show (if p.session.closing then _ else if p.session.status ≠ .connected then _ else _) = _
    split
    · rfl
    · split <;> rfl
  cases operation with
  | close target =>
      rw [upshot, endSession_under, upshot]
      show (if p.session.closing then _ else _) = _
      split
      · rfl
      · cases p.endSession keep with
        | mk result q => cases result <;> rfl
  | request target method params =>
      rw [upshot, hadmits, request_under, upshot]
      cases p.admits with
      | error e => rfl
      | ok _ =>
          cases p.request keep method params with
          | mk result q => cases result <;> rfl
  | notify target method params =>
      rw [upshot, hadmits, notify_under, upshot]
      cases p.admits with
      | error e => rfl
      | ok _ =>
          cases p.notify keep method params with
          | mk result q => cases result <;> rfl
  | process =>
      rw [upshot, pump_under, upshot]
      dsimp only
      cases (p.pump keep).finished <;> rfl
  | _ => rfl

end Peer

/-! ## Sessions keep their number -/

theorem Upshot.session_of_under {u : Upshot} {id : SessionId} {process : Nat}
    (h : u.under id process = u) :
    (∀ r ∈ u.records, r.session = id) ∧ ∀ other, u.link.id? = some other → other = id := by
  constructor
  · intro r hr
    have hrecords : u.records.map (Record.under id) = u.records := congrArg Upshot.records h
    rw [← hrecords] at hr
    obtain ⟨old, -, rfl⟩ := List.mem_map.1 hr
    rfl
  · intro other hother
    have hsession : u.link.session.map (Session.under id) = u.link.session :=
      congrArg (fun u => u.link.session) h
    rw [Link.id?, ← hsession] at hother
    obtain ⟨s, hs, rfl⟩ := Option.map_eq_some_iff.1 hother
    obtain ⟨old, -, rfl⟩ := Option.map_eq_some_iff.1 hs
    rfl

/-- With the numbers that they have, a session and its server are what they
are. -/
theorem Peer.under_self {p : Peer} (h : p.records = []) :
    p.under p.session.id p.server.processId = p := by
  obtain ⟨s, v, records⟩ := p
  cases h
  rfl

namespace Link

theorem upshot?_eq_some {keep : Bool} {l : Link} {operation : Operation} {u : Upshot}
    (h : l.upshot? keep operation = some u) :
    ∃ s, l.session = some s ∧ u.under s.id l.server.processId = u := by
  have hpeer : ∃ p, l.peer? = some p ∧ p.upshot keep operation = u := by
    rw [upshot?] at h
    split at h
    · obtain ⟨p, hp, hu⟩ := Option.bind_eq_some_iff.1 h
      split at hu
      · exact ⟨p, hp, Option.some.inj hu⟩
      · cases hu
    · exact Option.map_eq_some_iff.1 h
    · cases h
    · cases h
  obtain ⟨p, hp, rfl⟩ := hpeer
  obtain ⟨s, hs, rfl⟩ := Option.map_eq_some_iff.1 hp
  refine ⟨s, hs, ?_⟩
  have hself := Peer.under_self (p := { session := s, server := l.server }) rfl
  exact (Peer.upshot_under _ _ _ _ _).symm.trans (congrArg (Peer.upshot keep · operation) hself)

theorem session_of_newRecords {keep : Bool} {l : Link} {operation : Operation} {r : Record}
    (h : r ∈ l.newRecords keep operation) : l.id? = some r.session := by
  rw [newRecords] at h
  cases hu : l.upshot? keep operation with
  | none =>
      rw [hu] at h
      cases h
  | some u =>
      rw [hu] at h
      obtain ⟨s, hs, hself⟩ := upshot?_eq_some hu
      rw [id?, hs, (Upshot.session_of_under hself).1 r h]
      rfl

/-- No operation gives a link another session. -/
theorem id?_of_after {keep : Bool} {index : Nat} {l : Link} {operation : Operation}
    {id : SessionId} (h : (l.after keep index operation).id? = some id) : l.id? = some id := by
  have hupshot : (((l.upshot? keep operation).map Upshot.link).getD l).id? = some id →
      l.id? = some id := by
    intro h
    cases hu : l.upshot? keep operation with
    | none => rwa [hu] at h
    | some u =>
        rw [hu] at h
        obtain ⟨s, hs, hself⟩ := upshot?_eq_some hu
        rw [id?, hs, (Upshot.session_of_under hself).2 id h]
        rfl
  rw [after] at h
  split at h
  · split at h <;> exact h
  · exact hupshot h

end Link

/-! ## What remains of a run for one session -/

/-- What remains of an operation for the session with a number, whose server has
an index, if the session is alone. -/
def Operation.alone (id : SessionId) (index : Nat) : Operation → Option Operation
  | .close target => if target = id then some (.close 1) else none
  | .request target method params =>
    if target = id then some (.request 1 method params) else none
  | .notify target method params => if target = id then some (.notify 1 method params) else none
  | .takeCompletions target => if target = id then some (.takeCompletions 1) else none
  | .takeNotices target => if target = id then some (.takeNotices 1) else none
  | .process => some .process
  | .shutdown => some .shutdown
  | .server target event => if target = index then some (.server 0 event) else none
  | .adjust (.debug on) => some (.adjust (.debug on))
  | .adjust _ | .connect .. | .lose _ | .failNewServers _ => none

namespace Operation

/-- An operation that names a session remains if it names this one. -/
theorem alone_of_session {operation : Operation} {target : SessionId}
    (hscope : operation.scope = .session target) (id : SessionId) (index : Nat) :
    (target ≠ id ∧ operation.alone id index = none) ∨
    (target = id ∧ ∃ rest, operation.alone id index = some rest ∧ rest.scope = .session 1 ∧
      rest.unknown = operation.unknown.under 1 ∧
      ∀ keep p, Peer.upshot keep p rest = Peer.upshot keep p operation) := by
  by_cases htarget : target = id
  · right
    refine ⟨htarget, ?_⟩
    cases operation with
    | process | shutdown | server | connect | adjust | lose | failNewServers => cases hscope
    | _ =>
        cases hscope
        exact ⟨_, if_pos htarget, rfl, rfl, fun _ _ => rfl⟩
  · left
    refine ⟨htarget, ?_⟩
    cases operation with
    | process | shutdown | server | connect | adjust | lose | failNewServers => cases hscope
    | _ =>
        cases hscope
        exact if_neg htarget

theorem alone_of_sessions {operation : Operation} (hscope : operation.scope = .sessions)
    (id : SessionId) (index : Nat) : operation.alone id index = some operation := by
  cases operation <;> first | rfl | cases hscope

/-- What remains opens no other session. -/
theorem opens_nothing_of_alone {operation rest : Operation} {id : SessionId} {index : Nat}
    (h : operation.alone id index = some rest) (d : Client) :
    d.newLinks rest = [] ∧ d.openingRecords rest = [] := by
  cases rest with
  | connect command connection =>
      cases operation with
      | adjust change => cases change <;> cases h
      | _ => simp [alone] at h
  | _ => exact ⟨rfl, rfl⟩

theorem not_server_of_alone {operation rest : Operation} {id : SessionId} {index : Nat}
    (h : ¬ ∃ target event, operation = .server target event)
    (hrest : operation.alone id index = some rest) :
    ¬ ∃ target event, rest = .server target event := by
  rintro ⟨target, event, rfl⟩
  cases operation with
  | server old event => exact h ⟨old, event, rfl⟩
  | adjust change => cases change <;> cases hrest
  | _ => simp [alone] at hrest

/-- What an operation turns the records into, on or off. -/
def debug? : Operation → Option Bool
  | .adjust (.debug on) => some on
  | _ => none

theorem debug?_alone (operation : Operation) (id : SessionId) (index : Nat) :
    (operation.alone id index).bind debug? = operation.debug? := by
  cases operation with
  | process | shutdown | connect | lose | failNewServers => rfl
  | adjust change => cases change <;> rfl
  | _ =>
      rw [Operation.alone]
      split <;> rfl

/-- Whether an operation names a session. -/
def names (id : SessionId) (operation : Operation) : Bool :=
  match operation.scope with
  | .session target => target == id
  | _ => false

theorem scope_of_names {operation : Operation} {id : SessionId}
    (h : operation.names id = true) : operation.scope = .session id := by
  rw [names] at h
  split at h
  · next target hscope => rw [hscope, beq_iff_eq.1 h]
  · cases h

/-- What names the session remains, and names it then. -/
theorem names_alone (operation : Operation) (id : SessionId) (index : Nat) :
    ((operation.alone id index).map (names 1)).getD false = operation.names id := by
  cases operation with
  | process | shutdown | connect | lose | failNewServers => rfl
  | adjust change => cases change <;> rfl
  | server target event =>
      rw [alone]
      split <;> rfl
  | close target | takeCompletions target | takeNotices target =>
      rw [alone]
      show _ = (target == id)
      split
      · next htarget => exact (beq_iff_eq.2 htarget).symm
      · next htarget => exact (beq_false_of_ne htarget).symm
  | request target method params | notify target method params =>
      rw [alone]
      show _ = (target == id)
      split
      · next htarget => exact (beq_iff_eq.2 htarget).symm
      · next htarget => exact (beq_false_of_ne htarget).symm

end Operation

namespace Link

theorem after_eq {keep : Bool} {index : Nat} {l : Link} {operation : Operation}
    (h : ¬ ∃ target event, operation = .server target event) :
    l.after keep index operation = ((l.upshot? keep operation).map Upshot.link).getD l := by
  cases operation with
  | server target event => exact absurd ⟨target, event, rfl⟩ h
  | _ => rfl

/-- What an operation comes to at the link of a session is what the rest of it
comes to if the session is alone. -/
theorem upshot?_alone {l : Link} {id : SessionId} (hid : ∀ s, l.session = some s → s.id = id)
    (keep : Bool) (index process : Nat) (operation : Operation) :
    ((operation.alone id index).bind fun rest => (l.under 1 process).upshot? keep rest) =
      (l.upshot? keep operation).map (Upshot.under 1 process) := by
  obtain ⟨v, session⟩ := l
  cases hscope : operation.scope with
  | session target =>
      rcases operation.alone_of_session hscope id index with
        ⟨hne, hnone⟩ | ⟨rfl, rest, hrest, hrestScope, -, hsame⟩
      · rw [hnone, upshot?_of_session hscope, if_neg]
        · rfl
        · intro htarget
          obtain ⟨s, hs, rfl⟩ := Option.map_eq_some_iff.1 htarget
          exact hne (hid s hs)
      · rw [hrest, Option.bind_some, upshot?_of_session hrestScope, upshot?_of_session hscope]
        cases session with
        | none => rfl
        | some s =>
            obtain rfl := hid s rfl
            have hlone : (Link.under 1 process ⟨v, some s⟩).id? = some 1 := rfl
            have howned : (Link.mk v (some s)).id? = some s.id := rfl
            rw [if_pos hlone, if_pos howned]
            refine congrArg some ((hsame keep _).trans ?_)
            exact Peer.upshot_under 1 process keep { session := s, server := v } operation
  | sessions =>
      rw [operation.alone_of_sessions hscope id index, Option.bind_some, upshot?, upshot?, hscope]
      cases session with
      | none => rfl
      | some s =>
          exact congrArg some
            (Peer.upshot_under 1 process keep { session := s, server := v } operation)
  | server target event =>
      rw [upshot?, hscope]
      cases operation with
      | server =>
          rw [Operation.alone]
          split <;> rfl
      | _ => cases hscope
  | nothing =>
      rw [upshot?, hscope]
      cases operation with
      | adjust change => cases change <;> rfl
      | connect | lose | failNewServers => rfl
      | _ => cases hscope

theorem newRecords_alone {l : Link} {id : SessionId} (hid : ∀ s, l.session = some s → s.id = id)
    (keep : Bool) (index process : Nat) (operation : Operation) :
    (operation.alone id index).elim [] ((l.under 1 process).newRecords keep) =
      (l.newRecords keep operation).map (Record.under 1) := by
  have hupshot := upshot?_alone hid keep index process operation
  rw [newRecords]
  cases hrest : operation.alone id index with
  | none =>
      rw [hrest, Option.bind_none, eq_comm, Option.map_eq_none_iff] at hupshot
      rw [hupshot]
      rfl
  | some rest =>
      rw [hrest, Option.bind_some] at hupshot
      show ((upshot? keep _ rest).map Upshot.records).getD [] = _
      rw [hupshot]
      cases l.upshot? keep operation <;> rfl

theorem after_alone {l : Link} {id : SessionId} (hid : ∀ s, l.session = some s → s.id = id)
    (keep : Bool) (index process : Nat) (operation : Operation) :
    (operation.alone id index).elim (l.under 1 process) ((l.under 1 process).after keep 0) =
      (l.after keep index operation).under 1 process := by
  have hupshot := upshot?_alone hid keep index process operation
  by_cases hserver : ∃ target event, operation = .server target event
  · obtain ⟨target, event, rfl⟩ := hserver
    rw [Operation.alone]
    show _ = Link.under 1 process (if target = index then _ else _)
    split
    · exact congrArg (Link.mk · _) (event.apply_under process l.server)
    · rfl
  · rw [after_eq hserver]
    cases hrest : operation.alone id index with
    | none =>
        rw [hrest, Option.bind_none, eq_comm, Option.map_eq_none_iff] at hupshot
        rw [hupshot]
        rfl
    | some rest =>
        rw [hrest, Option.bind_some] at hupshot
        show Link.after keep 0 _ rest = _
        rw [after_eq (Operation.not_server_of_alone hserver hrest), hupshot]
        cases l.upshot? keep operation <;> rfl

end Link

end LspClient
