import Mathlib.Data.List.Induction
import LspClient.Proofs.Session.Moves

/-!
# What a history says of a request

A history says which request waits under a number: the latest that was sent
with it, unless a response named the number since. `waitingFor` reads this off
without looking at any session, `due` says which completion a message should
make by the same reading, and `Ledger` is the agreement of a session with its
history: the session lists the requests that wait by its history, and each
message made what was due. Every move keeps the agreement.

All readings are folds, and what they are after one more event is the lemma
to use them by. The two facts that are not about one more event are that a
request which waits was sent, with nothing naming it since
(`sent_of_waitingFor`), and that a request which was sent waits until the first
response that names it (`waitingFor_sent`).
-/

namespace LspClient

namespace Event

/-- The number of a request that was written. -/
def sentId? : Event → Option RequestId
  | .sent id _ => some id
  | _ => none

/-- The number that was used up. -/
def issuedId? : Event → Option RequestId
  | .sent id _ => some id
  | .unsent id => some id
  | _ => none

/-- The response that names a number. -/
def answer? (id : RequestId) : Event → Option Response
  | .heard (.response r) _ => if r.requestId? = some id then some r else none
  | _ => none

/-- The completion that was made. -/
def made? : Event → Option Completion
  | .heard _ made => made
  | _ => none

/-- The method that waits under a number after an event, given the one that
waited before. -/
def waitingAfter (id : RequestId) (e : Event) (waiting : Option String) : Option String :=
  match e with
  | .sent new method => if new = id then some method else waiting
  | e => if (e.answer? id).isSome then none else waiting

end Event

/-! ## Readings of a history -/

/-- The numbers of the requests that were written. -/
def sentIds (history : List Event) : List RequestId :=
  history.filterMap Event.sentId?

/-- The numbers that were used up. -/
def issuedIds (history : List Event) : List RequestId :=
  history.filterMap Event.issuedId?

/-- The first response that names a number. -/
def firstAnswer? (id : RequestId) (history : List Event) : Option Response :=
  history.findSome? (Event.answer? id)

/-- The completions that were made. -/
def completionsIn (history : List Event) : List Completion :=
  history.filterMap Event.made?

/-- The completions that were made for a number. -/
def completionsOf (id : RequestId) (history : List Event) : List Completion :=
  (completionsIn history).filter fun entry => entry.id == id

/-- The method of the request that waits under a number. -/
def waitingFor (id : RequestId) (history : List Event) : Option String :=
  history.foldl (fun waiting e => e.waitingAfter id waiting) none

/-- The completion that a message should make. -/
def due (history : List Event) : Incoming → Option Completion
  | .response r =>
    r.requestId?.bind fun id =>
      (waitingFor id history).bind fun method =>
        if IsOrdinary method then some ⟨id, method, r.outcome⟩ else none
  | .request .. => none
  | .notification .. => none

theorem waitingFor_concat (id : RequestId) (history : List Event) (e : Event) :
    waitingFor id (history ++ [e]) = e.waitingAfter id (waitingFor id history) := by
  rw [waitingFor, List.foldl_append]
  rfl

theorem sentIds_concat (history : List Event) (e : Event) :
    sentIds (history ++ [e]) = sentIds history ++ e.sentId?.toList := by
  rw [sentIds, List.filterMap_append]
  cases h : e.sentId? <;> simp [h, sentIds]

theorem issuedIds_concat (history : List Event) (e : Event) :
    issuedIds (history ++ [e]) = issuedIds history ++ e.issuedId?.toList := by
  rw [issuedIds, List.filterMap_append]
  cases h : e.issuedId? <;> simp [h, issuedIds]

theorem completionsIn_concat (history : List Event) (e : Event) :
    completionsIn (history ++ [e]) = completionsIn history ++ e.made?.toList := by
  rw [completionsIn, List.filterMap_append]
  cases h : e.made? <;> simp [h, completionsIn]

theorem firstAnswer?_concat (id : RequestId) (history : List Event) (e : Event) :
    firstAnswer? id (history ++ [e]) = (firstAnswer? id history).or (e.answer? id) := by
  rw [firstAnswer?, List.findSome?_append, firstAnswer?]
  congr 1
  rw [List.findSome?_cons]
  cases e.answer? id <;> rfl

/-- Where an event stands in a history with one more event: at the end, or
where it stood. -/
theorem split_concat {α : Type} {history before after : List α} {last e : α}
    (h : history ++ [last] = before ++ e :: after) :
    (history = before ∧ last = e) ∨
      ∃ later, after = later ++ [last] ∧ history = before ++ e :: later := by
  rcases List.eq_nil_or_concat after with rfl | ⟨later, final, rfl⟩
  · obtain ⟨hbefore, hlast⟩ := List.append_inj' h rfl
    exact .inl ⟨hbefore, List.singleton_inj.1 hlast⟩
  · rw [List.concat_eq_append, ← List.cons_append, ← List.append_assoc] at h
    obtain ⟨hearlier, hlast⟩ := List.append_inj' h rfl
    exact .inr ⟨later, by rw [List.concat_eq_append, ← hlast], hearlier⟩

/-- Where an event stands in a list of events that goes on without it. -/
theorem split_of_not_mem {α : Type} {history later before after : List α} {e : α}
    (h : history ++ later = before ++ e :: after) (he : e ∉ later) :
    ∃ between, history = before ++ e :: between ∧ after = between ++ later := by
  rcases List.append_eq_append_iff.1 h with ⟨within, rfl, hlater⟩ | ⟨within, hhistory, hafter⟩
  · exact absurd (hlater ▸ List.mem_append_right within List.mem_cons_self) he
  · cases within with
    | nil => exact absurd (hafter ▸ List.mem_cons_self : e ∈ [] ++ later) he
    | cons first within =>
        obtain ⟨rfl, rfl⟩ := List.cons.inj hafter
        exact ⟨within, hhistory, rfl⟩

/-! ## What waits -/

theorem waitingAfter_of_ne {id : RequestId} {e : Event} (h : e.sentId? ≠ some id)
    (waiting : Option String) :
    e.waitingAfter id waiting = if (e.answer? id).isSome then none else waiting := by
  cases e with
  | sent new method =>
      rw [Event.waitingAfter, if_neg fun hnew => h (by rw [hnew]; rfl)]
      rfl
  | _ => rfl

theorem waitingAfter_heard (id : RequestId) (m : Incoming) (made : Option Completion)
    (waiting : Option String) :
    (Event.heard m made).waitingAfter id waiting =
      if ((Event.heard m made).answer? id).isSome then none else waiting := rfl

theorem not_mem_sentIds_concat {id : RequestId} {history : List Event} {e : Event} :
    id ∉ sentIds (history ++ [e]) ↔ id ∉ sentIds history ∧ e.sentId? ≠ some id := by
  rw [sentIds_concat, List.mem_append, not_or, Option.mem_toList]

/-- A request that waits was sent, and no response has named it since. -/
theorem sent_of_waitingFor {id : RequestId} {method : String} {history : List Event}
    (h : waitingFor id history = some method) :
    ∃ before after, history = before ++ .sent id method :: after ∧ id ∉ sentIds after ∧
      firstAnswer? id after = none := by
  induction history using List.reverseRecOn with
  | nil => cases h
  | append_singleton history e ih =>
      rw [waitingFor_concat] at h
      by_cases hsent : e.sentId? = some id
      · cases e with
        | sent new other =>
            cases hsent
            rw [Event.waitingAfter, if_pos rfl, Option.some.injEq] at h
            exact ⟨history, [], by rw [h], List.not_mem_nil, rfl⟩
        | _ => cases hsent
      · rw [waitingAfter_of_ne hsent] at h
        split at h
        · cases h
        · next hanswer =>
            obtain ⟨before, after, rfl, hids, hfirst⟩ := ih h
            refine ⟨before, after ++ [e], by simp, ?_, ?_⟩
            · exact not_mem_sentIds_concat.2 ⟨hids, hsent⟩
            · rw [firstAnswer?_concat, hfirst, Option.none_or]
              simpa using hanswer

/-- A request that was sent waits until the first response that names it. -/
theorem waitingFor_sent {id : RequestId} {method : String} {before after : List Event}
    (hids : id ∉ sentIds after) :
    waitingFor id (before ++ .sent id method :: after) =
      if (firstAnswer? id after).isSome then none else some method := by
  induction after using List.reverseRecOn with
  | nil => rw [waitingFor_concat, Event.waitingAfter, if_pos rfl]; rfl
  | append_singleton after e ih =>
      rw [not_mem_sentIds_concat] at hids
      rw [← List.cons_append, ← List.append_assoc, waitingFor_concat,
        waitingAfter_of_ne hids.2, ih hids.1, firstAnswer?_concat]
      cases firstAnswer? id after with
      | none => rfl
      | some r => exact ite_self none

/-! ## Sessions and their histories -/

/-- Whether each message made what was due by then. -/
def Justified (history : List Event) : Prop :=
  ∀ before m made after, history = before ++ .heard m made :: after → made = due before m

/-- A session that agrees with its history. -/
structure Session.Ledger (s : Session) (history : List Event) : Prop where
  waiting : ∀ id, (s.pending? id).map PendingRequest.method = waitingFor id history
  justified : Justified history

theorem Justified.concat {history : List Event} {e : Event} (h : Justified history)
    (he : ∀ m made, e = .heard m made → made = due history m) : Justified (history ++ [e]) := by
  intro before m made after heq
  rcases split_concat heq with ⟨rfl, hlast⟩ | ⟨later, -, hearlier⟩
  · exact he m made hlast
  · exact h before m made later hearlier

theorem Justified.quiet {history later : List Event} (h : Justified history)
    (hlater : ∀ e ∈ later, ∀ m made, e ≠ .heard m made) : Justified (history ++ later) := by
  intro before m made after heq
  obtain ⟨between, hhistory, -⟩ := split_of_not_mem heq fun hmem => hlater _ hmem m made rfl
  exact h before m made between hhistory

namespace Session

/-- What a message makes of a session is what is due by its history. -/
theorem Ledger.completion?_eq {s : Session} {history : List Event} (h : s.Ledger history)
    (m : Incoming) : s.completion? m = due history m := by
  cases m with
  | request id method params => rfl
  | notification method params => rfl
  | response r =>
      rw [completion?, due, answered?, Option.bind_assoc]
      congr 1
      funext id
      rw [← h.waiting]
      cases hp : s.pending? id with
      | none => rfl
      | some entry =>
          rw [Option.map_some, Option.bind_some, Option.bind_some, id_of_pending? hp]

theorem Ledger.concat {s t : Session} {history : List Event} {e : Event} (h : s.Ledger history)
    (hwaiting : ∀ id, (t.pending? id).map PendingRequest.method =
      e.waitingAfter id ((s.pending? id).map PendingRequest.method))
    (hmade : ∀ m made, e = .heard m made → made = s.completion? m) :
    t.Ledger (history ++ [e]) where
  waiting := fun id => by rw [hwaiting, h.waiting, waitingFor_concat]
  justified := h.justified.concat fun m made he => by rw [hmade m made he, h.completion?_eq]

theorem answered?_eq_some {s : Session} {r : Response} {entry : PendingRequest}
    (h : s.answered? r = some entry) :
    r.requestId? = some entry.id ∧ s.pending? entry.id = some entry := by
  obtain ⟨id, hid, hp⟩ := Option.bind_eq_some_iff.1 h
  rw [id_of_pending? hp]
  exact ⟨hid, hp⟩

theorem waiting_await (s : Session) (entry : PendingRequest) (id : RequestId) :
    ((s.await entry).pending? id).map PendingRequest.method =
      (Event.sent entry.id entry.method).waitingAfter id
        ((s.pending? id).map PendingRequest.method) := by
  rw [pending?_await, Event.waitingAfter]
  split <;> rfl

theorem waiting_retire {s : Session} {r : Response} {gone : RequestId}
    (hgone : r.requestId? = some gone) (made : Option Completion) (id : RequestId) :
    ((s.retire gone).pending? id).map PendingRequest.method =
      (Event.heard (.response r) made).waitingAfter id
        ((s.pending? id).map PendingRequest.method) := by
  rw [pending?_retire, waitingAfter_heard, Event.answer?, hgone]
  by_cases h : gone = id
  · simp [h]
  · simp [h]

theorem waiting_ignored {s : Session} {r : Response} (h : s.answered? r = none)
    (made : Option Completion) (id : RequestId) :
    (s.pending? id).map PendingRequest.method =
      (Event.heard (.response r) made).waitingAfter id
        ((s.pending? id).map PendingRequest.method) := by
  rw [waitingAfter_heard, Event.answer?]
  by_cases hid : r.requestId? = some id
  · rw [answered?, hid, Option.bind_some] at h
    rw [h]
    exact (ite_self none).symm
  · rw [if_neg hid]
    rfl

/-- The agreement of a session with its history is kept by every move. -/
theorem Ledger.moves {s t : Session} {history events : List Event} (h : s.Ledger history)
    (move : s.Moves events t) : t.Ledger (history ++ events) := by
  cases move with
  | read frames outputEnded =>
      rw [List.append_nil]
      exact ⟨h.waiting, h.justified⟩
  | unsent hconnected hopen => exact h.concat (fun _ => rfl) (by simp)
  | sent method payload hconnected hopen =>
      exact h.concat (s.numbered.waiting_await ⟨s.nextRequest, method, payload⟩) (by simp)
  | closing payload hopen =>
      have hsent : (s.numbered.await ⟨s.nextRequest, Lifecycle.ending.method, payload⟩).Ledger
          (history ++ [.sent s.nextRequest Lifecycle.ending.method]) :=
        h.concat (s.numbered.waiting_await ⟨_, _, payload⟩) (by simp)
      rw [List.append_cons]
      exact hsent.concat (fun _ => rfl) (by simp)
  | ignored r hanswers =>
      refine h.concat (waiting_ignored hanswers none) fun m made he => ?_
      cases he
      rw [completion?, hanswers]
      rfl
  | greeted r entry hanswers hmethod =>
      have hid := (answered?_eq_some hanswers).1
      obtain ⟨info, status, heq⟩ := (s.retire entry.id).greeted_eq r
      rw [heq]
      refine h.concat (waiting_retire hid none) fun m made he => ?_
      cases he
      rw [completion?, hanswers, Option.bind_some, if_neg fun ho => ho.1 hmethod]
  | completed r entry hanswers hmethod =>
      have hid := (answered?_eq_some hanswers).1
      refine h.concat (waiting_retire hid _) fun m made he => ?_
      cases he
      rw [completion?, hanswers, Option.bind_some, if_pos hmethod]
  | acknowledged id method params =>
      refine h.concat (fun _ => rfl) fun m made he => ?_
      cases he
      rfl
  | noticed method params =>
      refine h.concat (fun _ => rfl) fun m made he => ?_
      cases he
      rfl
  | taken => exact h.concat (fun _ => rfl) (by simp)
  | takenNotices => exact h.concat (fun _ => rfl) (by simp)

end Session

theorem Peer.Opened.ledger {id : SessionId} {s : Session} (h : Peer.Opened id s) :
    s.Ledger [.sent .first Lifecycle.opening.method] := by
  obtain ⟨command, payload, rfl⟩ := h
  have hnew : Session.Ledger { id, command } [] := ⟨fun _ => rfl, fun before => by simp⟩
  exact hnew.concat (Session.waiting_await _ ⟨.first, Lifecycle.opening.method, payload⟩) (by simp)

end LspClient
