import Mathlib.Data.List.Nodup
import LspClient.Proofs.Client.History
import LspClient.Proofs.Session.Ledger

/-!
# Requests and their completions

Each request of the caller's gets the first response that names it, once, and
nothing else gets it. The session cannot say so of itself, since it forgets
which requests it answered. Its history can: `Session.Correlated` relates what
was sent, what was heard and which completions were made of it, and ties the
queue and whatever the caller took from it to the completions that were made.

The proof is in the ledger of `Proofs/Session/Ledger.lean`. A message makes
what is due at that moment and nothing but, so the completions of a number
after its request are empty as long as no response named it and a single one
ever since (`completionsOf_sent`), and the request of a completion is the one
that waited (`origin_of_made`).

Numbers are signed 64-bit integers and wrap around. Which request a number
stands for is only clear while it was not used a second time, and this is what
the statements assume; `Numbered.nodup` says that the first 2⁶⁴ numbers of a
session are all different.
-/

namespace LspClient

/-! ## Completions of one request -/

theorem completionsOf_concat (id : RequestId) (history : List Event) (e : Event) :
    completionsOf id (history ++ [e]) =
      completionsOf id history ++ e.made?.toList.filter fun entry => entry.id == id := by
  rw [completionsOf, completionsIn_concat, List.filter_append, completionsOf]

theorem due_eq_some {history : List Event} {m : Incoming} {entry : Completion}
    (h : due history m = some entry) :
    ∃ r, m = .response r ∧ r.requestId? = some entry.id ∧
      waitingFor entry.id history = some entry.method ∧ IsOrdinary entry.method ∧
      entry.result = r.outcome := by
  cases m with
  | request id method params => cases h
  | notification method params => cases h
  | response r =>
      obtain ⟨id, hid, hbind⟩ := Option.bind_eq_some_iff.1 h
      obtain ⟨method, hwaiting, hite⟩ := Option.bind_eq_some_iff.1 hbind
      split at hite
      · next hordinary =>
          cases hite
          exact ⟨r, rfl, hid, hwaiting, hordinary, rfl⟩
      · cases hite

theorem due_filter (id : RequestId) (history : List Event) (m : Incoming)
    (made : Option Completion) :
    ((due history m).toList.filter fun entry => entry.id == id) =
      (((Event.heard m made).answer? id).bind fun r =>
        (waitingFor id history).bind fun method =>
          if IsOrdinary method then some (⟨id, method, r.outcome⟩ : Completion)
          else none).toList := by
  cases m with
  | request other method params => rfl
  | notification method params => rfl
  | response r =>
      rw [Event.answer?]
      by_cases hid : r.requestId? = some id
      · rw [if_pos hid, due, hid, Option.bind_some, Option.bind_some]
        cases waitingFor id history with
        | none => rfl
        | some method => by_cases ho : IsOrdinary method <;> simp [ho]
      · rw [if_neg hid]
        cases hdue : due history (.response r) with
        | none => rfl
        | some entry =>
            obtain ⟨r', hr, hother, -⟩ := due_eq_some hdue
            cases hr
            have hne : entry.id ≠ id := fun h => hid (by rw [hother, h])
            simp [hne]

/-- A completion comes from the request that waited for it. -/
theorem origin_of_made {history before after : List Event} {m : Incoming}
    {entry : Completion} (hj : Justified history)
    (h : history = before ++ .heard m (some entry) :: after) :
    ∃ r earlier between, m = .response r ∧ r.requestId? = some entry.id ∧
      before = earlier ++ .sent entry.id entry.method :: between ∧
      entry.id ∉ sentIds between ∧ firstAnswer? entry.id between = none ∧
      IsOrdinary entry.method ∧ entry.result = r.outcome := by
  have hdue : due before m = some entry := (hj before m (some entry) after h).symm
  obtain ⟨r, hm, hid, hwaiting, hordinary, hresult⟩ := due_eq_some hdue
  obtain ⟨earlier, between, hbefore, hids, hfirst⟩ := sent_of_waitingFor hwaiting
  exact ⟨r, earlier, between, hm, hid, hbefore, hids, hfirst, hordinary, hresult⟩

/-- After a request was sent there is one completion for it if a response
names it, made by the first that does, and none if not. -/
theorem completionsOf_sent {id : RequestId} {method : String} {before after : List Event}
    (hj : Justified (before ++ .sent id method :: after)) (hordinary : IsOrdinary method)
    (hids : id ∉ sentIds after) :
    completionsOf id after =
      ((firstAnswer? id after).map fun r => ⟨id, method, r.outcome⟩).toList := by
  induction after using List.reverseRecOn with
  | nil => rfl
  | append_singleton after e ih =>
      rw [not_mem_sentIds_concat] at hids
      have hassoc : before ++ .sent id method :: (after ++ [e]) =
          (before ++ .sent id method :: after) ++ [e] := by simp
      rw [hassoc] at hj
      have hearlier : Justified (before ++ .sent id method :: after) :=
        fun b m made a h => hj b m made (a ++ [e]) (by rw [h]; simp)
      -- a message that is no answer makes nothing for this number, whatever it makes
      have hmade : (e.made?.toList.filter fun entry => entry.id == id) =
          ((e.answer? id).bind fun r =>
            (waitingFor id (before ++ .sent id method :: after)).bind fun method =>
              if IsOrdinary method then some (⟨id, method, r.outcome⟩ : Completion)
              else none).toList := by
        cases e with
        | heard m made =>
            have hdue := hj (before ++ .sent id method :: after) m made [] rfl
            rw [Event.made?, hdue]
            exact due_filter id _ m _
        | _ => rfl
      rw [completionsOf_concat, ih hearlier hids.1, hmade, waitingFor_sent hids.1,
        firstAnswer?_concat]
      cases firstAnswer? id after with
      | some r => cases e.answer? id <;> rfl
      | none =>
          simp only [Option.isSome_none, Bool.false_eq_true, if_false, Option.bind_some,
            if_pos hordinary]
          cases e.answer? id <;> rfl

theorem completionsOf_append (id : RequestId) (history later : List Event) :
    completionsOf id (history ++ later) = completionsOf id history ++ completionsOf id later := by
  rw [completionsOf, completionsIn, List.filterMap_append, List.filter_append]
  rfl

theorem Justified.of_append {history later : List Event} (h : Justified (history ++ later)) :
    Justified history :=
  fun before m made after heq => h before m made (after ++ later) (by rw [heq]; simp)

theorem completionsOf_of_not_sent {id : RequestId} {history : List Event}
    (hj : Justified history) (hids : id ∉ sentIds history) : completionsOf id history = [] := by
  refine List.filter_eq_nil_iff.2 fun entry hentry hid => hids ?_
  obtain ⟨e, he, hmade⟩ := List.mem_filterMap.1 hentry
  obtain ⟨before, after, rfl⟩ := List.append_of_mem he
  cases e with
  | heard m made =>
      cases hmade
      obtain ⟨r, earlier, between, -, -, rfl, -⟩ := origin_of_made hj rfl
      refine List.mem_filterMap.2 ⟨.sent entry.id entry.method, by simp, ?_⟩
      rw [Event.sentId?, beq_iff_eq.1 hid]
  | _ => cases hmade

/-! ## The queue -/

/-- The queue of completions after an event. -/
def Event.queueAfter (e : Event) (queue : List Completion) : List Completion :=
  match e with
  | .heard _ (some entry) => pushBounded queue entry
  | .taken _ => []
  | _ => queue

/-- The completions that were made, neither taken since nor pushed out. -/
def queued (history : List Event) : List Completion :=
  history.foldl (fun queue e => e.queueAfter queue) []

theorem queued_concat (history : List Event) (e : Event) :
    queued (history ++ [e]) = e.queueAfter (queued history) := by
  rw [queued, List.foldl_append]
  rfl

/-- A session whose queue is what its history says, and always was when the
caller took it. -/
structure Session.Queued (s : Session) (history : List Event) : Prop where
  queue : s.completions = queued history
  takings : ∀ before entries after, history = before ++ .taken entries :: after →
    entries = queued before

namespace Session

theorem Queued.concat {s t : Session} {history : List Event} {e : Event} (h : s.Queued history)
    (hqueue : t.completions = e.queueAfter s.completions)
    (htaken : ∀ entries, e = .taken entries → entries = s.completions) :
    t.Queued (history ++ [e]) where
  queue := by rw [queued_concat, hqueue, h.queue]
  takings := by
    intro before entries after heq
    rcases split_concat heq with ⟨rfl, hlast⟩ | ⟨later, -, hearlier⟩
    · rw [htaken entries hlast, h.queue]
    · exact h.takings before entries later hearlier

theorem Queued.moves {s t : Session} {history events : List Event} (h : s.Queued history)
    (move : s.Moves events t) : t.Queued (history ++ events) := by
  cases move with
  | read frames outputEnded =>
      rw [List.append_nil]
      exact ⟨h.queue, h.takings⟩
  | closing payload hopen =>
      rw [List.append_cons]
      have hsent : (s.numbered.await ⟨s.nextRequest, Lifecycle.ending.method, payload⟩).Queued
          (history ++ [.sent s.nextRequest Lifecycle.ending.method]) := h.concat rfl (by simp)
      exact hsent.concat rfl (by simp)
  | greeted r entry hanswers hmethod =>
      obtain ⟨info, status, heq⟩ := (s.retire entry.id).greeted_eq r
      rw [heq]
      exact h.concat rfl (by simp)
  | taken =>
      refine h.concat rfl fun entries he => ?_
      cases he
      rfl
  | _ => exact h.concat rfl (by simp)

end Session

/-! ## Numbers -/

/-- The number that is used up after `n` others. -/
def RequestId.nth (n : Nat) : RequestId :=
  ⟨.ofNat (n + 1)⟩

theorem RequestId.nth_next (n : Nat) : (nth n).next = nth (n + 1) := by
  rw [next, nth, nth, Int64.ofNat_add (n + 1) 1]
  rfl

theorem RequestId.nth_injective {m n : Nat} (hm : m < 0x10000000000000000)
    (hn : n < 0x10000000000000000) (h : nth m = nth n) : m = n := by
  have hbits : (m + 1) % 0x10000000000000000 = (n + 1) % 0x10000000000000000 := by
    simpa [nth] using congrArg (fun id => id.number.toBitVec.toNat) h
  omega

/-- A session that uses up the numbers in order. -/
structure Session.Numbered (s : Session) (history : List Event) : Prop where
  next : s.nextRequest = .nth (issuedIds history).length
  issued : issuedIds history = (List.range (issuedIds history).length).map RequestId.nth

namespace Session

theorem Numbered.quiet {s t : Session} {history : List Event} {e : Event}
    (h : s.Numbered history) (he : e.issuedId? = none) (ht : t.nextRequest = s.nextRequest) :
    t.Numbered (history ++ [e]) := by
  have hsame : issuedIds (history ++ [e]) = issuedIds history := by
    rw [issuedIds_concat, he]
    exact List.append_nil _
  exact ⟨by rw [hsame, ht, h.next], by rw [hsame]; exact h.issued⟩

theorem Numbered.issue {s t : Session} {history : List Event} {e : Event}
    (h : s.Numbered history) (he : e.issuedId? = some s.nextRequest)
    (ht : t.nextRequest = s.nextRequest.next) : t.Numbered (history ++ [e]) := by
  have hmore : issuedIds (history ++ [e]) = issuedIds history ++ [s.nextRequest] := by
    rw [issuedIds_concat, he]
    rfl
  constructor
  · rw [hmore, ht, h.next, RequestId.nth_next, List.length_append, List.length_singleton]
  · rw [hmore, List.length_append, List.length_singleton, List.range_succ, List.map_append,
      ← h.issued, h.next]
    rfl

theorem Numbered.moves {s t : Session} {history events : List Event} (h : s.Numbered history)
    (move : s.Moves events t) : t.Numbered (history ++ events) := by
  cases move with
  | read frames outputEnded =>
      rw [List.append_nil]
      exact ⟨h.next, h.issued⟩
  | unsent hconnected hopen => exact h.issue rfl rfl
  | sent method payload hconnected hopen => exact h.issue rfl rfl
  | closing payload hopen =>
      rw [List.append_cons]
      have hsent : (s.numbered.await ⟨s.nextRequest, Lifecycle.ending.method, payload⟩).Numbered
          (history ++ [.sent s.nextRequest Lifecycle.ending.method]) := h.issue rfl rfl
      exact hsent.quiet rfl rfl
  | greeted r entry hanswers hmethod =>
      obtain ⟨info, status, heq⟩ := (s.retire entry.id).greeted_eq r
      rw [heq]
      exact h.quiet rfl rfl
  | _ => exact h.quiet rfl rfl

/-- The first 2⁶⁴ numbers are different. -/
theorem Numbered.nodup {s : Session} {history : List Event} (h : s.Numbered history)
    (hlength : (issuedIds history).length ≤ 0x10000000000000000) :
    (issuedIds history).Nodup := by
  rw [h.issued]
  refine List.Nodup.map_on (fun m hm n hn heq => ?_) List.nodup_range
  rw [List.mem_range] at hm hn
  exact RequestId.nth_injective (Nat.lt_of_lt_of_le hm hlength)
    (Nat.lt_of_lt_of_le hn hlength) heq

end Session

theorem Peer.Opened.queued {id : SessionId} {s : Session} (h : Peer.Opened id s) :
    s.Queued [.sent .first Lifecycle.opening.method] := by
  obtain ⟨command, payload, rfl⟩ := h
  have hnew : Session.Queued { id, command } [] := ⟨rfl, fun before => by simp⟩
  exact hnew.concat rfl (by simp)

theorem Peer.Opened.numbered {id : SessionId} {s : Session} (h : Peer.Opened id s) :
    s.Numbered [.sent .first Lifecycle.opening.method] := by
  obtain ⟨command, payload, rfl⟩ := h
  have hnew : Session.Numbered { id, command } [] := ⟨rfl, rfl⟩
  exact hnew.issue rfl rfl

theorem sentIds_sublist (history : List Event) :
    (sentIds history).Sublist (issuedIds history) := by
  induction history using List.reverseRecOn with
  | nil => exact .slnil
  | append_singleton history e ih =>
      rw [sentIds_concat, issuedIds_concat]
      refine ih.append ?_
      cases e with
      | unsent id => exact List.nil_sublist _
      | _ => exact List.Sublist.refl _

/-! ## Every request and every completion -/

/-- A session whose requests and completions correspond. -/
structure Session.Correlated (s : Session) (history : List Event) : Prop where
  /-- a request of the caller's waits, or has been completed once, by the first
  response that named it since it was sent -/
  once : ∀ before id method after, history = before ++ .sent id method :: after →
    IsOrdinary method → id ∉ sentIds before → id ∉ sentIds after →
    ((s.pending? id).map PendingRequest.method = some method ∧
      firstAnswer? id after = none ∧ completionsOf id history = []) ∨
    (s.pending? id = none ∧ ∃ r, firstAnswer? id after = some r ∧
      completionsOf id history = [⟨id, method, r.outcome⟩])
  /-- a completion belongs to a request of the caller's and to the first
  response that named it since it was sent -/
  origin : ∀ before m entry after, history = before ++ .heard m (some entry) :: after →
    ∃ r earlier between, m = .response r ∧ r.requestId? = some entry.id ∧
      before = earlier ++ .sent entry.id entry.method :: between ∧
      entry.id ∉ sentIds between ∧ firstAnswer? entry.id between = none ∧
      IsOrdinary entry.method ∧ entry.result = r.outcome
  /-- the completions that are kept, and those that the caller took, are those
  that were made -/
  queued : s.Queued history
  /-- the first 2⁶⁴ numbers are used once -/
  unique : (issuedIds history).length ≤ 0x10000000000000000 → (sentIds history).Nodup

theorem Session.correlated {s : Session} {history : List Event} (hl : s.Ledger history)
    (hq : s.Queued history) (hn : s.Numbered history) : s.Correlated history where
  once := by
    rintro before id method after rfl hordinary hbefore hafter
    have hids : completionsOf id (before ++ .sent id method :: after) =
        completionsOf id after := by
      rw [completionsOf_append, completionsOf_of_not_sent hl.justified.of_append hbefore]
      rfl
    have hmade := completionsOf_sent hl.justified hordinary hafter
    have hwaiting := hl.waiting id
    rw [waitingFor_sent hafter] at hwaiting
    rw [hids]
    cases hfirst : firstAnswer? id after with
    | none =>
        rw [hfirst] at hmade hwaiting
        exact .inl ⟨hwaiting, rfl, hmade⟩
    | some r =>
        rw [hfirst] at hmade hwaiting
        exact .inr ⟨Option.map_eq_none_iff.1 hwaiting, r, rfl, hmade⟩
  origin := fun _ _ _ _ h => origin_of_made hl.justified h
  queued := hq
  unique := fun hlength => (hn.nodup hlength).sublist (sentIds_sublist history)

namespace Client

/-- In every run, the requests and the completions of a session that is still
registered correspond. -/
theorem correlated_of_run {settings : Settings} {processId : Nat} {launcher : Launcher}
    {operations : List Operation} {id : SessionId} {s : Session}
    (h : ((initial settings processId launcher).run operations).session? id = some s) :
    s.Correlated ((initial settings processId launcher).history id operations) := by
  have hall := run_preserves
    (P := fun s history => s.Ledger history ∧ s.Queued history ∧ s.Numbered history)
    (fun _ _ ho => ⟨ho.ledger, ho.queued, ho.numbered⟩)
    (fun _ ⟨hl, hq, hn⟩ move => ⟨hl.moves move, hq.moves move, hn.moves move⟩) h
  exact Session.correlated hall.1 hall.2.1 hall.2.2

/-- A server accepts the handshake and answers one request. -/
def singleExchange : List Operation :=
  [.connect "server" {},
    .server 0 (.emit (Wire.frameText "\x7b\"id\":1,\"result\":null\x7d")),
    .process,
    .request 1 "textDocument/hover" .null,
    .server 0 (.emit (Wire.frameText "\x7b\"id\":2,\"result\":7\x7d")),
    .process]

theorem correlated_of_singleExchange :
    ∃ s, ((initial {} 0 {}).run singleExchange).session? 1 = some s ∧
      s.completions.length = 1 ∧
      s.Correlated ((initial {} 0 {}).history 1 singleExchange) := by
  have hdone : (((initial {} 0 {}).run singleExchange).session? 1).map
      (fun s => s.completions.length) = some 1 := by decide +kernel
  obtain ⟨s, hs, hlength⟩ := Option.map_eq_some_iff.1 hdone
  exact ⟨s, hs, hlength, correlated_of_run hs⟩

end Client

end LspClient
