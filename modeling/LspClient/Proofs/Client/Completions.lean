import LspClient.Proofs.Client.Endings
import LspClient.Proofs.Session.Correlation

/-!
# What becomes of completions

A caller that takes the completions of a session after every read gets each of
them once, in the order of the answers, as long as the session is registered. A
session that ends takes with it what was made and not taken by then, and if it
ends in a read that is everything that the same read made: the caller cannot
come in between. So whether a last answer is delivered depends on whether it
shares a read with the answer that ends the session.

The account is kept operation by operation. What is in the queue before one and
what is made in it is taken in it, lost in it, or in the queue after it
(`account_step`). For this the queue must not overflow, which is why no read may
make more completions than the queue holds and the caller has to keep up.
-/

namespace LspClient

/-! ## Made and taken -/

/-- The completions that the caller was given. -/
def Event.given : Event → List Completion
  | .taken entries => entries
  | _ => []

/-- The completions that the caller took. -/
def takenIn (history : List Event) : List Completion :=
  history.flatMap Event.given

theorem takenIn_append (history later : List Event) :
    takenIn (history ++ later) = takenIn history ++ takenIn later :=
  List.flatMap_append

theorem completionsIn_append (history later : List Event) :
    completionsIn (history ++ later) = completionsIn history ++ completionsIn later :=
  List.filterMap_append

theorem pushBounded_of_lt {α : Type} {queue : List α} (h : queue.length < maxQueued) (entry : α) :
    pushBounded queue entry = queue ++ [entry] := by
  rw [pushBounded, if_neg (Nat.not_le_of_lt h)]

namespace Session

theorem Moves.kept {s t : Session} {events : List Event} (h : s.Moves events t)
    (hbound : s.completions.length + (completionsIn events).length ≤ maxQueued) :
    s.completions ++ completionsIn events = takenIn events ++ t.completions := by
  cases h with
  | greeted r entry hanswers hmethod =>
      obtain ⟨info, status, heq⟩ := (s.retire entry.id).greeted_eq r
      rw [heq]
      exact List.append_nil _
  | completed r entry hanswers hmethod => exact (pushBounded_of_lt hbound _).symm
  | taken => simp [completionsIn, takenIn, Event.made?, Event.given]
  | _ => exact List.append_nil _

/-- On a path that does not overflow the queue, the completions are taken or
kept. -/
theorem Path.kept {s t : Session} {events : List Event} (path : s.Path events t)
    (hbound : s.completions.length + (completionsIn events).length ≤ maxQueued) :
    s.completions ++ completionsIn events = takenIn events ++ t.completions := by
  induction path with
  | nil s => exact List.append_nil _
  | @cons s t u events later first rest ih =>
      rw [completionsIn_append, List.length_append] at hbound
      have hfirst := first.kept (by omega)
      have hlengths := congrArg List.length hfirst
      rw [List.length_append, List.length_append] at hlengths
      calc s.completions ++ completionsIn (events ++ later)
          = (s.completions ++ completionsIn events) ++ completionsIn later := by
            rw [completionsIn_append, List.append_assoc]
        _ = takenIn events ++ (t.completions ++ completionsIn later) := by
            rw [hfirst, List.append_assoc]
        _ = takenIn events ++ (takenIn later ++ u.completions) := by rw [ih (by omega)]
        _ = takenIn (events ++ later) ++ u.completions := by
            rw [takenIn_append, List.append_assoc]

end Session

/-! ## Callers that keep up -/

/-- Whether the completions of a session are taken before the next read. -/
def takesFirst (id : SessionId) : List Operation → Bool
  | [] => false
  | .process :: _ => false
  | .takeCompletions target :: rest => target == id || takesFirst id rest
  | _ :: rest => takesFirst id rest

/-- Whether the completions of a session are taken after every read. -/
def attentive (id : SessionId) : List Operation → Bool
  | [] => true
  | .process :: rest => takesFirst id rest && attentive id rest
  | _ :: rest => attentive id rest

namespace Client

/-- Whether no read makes more completions of a session than its queue holds. -/
def Moderate (id : SessionId) (c : Client) : List Operation → Prop
  | [] => True
  | operation :: rest =>
    (completionsIn (c.eventsOf id operation)).length ≤ maxQueued ∧
      (c.step operation).2.Moderate id rest

instance Moderate.decidable (id : SessionId) :
    ∀ (c : Client) (operations : List Operation), Decidable (c.Moderate id operations)
  | _, [] => inferInstanceAs (Decidable True)
  | c, operation :: rest =>
    have := decidable id (c.step operation).2 rest
    inferInstanceAs (Decidable (_ ∧ _))

/-- The completions that are lost as an operation ends a session: those that the
caller has not taken, and those that the operation itself made. -/
def lostBy (id : SessionId) (c : Client) (operation : Operation) : List Completion :=
  match c.session? id, (c.step operation).2.session? id with
  | some s, none => s.completions ++ completionsIn (c.eventsOf id operation)
  | _, _ => []

/-- The completions of a session that are lost in a run. -/
def lost (id : SessionId) (c : Client) : List Operation → List Completion
  | [] => []
  | operation :: rest => c.lostBy id operation ++ (c.step operation).2.lost id rest

/-- The completions that a caller could take. -/
def waiting (id : SessionId) (c : Client) : List Completion :=
  (c.takeCompletions id).1

theorem waiting_eq (id : SessionId) (c : Client) :
    c.waiting id = ((c.session? id).map Session.completions).getD [] := by
  rw [waiting, takeCompletions, session?_eq]
  cases c.peer? id <;> rfl

/-! ## One operation -/

theorem openingEvents_quiet (id : SessionId) (reply : Reply) :
    completionsIn (reply.openingEvents id) = [] ∧ takenIn (reply.openingEvents id) = [] := by
  constructor
  · refine List.filterMap_eq_nil_iff.2 fun e he => ?_
    rw [mem_openingEvents he]
    rfl
  · refine List.flatMap_eq_nil_iff.2 fun e he => ?_
    rw [mem_openingEvents he]
    rfl

theorem completionsIn_eventsOf {c : Client} {id : SessionId} {operation : Operation}
    (h : operation ≠ .process) : completionsIn (c.eventsOf id operation) = [] := by
  rw [eventsOf]
  split
  · exact (openingEvents_quiet id _).1
  · split
    · unfold Peer.noted
      split
      case h_1 =>
        rw [Peer.closeEvents]
        split <;> rfl
      case h_4 => exact absurd rfl h
      all_goals rfl
    · rfl

theorem takenIn_of_gone {c : Client} (hc : c.Ordered) {id : SessionId} {p : Peer}
    (hp : c.peer? id = some p) {operation : Operation}
    (hgone : (c.step operation).2.peer? id = none) : takenIn (c.eventsOf id operation) = [] := by
  rw [eventsOf_of_peer? hp]
  rcases gone_of_step hc hp hgone with ⟨rfl, -⟩ | ⟨rfl, e, hreply⟩ | rfl
  · refine List.flatMap_eq_nil_iff.2 fun e he => ?_
    obtain ⟨m, made, rfl⟩ := Peer.pumpEvents_heard he
    rfl
  · rw [hreply]
    split <;> rfl
  · rfl

/-- What waits before an operation and what is made in it is taken in it, lost
in it, or waits after it. -/
theorem account_step {c : Client} (hc : c.Ordered) {id : SessionId} {operation : Operation}
    (hbound : (c.waiting id).length + (completionsIn (c.eventsOf id operation)).length ≤
      maxQueued) :
    c.waiting id ++ completionsIn (c.eventsOf id operation) =
      takenIn (c.eventsOf id operation) ++ c.lostBy id operation ++
        (c.step operation).2.waiting id := by
  rw [waiting_eq, session?_eq] at hbound ⊢
  rw [lostBy, waiting_eq, session?_eq, session?_eq]
  cases hq : (c.step operation).2.peer? id with
  | some q =>
      rcases step_follows hc operation hq with ⟨p, hp, path⟩ | ⟨hnew, s, later, hs, path, heq⟩
      · rw [hp] at hbound ⊢
        exact (path.kept hbound).trans (by simp)
      · have hnone : c.peer? id = none := findPeer_eq_none (hc.id?_ne hnew)
        have hempty : s.completions = [] := by
          obtain ⟨command, payload, rfl⟩ := hs
          rfl
        rw [hnone, heq] at hbound ⊢
        have hkept := path.kept (by rw [hempty]; exact hbound)
        rw [hempty] at hkept
        exact hkept.trans (by simp [takenIn, Event.given])
  | none =>
      cases hp : c.peer? id with
      | none =>
          have hevents : c.eventsOf id operation = (c.step operation).1.openingEvents id := by
            rw [eventsOf, hp]
          rw [hevents, (openingEvents_quiet id _).1, (openingEvents_quiet id _).2]
          rfl
      | some p =>
          rw [takenIn_of_gone hc hp hq]
          exact (List.append_nil _).symm

/-! ## Sessions that have ended -/

/-- The session with a number has ended. -/
structure Spent (c : Client) (id : SessionId) : Prop where
  number : id ≤ c.lastSession
  gone : c.peer? id = none

/-- A session that has ended stays so, and nothing more is noted of it. -/
theorem Spent.step {c : Client} {id : SessionId} (h : c.Spent id) (hc : c.Ordered)
    (operation : Operation) :
    (c.step operation).2.Spent id ∧ c.eventsOf id operation = [] := by
  have hnotNew : c.lastSession + 1 ≠ id := fun heq => Nat.not_succ_le_self _ (heq ▸ h.number)
  have hevents : c.eventsOf id operation = (c.step operation).1.openingEvents id := by
    rw [eventsOf, h.gone]
  rw [hevents]
  have hgone : (c.step operation).2.peer? id = none := by
    cases hq : (c.step operation).2.peer? id with
    | none => rfl
    | some q =>
        rcases step_follows hc operation hq with ⟨p, hp, -⟩ | ⟨hnew, -⟩
        · rw [h.gone] at hp
          cases hp
        · exact absurd h.number (Nat.not_le_of_lt hnew)
  rcases c.step_lastSession operation with ⟨hlast, hquiet⟩ | ⟨hlast, hquiet⟩
  · exact ⟨⟨hlast ▸ h.number, hgone⟩, hquiet id⟩
  · exact ⟨⟨hlast ▸ Nat.le_succ_of_le h.number, hgone⟩, hquiet id hnotNew⟩

theorem Spent.run {id : SessionId} (operations : List Operation) {c : Client} (h : c.Spent id)
    (hc : c.Ordered) : (c.run operations).Spent id ∧ c.history id operations = [] := by
  induction operations generalizing c with
  | nil => exact ⟨h, rfl⟩
  | cons operation rest ih =>
      obtain ⟨hstep, hevents⟩ := h.step hc operation
      obtain ⟨hrun, hhistory⟩ := ih hstep (hc.step operation)
      refine ⟨hrun, ?_⟩
      rw [history, hevents, hhistory]
      rfl

theorem lostBy_or_spent {c : Client} (hc : c.Ordered) (id : SessionId) (operation : Operation) :
    c.lostBy id operation = [] ∨ (c.step operation).2.Spent id := by
  rw [lostBy, session?_eq, session?_eq]
  cases hp : c.peer? id with
  | none => exact .inl rfl
  | some p =>
      cases hq : (c.step operation).2.peer? id with
      | some q => exact .inl rfl
      | none =>
          have hnumber : id ≤ c.lastSession := by
            obtain ⟨index, l, hl, hid⟩ := exists_link_of_peer? hp
            exact hc.bounded id (List.mem_filterMap.2 ⟨l, List.mem_of_getElem? hl, hid⟩)
          refine .inr ⟨?_, hq⟩
          rcases c.step_lastSession operation with ⟨hlast, -⟩ | ⟨hlast, -⟩
          · exact hlast ▸ hnumber
          · exact hlast ▸ Nat.le_succ_of_le hnumber

theorem lost_of_registered {id : SessionId} (operations : List Operation) {c : Client}
    (hc : c.Ordered) (h : (c.run operations).session? id ≠ none) : c.lost id operations = [] := by
  induction operations generalizing c with
  | nil => rfl
  | cons operation rest ih =>
      rw [lost, ih (hc.step operation) h, List.append_nil]
      refine (lostBy_or_spent hc id operation).resolve_right fun hspent => h ?_
      rw [session?_eq, run_cons, (hspent.run rest (hc.step operation)).1.gone]
      rfl

/-! ## Runs -/

theorem waiting_takeCompletions (id : SessionId) (c : Client) :
    (c.step (.takeCompletions id)).2.waiting id = [] := by
  rw [waiting_eq, session?_eq]
  cases hp : c.peer? id with
  | none =>
      have hstep : (c.step (.takeCompletions id)).2 = c := by simp only [step, takeCompletions, hp]
      rw [hstep, hp]
      rfl
  | some p =>
      let q : Peer := { p with session := { p.session with completions := [] } }
      have hstep : (c.step (.takeCompletions id)).2 = c.putPeer id q := by
        simp only [step, takeCompletions, hp, q]
      have hid : p.session.id = id := session_id_of_peer? hp
      have hq : q.session.id = id := hid
      rw [hstep, peer?_putPeer_self hp hq]
      rfl

theorem attentive_tail {id : SessionId} {operation : Operation} {rest : List Operation}
    (h : attentive id (operation :: rest) = true) : attentive id rest = true := by
  cases operation with
  | process => exact (Bool.and_eq_true_iff.1 h).2
  | _ => exact h

/-- Where a caller that keeps up has got to: nothing waits, or it is taken
next. -/
structure KeepsUp (c : Client) (id : SessionId) (operations : List Operation) : Prop where
  bound : (c.waiting id).length ≤ maxQueued
  next : c.waiting id = [] ∨ takesFirst id operations = true

theorem KeepsUp.step {c : Client} {id : SessionId} {operation : Operation}
    {rest : List Operation} (h : c.KeepsUp id (operation :: rest)) (hc : c.Ordered)
    (hattentive : attentive id (operation :: rest) = true)
    (hmoderate : (completionsIn (c.eventsOf id operation)).length ≤ maxQueued) :
    (c.waiting id).length + (completionsIn (c.eventsOf id operation)).length ≤ maxQueued ∧
      (c.step operation).2.KeepsUp id rest := by
  have hbound : (c.waiting id).length + (completionsIn (c.eventsOf id operation)).length ≤
      maxQueued := by
    cases operation with
    | process =>
        -- a read is never next to be taken, so nothing waits
        have hempty : c.waiting id = [] := h.next.resolve_right Bool.false_ne_true
        rw [hempty]
        simpa using hmoderate
    | _ =>
        rw [completionsIn_eventsOf (by simp)]
        exact h.bound
  have haccount := account_step hc hbound
  have hlengths := congrArg List.length haccount
  simp only [List.length_append] at hlengths
  refine ⟨hbound, by omega, ?_⟩
  have hquiet : operation ≠ .process → c.waiting id = [] →
      (c.step operation).2.waiting id = [] := by
    intro hne hempty
    rw [completionsIn_eventsOf hne, hempty] at haccount
    exact (List.append_eq_nil_iff.1 haccount.symm).2
  cases operation with
  | process => exact .inr (Bool.and_eq_true_iff.1 hattentive).1
  | takeCompletions target =>
      rcases h.next with hempty | htakes
      · exact .inl (hquiet (by simp) hempty)
      · rcases Bool.or_eq_true_iff.1 htakes with hhere | hlater
        · rw [beq_iff_eq.1 hhere]
          exact .inl (waiting_takeCompletions id c)
        · exact .inr hlater
  | _ => exact h.next.imp_left (hquiet (by simp))

theorem account_run {id : SessionId} (operations : List Operation) {c : Client} (hc : c.Ordered)
    (hattentive : attentive id operations = true) (hmoderate : c.Moderate id operations)
    (h : c.KeepsUp id operations) :
    c.waiting id ++ completionsIn (c.history id operations) =
      takenIn (c.history id operations) ++ c.lost id operations := by
  induction operations generalizing c with
  | nil =>
      rw [h.next.resolve_right Bool.false_ne_true]
      rfl
  | cons operation rest ih =>
      obtain ⟨hbound, hnext⟩ := h.step hc hattentive hmoderate.1
      have hrest := ih (hc.step operation) (attentive_tail hattentive) hmoderate.2 hnext
      -- what is lost is lost for good: if anything is, nothing is taken later
      have hlast : c.lostBy id operation ++ takenIn ((c.step operation).2.history id rest) =
          takenIn ((c.step operation).2.history id rest) ++ c.lostBy id operation := by
        rcases lostBy_or_spent hc id operation with hnone | hspent
        · rw [hnone, List.append_nil, List.nil_append]
        · rw [(hspent.run rest (hc.step operation)).2]
          exact List.append_nil _
      calc c.waiting id ++ completionsIn (c.history id (operation :: rest))
          = (c.waiting id ++ completionsIn (c.eventsOf id operation)) ++
              completionsIn ((c.step operation).2.history id rest) := by
            rw [history, completionsIn_append, List.append_assoc]
        _ = takenIn (c.eventsOf id operation) ++ c.lostBy id operation ++
              ((c.step operation).2.waiting id ++
                completionsIn ((c.step operation).2.history id rest)) := by
            rw [account_step hc hbound, List.append_assoc]
        _ = takenIn (c.eventsOf id operation) ++
              (c.lostBy id operation ++ takenIn ((c.step operation).2.history id rest)) ++
              (c.step operation).2.lost id rest := by
            rw [hrest]
            simp only [List.append_assoc]
        _ = takenIn (c.history id (operation :: rest)) ++ c.lost id (operation :: rest) := by
            rw [hlast, history, lost, takenIn_append]
            simp only [List.append_assoc]

/-! ## What is made -/

/-- What an operation receives as it ends a session makes what is due, too. -/
theorem justified_of_gone {c : Client} (hc : c.Ordered) {id : SessionId} {p : Peer}
    {history : List Event} (hp : c.peer? id = some p) (hledger : p.session.Ledger history)
    {operation : Operation} (hgone : (c.step operation).2.peer? id = none) :
    Justified (history ++ c.eventsOf id operation) := by
  rw [eventsOf_of_peer? hp]
  rcases gone_of_step hc hp hgone with ⟨rfl, hfinished⟩ | ⟨rfl, e, hreply⟩ | rfl
  · obtain ⟨s, events, r, entry, path, hevents, hanswers, hending⟩ := Peer.pump_ended hfinished
    have hs := path.preserves (fun _ hl move => Session.Ledger.moves hl move) _ hledger
    show Justified (history ++ p.pumpEvents c.settings.debug)
    rw [hevents, ← List.append_assoc]
    refine hs.justified.concat fun m made he => ?_
    cases he
    rw [← hs.completion?_eq, Peer.completion?_of_ending hanswers hending]
  · rw [hreply]
    refine hledger.justified.quiet fun e he => ?_
    split at he <;> cases he
  · exact hledger.justified.quiet fun e he => nomatch he

/-- In every run, each response that named a waiting request of the caller's made
its completion, and nothing else made any. -/
theorem justified_run {settings : Settings} {processId : Nat} {launcher : Launcher}
    (operations : List Operation) (id : SessionId) :
    Justified ((initial settings processId launcher).history id operations) := by
  induction operations using List.reverseRecOn with
  | nil => exact fun before m made after heq => by simp [history] at heq
  | append_singleton operations operation ih =>
      have hc := (ordered_initial settings processId launcher).run operations
      cases hq : ((initial settings processId launcher).run
          (operations ++ [operation])).session? id with
      | some t => exact (ledger_of_run hq).justified
      | none =>
          rw [session?_eq, run_append, Option.map_eq_none_iff] at hq
          rw [history_append, history, history, List.append_nil]
          cases hp : ((initial settings processId launcher).run operations).peer? id with
          | some p => exact justified_of_gone hc hp (ledger_of_run (session?_of_peer? hp)) hq
          | none =>
              refine ih.quiet fun e he m made hheard => ?_
              rw [eventsOf, hp] at he
              dsimp only at he
              cases hheard.symm.trans (mem_openingEvents he)

/-- What has become of the completions of a session. -/
structure Delivered (c : Client) (id : SessionId) (operations : List Operation) : Prop where
  /-- one was made of each response to a request of the caller's that waited, and
  of nothing else -/
  made : Justified (c.history id operations)
  /-- each was taken once, in the order in which they were made, but for those
  that were lost as the session ended -/
  account : completionsIn (c.history id operations) =
    takenIn (c.history id operations) ++ c.lost id operations
  /-- and as long as the session is registered, none was -/
  registered : (c.run operations).session? id ≠ none → c.lost id operations = []

/-- In every run in which a caller takes the completions of a session after each
read, and no read overflows the queue, each completion is taken once unless the
session ended in the read that made it or before the caller came. -/
theorem delivered_of_run {settings : Settings} {processId : Nat} {launcher : Launcher}
    {operations : List Operation} {id : SessionId} (hattentive : attentive id operations = true)
    (hmoderate : (initial settings processId launcher).Moderate id operations) :
    (initial settings processId launcher).Delivered id operations := by
  have hordered := ordered_initial settings processId launcher
  have hnothing : (initial settings processId launcher).waiting id = [] := rfl
  have hstart : (initial settings processId launcher).KeepsUp id operations :=
    ⟨Nat.zero_le _, .inl hnothing⟩
  have haccount := account_run operations hordered hattentive hmoderate hstart
  rw [hnothing, List.nil_append] at haccount
  exact ⟨justified_run operations id, haccount, lost_of_registered operations hordered⟩

/-- A request is in flight when the end is asked for, and its answer and the one
that ends the session come in one read. -/
def sharedRead : List Operation :=
  [.connect "server" {},
    .server 0 (.emit (Wire.frameText "\x7b\"id\":1,\"result\":null\x7d")),
    .process,
    .takeCompletions 1,
    .request 1 "textDocument/hover" .null,
    .close 1,
    .server 0 (.emit (Wire.frameText "\x7b\"id\":2,\"result\":7\x7d" ++
      Wire.frameText "\x7b\"id\":3,\"result\":null\x7d")),
    .process,
    .takeCompletions 1]

theorem delivered_of_sharedRead :
    attentive 1 sharedRead = true ∧ (initial {} 0 {}).Moderate 1 sharedRead ∧
      (initial {} 0 {}).Delivered 1 sharedRead := by
  have hattentive : attentive 1 sharedRead = true := by decide
  have hmoderate : (initial {} 0 {}).Moderate 1 sharedRead := by decide +kernel
  exact ⟨hattentive, hmoderate, delivered_of_run hattentive hmoderate⟩

/-- The answer that shares its read is never taken. -/
theorem not_all_taken : ¬ ∀ operations id, attentive id operations = true →
    (initial {} 0 {}).Moderate id operations →
    completionsIn ((initial {} 0 {}).history id operations) =
      takenIn ((initial {} 0 {}).history id operations) := by
  intro h
  have hattentive : attentive 1 sharedRead = true := by decide
  have hmoderate : (initial {} 0 {}).Moderate 1 sharedRead := by decide +kernel
  have hmade : (completionsIn ((initial {} 0 {}).history 1 sharedRead)).length = 1 := by
    decide +kernel
  have htaken : (takenIn ((initial {} 0 {}).history 1 sharedRead)).length = 0 := by
    decide +kernel
  rw [h sharedRead 1 hattentive hmoderate, htaken] at hmade
  cases hmade

end Client

end LspClient
