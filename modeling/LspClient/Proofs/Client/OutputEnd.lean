import LspClient.Proofs.Client.Exchanges

/-!
# The end of the output

A session notes that its server's output has ended when a read fails, and reads of an
open server fail only behind its last chunk. So as long as a server has not ended its
output, its session does not think so, whatever else has happened (`sees_of_run`).
-/

namespace LspClient

open Json (Value)

/-- Whether the session of a link has seen the end of the output only if it is
there. -/
def Link.Sees (l : Link) : Prop :=
  ∀ s, l.session = some s → s.outputEnded = true → l.server.outputEnded = true

namespace Peer

theorem read_ended {v : Server} (hopen : v.closed = false) :
    v.read.2.outputEnded = v.outputEnded ∧ ((∃ e, v.read.1 = .error e) → v.outputEnded = true) := by
  rw [Server.read, if_neg (by simp [hopen])]
  split
  · refine ⟨rfl, fun herror => ?_⟩
    obtain ⟨e, he⟩ := herror
    cases he
  · split
    · next hended => exact ⟨rfl, fun _ => hended⟩
    · refine ⟨rfl, fun herror => ?_⟩
      obtain ⟨e, he⟩ := herror
      cases he

theorem fetched_ended {p : Peer} (hopen : p.server.closed = false)
    (hgoing : p.session.outputEnded = false) (h : p.fetched.session.outputEnded = true) :
    p.server.outputEnded = true := by
  have hread := (read_ended hopen).2
  rw [fetched, readChunk] at h
  cases hresult : p.server.read with
  | mk result server =>
      rw [hresult] at h hread
      cases result with
      | error e => exact hread ⟨e, rfl⟩
      | ok chunk =>
          cases chunk
          all_goals
            rw [show p.session.outputEnded = true from h] at hgoing
            cases hgoing

theorem pump_sees (keep : Bool) {p : Peer} (hopen : p.server.closed = false)
    (h : p.session.outputEnded = true → p.server.outputEnded = true)
    (hended : (p.pump keep).peer.session.outputEnded = true) :
    (p.pump keep).peer.server.outputEnded = true := by
  cases hgoing : p.session.outputEnded with
  | true =>
      rw [pump_of_ended hgoing]
      exact h hgoing
  | false =>
      obtain ⟨output, hserver⟩ := p.fetched_server
      have hfetched : p.fetched.server.closed = false := by
        rw [hserver]
        exact hopen
      have hheard := receiveAll_heard keep (bodiesIn p.fetchedFrames) hfetched
      have hframes := (p.fetched.session.hearAll_frames (messagesIn (bodiesIn p.fetchedFrames))).2
      rw [pump_of_open hgoing, receiveAll_bodiesIn] at hended ⊢
      rw [hheard.outcome] at hframes
      rw [hheard.server, hserver]
      exact fetched_ended hopen hgoing (hframes.symm.trans hended)

theorem request_ended {p : Peer} (hopen : p.server.closed = false) (keep : Bool) (method : String)
    (params : Value) :
    (p.request keep method params).2.session.outputEnded = p.session.outputEnded ∧
      (p.request keep method params).2.server.outputEnded = p.server.outputEnded := by
  cases hwrites : p.server.writeFailure with
  | none =>
      rw [request_written hopen hwrites]
      exact ⟨rfl, rfl⟩
  | some failure =>
      rw [request_failed hopen hwrites]
      exact ⟨rfl, rfl⟩

/-- No operation makes a session see an end that is not there. -/
theorem upshot_sees (keep : Bool) {p : Peer} (hopen : p.server.closed = false)
    (h : p.session.outputEnded = true → p.server.outputEnded = true) (operation : Operation) :
    (p.upshot keep operation).link.Sees := by
  have hstays : ∀ {q : Peer} {reply : Reply}, q.session.outputEnded = p.session.outputEnded →
      q.server.outputEnded = p.server.outputEnded → (q.stays reply).link.Sees := by
    intro q reply hsession hserver t ht hended
    obtain rfl := Option.some.inj ht
    exact hserver.trans (h (hsession.symm.trans hended))
  cases operation with
  | close id =>
      obtain ⟨hsession, hserver⟩ := request_ended hopen keep Lifecycle.ending.method .null
      rw [upshot, endSession]
      split
      · exact hstays rfl rfl
      · cases hq : p.request keep Lifecycle.ending.method .null with
        | mk result q =>
            rw [hq] at hsession hserver
            cases result with
            | error e =>
                intro t ht
                cases ht
            | ok number => exact hstays hsession hserver
  | request id method params =>
      obtain ⟨hsession, hserver⟩ := request_ended hopen keep method params
      rw [upshot]
      split
      · exact hstays rfl rfl
      · cases hq : p.request keep method params with
        | mk result q =>
            rw [hq] at hsession hserver
            cases result <;> exact hstays hsession hserver
  | notify id method params =>
      rw [upshot, notify_eq hopen]
      split
      · exact hstays rfl rfl
      · cases p.server.writeFailure <;> exact hstays rfl rfl
  | process =>
      intro t ht hended
      change (if (p.pump keep).finished then none else some (p.pump keep).peer.session) = some t
        at ht
      split at ht
      · cases ht
      · obtain rfl := Option.some.inj ht
        exact pump_sees keep hopen h hended
  | shutdown =>
      intro t ht
      cases ht
  | _ => exact hstays rfl rfl

end Peer

namespace Link

theorem apply_ended {v : Server} (h : v.outputEnded = true) (event : ServerEvent) :
    (event.apply v).outputEnded = true := by
  cases event with
  | endOutput => rfl
  | answer method result =>
      show (v.answer method result).2.outputEnded = true
      rw [Server.answer]
      split <;> exact h
  | _ => exact h

theorem Sees.after {l : Link} (h : l.Sees) (hheld : l.Held) (keep : Bool) (index : Nat)
    (operation : Operation) : (l.after keep index operation).Sees := by
  cases hconcerned : l.concerned? operation with
  | some p =>
      obtain ⟨s, hs, rfl⟩ := Option.map_eq_some_iff.1 (peer?_of_concerned hconcerned)
      rw [Held, hs] at hheld
      rw [after_of_concerned hconcerned]
      exact Peer.upshot_sees keep (p := { session := s, server := l.server }) hheld (h s hs)
        operation
  | none =>
      intro s hs hended
      rw [(after_of_not_concerned hconcerned).1] at hs
      have hl := h s hs hended
      rw [Link.after, upshot?_eq, hconcerned]
      split
      · split
        · exact apply_ended hl _
        · exact hl
      · exact hl

end Link

namespace Client

theorem sees_step {c : Client} (hc : c.Ordered) (hheld : c.AllHeld)
    (h : ∀ l ∈ c.links, l.Sees) (operation : Operation) :
    ∀ l ∈ (c.step operation).2.links, l.Sees := by
  intro l hl
  obtain ⟨index, hindex⟩ := List.getElem?_of_mem hl
  cases hold : c.links[index]? with
  | some old =>
      rw [getElem?_step hc hold, Option.some.injEq] at hindex
      have hmem := List.mem_of_getElem? hold
      rw [← hindex]
      exact (h old hmem).after (hheld old hmem) c.settings.debug index operation
  | none =>
      -- a session that was just opened has read nothing
      obtain ⟨-, command, connection, server, -, hstart, rfl⟩ := getElem?_step_new hc hold hindex
      intro s hs hended
      have hopen := (Launcher.start_ok hstart).1
      rw [opening, Peer.opening, Peer.openSession] at hs
      cases hwrites : server.writeFailure with
      | none =>
          rw [Peer.request_written hopen hwrites] at hs
          cases hs
          cases hended
      | some failure =>
          rw [Peer.request_failed hopen hwrites] at hs
          cases hs

theorem sees_of_run (operations : List Operation) {c : Client} (hc : c.Ordered)
    (hheld : c.AllHeld) (h : ∀ l ∈ c.links, l.Sees) : ∀ l ∈ (c.run operations).links, l.Sees := by
  induction operations generalizing c with
  | nil => exact h
  | cons operation rest ih =>
      exact ih (hc.step operation) (hheld.step hc operation).1 (sees_step hc hheld h operation)

end Client

end LspClient
