import LspClient.Proofs.Session.Exchanges
import LspClient.Proofs.Session.WireOrder

/-!
# While the handshake waits

A session that is connecting has asked for the handshake first and for no other since,
and unless its end was asked for nothing else waits. This is because callers are
admitted only later, and because the one answer that leaves the session connecting,
the refusal of the handshake, lets nothing new wait.

So whoever looks for the latest request for a handshake among what was written finds
the one that opened the session.
-/

namespace LspClient

open Json (Value)

/-- The handshake was asked for first, in writing, and not again. -/
def AskedFirst (passed : List Passage) : Prop :=
  ∃ params later, passed =
      .tried false (Envelope.request .first Lifecycle.opening.method params) true :: later ∧
    ∀ caller envelope written, .tried caller envelope written ∈ later →
      Envelope.method? envelope ≠ some Lifecycle.opening.method

theorem AskedFirst.append {passed later : List Passage} (h : AskedFirst passed)
    (hlater : ∀ caller envelope written, .tried caller envelope written ∈ later →
      Envelope.method? envelope ≠ some Lifecycle.opening.method) :
    AskedFirst (passed ++ later) := by
  obtain ⟨params, earlier, rfl, hearlier⟩ := h
  refine ⟨params, earlier ++ later, rfl, fun caller envelope written hx => ?_⟩
  rcases List.mem_append.1 hx with hx | hx
  · exact hearlier caller envelope written hx
  · exact hlater caller envelope written hx

namespace Session

/-- What is known of a session whose handshake is not answered with success. -/
structure Opening (s : Session) (passed : List Passage) : Prop where
  asked : AskedFirst passed
  alone : s.closing = false → ∀ entry ∈ s.pending,
    entry.id = .first ∧ entry.method = Lifecycle.opening.method

theorem Opening.keep {s t : Session} {passed later : List Passage} (h : s.Opening passed)
    (hlater : ∀ caller envelope written, .tried caller envelope written ∈ later →
      Envelope.method? envelope ≠ some Lifecycle.opening.method)
    (hpending : t.closing = false → t.pending ⊆ s.pending ∧ s.closing = false) :
    t.Opening (passed ++ later) where
  asked := h.asked.append hlater
  alone := fun hgoing entry hentry => by
    obtain ⟨hsubset, hwent⟩ := hpending hgoing
    exact h.alone hwent entry (hsubset hentry)

/-- A session that is still connecting after an answer to the handshake is what it
was. -/
theorem greeted_of_connecting {s : Session} {r : Response}
    (h : (s.greeted r).status = .connecting) :
    s.status = .connecting ∧ (s.greeted r).pending = s.pending ∧
      (s.greeted r).closing = s.closing := by
  rw [greeted] at h ⊢
  split at h
  · exact ⟨h, rfl, rfl⟩
  · split at h
    · next hstatus => exact absurd h hstatus
    · next hstatus =>
        rw [if_neg hstatus]
        split at h
        · next hclosing =>
            rw [if_pos hclosing]
            exact ⟨h, rfl, rfl⟩
        · cases h

theorem Opening.exchange {s : Session} {o : Option Session} {passed xs : List Passage}
    (h : s.status = .connecting → s.Opening passed) (exchange : s.Exchange xs o) {t : Session}
    (ht : o = some t) (hconnecting : t.status = .connecting) : t.Opening (passed ++ xs) := by
  have hnever {s' : Session} (hstatus : s'.status = .connecting)
      (hconnected : s'.status = .connected) : False := by
    rw [hconnected] at hstatus
    cases hstatus
  cases exchange with
  | quiet =>
      cases ht
      exact (h hconnecting).keep (by simp) fun hgoing => ⟨List.Subset.refl _, hgoing⟩
  | handled body =>
      cases ht
      exact (h hconnecting).keep (by simp) fun hgoing => ⟨List.Subset.refl _, hgoing⟩
  | acknowledged id written =>
      cases ht
      refine (h hconnecting).keep (fun caller envelope w hx => ?_) fun hgoing =>
        ⟨List.Subset.refl _, hgoing⟩
      cases List.mem_singleton.1 hx
      rw [Envelope.method?_response]
      decide
  | greeted r entry written hanswers hmethod =>
      cases ht
      obtain ⟨hstill, hpending, hclosing⟩ := greeted_of_connecting hconnecting
      refine (h hstill).keep (fun caller envelope w hx => ?_) fun hgoing => ?_
      · obtain ⟨other, hother, heq⟩ := List.mem_map.1 hx
        cases heq
        rw [greetingReplies] at hother
        repeat' split at hother
        all_goals simp at hother
        rw [hother, Envelope.method?_notification]
        decide
      · rw [hpending]
        rw [hclosing] at hgoing
        exact ⟨(s.retire_sublist entry.id).subset, hgoing⟩
  | completed r entry hanswers hmethod =>
      cases ht
      exact (h hconnecting).keep (by simp) fun hgoing => ⟨(s.retire_sublist entry.id).subset, hgoing⟩
  | granted r entry written hanswers hmethod => cases ht
  | sent method params hconnected hopen =>
      cases ht
      exact (hnever hconnecting hconnected).elim
  | unsent method params hconnected hopen =>
      cases ht
      exact (hnever hconnecting hconnected).elim
  | told method params written hconnected hopen =>
      cases ht
      exact (hnever hconnecting hconnected).elim
  | closing hopen =>
      cases ht
      refine (h hconnecting).keep (fun caller envelope w hx => ?_) fun hgoing => ?_
      · cases List.mem_singleton.1 hx
        rw [Envelope.method?_request]
        decide
      · cases hgoing
  | severed hopen => cases ht
  | dropped => cases ht

/-- A session that is connecting has asked for one handshake. -/
theorem Life.opening {o : Option Session} {passed : List Passage} (h : Life o passed) :
    ∀ s, o = some s → s.status = .connecting → s.Opening passed := by
  refine h.preserves (P := fun o passed => ∀ s, o = some s → s.status = .connecting →
    s.Opening passed) (fun id command params written s hs _ => ?_) fun passed hp exchange t ht => ?_
  · cases written <;> cases hs
    refine ⟨⟨params, [], rfl, by simp⟩, fun _ entry hentry => ?_⟩
    rw [List.mem_singleton.1 hentry]
    exact ⟨rfl, rfl⟩
  · exact Opening.exchange (hp _ rfl) exchange ht

end Session

end LspClient
