import LspClient.Proofs.Wire.Reassembly

/-!
# What is held stays small

A peer that sends anything at all cannot make the buffer hold much. Whenever more
octets are needed, what is held is no more than a header block may have, less than
the body that is waited for, nothing while a refused body is skipped, and less than
one field name while the next one is searched for (`Waits`).

The one thing that could go wrong is a declared length: the buffer waits for as many
octets as a header block promises. So the invariant is about nothing else. A body
that is waited for is not too long (`Admits`), because a block that promises more
leads to skipping and never to waiting. All other bounds are made by the call that
ends the wait, from whatever was held before it, and need no invariant.
-/

namespace LspClient.Wire.FrameBuffer

/-- A body that is waited for is short enough to be accepted. -/
def Admits (b : FrameBuffer) : Prop :=
  match b.phase with
  | .body length => length ≤ maxMessageSize
  | .head | .discard _ | .resync => True

/-- How much a buffer holds that needs more octets. -/
def Waits (b : FrameBuffer) : Prop :=
  match b.phase with
  | .head => b.held.length ≤ maxHeaderSize
  | .body length => b.held.length < length ∧ length ≤ maxMessageSize
  | .discard _ => b.held = []
  | .resync => b.held.length ≤ 13

theorem Waits.admits {b : FrameBuffer} (h : b.Waits) : b.Admits := by
  obtain ⟨held, phase⟩ := b
  cases phase with
  | body length => exact h.2
  | head | discard | resync => trivial

theorem Waits.size_lt {b : FrameBuffer} (h : b.Waits) : b.size < maxMessageSize := by
  obtain ⟨held, phase⟩ := b
  cases phase with
  | head => exact Nat.lt_of_le_of_lt h (by decide)
  | body length => exact Nat.lt_of_lt_of_le h.1 h.2
  | discard length =>
      have hnil : held = [] := h
      rw [hnil]
      exact (by decide : 0 < maxMessageSize)
  | resync => exact Nat.lt_of_le_of_lt h (by decide)

theorem Admits.extend {b : FrameBuffer} (h : b.Admits) (bytes : List UInt8) :
    (b.extend bytes).Admits := h

/-! ## One call -/

/-- What a call may come to. -/
def Moderate (r : Option FrameResult × FrameBuffer) : Prop :=
  match r.1 with
  | none => r.2.Waits
  | some (.ok body) => body.length ≤ maxMessageSize ∧ r.2.Admits
  | some (.error _) => r.2.Admits

theorem Moderate.admits {r : Option FrameResult × FrameBuffer} (h : Moderate r) :
    r.2.Admits := by
  obtain ⟨result, after⟩ := r
  match result with
  | none => exact Waits.admits h
  | some (.ok body) => exact h.2
  | some (.error e) => exact h

theorem takeBody_moderate {length : Nat} (hlength : length ≤ maxMessageSize)
    (held : List UInt8) : Moderate (takeBody length held) := by
  rw [takeBody]
  split
  · next hshort => exact ⟨hshort, hlength⟩
  · refine ⟨?_, trivial⟩
    rw [List.length_take]
    exact Nat.le_trans (Nat.min_le_left _ _) hlength

theorem takeHead_moderate (held : List UInt8) : Moderate (takeHead held) := by
  rw [takeHead]
  split
  · split
    · trivial
    · next hshort => exact Nat.le_of_not_lt hshort
  · split
    · trivial
    · split
      · trivial
      · next hsize => exact takeBody_moderate (Nat.le_of_not_lt hsize) _

theorem Admits.next {b : FrameBuffer} (h : b.Admits) : Moderate b.next := by
  obtain ⟨held, phase⟩ := b
  cases phase with
  | head => exact takeHead_moderate held
  | body length => exact takeBody_moderate h held
  | discard length =>
      simp only [FrameBuffer.next]
      split
      · rfl
      · exact takeHead_moderate _
  | resync =>
      simp only [FrameBuffer.next]
      split
      · exact takeHead_moderate _
      · have hkept : keptTail = 13 := by decide
        show (held.drop (held.length - keptTail)).length ≤ 13
        rw [List.length_drop, hkept]
        omega

/-! ## Many calls -/

/-- No body that is handed out is too long. -/
def Acceptable (results : List FrameResult) : Prop :=
  ∀ body, .ok body ∈ results → body.length ≤ maxMessageSize

theorem Moderate.cons {after : FrameBuffer} {result : FrameResult} {results : List FrameResult}
    (h : Moderate (some result, after)) (hresults : Acceptable results) :
    Acceptable (result :: results) := by
  intro body hbody
  rcases List.mem_cons.1 hbody with rfl | hlater
  · exact h.1
  · exact hresults body hlater

/-- Whatever arrives and whenever results are asked for. -/
theorem Admits.play {turns : List Turn} : ∀ {b : FrameBuffer}, b.Admits →
    Acceptable (b.play turns).1 ∧ (b.play turns).2.Admits := by
  induction turns with
  | nil => exact fun h => ⟨fun _ => nofun, h⟩
  | cons turn turns ih =>
      intro b h
      cases turn with
      | feed chunk => exact ih (h.extend chunk)
      | ask =>
          have hnext := h.next
          rw [FrameBuffer.play]
          cases hcall : b.next with
          | mk result after =>
              rw [hcall] at hnext
              obtain ⟨hresults, hlast⟩ := ih (b := after) hnext.admits
              cases result with
              | none => exact ⟨hresults, hlast⟩
              | some result => exact ⟨hnext.cons hresults, hlast⟩

theorem Admits.drain {b : FrameBuffer} (h : b.Admits) :
    Acceptable b.drain.1 ∧ b.drain.2.Waits := by
  induction hweight : b.weight using Nat.strongRecOn generalizing b with
  | ind n ih =>
      have hnext := h.next
      cases hcall : b.next with
      | mk result after =>
          rw [hcall] at hnext
          cases result with
          | none =>
              rw [drain_of_none hcall]
              exact ⟨fun _ => nofun, hnext⟩
          | some result =>
              obtain ⟨hresults, hlast⟩ :=
                ih after.weight (hweight ▸ next_weight hcall) hnext.admits rfl
              rw [drain_of_some hcall]
              exact ⟨hnext.cons hresults, hlast⟩

/-- The bounds that a buffer keeps. -/
structure Bounded (b : FrameBuffer) : Prop where
  /-- what is held when nothing can be handed out -/
  waits : ∀ after, b.next = (none, after) → after.Waits
  /-- what is handed out -/
  accepted : ∀ body after, b.next = (some (.ok body), after) → body.length ≤ maxMessageSize
  /-- what is handed out and what is still held when everything is taken out -/
  drained : Acceptable b.drain.1 ∧ b.drain.2.Waits ∧ b.drain.2.size < maxMessageSize

/-- Whatever has arrived and whenever results were asked for, a buffer that needs
more octets holds few, and all bodies are short enough. -/
theorem bounded_of_play (turns : List Turn) :
    (empty.play turns).2.Bounded ∧ Acceptable (empty.play turns).1 := by
  have hempty : empty.Admits := trivial
  obtain ⟨hresults, hadmits⟩ : Acceptable (empty.play turns).1 ∧ (empty.play turns).2.Admits :=
    hempty.play
  have hnext := hadmits.next
  refine ⟨⟨fun after hcall => ?_, fun body after hcall => ?_, ?_⟩, hresults⟩
  · rw [hcall] at hnext
    exact hnext
  · rw [hcall] at hnext
    exact hnext.1
  · obtain ⟨hbodies, hwaits⟩ := hadmits.drain
    exact ⟨hbodies, hwaits, hwaits.size_lt⟩

end LspClient.Wire.FrameBuffer
