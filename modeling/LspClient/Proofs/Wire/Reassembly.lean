import LspClient.Proofs.Wire.HeaderBlock
import LspClient.Wire.FrameBuffer

/-!
# Frames come out as they went in

Octets arrive in chunks that know nothing of frames, and the buffer may be
asked for a result at any time. This file proves that neither matters: from the
frames of some bodies the buffer hands out these bodies, in order, each as soon
as its last octet has arrived.

The invariant is a position in what was written. At every moment the octets
that are held, followed by those that are still to come, are the frames of the
bodies that were not handed out yet, except that behind a header block the
first of them has lost its header (`Awaits`). Octets that arrive move from one
side to the other and change nothing. Asking looks at the held octets only, and
those are either too short for the next step, or long enough to contain all of
it, since nothing else is ever held. What the bodies contain is never looked
at, so it does not matter if they look like header blocks.
-/

namespace LspClient.Wire

/-- The octets on the wire when bodies are written one after another. -/
def frames (bodies : List (List UInt8)) : List UInt8 :=
  bodies.flatMap frame

theorem frames_cons (body : List UInt8) (rest : List (List UInt8)) :
    frames (body :: rest) = header body.length ++ (body ++ frames rest) := by
  rw [frames, List.flatMap_cons, frame, List.append_assoc]
  rfl

/-- What can be done with a frame buffer. -/
inductive Turn where
  /-- octets arrive -/
  | feed (chunk : List UInt8)
  /-- a result is asked for -/
  | ask

/-- The octets that arrive. -/
def fed : List Turn → List UInt8
  | [] => []
  | .feed chunk :: rest => chunk ++ fed rest
  | .ask :: rest => fed rest

namespace FrameBuffer

/-- The results that are handed out, and the buffer afterwards. -/
def play (b : FrameBuffer) : List Turn → List FrameResult × FrameBuffer
  | [] => ([], b)
  | .feed chunk :: rest => (b.extend chunk).play rest
  | .ask :: rest =>
    match b.next with
    | (none, after) => after.play rest
    | (some result, after) =>
      let (results, last) := after.play rest
      (result :: results, last)

/-- A buffer in front of the bodies that were not handed out yet, when some
octets are still to come. -/
def Awaits (b : FrameBuffer) (ahead : List UInt8) (bodies : List (List UInt8)) : Prop :=
  match b.phase with
  | .head => b.held ++ ahead = frames bodies
  | .body length => ∃ body rest, bodies = body :: rest ∧ length = body.length ∧
      b.held ++ ahead = body ++ frames rest
  | .discard _ => False
  | .resync => False

theorem Awaits.extend {b : FrameBuffer} {chunk ahead : List UInt8}
    {bodies : List (List UInt8)} (h : b.Awaits (chunk ++ ahead) bodies) :
    (b.extend chunk).Awaits ahead bodies := by
  obtain ⟨held, phase⟩ := b
  cases phase with
  | head =>
      show held ++ chunk ++ ahead = frames bodies
      rw [List.append_assoc]
      exact h
  | body length =>
      obtain ⟨body, rest, hbodies, hlength, heq⟩ := h
      refine ⟨body, rest, hbodies, hlength, ?_⟩
      show held ++ chunk ++ ahead = body ++ frames rest
      rw [List.append_assoc]
      exact heq
  | discard length => exact h
  | resync => exact h

theorem Awaits.eq_empty {b : FrameBuffer} (h : b.Awaits [] []) : b = empty := by
  obtain ⟨held, phase⟩ := b
  cases phase with
  | head =>
      have heq : held ++ [] = [] := h
      rw [List.append_nil] at heq
      rw [heq]
      rfl
  | body length =>
      obtain ⟨body, rest, hbodies, -⟩ := h
      cases hbodies
  | discard length => exact h.elim
  | resync => exact h.elim

/-- What a step of the buffer comes to: the next body if it is there in full,
and otherwise nothing. -/
def Hands (r : Option FrameResult × FrameBuffer) (ahead : List UInt8) (body : List UInt8)
    (rest : List (List UInt8)) : Prop :=
  if ahead.length ≤ (frames rest).length then r.1 = some (.ok body) ∧ r.2.Awaits ahead rest
  else r.1 = none ∧ r.2.Awaits ahead (body :: rest)

theorem takeBody_hands {held ahead body : List UInt8} {rest : List (List UInt8)}
    (h : held ++ ahead = body ++ frames rest) :
    Hands (takeBody body.length held) ahead body rest := by
  have hlength := congrArg List.length h
  rw [List.length_append, List.length_append] at hlength
  rw [Hands, takeBody]
  by_cases hshort : held.length < body.length
  · rw [if_pos hshort, if_neg (by omega)]
    exact ⟨rfl, body, rest, rfl, rfl, h⟩
  · obtain ⟨more, rfl⟩ : body <+: held :=
      List.prefix_of_prefix_length_le ⟨_, h.symm⟩ (List.prefix_append held ahead) (by omega)
    rw [if_neg hshort, if_pos (by omega)]
    refine ⟨by rw [List.take_left], ?_⟩
    rw [List.append_assoc, List.append_cancel_left_eq] at h
    show (body ++ more).drop body.length ++ ahead = frames rest
    rw [List.drop_left, h]

theorem takeHead_hands {held ahead body : List UInt8} {rest : List (List UInt8)}
    (hsize : body.length ≤ maxMessageSize) (h : held ++ ahead = frame body ++ frames rest) :
    Hands (takeHead held) ahead body rest := by
  have hline := not_mem_lengthLine body.length
  have hframe : frame body = lengthLine body.length ++ blockEnd ++ body := by
    rw [frame, header_eq]
  have hblock : (lengthLine body.length ++ blockEnd).length ≤ 28 := by
    rw [List.length_append]
    exact Nat.add_le_add_right (length_lengthLine hsize) 4
  rw [hframe, List.append_assoc] at h
  by_cases hshort : held.length < (lengthLine body.length ++ blockEnd).length
  · have hprefix : held <+: lengthLine body.length ++ blockEnd :=
      List.prefix_of_prefix_length_le ⟨_, h⟩ (List.prefix_append _ _) (Nat.le_of_lt hshort)
    have hlate : ¬ ahead.length ≤ (frames rest).length := by
      have hlength := congrArg List.length h
      simp only [List.length_append] at hlength hshort
      omega
    have hsmall : ¬ maxHeaderSize < held.length := by
      rw [maxHeaderSize]
      omega
    rw [takeHead, splitHeader_incomplete hline hprefix hshort]
    dsimp only
    rw [if_neg hsmall, Hands, if_neg hlate]
    refine ⟨rfl, ?_⟩
    show held ++ ahead = frames (body :: rest)
    rw [frames_cons, header_eq]
    exact h
  · obtain ⟨more, rfl⟩ : lengthLine body.length ++ blockEnd <+: held :=
      List.prefix_of_prefix_length_le ⟨_, h.symm⟩ (List.prefix_append held ahead)
        (Nat.le_of_not_lt hshort)
    rw [List.append_assoc, List.append_cancel_left_eq] at h
    rw [takeHead, splitHeader_line hline]
    dsimp only [List.reverse_nil, List.nil_append]
    rw [declaredLength_lengthLine hsize]
    dsimp only
    rw [if_neg (Nat.not_lt_of_le hsize)]
    exact takeBody_hands h

theorem Awaits.next {b : FrameBuffer} {ahead body : List UInt8} {rest : List (List UInt8)}
    (hsize : body.length ≤ maxMessageSize) (h : b.Awaits ahead (body :: rest)) :
    Hands b.next ahead body rest := by
  obtain ⟨held, phase⟩ := b
  cases phase with
  | head => exact takeHead_hands hsize h
  | body length =>
      obtain ⟨body', rest', hbodies, rfl, heq⟩ := h
      cases hbodies
      exact takeBody_hands heq
  | discard length => exact h.elim
  | resync => exact h.elim

theorem Awaits.next_nil {b : FrameBuffer} {ahead : List UInt8} (h : b.Awaits ahead []) :
    b.next = (none, empty) ∧ ahead = [] := by
  obtain ⟨held, phase⟩ := b
  cases phase with
  | head =>
      have hnil : held ++ ahead = [] := h
      obtain ⟨rfl, rfl⟩ := List.append_eq_nil_iff.1 hnil
      exact ⟨rfl, rfl⟩
  | body length =>
      obtain ⟨body, rest, hbodies, -⟩ := h
      cases hbodies
  | discard length => exact h.elim
  | resync => exact h.elim

/-- The octets of the bodies that were handed out have arrived. -/
theorem Awaits.play {turns : List Turn} : ∀ {b : FrameBuffer} {ahead : List UInt8}
    {bodies : List (List UInt8)}, (∀ body ∈ bodies, body.length ≤ maxMessageSize) →
    b.Awaits (fed turns ++ ahead) bodies →
    ∃ out rest, bodies = out ++ rest ∧ (b.play turns).1 = out.map .ok ∧
      (b.play turns).2.Awaits ahead rest := by
  induction turns with
  | nil =>
      intro b ahead bodies hsize h
      exact ⟨[], bodies, rfl, rfl, h⟩
  | cons turn turns ih =>
      intro b ahead bodies hsize h
      cases turn with
      | feed chunk =>
          rw [fed, List.append_assoc] at h
          exact ih hsize h.extend
      | ask =>
          rw [fed] at h
          rw [FrameBuffer.play]
          cases bodies with
          | nil =>
              obtain ⟨hnext, hahead⟩ := h.next_nil
              rw [hnext]
              refine ih hsize ?_
              rw [hahead]
              rfl
          | cons body rest =>
              have hhands := h.next (hsize body List.mem_cons_self)
              cases hnext : b.next with
              | mk result after =>
                  rw [hnext, Hands] at hhands
                  -- either the whole body is held, or nothing is handed out
                  split at hhands
                  · obtain ⟨rfl, hafter⟩ := hhands
                    obtain ⟨out, later, rfl, hout, hlater⟩ :=
                      ih (fun c hc => hsize c (List.mem_cons_of_mem body hc)) hafter
                    refine ⟨body :: out, later, rfl, ?_, hlater⟩
                    show Except.ok body :: (after.play turns).1 = _
                    rw [hout]
                    rfl
                  · obtain ⟨rfl, hafter⟩ := hhands
                    exact ih hsize hafter

theorem drain_of_none {b after : FrameBuffer} (h : b.next = (none, after)) :
    b.drain = ([], after) := by
  rw [FrameBuffer.drain]
  split
  · next heq =>
      rw [h] at heq
      cases heq
      rfl
  · next heq =>
      rw [h] at heq
      cases heq

theorem drain_of_some {b after : FrameBuffer} {result : FrameResult}
    (h : b.next = (some result, after)) :
    b.drain = (result :: after.drain.1, after.drain.2) := by
  rw [FrameBuffer.drain]
  split
  · next heq =>
      rw [h] at heq
      cases heq
  · next heq =>
      rw [h] at heq
      cases heq
      rfl

theorem Awaits.drain {bodies : List (List UInt8)} : ∀ {b : FrameBuffer},
    (∀ body ∈ bodies, body.length ≤ maxMessageSize) → b.Awaits [] bodies →
    b.drain = (bodies.map .ok, empty) := by
  induction bodies with
  | nil =>
      intro b _ h
      rw [drain_of_none h.next_nil.1]
      rfl
  | cons body rest ih =>
      intro b hsize h
      have hhands := h.next (hsize body List.mem_cons_self)
      rw [Hands, List.length_nil, if_pos (Nat.zero_le _)] at hhands
      have hnext : b.next = (some (.ok body), b.next.2) := Prod.ext hhands.1 rfl
      rw [drain_of_some hnext, ih (fun c hc => hsize c (List.mem_cons_of_mem body hc)) hhands.2]
      rfl

/-- The bodies whose octets have arrived are taken out. -/
theorem Awaits.drain_ahead {bodies : List (List UInt8)} : ∀ {b : FrameBuffer}
    {ahead : List UInt8}, (∀ body ∈ bodies, body.length ≤ maxMessageSize) →
    b.Awaits ahead bodies →
    ∃ out rest, bodies = out ++ rest ∧ b.drain.1 = out.map .ok ∧ b.drain.2.Awaits ahead rest := by
  induction bodies with
  | nil =>
      intro b ahead _ h
      obtain ⟨hnext, rfl⟩ := h.next_nil
      rw [drain_of_none hnext]
      exact ⟨[], [], rfl, rfl, rfl⟩
  | cons body rest ih =>
      intro b ahead hsize h
      have hhands := h.next (hsize body List.mem_cons_self)
      cases hnext : b.next with
      | mk result after =>
          rw [hnext, Hands] at hhands
          split at hhands
          · obtain ⟨rfl, hafter⟩ := hhands
            obtain ⟨out, later, rfl, hout, hlater⟩ :=
              ih (fun c hc => hsize c (List.mem_cons_of_mem body hc)) hafter
            rw [drain_of_some hnext]
            exact ⟨body :: out, later, rfl, congrArg (Except.ok body :: ·) hout, hlater⟩
          · obtain ⟨rfl, hafter⟩ := hhands
            rw [drain_of_none hnext]
            exact ⟨[], body :: rest, rfl, rfl, hafter⟩

/-- Nothing is left to wait for when nothing is to come and nothing can be
handed out. -/
theorem Awaits.eq_nil {b : FrameBuffer} {bodies : List (List UInt8)}
    (hsize : ∀ body ∈ bodies, body.length ≤ maxMessageSize) (h : b.Awaits [] bodies)
    (hnext : b.next.1 = none) : bodies = [] := by
  cases bodies with
  | nil => rfl
  | cons body rest =>
      have hhands := h.next (hsize body List.mem_cons_self)
      rw [Hands, List.length_nil, if_pos (Nat.zero_le _), hnext] at hhands
      cases hhands.1

/-- From frames that have arrived in full, in whatever turns, the bodies are
handed out, and nothing is left. -/
theorem results_of_frames {bodies : List (List UInt8)}
    (hsize : ∀ body ∈ bodies, body.length ≤ maxMessageSize) {turns : List Turn}
    (hfed : fed turns = frames bodies) :
    (empty.play turns).1 ++ (empty.play turns).2.drain.1 = bodies.map .ok ∧
      (empty.play turns).2.drain.2 = empty := by
  have hawaits : empty.Awaits (fed turns ++ []) bodies := by
    show fed turns ++ [] = frames bodies
    rw [List.append_nil, hfed]
  obtain ⟨out, rest, rfl, hresults, hrest⟩ := Awaits.play hsize hawaits
  rw [hrest.drain fun body hbody => hsize body (List.mem_append_right out hbody), hresults,
    List.map_append]
  exact ⟨rfl, rfl⟩

/-- Octets of bodies that were handed out are not still to come. -/
theorem Awaits.length_le {b : FrameBuffer} {ahead : List UInt8} {bodies : List (List UInt8)}
    (h : b.Awaits ahead bodies) : ahead.length ≤ (frames bodies).length := by
  obtain ⟨held, phase⟩ := b
  cases phase with
  | head =>
      have heq : held ++ ahead = frames bodies := h
      rw [← heq, List.length_append]
      exact Nat.le_add_left _ _
  | body length =>
      obtain ⟨body, rest, rfl, -, heq⟩ := h
      have hlength := congrArg List.length heq
      rw [List.length_append, List.length_append] at hlength
      rw [frames_cons, List.length_append, List.length_append]
      omega
  | discard length => exact h.elim
  | resync => exact h.elim

end FrameBuffer

/-! ## Texts -/

/-- The octets on the wire when texts are written one after another. -/
def texts (bodies : List String) : List UInt8 :=
  bodies.flatMap frameText

theorem texts_eq (bodies : List String) : texts bodies = frames (bodies.map Utf8.octets) := by
  rw [texts, frames, List.flatMap_map]
  rfl

theorem texts_append (bodies later : List String) :
    texts (bodies ++ later) = texts bodies ++ texts later :=
  List.flatMap_append

/-- What a frame buffer has done when it was fed with texts and has handed out
the first of them. -/
structure Reassembled (turns : List Turn) (out rest : List String) : Prop where
  results : (FrameBuffer.empty.play turns).1 = out.map fun body => .ok (Utf8.octets body)
  /-- nothing was handed out before its last octet arrived -/
  notBefore : (texts out).length ≤ (fed turns).length
  /-- the next text is there as soon as its last octet has arrived -/
  inTime : ∀ body later, rest = body :: later →
    (FrameBuffer.empty.play turns).2.next.1 =
      if (texts (out ++ [body])).length ≤ (fed turns).length then some (.ok (Utf8.octets body))
      else none
  /-- when everything has arrived, everything is there -/
  drained : fed turns = texts (out ++ rest) →
    (FrameBuffer.empty.play turns).1 ++ (FrameBuffer.empty.play turns).2.drain.1 =
      (out ++ rest).map (fun body => .ok (Utf8.octets body)) ∧
    (FrameBuffer.empty.play turns).2.drain.2 = .empty
  /-- after the last text nothing is held -/
  emptied : rest = [] → (FrameBuffer.empty.play turns).2 = .empty

/-- Texts come out as they went in, however their frames are cut into chunks
and whenever results are asked for. -/
theorem reassembled_of_texts {bodies : List String}
    (hsize : ∀ body ∈ bodies, (Utf8.octets body).length ≤ maxMessageSize) {turns : List Turn}
    (hfed : fed turns <+: texts bodies) :
    ∃ out rest, bodies = out ++ rest ∧ Reassembled turns out rest := by
  obtain ⟨ahead, hahead⟩ := hfed
  rw [texts_eq] at hahead
  have hoctets : ∀ body ∈ bodies.map Utf8.octets, body.length ≤ maxMessageSize :=
    List.forall_mem_map.2 hsize
  obtain ⟨outOctets, restOctets, hsplit, hresults, hawaits⟩ :=
    FrameBuffer.Awaits.play (b := .empty) hoctets hahead
  obtain ⟨out, rest, rfl, rfl, rfl⟩ := List.map_eq_append_iff.1 hsplit
  rw [← texts_eq] at hahead
  have hrest : ∀ body ∈ rest.map Utf8.octets, body.length ≤ maxMessageSize :=
    List.forall_mem_map.2 fun body hbody => hsize body (List.mem_append_right out hbody)
  refine ⟨out, rest, rfl, ?_⟩
  constructor
  · rw [hresults, List.map_map]
    rfl
  · have hlate := hawaits.length_le
    have htotal := congrArg List.length hahead
    rw [List.length_append, texts_append, List.length_append, texts_eq rest] at htotal
    omega
  · rintro body later rfl
    have hhands := hawaits.next (hrest _ List.mem_cons_self)
    have hwhole : (fed turns).length + ahead.length =
        (texts (out ++ [body])).length + (frames (later.map Utf8.octets)).length := by
      rw [← List.length_append, hahead, ← texts_eq, ← List.length_append, ← texts_append,
        List.append_assoc]
      rfl
    rw [FrameBuffer.Hands] at hhands
    split at hhands
    · rw [if_pos (by omega)]
      exact hhands.1
    · rw [if_neg (by omega)]
      exact hhands.1
  · intro hall
    rw [hall] at hahead
    obtain rfl : ahead = [] := List.append_right_eq_self.1 hahead
    rw [hawaits.drain hrest, hresults, ← List.map_append, ← List.map_append, List.map_map]
    exact ⟨rfl, rfl⟩
  · rintro rfl
    obtain ⟨-, rfl⟩ := hawaits.next_nil
    exact hawaits.eq_empty

/-- Two texts, the second empty, cut inside a header and behind a body. -/
theorem reassembled_of_two_texts :
    ∃ out rest, ["héllo", ""] = out ++ rest ∧
      Reassembled [.feed ((texts ["héllo", ""]).take 9), .ask, .ask,
        .feed (((texts ["héllo", ""]).drop 9).take 18), .ask, .feed [],
        .feed ((texts ["héllo", ""]).drop 27), .ask] out rest := by
  refine reassembled_of_texts ?_ ?_
  · decide
  · decide +kernel

end LspClient.Wire
