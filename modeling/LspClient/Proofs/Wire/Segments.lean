import LspClient.Proofs.Wire.HeaderLimit

/-!
# Every octet is handed out at most once

Taking results out of a buffer comes to an end, and what is taken out are pieces of
the stream, each behind the header block that declared its length.

A call is a loop: it goes on with another phase until it has a result or needs more
octets (`round`). The phases have an order, skipping before a header block and a
header block before a body, and a round only ever leads to a later one. So three
rounds are enough (`ends_next`), whatever the octets are. That a result shortens
the buffer needs one fact about how it got where it is: a buffer does not wait for
an empty body, since it would have handed it out at once.

Where the pieces are is a matter of the octets that have been passed. A buffer that
waits for a body stands right behind an empty line (`Behind`), and the octets it
holds are all that it has not passed (`Stands`). No phase but this one ever hands
out a body, so the other ways to drop octets, a cleared buffer included, only
lengthen the gap in front of the next piece.
-/

namespace LspClient.Wire

/-- A piece of a stream that ends with a body: octets that do not matter, a header
block, the empty line behind it, and as many octets as the block declares. -/
structure Segment where
  skipped : List UInt8
  block : List UInt8
  line : List UInt8
  body : List UInt8
  closed : ClosedBy block line
  declared : declaredLength block = .ok body.length

def octetsOf (segments : List Segment) : List UInt8 :=
  segments.flatMap fun s => s.skipped ++ (s.block ++ s.line ++ s.body)

theorem octetsOf_concat (segments : List Segment) (s : Segment) :
    octetsOf (segments ++ [s]) =
      octetsOf segments ++ (s.skipped ++ (s.block ++ s.line ++ s.body)) := by
  rw [octetsOf, octetsOf, List.flatMap_append, List.flatMap_singleton]

/-! ## Where a block was split -/

theorem splitHeader_eq_some {bytes : List UInt8} : ∀ {seen found rest : List UInt8},
    splitHeader seen bytes = some (found, rest) →
      ∃ block line, line ∈ emptyLines ∧ found = seen.reverse ++ block ∧
        bytes = block ++ line ++ rest := by
  induction bytes with
  | nil => exact fun h => nomatch h
  | cons b bytes ih =>
      intro seen found rest h
      rw [splitHeader_cons] at h
      cases hnow : emptyLine? (b :: bytes) with
      | some after =>
          rw [hnow] at h
          cases h
          obtain ⟨line, hline, heq⟩ := emptyLine?_iff.1 hnow
          exact ⟨[], line, hline, (List.append_nil _).symm, heq⟩
      | none =>
          rw [hnow] at h
          obtain ⟨block, line, hline, rfl, rfl⟩ := ih h
          exact ⟨b :: block, line, hline, by rw [List.reverse_cons, List.append_assoc]; rfl, rfl⟩

/-- A block is split off at the first empty line. -/
theorem closedBy_of_splitHeader {held block rest : List UInt8}
    (h : splitHeader [] held = some (block, rest)) :
    ∃ line, ClosedBy block line ∧ held = block ++ line ++ rest := by
  obtain ⟨block, line, hline, rfl, rfl⟩ := splitHeader_eq_some h
  exact ⟨line, closedBy_of_splits hline h, rfl⟩

namespace FrameBuffer

/-! ## A call comes to an end -/

/-- What one round of a call comes to. -/
inductive Round where
  /-- another round, from this buffer -/
  | again (b : FrameBuffer)
  /-- the end of the call -/
  | done (result : Option FrameResult) (after : FrameBuffer)

/-- One round of a call, in the phase the buffer is in. -/
def round (b : FrameBuffer) : Round :=
  match b.phase with
  | .head =>
    match splitHeader [] b.held with
    | none =>
      if maxHeaderSize < b.held.length then .done (some (.error .headerTooLarge)) ⟨[], .resync⟩
      else .done none b
    | some (block, rest) =>
      match declaredLength block with
      | .error e => .done (some (.error e)) ⟨rest, .resync⟩
      | .ok length =>
        if maxMessageSize < length then
          .done (some (.error (.messageTooLarge length))) ⟨rest, .discard length⟩
        else .again ⟨rest, .body length⟩
  | .body length =>
    if b.held.length < length then .done none b
    else .done (some (.ok (b.held.take length))) ⟨b.held.drop length, .head⟩
  | .discard length =>
    if b.held.length < length then .done none ⟨[], .discard (length - b.held.length)⟩
    else .again ⟨b.held.drop length, .head⟩
  | .resync =>
    match seekField b.held with
    | some found => .again ⟨found, .head⟩
    | none => .done none ⟨b.held.drop (b.held.length - keptTail), .resync⟩

/-- A call that ends after some rounds, with its result and what it leaves. -/
inductive Ends : FrameBuffer → Nat → Option FrameResult × FrameBuffer → Prop
  | done {b after : FrameBuffer} {result : Option FrameResult} :
      b.round = .done result after → Ends b 1 (result, after)
  | again {b later : FrameBuffer} {n : Nat} {r : Option FrameResult × FrameBuffer} :
      b.round = .again later → Ends later n r → Ends b (n + 1) r

theorem ends_takeBody (length : Nat) (held : List UInt8) :
    Ends ⟨held, .body length⟩ 1 (takeBody length held) := by
  rw [takeBody]
  split
  · next hshort => exact .done (if_pos hshort)
  · next hlong => exact .done (if_neg hlong)

theorem ends_takeHead (held : List UInt8) :
    ∃ n ≤ 2, Ends ⟨held, .head⟩ n (takeHead held) := by
  rw [takeHead]
  split
  · next hnone =>
      split
      · next hlong => exact ⟨1, by decide, .done (by simp only [round, hnone, if_pos hlong])⟩
      · next hshort => exact ⟨1, by decide, .done (by simp only [round, hnone, if_neg hshort])⟩
  · next block rest hsome =>
      split
      · next e herror => exact ⟨1, by decide, .done (by simp only [round, hsome, herror])⟩
      · next length hok =>
          split
          · next hlarge =>
              exact ⟨1, by decide, .done (by simp only [round, hsome, hok, if_pos hlarge])⟩
          · next hsmall =>
              exact ⟨2, Nat.le_refl 2, .again (by simp only [round, hsome, hok, if_neg hsmall])
                (ends_takeBody length rest)⟩

theorem ends_next (b : FrameBuffer) : ∃ n ≤ 3, b.Ends n b.next := by
  obtain ⟨held, phase⟩ := b
  -- skipping leads to a header block, and its rounds are counted already
  have hhead : ∀ {b : FrameBuffer} {found : List UInt8}, b.round = .again ⟨found, .head⟩ →
      ∃ n ≤ 3, b.Ends n (takeHead found) := by
    intro b found hround
    obtain ⟨n, hn, hends⟩ := ends_takeHead found
    exact ⟨n + 1, Nat.succ_le_succ hn, .again hround hends⟩
  cases phase with
  | head =>
      obtain ⟨n, hn, hends⟩ := ends_takeHead held
      exact ⟨n, Nat.le_succ_of_le hn, hends⟩
  | body length => exact ⟨1, by decide, ends_takeBody length held⟩
  | discard length =>
      rw [next_discard]
      split
      · next hshort => exact ⟨1, by decide, .done (if_pos hshort)⟩
      · next hlong => exact hhead (if_neg hlong)
  | resync =>
      cases hseek : seekField held with
      | some found =>
          simp only [next, hseek]
          exact hhead (by simp only [round, hseek])
      | none =>
          simp only [next, hseek]
          exact ⟨1, by decide, .done (by simp only [round, hseek])⟩

theorem play_of_none {b after : FrameBuffer} (h : b.next = (none, after)) (n : Nat) :
    after.play (List.replicate n .ask) = ([], after) := by
  induction n with
  | zero => rfl
  | succ n ih =>
      rw [List.replicate_succ, play, next_of_none h]
      exact ih

/-! ## Where a buffer stands -/

/-- What has been passed when a body is waited for: the body is not empty, and the
last octets are the header block that declares its length and an empty line. -/
def Behind (passed : List UInt8) : Phase → Prop
  | .body length => 0 < length ∧ ∃ skipped block line, passed = skipped ++ (block ++ line) ∧
      ClosedBy block line ∧ declaredLength block = .ok length
  | .head | .discard _ | .resync => True

/-- What has arrived are the pieces whose bodies were handed out, octets that have
been passed since, and those that are held. -/
def Stands (stream : List UInt8) (out : List (List UInt8)) (b : FrameBuffer) : Prop :=
  ∃ segments passed, stream = octetsOf segments ++ passed ++ b.held ∧
    out = segments.map Segment.body ∧ Behind passed b.phase

variable {stream held : List UInt8} {out : List (List UInt8)} {b : FrameBuffer}

theorem Stands.extend (h : b.Stands stream out) (chunk : List UInt8) :
    (b.extend chunk).Stands (stream ++ chunk) out := by
  obtain ⟨segments, passed, rfl, hout, hbehind⟩ := h
  exact ⟨segments, passed, List.append_assoc _ _ _, hout, hbehind⟩

theorem Stands.suffix (h : b.Stands stream out) : b.held <:+ stream := by
  obtain ⟨segments, passed, rfl, -, -⟩ := h
  exact List.suffix_append _ _

/-- The body of a call, if it has one. -/
def handed (r : Option FrameResult × FrameBuffer) : List (List UInt8) :=
  r.1.toList.filterMap Except.toOption

section

variable {segments : List Segment} {passed : List UInt8}

theorem stands_of_suffix {r : Option FrameResult × FrameBuffer} (hnobody : handed r = [])
    (hphase : ∀ passed, Behind passed r.2.phase) (hkept : r.2.held <:+ held) :
    r.2.Stands (octetsOf segments ++ passed ++ held) (segments.map Segment.body ++ handed r) := by
  -- what is dropped makes the gap behind the last piece longer
  obtain ⟨dropped, rfl⟩ := hkept
  rw [hnobody, List.append_nil]
  exact ⟨segments, passed ++ dropped, by simp only [List.append_assoc], rfl, hphase _⟩

theorem takeBody_stands {length : Nat} {skipped block line : List UInt8}
    (hclosed : ClosedBy block line) (hdeclared : declaredLength block = .ok length) :
    (takeBody length held).2.Stands
      (octetsOf segments ++ (skipped ++ (block ++ line)) ++ held)
      (segments.map Segment.body ++ handed (takeBody length held)) := by
  rw [takeBody]
  split
  · next hshort =>
      exact ⟨segments, skipped ++ (block ++ line), rfl, List.append_nil _,
        Nat.lt_of_le_of_lt (Nat.zero_le _) hshort, skipped, block, line, rfl, hclosed, hdeclared⟩
  · next hlong =>
      have hlength : (held.take length).length = length :=
        List.length_take_of_le (Nat.le_of_not_lt hlong)
      let found : Segment :=
        ⟨skipped, block, line, held.take length, hclosed, by rw [hlength, hdeclared]⟩
      have hbody : handed (some (.ok (held.take length)), ⟨held.drop length, .head⟩) =
          [found].map Segment.body := rfl
      rw [hbody, ← List.map_append]
      refine ⟨segments ++ [found], [], ?_, rfl, trivial⟩
      rw [octetsOf_concat, List.append_nil]
      simp only [found, List.append_assoc, List.take_append_drop]

theorem takeHead_stands {kept : List UInt8} (hkept : kept <:+ held) :
    (takeHead kept).2.Stands (octetsOf segments ++ passed ++ held)
      (segments.map Segment.body ++ handed (takeHead kept)) := by
  rw [takeHead]
  split
  · split
    · exact stands_of_suffix rfl (fun _ => trivial) List.nil_suffix
    · exact stands_of_suffix rfl (fun _ => trivial) hkept
  · next block rest hsplit =>
      obtain ⟨line, hclosed, rfl⟩ := closedBy_of_splitHeader hsplit
      have hrest : rest <:+ held := (List.suffix_append _ rest).trans hkept
      split
      · exact stands_of_suffix rfl (fun _ => trivial) hrest
      · next length hdeclared =>
          split
          · exact stands_of_suffix rfl (fun _ => trivial) hrest
          · obtain ⟨dropped, rfl⟩ := hkept
            have hbody : (takeBody length rest).2.Stands
                (octetsOf segments ++ (passed ++ dropped ++ (block ++ line)) ++ rest)
                (segments.map Segment.body ++ handed (takeBody length rest)) :=
              takeBody_stands hclosed hdeclared
            simpa only [List.append_assoc] using hbody

end

theorem seekField_suffix {bytes found : List UInt8} (h : seekField bytes = some found) :
    found <:+ bytes := by
  induction bytes with
  | nil => cases h
  | cons b bytes ih =>
      rw [seekField] at h
      split at h
      · cases h
        exact List.suffix_refl _
      · exact (ih h).trans (List.suffix_cons b bytes)

theorem Stands.next (h : b.Stands stream out) :
    b.next.2.Stands stream (out ++ handed b.next) := by
  obtain ⟨segments, passed, rfl, rfl, hbehind⟩ := h
  obtain ⟨held, phase⟩ := b
  cases phase with
  | head => exact takeHead_stands (List.suffix_refl held)
  | body length =>
      obtain ⟨-, skipped, block, line, rfl, hclosed, hdeclared⟩ := hbehind
      exact takeBody_stands hclosed hdeclared
  | discard length =>
      rw [next_discard]
      split
      · exact stands_of_suffix rfl (fun _ => trivial) List.nil_suffix
      · exact takeHead_stands (List.drop_suffix length held)
  | resync =>
      cases hseek : seekField held with
      | some found =>
          simp only [FrameBuffer.next, hseek]
          exact takeHead_stands (seekField_suffix hseek)
      | none =>
          simp only [FrameBuffer.next, hseek]
          exact stands_of_suffix rfl (fun _ => trivial) (List.drop_suffix _ held)

/-! ## Results shorten the buffer -/

theorem Stands.size_lt {after : FrameBuffer} {result : FrameResult} (h : b.Stands stream out)
    (hnext : b.next = (some result, after)) : after.size < b.size := by
  have hafter : after.size ≤ after.weight := Nat.le_add_right _ _
  have hweight := next_weight hnext
  obtain ⟨held, phase⟩ := b
  cases phase with
  | head | discard | resync => exact Nat.lt_of_le_of_lt hafter hweight
  | body length =>
      -- a body that is waited for is not empty
      obtain ⟨segments, passed, -, -, hpositive, -⟩ := h
      simp only [FrameBuffer.next, takeBody] at hnext
      split at hnext
      · cases hnext
      · next hlong =>
          cases hnext
          simp only [size, List.length_drop]
          omega

theorem Stands.length_drain (h : b.Stands stream out) : b.drain.1.length ≤ b.size := by
  induction hsize : b.size using Nat.strongRecOn generalizing b out with
  | ind n ih =>
      have hstands := h.next
      cases hnext : b.next with
      | mk result after =>
          rw [hnext] at hstands
          cases result with
          | none =>
              rw [drain_of_none hnext]
              exact Nat.zero_le n
          | some result =>
              have hshorter : after.size < n := hsize ▸ h.size_lt hnext
              have hlater := ih after.size hshorter hstands rfl
              rw [drain_of_some hnext]
              exact Nat.lt_of_le_of_lt hlater hshorter

theorem Stands.play {turns : List Turn} : ∀ {stream : List UInt8} {out : List (List UInt8)}
    {b : FrameBuffer}, b.Stands stream out →
      (b.play turns).2.Stands (stream ++ fed turns)
        (out ++ (b.play turns).1.filterMap Except.toOption) := by
  induction turns with
  | nil =>
      intro stream out b h
      rw [fed, List.append_nil]
      exact (List.append_nil out).symm ▸ h
  | cons turn turns ih =>
      intro stream out b h
      cases turn with
      | feed chunk =>
          have hlater := ih (h.extend chunk)
          rwa [List.append_assoc] at hlater
      | ask =>
          have hlater := ih h.next
          rw [List.append_assoc, handed, ← List.filterMap_append] at hlater
          rw [FrameBuffer.play]
          cases hnext : b.next with
          | mk result after =>
              rw [hnext] at hlater
              cases result with
              | none => exact hlater
              | some result => exact hlater

/-! ## Every octet at most once -/

/-- What a stream comes to in a buffer that has handed out results. -/
structure OnceOnly (stream : List UInt8) (results : List FrameResult) (b : FrameBuffer) :
    Prop where
  /-- a call is a few rounds -/
  ends : ∃ n ≤ 3, b.Ends n b.next
  /-- a result is progress -/
  shortens : ∀ result after, b.next = (some result, after) → after.size < b.size
  /-- there are no more results than octets -/
  exhausts : b.drain.1.length ≤ b.size
  /-- a buffer that needs more octets stays as it is -/
  settles : ∀ after, b.next = (none, after) →
    ∀ n, after.play (List.replicate n .ask) = ([], after)
  /-- what is held is the end of the stream -/
  suffix : b.held <:+ stream
  /-- the bodies stand in the stream one behind another, and in front of what is
  held -/
  segmented : ∃ segments passed, stream = octetsOf segments ++ passed ++ b.held ∧
    results.filterMap Except.toOption = segments.map Segment.body

/-- Whatever has arrived and whenever results were asked for. -/
theorem onceOnly_of_play (turns : List Turn) :
    OnceOnly (fed turns) (empty.play turns).1 (empty.play turns).2 := by
  have hempty : empty.Stands [] [] := ⟨[], [], rfl, rfl, trivial⟩
  have hstands : (empty.play turns).2.Stands (fed turns)
      ((empty.play turns).1.filterMap Except.toOption) := hempty.play
  refine ⟨ends_next _, fun result after => hstands.size_lt, hstands.length_drain,
    fun after => play_of_none, hstands.suffix, ?_⟩
  obtain ⟨segments, passed, hstream, hbodies, -⟩ := hstands
  exact ⟨segments, passed, hstream, hbodies⟩

end FrameBuffer

end LspClient.Wire
