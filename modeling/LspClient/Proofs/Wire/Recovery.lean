import LspClient.Proofs.Wire.Chunking

/-!
# Bodies are found again after a bad header block

A header block that cannot be used costs one error and nothing else. The bodies
whose frames come later are handed out as if nothing had happened, wherever the
stream is cut.

There are two ways back. A block without a usable length leaves the buffer
looking for the next field name. What stands in front of the next frame may be
anything that does not hold this name, so the search can only go wrong at the
seam: the end of the garbage and the beginning of the frame might spell the
name together, earlier than the frame does. They never do, because no proper
beginning of the name is also an end of it (`fieldOctets_unbordered`). A block
that declares too much says how many octets to skip, and these are skipped
without being looked at.

Either way the next call answers like the call of a buffer in front of the
frames alone, and cuts do not matter by `FrameBuffer.play_drain`.
-/

namespace LspClient.Wire

/-! ## The block and its end -/

/-- The two spellings of an empty line, with the line break in front of it. -/
def emptyLines : List (List UInt8) := [[13, 10, 13, 10], [10, 10]]

theorem emptyLine?_iff {bytes after : List UInt8} :
    emptyLine? bytes = some after ↔ ∃ line ∈ emptyLines, bytes = line ++ after := by
  simp [emptyLine?_eq_some, emptyLines]

/-- A header block and the empty line behind it, which is the first one and
comes early enough. -/
structure Ended (block line : List UInt8) : Prop where
  isEmpty : line ∈ emptyLines
  first : ∀ before other after, other ∈ emptyLines →
    block ++ line = before ++ other ++ after → block.length ≤ before.length
  short : (block ++ line).length ≤ maxHeaderSize

theorem splitHeader_of_first {line : List UInt8} (hline : line ∈ emptyLines) {block : List UInt8} :
    ∀ {seen : List UInt8}, (∀ before other after, other ∈ emptyLines →
      block ++ line = before ++ other ++ after → block.length ≤ before.length) →
    splitHeader seen (block ++ line) = some (seen.reverse ++ block, []) := by
  induction block with
  | nil =>
      intro seen _
      rw [List.append_nil, List.nil_append]
      simp only [emptyLines, List.mem_cons, List.not_mem_nil, or_false] at hline
      rcases hline with rfl | rfl <;> rfl
  | cons b block ih =>
      intro seen hfirst
      rw [List.cons_append, splitHeader_cons]
      cases hnow : emptyLine? (b :: (block ++ line)) with
      | some after =>
          obtain ⟨other, hother, heq⟩ := emptyLine?_iff.1 hnow
          exact absurd (hfirst [] other after hother heq) (Nat.not_succ_le_zero _)
      | none =>
          refine (ih ?_).trans (by rw [List.reverse_cons, List.append_assoc]; rfl)
          intro before other after hother heq
          exact Nat.le_of_succ_le_succ
            (hfirst (b :: before) other after hother (congrArg (b :: ·) heq))

theorem Ended.splitHeader {block line : List UInt8} (h : Ended block line) (more : List UInt8) :
    splitHeader [] (block ++ line ++ more) = some (block, more) :=
  splitHeader_append more (splitHeader_of_first h.isEmpty h.first)

/-- What is found as the end of a block is the first empty line. -/
theorem length_le_of_splitHeader {other block rest after before : List UInt8}
    (hother : other ∈ emptyLines) : ∀ {seen : List UInt8},
    splitHeader seen (before ++ other ++ after) = some (block, rest) →
      block.length ≤ seen.length + before.length := by
  induction before with
  | nil =>
      intro seen h
      cases other with
      | nil => exact absurd hother (by decide)
      | cons b other =>
          have hnow : emptyLine? (b :: (other ++ after)) = some after :=
            emptyLine?_iff.2 ⟨b :: other, hother, rfl⟩
          rw [List.nil_append, List.cons_append, splitHeader_cons, hnow] at h
          cases h
          exact Nat.le_of_eq List.length_reverse
  | cons b before ih =>
      intro seen h
      rw [List.cons_append, List.cons_append, splitHeader_cons] at h
      cases hnow : emptyLine? (b :: (before ++ other ++ after)) with
      | some found =>
          rw [hnow] at h
          cases h
          exact Nat.le_trans (Nat.le_of_eq List.length_reverse) (Nat.le_add_right _ _)
      | none =>
          rw [hnow] at h
          have hlength := ih h
          rw [List.length_cons] at hlength ⊢
          omega

theorem ended_of_splitHeader {block line : List UInt8} (hline : line ∈ emptyLines)
    (h : splitHeader [] (block ++ line) = some (block, []))
    (hshort : (block ++ line).length ≤ maxHeaderSize) : Ended block line := by
  refine ⟨hline, ?_, hshort⟩
  intro before other after hother heq
  rw [heq] at h
  have hlength := length_le_of_splitHeader hother h
  rwa [List.length_nil, Nat.zero_add] at hlength

/-! ## What is wrong with the block -/

/-- The value of the first line named `Content-Length`. -/
def lengthValue? (lines : List (List UInt8)) : Option (List UInt8) :=
  lines.findSome? fun line =>
    match field? line with
    | some (name, value) => if isContentLength name then some value else none
    | none => none

theorem contentLength_eq (lines : List (List UInt8)) :
    contentLength lines =
      match lengthValue? lines with
      | some value => octetCount value
      | none => .error .missingContentLength := by
  induction lines with
  | nil => rfl
  | cons line lines ih =>
      rw [contentLength, lengthValue?, List.findSome?_cons]
      cases hfield : field? line with
      | none => exact ih
      | some field =>
          by_cases hname : isContentLength field.1 = true
          · simp [hname]
          · simp only [hname]
            exact ih

theorem Ended.declaredLength {block line : List UInt8} (h : Ended block line) :
    declaredLength block =
      match lengthValue? (block.splitOn 10) with
      | some value => octetCount value
      | none => .error .missingContentLength := by
  have hshort := h.short
  rw [List.length_append] at hshort
  rw [Wire.declaredLength, if_neg (by omega), contentLength_eq]

/-- The octets that are lost with a header block that cannot be used, and the
error that is handed out for it. -/
inductive Lost (block : List UInt8) : List UInt8 → FrameError → Prop
  /-- there is no length, and octets that do not hold the field name follow -/
  | missing {garbage : List UInt8} (hvalue : lengthValue? (block.splitOn 10) = none)
      (hgarbage : ∀ name, name <:+: garbage → name.map lowerOctet ≠ fieldOctets) :
      Lost block garbage .missingContentLength
  /-- the length is no number, and octets that do not hold the field name
  follow -/
  | invalid {garbage value : List UInt8}
      (hvalue : lengthValue? (block.splitOn 10) = some value)
      (hcount : Numeral.unsigned? (Text.trim (Utf8.lossy value)) = none)
      (hgarbage : ∀ name, name <:+: garbage → name.map lowerOctet ≠ fieldOctets) :
      Lost block garbage
        (.invalidContentLength (String.ofList (Text.trim (Utf8.lossy value))))
  /-- the length is too large, and as many octets follow -/
  | oversized {body value : List UInt8}
      (hvalue : lengthValue? (block.splitOn 10) = some value)
      (hcount : Numeral.unsigned? (Text.trim (Utf8.lossy value)) = some body.length)
      (hsize : maxMessageSize < body.length) :
      Lost block body (.messageTooLarge body.length)

namespace FrameBuffer

/-! ## The seam between garbage and a frame -/

theorem seekField_eq_none {bytes : List UInt8} :
    seekField bytes = none ↔ ∀ name, name <:+: bytes → name.map lowerOctet ≠ fieldOctets := by
  induction bytes with
  | nil =>
      refine ⟨fun _ name hname => ?_, fun _ => rfl⟩
      rw [List.eq_nil_of_infix_nil hname]
      decide
  | cons b bytes ih =>
      rw [seekField]
      split
      · next hstarts =>
          refine iff_of_false (Option.some_ne_none _) fun h => ?_
          exact h _ (List.take_prefix _ _).isInfix (beq_iff_eq.1 hstarts)
      · next hstarts =>
          rw [ih]
          constructor
          · intro h name hname
            rcases List.infix_cons_iff.1 hname with hprefix | hinfix
            · intro hfield
              -- a name in front is as long as the field name
              have hlength := congrArg List.length hfield
              rw [List.length_map] at hlength
              rw [List.prefix_iff_eq_take.1 hprefix, hlength] at hfield
              exact hstarts (beq_iff_eq.2 hfield)
            · exact h name hinfix
          · intro h name hname
            exact h name (List.infix_cons hname)

/-- No end of the field name is a beginning of it. -/
theorem fieldOctets_unbordered : ∀ n < fieldOctets.length, 0 < n →
    fieldOctets.drop n ≠ fieldOctets.take (fieldOctets.length - n) := by decide

theorem startsField_seam {garbage found : List UInt8} (hgarbage : garbage ≠ [])
    (hshort : garbage.length < fieldOctets.length) (hfound : startsField found = true) :
    startsField (garbage ++ found) = false := by
  have hkept : fieldOctets.length - garbage.length ≤ fieldOctets.length := Nat.sub_le _ _
  refine beq_eq_false_iff_ne.2 fun h => ?_
  rw [List.take_append, List.take_of_length_le (Nat.le_of_lt hshort), List.map_append] at h
  -- the rest of the name is what the frame begins with
  have hrest := congrArg (List.drop garbage.length) h
  rw [List.drop_left' (by rw [List.length_map])] at hrest
  have hbegins := congrArg (List.take (fieldOctets.length - garbage.length)) (beq_iff_eq.1 hfound)
  rw [← List.map_take, List.take_take, Nat.min_eq_left hkept] at hbegins
  exact fieldOctets_unbordered garbage.length hshort (List.length_pos_iff.2 hgarbage)
    (hrest.symm.trans hbegins)

/-- Behind octets that do not hold the field name the search finds the next
one where it begins. -/
theorem seekField_garbage {garbage found : List UInt8} (hgarbage : seekField garbage = none)
    (hfound : startsField found = true) : seekField (garbage ++ found) = some found := by
  induction garbage with
  | nil =>
      cases found with
      | nil => cases hfound
      | cons b found => rw [List.nil_append, seekField, if_pos hfound]
  | cons b garbage ih =>
      rw [seekField] at hgarbage
      split at hgarbage
      · cases hgarbage
      · next hstarts =>
          have hseam : startsField (b :: garbage ++ found) = false := by
            by_cases hshort : (b :: garbage).length < fieldOctets.length
            · exact startsField_seam (List.cons_ne_nil _ _) hshort hfound
            · have hlength := length_fieldOctets
              rw [startsField_append (by omega) found]
              exact Bool.eq_false_iff.2 hstarts
          rw [List.cons_append] at hseam ⊢
          rw [seekField, hseam]
          exact ih hgarbage

theorem startsField_frames (body : List UInt8) (rest : List (List UInt8)) :
    startsField (frames (body :: rest)) = true := by
  rw [frames_cons, header_eq, lengthLine_eq]
  rfl

/-! ## The way back -/

theorem Awaits.tame {bodies : List (List UInt8)} : ∀ {b : FrameBuffer},
    (∀ body ∈ bodies, body.length ≤ maxMessageSize) → b.Awaits [] bodies → b.Tame := by
  induction bodies with
  | nil =>
      intro b _ h
      rw [h.eq_empty]
      have hnext : empty.next = (none, empty) := rfl
      refine tame_of_none hnext fun held hheld => ?_
      cases hheld
      decide
  | cons body rest ih =>
      intro b hsize h
      have hbody := hsize body List.mem_cons_self
      have hhands := h.next hbody
      rw [Hands, List.length_nil, if_pos (Nat.zero_le _)] at hhands
      refine tame_of_some (Prod.ext hhands.1 rfl) ?_
        (ih (fun c hc => hsize c (List.mem_cons_of_mem body hc)) hhands.2)
      intro held hheld
      obtain ⟨octets, phase⟩ := b
      cases phase with
      | head =>
          cases hheld
          have heq : octets ++ [] = frames (body :: rest) := h
          have hline := length_lengthLine hbody
          rw [List.append_nil, frames_cons, header_eq] at heq
          rw [heq, blockSpan, splitHeader_line (not_mem_lengthLine _)]
          have hend : blockEnd.length = 4 := rfl
          simp only [List.length_append, maxHeaderSize]
          omega
      | body length => cases hheld
      | discard length => exact h.elim
      | resync => exact h.elim

/-- A buffer that answers like one in front of the frames alone. -/
theorem drain_of_like_frames {b : FrameBuffer} {bodies : List (List UInt8)}
    (hsize : ∀ body ∈ bodies, body.length ≤ maxMessageSize)
    (hnext : b.next = takeHead (frames bodies))
    (hexamined : b.examined? = some (frames bodies)) :
    b.Tame ∧ b.drain.1 = bodies.map .ok := by
  have hawaits : Awaits ⟨frames bodies, .head⟩ [] bodies := List.append_nil _
  refine ⟨(hawaits.tame hsize).of_next_eq hnext.symm fun _ h => hexamined.symm.trans h, ?_⟩
  rw [drain_of_next_eq (c := ⟨frames bodies, .head⟩) hnext, hawaits.drain hsize]

theorem drain_of_garbage {garbage : List UInt8} {bodies : List (List UInt8)}
    (hgarbage : ∀ name, name <:+: garbage → name.map lowerOctet ≠ fieldOctets)
    (hsize : ∀ body ∈ bodies, body.length ≤ maxMessageSize) :
    Tame ⟨garbage ++ frames bodies, .resync⟩ ∧
      (drain ⟨garbage ++ frames bodies, .resync⟩).1 = bodies.map .ok := by
  have hnone := seekField_eq_none.2 hgarbage
  cases bodies with
  | nil =>
      have hseek : seekField (garbage ++ frames []) = none := by
        rw [frames, List.flatMap_nil, List.append_nil, hnone]
      have hnext : next ⟨garbage ++ frames [], .resync⟩ =
          (none, ⟨(garbage ++ frames []).drop
            ((garbage ++ frames []).length - keptTail), .resync⟩) := by
        simp only [next, hseek]
      refine ⟨tame_of_none hnext fun held hheld => ?_, by rw [drain_of_none hnext]; rfl⟩
      rw [examined?, hseek] at hheld
      cases hheld
  | cons body rest =>
      have hseek := seekField_garbage hnone (startsField_frames body rest)
      exact drain_of_like_frames hsize (by simp only [next, hseek]) hseek

theorem drain_of_discarded {body : List UInt8} {bodies : List (List UInt8)}
    (hsize : ∀ body ∈ bodies, body.length ≤ maxMessageSize) :
    Tame ⟨body ++ frames bodies, .discard body.length⟩ ∧
      (drain ⟨body ++ frames bodies, .discard body.length⟩).1 = bodies.map .ok := by
  obtain ⟨hnext, hexamined⟩ := discard_done (Nat.lt_irrefl body.length) (frames bodies)
  rw [List.drop_length, List.nil_append] at hnext hexamined
  exact drain_of_like_frames hsize hnext hexamined

/-- Of a block that cannot be used only the error is handed out, and the bodies
whose frames come behind what is lost with it. -/
theorem drain_of_lost {block line lost : List UInt8} {error : FrameError}
    {bodies : List (List UInt8)} (hended : Ended block line) (hlost : Lost block lost error)
    (hsize : ∀ body ∈ bodies, body.length ≤ maxMessageSize) :
    Tame ⟨block ++ line ++ (lost ++ frames bodies), .head⟩ ∧
      (drain ⟨block ++ line ++ (lost ++ frames bodies), .head⟩).1 =
        .error error :: bodies.map .ok := by
  have hsplit := hended.splitHeader (lost ++ frames bodies)
  obtain ⟨after, hnext, hafter, hdrain⟩ :
      ∃ after, next ⟨block ++ line ++ (lost ++ frames bodies), .head⟩ =
          (some (.error error), after) ∧ after.Tame ∧ after.drain.1 = bodies.map .ok := by
    simp only [next, takeHead, hsplit, hended.declaredLength]
    cases hlost with
    | missing hvalue hgarbage =>
        simp only [hvalue]
        exact ⟨_, rfl, drain_of_garbage hgarbage hsize⟩
    | invalid hvalue hcount hgarbage =>
        simp only [hvalue, octetCount, hcount]
        exact ⟨_, rfl, drain_of_garbage hgarbage hsize⟩
    | oversized hvalue hcount hlarge =>
        simp only [hvalue, octetCount, hcount, if_pos hlarge]
        exact ⟨_, rfl, drain_of_discarded hsize⟩
  refine ⟨tame_of_some hnext (fun held hheld => ?_) hafter, by rw [drain_of_some hnext, hdrain]⟩
  cases hheld
  have hshort := hended.short
  rw [blockSpan, hsplit]
  simp only [List.length_append] at hshort ⊢
  omega

/-- A header block that cannot be used costs one error, and the bodies whose
frames come later are handed out, however the stream is cut and whenever
results are asked for. -/
theorem recovered_of_lost {block line lost : List UInt8} {error : FrameError}
    (hended : Ended block line) (hlost : Lost block lost error) {bodies : List (List UInt8)}
    (hsize : ∀ body ∈ bodies, body.length ≤ maxMessageSize) {turns : List Turn}
    (hfed : fed turns = block ++ line ++ lost ++ frames bodies) :
    (empty.play turns).1 ++ (empty.play turns).2.drain.1 = .error error :: bodies.map .ok := by
  obtain ⟨htame, hdrain⟩ := drain_of_lost hended hlost hsize
  rw [List.append_assoc] at hfed
  rw [← hdrain, ← hfed] at *
  exact play_drain htame

/-- A block without a length, garbage that ends in most of the field name, and
two bodies, the second of which looks like a header block; cut inside the empty
line, inside the garbage and inside field names. -/
def spoiltTurns : List Turn :=
  [.feed (Utf8.octets "X-Other: 1\r\n\r"), .ask, .feed (Utf8.octets "\n--\n\nConten"), .ask, .ask,
    .feed (Utf8.octets "Conten"), .ask,
    .feed (Utf8.octets "t-Length: 2\r\n\r\nhiContent-Length: 19\r\n\r\nContent"), .ask,
    .feed (Utf8.octets "-Length: 9\n\n")]

theorem recovered_of_spoiltTurns :
    (empty.play spoiltTurns).1 ++ (empty.play spoiltTurns).2.drain.1 =
      [.error .missingContentLength, .ok (Utf8.octets "hi"),
        .ok (Utf8.octets "Content-Length: 9\n\n")] := by
  have hended : Ended (Utf8.octets "X-Other: 1") [13, 10, 13, 10] :=
    ended_of_splitHeader (by decide) (by decide) (by decide)
  have hlost : Lost (Utf8.octets "X-Other: 1") (Utf8.octets "--\n\nConten")
      .missingContentLength :=
    .missing (by decide +kernel) (seekField_eq_none.1 (by decide))
  have hsize : ∀ body ∈ [Utf8.octets "hi", Utf8.octets "Content-Length: 9\n\n"],
      body.length ≤ maxMessageSize := by decide
  exact recovered_of_lost hended hlost hsize (by decide +kernel)

end FrameBuffer

end LspClient.Wire
