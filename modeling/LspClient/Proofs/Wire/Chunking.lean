import LspClient.Proofs.Wire.Reassembly

/-!
# Where a stream is cut does not matter

A stream may be as malformed as it likes: the frame buffer refuses a header
block, skips an oversized body or searches for the next field name, and what it
hands out does not depend on how the stream was cut on its way. The exception
are header blocks that are too long. They are given up as soon as too much has
arrived, and that moment does depend on the cuts.

The argument is about one call. If a call hands something out, it hands out the
same when more octets have arrived (`next_extend_some`). If it hands out
nothing, the octets that it dropped are never missed: with more octets behind
them, the buffer before the call and the buffer after it answer alike
(`next_extend_none`). Draining is calling again and again, so draining early and
once more later is draining once (`drain_extend`), and the chunks follow by
induction.

Two facts about searching carry the calls. An empty line that is only found
with more octets ends in these, and none is found in between, since neither of
the two spellings can end inside the other. And a field name that is not among
the octets that have arrived can only begin in those that are kept.
-/

namespace LspClient.Wire

/-! ## The end of a header block -/

/-- What stands behind an empty line, if octets begin with the line break in
front of it. -/
def emptyLine? : List UInt8 → Option (List UInt8)
  | 13 :: 10 :: 13 :: 10 :: after => some after
  | 10 :: 10 :: after => some after
  | _ => none

theorem emptyLine?_eq_some {bytes after : List UInt8} :
    emptyLine? bytes = some after ↔
      bytes = 13 :: 10 :: 13 :: 10 :: after ∨ bytes = 10 :: 10 :: after := by
  constructor
  · intro h
    rw [emptyLine?.eq_def] at h
    split at h
    · exact .inl (by rw [Option.some.inj h])
    · exact .inr (by rw [Option.some.inj h])
    · cases h
  · rintro (rfl | rfl) <;> rfl

theorem splitHeader_cons (seen : List UInt8) (b : UInt8) (rest : List UInt8) :
    splitHeader seen (b :: rest) =
      match emptyLine? (b :: rest) with
      | some after => some (seen.reverse, after)
      | none => splitHeader (b :: seen) rest := by
  rw [splitHeader]
  split
  · next heq => rw [emptyLine?_eq_some.2 (.inl heq)]
  · next heq => rw [emptyLine?_eq_some.2 (.inr heq)]
  · next hcrlf hlf =>
      cases h : emptyLine? (b :: rest) with
      | none => rfl
      | some after =>
          rcases emptyLine?_eq_some.1 h with heq | heq
          · exact absurd heq (hcrlf after)
          · exact absurd heq (hlf after)

theorem emptyLine?_append {bytes after : List UInt8} (h : emptyLine? bytes = some after)
    (more : List UInt8) : emptyLine? (bytes ++ more) = some (after ++ more) := by
  rcases emptyLine?_eq_some.1 h with rfl | rfl <;> rfl

/-- An empty line that is only found with more octets ends in these, and there
is none that begins later and was found before. -/
theorem emptyLine?_late {b : UInt8} {bytes more after : List UInt8}
    (hnow : emptyLine? (b :: bytes) = none)
    (hlater : emptyLine? (b :: bytes ++ more) = some after) :
    after.length < more.length ∧ ∀ seen, splitHeader seen bytes = none := by
  have hnot : ∀ rest, ¬ (b :: bytes = 13 :: 10 :: 13 :: 10 :: rest ∨
      b :: bytes = 10 :: 10 :: rest) := by
    intro rest h
    rw [emptyLine?_eq_some.2 h] at hnow
    cases hnow
  -- the line break is cut behind its first, second or third octet
  rcases emptyLine?_eq_some.1 hlater with heq | heq
  · match bytes with
    | [] =>
        simp only [List.cons_append, List.nil_append, List.cons.injEq] at heq
        refine ⟨?_, fun _ => rfl⟩
        simp only [heq, List.length_cons]
        omega
    | [c] =>
        simp only [List.cons_append, List.nil_append, List.cons.injEq] at heq
        obtain ⟨-, rfl, rfl⟩ := heq
        refine ⟨?_, fun _ => rfl⟩
        simp only [List.length_cons]
        omega
    | [c, d] =>
        simp only [List.cons_append, List.nil_append, List.cons.injEq] at heq
        obtain ⟨-, rfl, rfl, rfl⟩ := heq
        exact ⟨Nat.lt_succ_self _, fun _ => rfl⟩
    | c :: d :: e :: rest =>
        simp only [List.cons_append, List.cons.injEq] at heq
        exact absurd (.inl (by rw [heq.1, heq.2.1, heq.2.2.1, heq.2.2.2.1])) (hnot rest)
  · match bytes with
    | [] =>
        simp only [List.cons_append, List.nil_append, List.cons.injEq] at heq
        refine ⟨?_, fun _ => rfl⟩
        rw [heq.2]
        exact Nat.lt_succ_self _
    | c :: rest =>
        simp only [List.cons_append, List.cons.injEq] at heq
        exact absurd (.inr (by rw [heq.1, heq.2.1])) (hnot rest)

/-- A block that has an end keeps it when more arrives. -/
theorem splitHeader_append {bytes block rest : List UInt8} (more : List UInt8) :
    ∀ {seen : List UInt8}, splitHeader seen bytes = some (block, rest) →
      splitHeader seen (bytes ++ more) = some (block, rest ++ more) := by
  induction bytes with
  | nil =>
      intro seen h
      cases h
  | cons b bytes ih =>
      intro seen h
      rw [splitHeader_cons] at h
      rw [List.cons_append, splitHeader_cons]
      cases hnow : emptyLine? (b :: bytes) with
      | some after =>
          rw [hnow] at h
          cases h
          rw [← List.cons_append, emptyLine?_append hnow more]
      | none =>
          rw [hnow] at h
          cases hlater : emptyLine? (b :: (bytes ++ more)) with
          | none => exact ih h
          | some after =>
              have hnone := (emptyLine?_late hnow hlater).2 (b :: seen)
              dsimp only at h
              rw [hnone] at h
              cases h

/-- A block that gets its end from what arrives later ends in that. -/
theorem splitHeader_late {bytes more block rest : List UInt8} :
    ∀ {seen : List UInt8}, splitHeader seen bytes = none →
      splitHeader seen (bytes ++ more) = some (block, rest) → rest.length < more.length := by
  induction bytes with
  | nil =>
      intro seen _ h
      have hlength := splitHeader_length h
      rw [List.nil_append] at hlength
      omega
  | cons b bytes ih =>
      intro seen hnone h
      rw [splitHeader_cons] at hnone
      rw [List.cons_append, splitHeader_cons] at h
      cases hnow : emptyLine? (b :: bytes) with
      | some after =>
          rw [hnow] at hnone
          cases hnone
      | none =>
          rw [hnow] at hnone
          cases hlater : emptyLine? (b :: (bytes ++ more)) with
          | none =>
              rw [hlater] at h
              exact ih hnone h
          | some after =>
              rw [hlater] at h
              cases h
              exact (emptyLine?_late hnow hlater).1

namespace FrameBuffer

/-! ## The next field name -/

theorem length_fieldOctets : fieldOctets.length = keptTail + 1 := by decide

theorem startsField_append {bytes : List UInt8} (h : keptTail < bytes.length)
    (more : List UInt8) : startsField (bytes ++ more) = startsField bytes := by
  have hlength := length_fieldOctets
  rw [startsField, startsField, List.take_append_of_le_length (by omega)]

theorem startsField_length {bytes : List UInt8} (h : startsField bytes = true) :
    keptTail < bytes.length := by
  have hlength := congrArg List.length (beq_iff_eq.1 h)
  rw [List.length_map, List.length_take, length_fieldOctets] at hlength
  omega

theorem keptTail_lt_of_seekField {bytes found : List UInt8} (h : seekField bytes = some found) :
    keptTail < bytes.length := by
  induction bytes with
  | nil => cases h
  | cons b bytes ih =>
      rw [seekField] at h
      split at h
      · next hstarts => exact startsField_length hstarts
      · exact Nat.lt_succ_of_lt (ih h)

theorem seekField_append {bytes found : List UInt8} (h : seekField bytes = some found)
    (more : List UInt8) : seekField (bytes ++ more) = some (found ++ more) := by
  have hlength := keptTail_lt_of_seekField h
  induction bytes with
  | nil => cases h
  | cons b bytes ih =>
      have hstarts := startsField_append hlength more
      rw [seekField] at h
      rw [List.cons_append] at hstarts ⊢
      rw [seekField, hstarts]
      split at h
      · next hhere =>
          cases h
          rw [if_pos hhere]
          rfl
      · next hhere =>
          rw [if_neg hhere]
          exact ih h (keptTail_lt_of_seekField h)

/-- Octets without the field name can be dropped, except for the last few. -/
theorem seekField_drop {bytes : List UInt8} (more : List UInt8) :
    ∀ {n : Nat}, seekField bytes = none → n + keptTail ≤ bytes.length →
      seekField (bytes ++ more) = seekField (bytes.drop n ++ more) := by
  induction bytes with
  | nil =>
      intro n _ _
      rw [List.drop_nil]
  | cons b bytes ih =>
      intro n h hlength
      cases n with
      | zero => rfl
      | succ n =>
          rw [List.length_cons] at hlength
          rw [seekField] at h
          split at h
          · cases h
          · next hhere =>
              have hlong : keptTail < (b :: bytes).length := by
                rw [List.length_cons]
                omega
              have hstarts := startsField_append hlong more
              rw [List.cons_append] at hstarts
              rw [List.cons_append, seekField, hstarts, if_neg hhere, List.drop_succ_cons]
              exact ih h (by omega)

/-! ## One call -/

theorem extend_extend (b : FrameBuffer) (bytes more : List UInt8) :
    b.extend (bytes ++ more) = (b.extend bytes).extend more := by
  rw [extend, extend, extend, List.append_assoc]

theorem extend_nil (b : FrameBuffer) : b.extend [] = b := by
  rw [extend, List.append_nil]

theorem takeBody_extend_none {length : Nat} {held : List UInt8} {after : FrameBuffer}
    (h : takeBody length held = (none, after)) : after = ⟨held, .body length⟩ := by
  rw [takeBody] at h
  split at h
  · exact (Prod.mk.inj h).2.symm
  · cases h

theorem takeBody_extend_some {length : Nat} {held : List UInt8} {result : FrameResult}
    {after : FrameBuffer} (h : takeBody length held = (some result, after))
    (more : List UInt8) : takeBody length (held ++ more) = (some result, after.extend more) := by
  rw [takeBody] at h
  split at h
  · cases h
  · next hlong =>
      cases h
      rw [takeBody, if_neg (by rw [List.length_append]; omega),
        List.take_append_of_le_length (by omega), List.drop_append_of_le_length (by omega)]
      rfl

/-- How many octets a header block takes up, the empty line included, and all
of them as long as it has no end. -/
def blockSpan (held : List UInt8) : Nat :=
  match splitHeader [] held with
  | some (_, rest) => held.length - rest.length
  | none => held.length

theorem takeHead_extend_none {held : List UInt8} {after : FrameBuffer}
    (h : takeHead held = (none, after)) (more : List UInt8) :
    (after = ⟨held, .head⟩ ∨ ∃ length rest, after = ⟨rest, .body length⟩) ∧
      takeHead (held ++ more) = (after.extend more).next := by
  rw [takeHead] at h
  split at h
  · split at h
    · cases h
    · cases h
      exact ⟨.inl rfl, rfl⟩
  · next block rest hsplit =>
      rw [takeHead, splitHeader_append more hsplit]
      dsimp only
      split at h
      · cases h
      · next length hlength =>
          split at h
          · cases h
          · next hsize =>
              rw [if_neg hsize, takeBody_extend_none h]
              exact ⟨.inr ⟨length, rest, rfl⟩, rfl⟩

theorem takeHead_extend_some {held : List UInt8} {result : FrameResult} {after : FrameBuffer}
    {more : List UInt8} (hspan : blockSpan (held ++ more) ≤ maxHeaderSize)
    (h : takeHead held = (some result, after)) :
    takeHead (held ++ more) = (some result, after.extend more) := by
  rw [takeHead] at h
  split at h
  · next hsplit =>
      split at h
      · next hlong =>
          -- the block cannot have grown too long and end in time after all
          exfalso
          rw [blockSpan] at hspan
          split at hspan
          · next block rest hlater =>
              have hlate := splitHeader_late hsplit hlater
              rw [List.length_append] at hspan
              omega
          · rw [List.length_append] at hspan
            omega
      · cases h
  · next block rest hsplit =>
      rw [takeHead, splitHeader_append more hsplit]
      dsimp only
      split at h
      · cases h
        rfl
      · next length hlength =>
          split at h
          · next hsize =>
              cases h
              rw [if_pos hsize]
              rfl
          · next hsize =>
              rw [if_neg hsize]
              exact takeBody_extend_some h more

/-- The octets that a call examines as a header block. -/
def examined? (b : FrameBuffer) : Option (List UInt8) :=
  match b.phase with
  | .head => some b.held
  | .body _ => none
  | .discard length => if b.held.length < length then none else some (b.held.drop length)
  | .resync => seekField b.held

theorem next_discard (length : Nat) (held : List UInt8) :
    next ⟨held, .discard length⟩ =
      if held.length < length then (none, ⟨[], .discard (length - held.length)⟩)
      else takeHead (held.drop length) := rfl

theorem examined?_discard (length : Nat) (held : List UInt8) :
    examined? ⟨held, .discard length⟩ =
      if held.length < length then none else some (held.drop length) := rfl

/-- Octets of a refused body can be skipped in two parts. -/
theorem discard_append {length : Nat} {held : List UInt8} (h : held.length < length)
    (more : List UInt8) :
    next ⟨held ++ more, .discard length⟩ = next ⟨more, .discard (length - held.length)⟩ ∧
      examined? ⟨held ++ more, .discard length⟩ =
        examined? ⟨more, .discard (length - held.length)⟩ := by
  rw [next_discard, next_discard, examined?_discard, examined?_discard, List.length_append]
  by_cases hstill : held.length + more.length < length
  · have hmore : more.length < length - held.length := by omega
    rw [if_pos hstill, if_pos hmore, if_pos hstill, if_pos hmore, Nat.sub_sub]
    exact ⟨rfl, rfl⟩
  · have hmore : ¬ more.length < length - held.length := by omega
    have hdrop : (held ++ more).drop length = more.drop (length - held.length) := by
      rw [List.drop_append, List.drop_eq_nil_of_le (Nat.le_of_lt h), List.nil_append]
    rw [if_neg hstill, if_neg hmore, if_neg hstill, if_neg hmore, hdrop]
    exact ⟨rfl, rfl⟩

/-- Once a refused body is skipped, a header block comes next. -/
theorem discard_done {length : Nat} {held : List UInt8} (h : ¬ held.length < length)
    (more : List UInt8) :
    next ⟨held ++ more, .discard length⟩ = takeHead (held.drop length ++ more) ∧
      examined? ⟨held ++ more, .discard length⟩ = some (held.drop length ++ more) := by
  have hlong : ¬ (held ++ more).length < length := by
    rw [List.length_append]
    omega
  have hdrop : (held ++ more).drop length = held.drop length ++ more :=
    List.drop_append_of_le_length (by omega)
  rw [next_discard, examined?_discard, if_neg hlong, if_neg hlong, hdrop]
  exact ⟨rfl, rfl⟩

/-- What a call hands out, it hands out with more octets behind as well. -/
theorem next_extend_some {b after : FrameBuffer} {result : FrameResult} {more : List UInt8}
    (hspan : ∀ held, (b.extend more).examined? = some held → blockSpan held ≤ maxHeaderSize)
    (h : b.next = (some result, after)) :
    (b.extend more).next = (some result, after.extend more) := by
  obtain ⟨held, phase⟩ := b
  cases phase with
  | head => exact takeHead_extend_some (hspan _ rfl) h
  | body length => exact takeBody_extend_some h more
  | discard length =>
      rw [next_discard] at h
      split at h
      · cases h
      · next hlong =>
          obtain ⟨hnext, hexamined⟩ := discard_done hlong more
          exact hnext.trans (takeHead_extend_some (hspan _ hexamined) h)
  | resync =>
      simp only [next, extend, examined?] at h hspan ⊢
      split at h
      · next found hfound =>
          rw [seekField_append hfound more] at hspan ⊢
          exact takeHead_extend_some (hspan _ rfl) h
      · cases h

/-- What a call drops without handing anything out is not missed later. -/
theorem next_extend_none {b after : FrameBuffer} (h : b.next = (none, after))
    (more : List UInt8) :
    (b.extend more).next = (after.extend more).next ∧
      ∀ held, (after.extend more).examined? = some held →
        (b.extend more).examined? = some held := by
  obtain ⟨held, phase⟩ := b
  cases phase with
  | head =>
      obtain ⟨rfl | ⟨length, rest, rfl⟩, hsame⟩ := takeHead_extend_none h more
      · exact ⟨hsame, fun _ h => h⟩
      · exact ⟨hsame, fun _ h => nomatch h⟩
  | body length =>
      rw [takeBody_extend_none h]
      exact ⟨rfl, fun _ h => h⟩
  | discard length =>
      rw [next_discard] at h
      split at h
      · next hshort =>
          cases h
          obtain ⟨hnext, hexamined⟩ := discard_append hshort more
          exact ⟨hnext, fun _ h => hexamined.trans h⟩
      · next hlong =>
          obtain ⟨hnext, hexamined⟩ := discard_done hlong more
          obtain ⟨rfl | ⟨length, rest, rfl⟩, hsame⟩ := takeHead_extend_none h more
          · exact ⟨hnext.trans hsame, fun _ h => hexamined.trans h⟩
          · exact ⟨hnext.trans hsame, fun _ h => nomatch h⟩
  | resync =>
      simp only [next] at h
      split at h
      · next found hfound =>
          simp only [next, extend, examined?, seekField_append hfound more]
          obtain ⟨rfl | ⟨length, rest, rfl⟩, hsame⟩ := takeHead_extend_none h more
          · exact ⟨hsame, fun _ h => h⟩
          · exact ⟨hsame, fun _ h => nomatch h⟩
      · next hnone =>
          cases h
          simp only [next, extend, examined?]
          -- with fewer octets than are kept, nothing was dropped
          by_cases hfew : held.length ≤ keptTail
          · rw [Nat.sub_eq_zero_of_le hfew, List.drop_zero]
            exact ⟨rfl, fun _ h => h⟩
          · rw [seekField_drop more hnone (by omega : held.length - keptTail + keptTail ≤ _)]
            refine ⟨?_, fun _ h => h⟩
            split
            · rfl
            · rw [← List.drop_append_of_le_length (by omega), List.drop_drop, List.length_drop]
              congr 3
              rw [List.length_append]
              omega

/-! ## Draining -/

/-- The octets from which header blocks are examined while everything that has
arrived is taken out. -/
def examined (b : FrameBuffer) : List (List UInt8) :=
  b.examined?.toList ++
    match _h : b.next with
    | (none, _) => []
    | (some _, after) => examined after
termination_by b.weight
decreasing_by exact next_weight _h

/-- No header block is too long. -/
def Tame (b : FrameBuffer) : Prop :=
  ∀ held ∈ b.examined, blockSpan held ≤ maxHeaderSize

instance (b : FrameBuffer) : Decidable b.Tame :=
  inferInstanceAs (Decidable (∀ held ∈ b.examined, _))

theorem Tame.span {b : FrameBuffer} (h : b.Tame) {held : List UInt8}
    (hheld : b.examined? = some held) : blockSpan held ≤ maxHeaderSize := by
  refine h held ?_
  rw [examined, hheld]
  exact List.mem_append_left _ List.mem_cons_self

theorem tame_of_none {b after : FrameBuffer} (hnext : b.next = (none, after))
    (hspan : ∀ held, b.examined? = some held → blockSpan held ≤ maxHeaderSize) : b.Tame := by
  intro held hheld
  rw [examined, List.mem_append, Option.mem_toList] at hheld
  rcases hheld with hnow | hlater
  · exact hspan held hnow
  · split at hlater
    · cases hlater
    · next heq =>
        rw [hnext] at heq
        cases heq

theorem tame_of_some {b after : FrameBuffer} {result : FrameResult}
    (hnext : b.next = (some result, after))
    (hspan : ∀ held, b.examined? = some held → blockSpan held ≤ maxHeaderSize)
    (h : after.Tame) : b.Tame := by
  intro held hheld
  rw [examined, List.mem_append, Option.mem_toList] at hheld
  rcases hheld with hnow | hlater
  · exact hspan held hnow
  · split at hlater
    · cases hlater
    · next heq =>
        rw [hnext] at heq
        cases heq
        exact h held hlater

theorem Tame.next {b after : FrameBuffer} {result : FrameResult} (h : b.Tame)
    (hnext : b.next = (some result, after)) : after.Tame := by
  intro held hheld
  refine h held ?_
  rw [examined]
  refine List.mem_append_right _ ?_
  split
  · next heq =>
      rw [hnext] at heq
      cases heq
  · next heq =>
      rw [hnext] at heq
      cases heq
      exact hheld

theorem Tame.of_next_eq {b c : FrameBuffer} (h : b.Tame) (hnext : b.next = c.next)
    (hexamined : ∀ held, c.examined? = some held → b.examined? = some held) : c.Tame := by
  intro held hheld
  rw [examined, List.mem_append, Option.mem_toList] at hheld
  rcases hheld with hnow | hlater
  · exact h.span (hexamined held hnow)
  · split at hlater
    · cases hlater
    · next heq => exact h.next (hnext.trans heq) held hlater

theorem drain_of_next_eq {b c : FrameBuffer} (h : b.next = c.next) : b.drain = c.drain := by
  cases hc : c.next with
  | mk result after =>
      cases result with
      | none => rw [drain_of_none hc, drain_of_none (h.trans hc)]
      | some result => rw [drain_of_some hc, drain_of_some (h.trans hc)]

theorem next_of_none {b after : FrameBuffer} (h : b.next = (none, after)) :
    after.next = (none, after) := by
  have hsame := (next_extend_none h []).1
  rw [extend_nil, extend_nil] at hsame
  rw [← hsame, h]

theorem next_drain (b : FrameBuffer) : b.drain.2.next = (none, b.drain.2) := by
  induction hweight : b.weight using Nat.strongRecOn generalizing b with
  | ind n ih =>
      cases hnext : b.next with
      | mk result after =>
          cases result with
          | none =>
              rw [drain_of_none hnext]
              exact next_of_none hnext
          | some result =>
              rw [drain_of_some hnext]
              exact ih after.weight (hweight ▸ next_weight hnext) after rfl

/-- Draining early and once more when the rest has arrived is draining
once. -/
theorem drain_extend {more : List UInt8} {b : FrameBuffer} (h : (b.extend more).Tame) :
    (b.drain.2.extend more).Tame ∧
      (b.extend more).drain =
        (b.drain.1 ++ (b.drain.2.extend more).drain.1, (b.drain.2.extend more).drain.2) := by
  induction hweight : b.weight using Nat.strongRecOn generalizing b with
  | ind n ih =>
      cases hnext : b.next with
      | mk result after =>
          cases result with
          | none =>
              obtain ⟨hsame, hexamined⟩ := next_extend_none hnext more
              rw [drain_of_none hnext, drain_of_next_eq hsame]
              exact ⟨h.of_next_eq hsame hexamined, rfl⟩
          | some result =>
              have hlater := next_extend_some (fun _ => h.span) hnext
              obtain ⟨htame, hdrain⟩ :=
                ih after.weight (hweight ▸ next_weight hnext) (h.next hlater) rfl
              rw [drain_of_some hnext, drain_of_some hlater, hdrain]
              exact ⟨htame, rfl⟩

/-- Asking early, in whatever turns, and draining at the end is draining
once. -/
theorem play_drain {turns : List Turn} : ∀ {b : FrameBuffer}, (b.extend (fed turns)).Tame →
    (b.play turns).1 ++ (b.play turns).2.drain.1 = (b.extend (fed turns)).drain.1 := by
  induction turns with
  | nil =>
      intro b _
      rw [fed, extend_nil]
      rfl
  | cons turn turns ih =>
      intro b htame
      cases turn with
      | feed chunk =>
          rw [fed, extend_extend] at htame ⊢
          exact ih htame
      | ask =>
          rw [fed] at htame ⊢
          rw [play]
          cases hnext : b.next with
          | mk result after =>
              cases result with
              | none =>
                  obtain ⟨hsame, hexamined⟩ := next_extend_none hnext (fed turns)
                  rw [drain_of_next_eq hsame]
                  exact ih (htame.of_next_eq hsame hexamined)
              | some result =>
                  have hlater := next_extend_some (fun _ => htame.span) hnext
                  rw [drain_of_some hlater]
                  exact congrArg (result :: ·) (ih (htame.next hlater))

/-! ## Chunks -/

/-- Chunks arrive, and everything that has arrived is taken out after each of
them. -/
def intake (b : FrameBuffer) : List (List UInt8) → List FrameResult × FrameBuffer
  | [] => ([], b)
  | chunk :: rest =>
    let (results, after) := (b.extend chunk).drain
    let (later, last) := after.intake rest
    (results ++ later, last)

theorem intake_eq {chunks : List (List UInt8)} : ∀ {b : FrameBuffer},
    b.next = (none, b) → (b.extend chunks.flatten).Tame →
      b.intake chunks = (b.extend chunks.flatten).drain := by
  induction chunks with
  | nil =>
      intro b hsettled _
      rw [List.flatten_nil, extend_nil, drain_of_none hsettled]
      rfl
  | cons chunk rest ih =>
      intro b _ htame
      rw [List.flatten_cons, extend_extend] at htame ⊢
      obtain ⟨hafter, hdrain⟩ := drain_extend htame
      rw [hdrain, ← ih (next_drain _) hafter]
      rfl

/-- A stream in which no header block is too long comes to the same results,
and leaves the same buffer, however it is cut into chunks. -/
theorem intake_of_tame {stream : List UInt8} (h : (empty.extend stream).Tame)
    {chunks : List (List UInt8)} (hchunks : chunks.flatten = stream) :
    empty.intake chunks = (empty.extend stream).drain := by
  subst hchunks
  exact intake_eq rfl h

/-- A block without a length, garbage, a body, a block whose length is no
number and one whose body is refused, cut inside an empty line, inside field
names and inside the refused body. -/
def malformedChunks : List (List UInt8) :=
  ["Foo: 1\n", "\nxx Conte", "nt-Length: 2\r\n\r", "\nab", "content-length: zz\n\nCONTENT",
    "-LENGTH: 99999999\r\n\r\nab", "c"].map Utf8.octets

theorem intake_of_malformedChunks :
    (empty.extend malformedChunks.flatten).Tame ∧
      (empty.extend malformedChunks.flatten).drain.1.length = 4 ∧
      (empty.extend malformedChunks.flatten).drain.2 = ⟨[], .discard 99999996⟩ ∧
      empty.intake malformedChunks = (empty.extend malformedChunks.flatten).drain := by
  have htame : (empty.extend malformedChunks.flatten).Tame := by decide +kernel
  exact ⟨htame, by decide +kernel, by decide +kernel, intake_of_tame htame rfl⟩

end FrameBuffer

end LspClient.Wire
