import LspClient.Proofs.Wire.Recovery

/-!
# When a header block counts as too long

The limit on header blocks is tested in two places. A block whose end has arrived
is measured by itself. As long as it has no end, all octets that are held are
measured, and these may include the beginning of the empty line. The two tests
disagree by what an incomplete empty line can hold, which is three octets: a block
of the greatest length is accepted if its empty line arrives in one piece, and
given up if a chunk ends inside of it.

This file says exactly when that happens. A cut inside the empty line is *late*
if the octets in front of it are more than a header block may have (`CutsLate`).
Without a late cut the body is handed out, and nothing else. At the first late
cut the block is given up, and everything that comes later is searched for a field
name (`intake_of_block`).

Nothing but positions is argued about. In front of the first empty line no call
finds an end, so the held octets grow until the empty line is complete, and from
then on the buffer waits for a body and `drain_extend` takes care of the cuts.
-/

namespace LspClient.Wire

/-- A header block and the empty line behind it, which is the first one. -/
structure ClosedBy (block line : List UInt8) : Prop where
  isEmpty : line ∈ emptyLines
  first : ∀ before other after, other ∈ emptyLines →
    block ++ line = before ++ other ++ after → block.length ≤ before.length

theorem ClosedBy.splits {block line : List UInt8} (h : ClosedBy block line)
    (more : List UInt8) : splitHeader [] (block ++ line ++ more) = some (block, more) :=
  splitHeader_append more (splitHeader_of_first h.isEmpty h.first)

/-- As long as the empty line is incomplete, no end is found. -/
theorem ClosedBy.splits_not {block line held : List UInt8} (h : ClosedBy block line)
    (hheld : held <+: block ++ line) (hlength : held.length < (block ++ line).length) :
    splitHeader [] held = none := by
  obtain ⟨more, hmore⟩ := hheld
  cases hsplit : splitHeader [] held with
  | none => rfl
  | some found =>
      have hwhole := h.splits []
      rw [List.append_nil, ← hmore, splitHeader_append more hsplit] at hwhole
      -- an end that was found already leaves nothing for the rest of the empty line
      have hnothing := (List.append_eq_nil_iff.1 (Prod.mk.inj (Option.some.inj hwhole)).2).2
      rw [← hmore, hnothing, List.append_nil] at hlength
      exact absurd hlength (Nat.lt_irrefl _)

/-- A block is closed where it is split off. -/
theorem closedBy_of_splits {block line rest : List UInt8} (hline : line ∈ emptyLines)
    (h : splitHeader [] (block ++ line ++ rest) = some (block, rest)) : ClosedBy block line where
  isEmpty := hline
  first := by
    intro before other after hother heq
    rw [heq, List.append_assoc] at h
    have hlength := length_le_of_splitHeader hother h
    rwa [List.length_nil, Nat.zero_add] at hlength

theorem closedBy_of_noBreak {block : List UInt8} (h : 10 ∉ block) : ClosedBy block blockEnd :=
  closedBy_of_splits (by decide) (splitHeader_line h [] [])

/-- A chunk ends inside the empty line, or in front of it, when more octets have
arrived than a header block may have. -/
def CutsLate (head : List UInt8) (chunks : List (List UInt8)) : Prop :=
  ∃ before, before <+: chunks ∧ maxHeaderSize < before.flatten.length ∧
    before.flatten.length < head.length

namespace FrameBuffer

variable {block line body : List UInt8}

/-! ## One chunk -/

/-- While a block has no end, all that is held is measured. -/
theorem next_of_partial (hclosed : ClosedBy block line) {held : List UInt8}
    (hheld : held <+: block ++ line) (hlength : held.length < (block ++ line).length) :
    next ⟨held, .head⟩ =
      if maxHeaderSize < held.length then (some (.error .headerTooLarge), ⟨[], .resync⟩)
      else (none, ⟨held, .head⟩) := by
  simp only [next, takeHead, hclosed.splits_not hheld hlength]

/-- A block that has its end is measured by itself. -/
theorem next_of_whole (hclosed : ClosedBy block line)
    (hdeclared : declaredLength block = .ok body.length) (hsize : body.length ≤ maxMessageSize)
    (got : List UInt8) :
    next ⟨block ++ line ++ got, .head⟩ = next ⟨got, .body body.length⟩ := by
  simp only [next, takeHead, hclosed.splits got, hdeclared, if_neg (Nat.not_lt_of_le hsize)]

/-! ## The body -/

theorem next_of_body (body : List UInt8) :
    next ⟨body, .body body.length⟩ = (some (.ok body), empty) := by
  simp only [next, takeBody, if_neg (Nat.lt_irrefl _), List.take_length, List.drop_length]
  rfl

theorem drain_of_body (body : List UInt8) :
    drain ⟨body, .body body.length⟩ = ([.ok body], empty) := by
  have hempty : empty.next = (none, empty) := rfl
  rw [drain_of_some (next_of_body body), drain_of_none hempty]

theorem tame_of_body (body : List UInt8) : Tame ⟨body, .body body.length⟩ := by
  refine tame_of_some (next_of_body body) (fun held hheld => nomatch hheld) ?_
  refine tame_of_none (b := empty) rfl fun held hheld => ?_
  cases hheld
  decide

/-- Behind its header block the body may be cut anywhere. -/
theorem intake_of_body {got : List UInt8} {rest : List (List UInt8)}
    (h : got ++ rest.flatten = body) :
    ((drain ⟨got, .body body.length⟩).1 ++
        ((drain ⟨got, .body body.length⟩).2.intake rest).1,
      ((drain ⟨got, .body body.length⟩).2.intake rest).2) = ([.ok body], empty) := by
  have hwhole : extend ⟨got, .body body.length⟩ rest.flatten = ⟨body, .body body.length⟩ := by
    rw [extend, h]
  obtain ⟨htame, hdrain⟩ := drain_extend (b := ⟨got, .body body.length⟩) (hwhole ▸ tame_of_body body)
  rw [hwhole, drain_of_body] at hdrain
  rw [intake_eq (next_drain _) htame]
  exact hdrain.symm

/-! ## The header block -/

/-- Without a late cut the body is handed out, and nothing else. -/
theorem intake_of_timely (hclosed : ClosedBy block line)
    (hdeclared : declaredLength block = .ok body.length) (hsize : body.length ≤ maxMessageSize)
    {chunks : List (List UInt8)} : ∀ {held : List UInt8},
    held.length < (block ++ line).length → held ++ chunks.flatten = block ++ line ++ body →
    (∀ before, before <+: chunks → (held ++ before.flatten).length ≤ maxHeaderSize ∨
      (block ++ line).length ≤ (held ++ before.flatten).length) →
    intake ⟨held, .head⟩ chunks = ([.ok body], empty) := by
  induction chunks with
  | nil =>
      intro held hshort heq _
      rw [List.flatten_nil, List.append_nil] at heq
      have hlength := (List.prefix_append (block ++ line) body).length_le
      rw [← heq] at hlength
      exact absurd hshort (Nat.not_lt_of_le hlength)
  | cons chunk rest ih =>
      intro held _ heq htimely
      rw [List.flatten_cons, ← List.append_assoc] at heq
      rw [intake]
      by_cases hpartial : (held ++ chunk).length < (block ++ line).length
      · have hprefix : held ++ chunk <+: block ++ line :=
          List.prefix_of_prefix_length_le ⟨_, heq⟩ (List.prefix_append _ _) (Nat.le_of_lt hpartial)
        have hnow := htimely [chunk] (List.prefix_append [chunk] rest)
        rw [List.flatten_singleton] at hnow
        have hnext := next_of_partial hclosed hprefix hpartial
        rw [if_neg (by omega)] at hnext
        rw [show extend ⟨held, .head⟩ chunk = ⟨held ++ chunk, .head⟩ from rfl, drain_of_none hnext]
        refine ih hpartial heq fun before hbefore => ?_
        have hlater := htimely (chunk :: before) (List.cons_prefix_cons.2 ⟨rfl, hbefore⟩)
        rwa [List.flatten_cons, ← List.append_assoc] at hlater
      · obtain ⟨got, hgot⟩ : block ++ line <+: held ++ chunk :=
          List.prefix_of_prefix_length_le ⟨_, heq.symm⟩ (List.prefix_append _ _)
            (Nat.le_of_not_lt hpartial)
        rw [← hgot, List.append_assoc, List.append_cancel_left_eq] at heq
        rw [show extend ⟨held, .head⟩ chunk = ⟨block ++ line ++ got, .head⟩ by rw [hgot]; rfl,
          drain_of_next_eq (next_of_whole hclosed hdeclared hsize got)]
        exact intake_of_body heq

/-- At the first late cut the block is given up. -/
theorem intake_of_late (hclosed : ClosedBy block line) {before : List (List UInt8)}
    (after : List (List UInt8)) : ∀ {held : List UInt8}, held.length ≤ maxHeaderSize →
    held ++ before.flatten <+: block ++ line → maxHeaderSize < (held ++ before.flatten).length →
    (held ++ before.flatten).length < (block ++ line).length →
    ∃ early later, before = early ++ later ∧
      maxHeaderSize < (held ++ early.flatten).length ∧
      intake ⟨held, .head⟩ (before ++ after) =
        (.error .headerTooLarge :: (intake ⟨[], .resync⟩ (later ++ after)).1,
          (intake ⟨[], .resync⟩ (later ++ after)).2) := by
  induction before with
  | nil =>
      intro held hheld _ hlate _
      rw [List.flatten_nil, List.append_nil] at hlate
      exact absurd hheld (Nat.not_le_of_lt hlate)
  | cons chunk rest ih =>
      intro held _ hprefix hlate hinside
      rw [List.flatten_cons, ← List.append_assoc] at hprefix hlate hinside
      have hnow : held ++ chunk <+: block ++ line := (List.prefix_append _ _).trans hprefix
      have hpartial : (held ++ chunk).length < (block ++ line).length :=
        Nat.lt_of_le_of_lt (List.prefix_append _ _).length_le hinside
      have hnext := next_of_partial hclosed hnow hpartial
      rw [List.cons_append, intake,
        show extend ⟨held, .head⟩ chunk = ⟨held ++ chunk, .head⟩ from rfl]
      by_cases hfull : maxHeaderSize < (held ++ chunk).length
      · rw [if_pos hfull] at hnext
        refine ⟨[chunk], rest, rfl, by rwa [List.flatten_singleton], ?_⟩
        rw [drain_of_some hnext, drain_of_none (b := ⟨[], .resync⟩) rfl]
        rfl
      · rw [if_neg hfull] at hnext
        obtain ⟨early, later, rfl, hearly, hintake⟩ :=
          ih (Nat.le_of_not_lt hfull) hprefix hlate hinside
        refine ⟨chunk :: early, later, rfl, ?_, ?_⟩
        · rwa [List.flatten_cons, ← List.append_assoc]
        · rw [drain_of_none hnext]
          exact hintake

/-- What a buffer makes of one header block and its body, when everything that has
arrived is taken out after each chunk. -/
theorem intake_of_block (hclosed : ClosedBy block line)
    (hdeclared : declaredLength block = .ok body.length) (hsize : body.length ≤ maxMessageSize)
    {chunks : List (List UInt8)} (hchunks : chunks.flatten = block ++ line ++ body) :
    (¬ CutsLate (block ++ line) chunks → empty.intake chunks = ([.ok body], empty)) ∧
      (CutsLate (block ++ line) chunks → ∃ before after, chunks = before ++ after ∧
        maxHeaderSize < before.flatten.length ∧
        before.flatten.length < (block ++ line).length ∧
        empty.intake chunks =
          (.error .headerTooLarge :: (intake ⟨[], .resync⟩ after).1,
            (intake ⟨[], .resync⟩ after).2)) := by
  have hpos : ([] : List UInt8).length < (block ++ line).length := by
    have hline : line ≠ [] := by
      rintro rfl
      exact absurd hclosed.isEmpty (by decide)
    rw [List.length_append]
    exact Nat.lt_add_left _ (List.length_pos_iff.2 hline)
  constructor
  · intro htimely
    refine intake_of_timely hclosed hdeclared hsize hpos hchunks fun before hbefore => ?_
    refine Classical.byContradiction fun hlate => ?_
    rw [not_or, Nat.not_le, Nat.not_le] at hlate
    exact htimely ⟨before, hbefore, hlate⟩
  · rintro ⟨before, ⟨after, rfl⟩, hlate, hinside⟩
    rw [List.flatten_append] at hchunks
    have hprefix : before.flatten <+: block ++ line :=
      List.prefix_of_prefix_length_le ⟨_, hchunks⟩ (List.prefix_append _ _) (Nat.le_of_lt hinside)
    rw [← List.nil_append before.flatten] at hprefix hlate hinside
    obtain ⟨early, later, rfl, hearly, hintake⟩ :=
      intake_of_late hclosed after (Nat.zero_le _) hprefix hlate hinside
    rw [List.nil_append] at hinside
    refine ⟨early, later ++ after, List.append_assoc _ _ _, hearly, ?_, hintake⟩
    rw [List.flatten_append, List.length_append] at hinside
    exact Nat.lt_of_le_of_lt (Nat.le_add_right _ _) hinside

end FrameBuffer

/-! ## At the limit

A block of one line can be made as long as one likes with blanks in front of its
number. -/

/-- A line that declares a length behind some blanks. -/
def paddedLine (blanks n : Nat) : List UInt8 :=
  Utf8.octets "Content-Length:" ++
    Utf8.octets (String.ofList (List.replicate blanks ' ' ++ Numeral.digits n))

theorem padding_ascii {blanks n : Nat} {c : Char}
    (h : c ∈ List.replicate blanks ' ' ++ Numeral.digits n) : c.toNat < 128 := by
  rcases List.mem_append.1 h with hblank | hdigit
  · rw [List.eq_of_mem_replicate hblank]
    decide
  · exact Numeral.digits_ascii hdigit

theorem length_paddedLine (blanks n : Nat) :
    (paddedLine blanks n).length = 15 + blanks + (Numeral.digits n).length := by
  rw [paddedLine, List.length_append, Utf8.length_octets_ascii fun c => padding_ascii,
    List.length_append, List.length_replicate, ← Nat.add_assoc]
  rfl

theorem not_mem_paddedLine (blanks n : Nat) : 10 ∉ paddedLine blanks n := by
  intro h
  rcases List.mem_append.1 h with hname | hvalue
  · exact absurd hname (by decide)
  · obtain ⟨c, hc, hoctet⟩ := Utf8.mem_octets_ascii (fun c => padding_ascii) hvalue
    rcases List.mem_append.1 hc with hblank | hdigit
    · rw [List.eq_of_mem_replicate hblank] at hoctet
      exact absurd hoctet (by decide)
    · have hnat := (toNat_of_isDigit (Numeral.isDigit_of_mem_digits hdigit)).1
      rw [← hoctet] at hnat
      exact absurd hnat (by decide)

theorem trim_padding (blanks n : Nat) :
    Text.trim (List.replicate blanks ' ' ++ Numeral.digits n) = Numeral.digits n := by
  induction blanks with
  | zero => exact Numeral.trim_digits n
  | succ blanks ih => exact ih

theorem declaredLength_paddedLine {blanks n : Nat} (hn : n < Numeral.unsignedBound)
    (hlength : (paddedLine blanks n).length ≤ maxHeaderSize) :
    declaredLength (paddedLine blanks n) = .ok n := by
  have hfield : field? (paddedLine blanks n) =
      some ([67, 111, 110, 116, 101, 110, 116, 45, 76, 101, 110, 103, 116, 104],
        Utf8.octets (String.ofList (List.replicate blanks ' ' ++ Numeral.digits n))) := rfl
  rw [declaredLength, if_neg (Nat.not_lt_of_le hlength),
    List.splitOn_eq_singleton (not_mem_paddedLine blanks n), contentLength, hfield]
  simp only [isContentLength_name, if_true, octetCount,
    Utf8.lossy_octets_ascii fun _ => padding_ascii, trim_padding, Numeral.unsigned?_digits hn]

/-- A block of the greatest length, in front of a body of two octets. -/
def longestBlock : List UInt8 := paddedLine 8176 2

/-- That body. -/
def pairBody : List UInt8 := Utf8.octets "[]"

theorem length_longestBlock : longestBlock.length = maxHeaderSize :=
  length_paddedLine 8176 2

theorem closedBy_longestBlock : ClosedBy longestBlock blockEnd :=
  closedBy_of_noBreak (not_mem_paddedLine 8176 2)

theorem declaredLength_longestBlock : declaredLength longestBlock = .ok pairBody.length :=
  declaredLength_paddedLine (by decide) (Nat.le_of_eq length_longestBlock)

namespace FrameBuffer

/-- The longest block, cut inside of it and right behind it. -/
theorem intake_of_longestBlock :
    empty.intake [longestBlock.take 9, longestBlock.drop 9, blockEnd ++ pairBody] =
      ([.ok pairBody], empty) := by
  have hchunks : [longestBlock.take 9, longestBlock.drop 9, blockEnd ++ pairBody].flatten =
      longestBlock ++ blockEnd ++ pairBody := by
    rw [List.flatten_cons, List.flatten_cons, List.flatten_singleton, ← List.append_assoc,
      List.take_append_drop, List.append_assoc]
  refine (intake_of_block closedBy_longestBlock declaredLength_longestBlock (by decide)
    hchunks).1 ?_
  rintro ⟨before, hbefore, hlate, hinside⟩
  have hlength := length_longestBlock
  simp only [List.prefix_cons_iff, List.prefix_nil] at hbefore
  -- three chunks end in front of the empty line or with it, and none inside of it
  rcases hbefore with rfl | ⟨_, rfl, rfl | ⟨_, rfl, rfl | ⟨_, rfl, rfl⟩⟩⟩
  all_goals
    simp only [List.flatten_cons, List.flatten_nil, List.append_nil, List.length_append,
      List.length_take, List.length_drop, List.length_nil] at hlate hinside
    omega

/-- Not every cut of a block that is short enough leaves its body alone: behind the
first octet of the empty line the longest block is given up. -/
theorem not_intake_of_cut : ¬ ∀ (block line body : List UInt8) (chunks : List (List UInt8)),
    ClosedBy block line → block.length ≤ maxHeaderSize →
    declaredLength block = .ok body.length → body.length ≤ maxMessageSize →
    chunks.flatten = block ++ line ++ body → (empty.intake chunks).1 = [.ok body] := by
  intro hall
  have hchunks : ([longestBlock ++ [13]] ++ [[10, 13, 10] ++ pairBody]).flatten =
      longestBlock ++ blockEnd ++ pairBody := by
    rw [List.flatten_append, List.flatten_singleton, List.flatten_singleton, List.append_assoc,
      List.append_assoc]
    rfl
  have hclaimed := hall _ _ _ _ closedBy_longestBlock (Nat.le_of_eq length_longestBlock)
    declaredLength_longestBlock (by decide) hchunks
  have hcut : ([] ++ [longestBlock ++ [13]].flatten) <+: longestBlock ++ blockEnd :=
    ⟨[10, 13, 10], by simp [blockEnd, lineBreak]⟩
  obtain ⟨early, later, -, -, hintake⟩ :=
    intake_of_late closedBy_longestBlock [[10, 13, 10] ++ pairBody] (Nat.zero_le _) hcut
      (by simp [length_longestBlock]) (by simp [blockEnd, lineBreak])
  rw [empty, hintake] at hclaimed
  cases (List.cons.inj hclaimed).1

end FrameBuffer

end LspClient.Wire
