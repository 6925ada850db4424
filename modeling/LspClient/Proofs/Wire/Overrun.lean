import LspClient.Proofs.Wire.HeaderLimit

/-!
# Octets that never become a header block

A peer may send more octets than a header block may have without ever ending a
line. The buffer reports this once, and looks for the next field name. The
frames that come behind such octets are found again if the chunk that makes them
too many brings nothing else (`Overreaches`): what is left of the garbage is
searched, and the name of the first frame is found where it begins.

A chunk that reaches into the first frame costs this frame. If it brings only a
part of the header block, all that is held is thrown away unseen, the beginning
of a field name included. If it brings the whole block, garbage and block are
taken for one block, and that one is too long. Either way the search begins
behind the first octet of the frame, and there the next name is the one of the
second frame, unless the body itself holds one (`searches_of_overreach`).

How the buffer gets there needs no argument: as long as the garbage is short
enough, no call does anything (`intake_of_short`).
-/

namespace LspClient.Wire

/-- Octets that do not hold the field name, in any letter case. -/
def Nameless (bytes : List UInt8) : Prop :=
  ∀ name, name <:+: bytes → name.map lowerOctet ≠ fieldOctets

/-- More octets than a header block may have, with neither an end of a line nor
the field name among them. -/
structure Endless (garbage : List UInt8) : Prop where
  long : maxHeaderSize < garbage.length
  noBreak : 10 ∉ garbage
  nameless : Nameless garbage

/-- The chunk with which more octets have arrived than a header block may have
also brings some from behind the garbage. -/
def Overreaches (garbage : List UInt8) (chunks : List (List UInt8)) : Prop :=
  ∃ early chunk later, chunks = early ++ chunk :: later ∧
    early.flatten.length ≤ maxHeaderSize ∧ garbage.length < (early.flatten ++ chunk).length

theorem exists_crossing {n : Nat} {chunks : List (List UInt8)} (h : n < chunks.flatten.length) :
    ∃ early chunk later, chunks = early ++ chunk :: later ∧
      early.flatten.length ≤ n ∧ n < (early.flatten ++ chunk).length := by
  induction chunks generalizing n with
  | nil => cases h
  | cons chunk rest ih =>
      by_cases hnow : n < chunk.length
      · exact ⟨[], chunk, rest, rfl, Nat.zero_le n, hnow⟩
      · rw [List.flatten_cons, List.length_append] at h
        obtain ⟨early, next, later, rfl, hearly, hnext⟩ := ih (n := n - chunk.length) (by omega)
        rw [List.length_append] at hnext
        refine ⟨chunk :: early, next, later, rfl, ?_, ?_⟩ <;>
          simp only [List.flatten_cons, List.length_append] <;> omega

theorem Endless.prefix_of_short {garbage stream held ahead : List UInt8}
    (h : Endless garbage) (heq : held ++ ahead = garbage ++ stream)
    (hshort : held.length ≤ maxHeaderSize) : held <+: garbage :=
  List.prefix_of_prefix_length_le ⟨_, heq⟩ (List.prefix_append _ _)
    (Nat.le_of_lt (Nat.lt_of_le_of_lt hshort h.long))

/-- A read that ends with the garbage cuts it off. -/
theorem not_overreaches_of_flatten {garbage : List UInt8} (h : Endless garbage)
    {within : List (List UInt8)} (hwithin : within.flatten = garbage)
    (behind : List (List UInt8)) : ¬ Overreaches garbage (within ++ behind) := by
  rintro ⟨early, chunk, later, heq, hearly, hbeyond⟩
  have hlong := h.long
  subst hwithin
  rcases List.append_eq_append_iff.1 heq with ⟨more, rfl, -⟩ | ⟨more, rfl, hmore⟩
  · rw [List.flatten_append, List.length_append] at hearly
    omega
  · cases more with
    | nil =>
        rw [List.append_nil] at hlong
        omega
    | cons first more =>
        obtain ⟨rfl, -⟩ := List.cons.inj hmore
        rw [List.flatten_append, List.flatten_cons] at hbeyond
        simp only [List.length_append] at hbeyond
        omega

/-! ## What is left of a frame -/

/-- The field name begins with a letter. In front of the first octet that may be
this letter it is not found. -/
theorem seekField_skip {front : List UInt8} (hfront : ∀ b ∈ front, lowerOctet b ≠ 99)
    (bytes : List UInt8) :
    FrameBuffer.seekField (front ++ bytes) = FrameBuffer.seekField bytes := by
  induction front with
  | nil => rfl
  | cons b front ih =>
      rw [List.forall_mem_cons] at hfront
      have hstarts : FrameBuffer.startsField (b :: (front ++ bytes)) = false := by
        refine beq_eq_false_iff_ne.2 fun h => hfront.1 ?_
        exact (List.cons.inj h).1
      rw [List.cons_append, FrameBuffer.seekField, hstarts]
      exact ih hfront.2

/-- Behind its first octet a header block does not hold the letter that the field
name begins with. -/
theorem lowerOctet_ne_of_header {n : Nat} {b : UInt8} (h : b ∈ (header n).drop 1) :
    lowerOctet b ≠ 99 := by
  rw [header, List.append_assoc, List.append_assoc,
    List.drop_append_of_le_length (by decide), List.mem_append, List.mem_append] at h
  have hfixed : (lengthField.drop 1 ++ (lineBreak ++ lineBreak)).all (lowerOctet · != 99) = true :=
    by decide
  rw [List.all_append, Bool.and_eq_true] at hfixed
  rcases h with hname | hdigit | hbreak
  · exact bne_iff_ne.1 (List.all_eq_true.1 hfixed.1 b hname)
  · obtain ⟨c, hc, hoctet⟩ := Utf8.mem_octets_ascii (fun c => Numeral.digits_ascii) hdigit
    have hnat := (toNat_of_isDigit (Numeral.isDigit_of_mem_digits hc))
    rw [← hoctet] at hnat
    have hsmall : ¬ (65 ≤ b ∧ b ≤ 90) := by
      rw [UInt8.le_iff_toNat_le, UInt8.le_iff_toNat_le]
      have h65 : (65 : UInt8).toNat = 65 := rfl
      omega
    rw [lowerOctet, if_neg hsmall]
    rintro rfl
    exact absurd hnat.2 (by decide)
  · exact bne_iff_ne.1 (List.all_eq_true.1 hfixed.2 b hbreak)

theorem nameless_of_frame {body : List UInt8} (hbody : Nameless body) {n : Nat} (hn : 0 < n) :
    Nameless ((header body.length).drop n ++ body) := by
  refine FrameBuffer.seekField_eq_none.1 ?_
  rw [seekField_skip fun b hb => lowerOctet_ne_of_header (n := body.length) ?_]
  · exact FrameBuffer.seekField_eq_none.2 hbody
  · obtain ⟨m, rfl⟩ := Nat.exists_eq_add_of_le hn
    rw [← List.drop_drop] at hb
    exact List.mem_of_mem_drop hb

namespace FrameBuffer

/-! ## Garbage that is short enough -/

theorem next_of_noBreak {garbage : List UInt8} (hnoBreak : 10 ∉ garbage) {held : List UInt8}
    (hheld : held <+: garbage) :
    next ⟨held, .head⟩ =
      if maxHeaderSize < held.length then (some (.error .headerTooLarge), ⟨[], .resync⟩)
      else (none, ⟨held, .head⟩) := by
  refine next_of_partial (closedBy_of_noBreak hnoBreak)
    (hheld.trans (List.prefix_append _ _)) ?_
  rw [List.length_append]
  exact Nat.lt_of_le_of_lt hheld.length_le (Nat.lt_add_of_pos_right (by decide))

/-- As long as no more octets have arrived than a header block may have, they are
only held. -/
theorem intake_of_short {garbage : List UInt8} (hnoBreak : 10 ∉ garbage)
    {early : List (List UInt8)} (later : List (List UInt8)) : ∀ held : List UInt8,
    held ++ early.flatten <+: garbage → (held ++ early.flatten).length ≤ maxHeaderSize →
    intake ⟨held, .head⟩ (early ++ later) = intake ⟨held ++ early.flatten, .head⟩ later := by
  induction early with
  | nil =>
      intro held _ _
      rw [List.flatten_nil, List.append_nil, List.nil_append]
  | cons chunk early ih =>
      intro held hbegins hshort
      rw [List.flatten_cons, ← List.append_assoc] at hbegins hshort ⊢
      have hnext := next_of_noBreak hnoBreak ((List.prefix_append _ _).trans hbegins)
      rw [if_neg (by rw [List.length_append] at hshort; omega)] at hnext
      rw [List.cons_append, intake,
        show extend ⟨held, .head⟩ chunk = ⟨held ++ chunk, .head⟩ from rfl, drain_of_none hnext]
      exact ih _ hbegins hshort

/-! ## The chunk that is too much -/

/-- A call gives up what is held, and from there on the first field name is found
in front of the frames of some bodies. -/
def Searches (held ahead : List UInt8) (found : List (List UInt8)) : Prop :=
  ∃ got lost, next ⟨held, .head⟩ = (some (.error .headerTooLarge), ⟨got, .resync⟩) ∧
    Nameless lost ∧ got ++ ahead = lost ++ frames found

theorem Searches.intake {held chunk : List UInt8} {later found : List (List UInt8)}
    (h : Searches (held ++ chunk) later.flatten found)
    (hsize : ∀ body ∈ found, body.length ≤ maxMessageSize) :
    (FrameBuffer.intake ⟨held, .head⟩ (chunk :: later)).1 =
      .error .headerTooLarge :: found.map .ok := by
  obtain ⟨got, lost, hnext, hlost, heq⟩ := h
  obtain ⟨htame, hdrain⟩ := drain_of_garbage hlost hsize
  rw [← heq] at htame hdrain
  -- what was kept of the chunk is searched like a chunk of its own
  have hrest : (FrameBuffer.intake ⟨[], .resync⟩ (got :: later)).1 = found.map .ok := by
    have hsettled : next ⟨[], .resync⟩ = (none, ⟨[], .resync⟩) := rfl
    have hopened : (got :: later).flatten = got ++ later.flatten := List.flatten_cons
    rw [intake_eq hsettled (hopened ▸ htame), hopened]
    exact hdrain
  rw [FrameBuffer.intake, show extend ⟨held, .head⟩ chunk = ⟨held ++ chunk, .head⟩ from rfl,
    drain_of_some hnext, ← hrest]
  rfl

theorem searches_of_reach {garbage held ahead : List UInt8} {bodies : List (List UInt8)}
    (hendless : Endless garbage) (heq : held ++ ahead = garbage ++ frames bodies)
    (hlong : maxHeaderSize < held.length) (hinside : held.length ≤ garbage.length) :
    Searches held ahead bodies := by
  obtain ⟨rest, rfl⟩ : held <+: garbage :=
    List.prefix_of_prefix_length_le ⟨_, heq⟩ (List.prefix_append _ _) hinside
  have hnext := next_of_noBreak hendless.noBreak (List.prefix_append held rest)
  rw [if_pos hlong] at hnext
  rw [List.append_assoc, List.append_cancel_left_eq] at heq
  exact ⟨[], rest, hnext, fun name hname => hendless.nameless name (hname.trans
    (List.suffix_append held rest).isInfix), heq⟩

section

variable {garbage held ahead body : List UInt8} {rest : List (List UInt8)}

theorem closedBy_garbage (hendless : Endless garbage) (n : Nat) :
    ClosedBy (garbage ++ lengthLine n) blockEnd := by
  refine closedBy_of_noBreak ?_
  rw [List.mem_append, not_or]
  exact ⟨hendless.noBreak, not_mem_lengthLine n⟩

/-- The beginning of a frame is given up together with the garbage. -/
theorem searches_of_begun (hendless : Endless garbage) (hbody : Nameless body)
    (heq : held ++ ahead = garbage ++ header body.length ++ (body ++ frames rest))
    (hbeyond : garbage.length < held.length)
    (hpartial : held.length < (garbage ++ header body.length).length) :
    Searches held ahead rest := by
  obtain ⟨left, hleft⟩ : held <+: garbage ++ header body.length :=
    List.prefix_of_prefix_length_le ⟨_, heq⟩ (List.prefix_append _ _) (Nat.le_of_lt hpartial)
  obtain ⟨begun, rfl⟩ : garbage <+: held :=
    List.prefix_of_prefix_length_le (List.prefix_append _ _) ⟨_, hleft⟩ (Nat.le_of_lt hbeyond)
  have hclosed := closedBy_garbage hendless body.length
  have hblock : garbage ++ lengthLine body.length ++ blockEnd = garbage ++ header body.length := by
    rw [header_eq, List.append_assoc]
  have hnext := next_of_partial hclosed (hblock ▸ ⟨left, hleft⟩) (hblock ▸ hpartial)
  rw [if_pos (Nat.lt_trans hendless.long hbeyond)] at hnext
  -- at least one octet of the frame is gone
  rw [List.append_assoc, List.append_cancel_left_eq] at hleft
  have hdropped : (header body.length).drop begun.length = left := by
    rw [← hleft, List.drop_left]
  have hbegun : 0 < begun.length := by
    rw [List.length_append] at hbeyond
    omega
  have hnameless := nameless_of_frame hbody hbegun
  rw [hdropped] at hnameless
  refine ⟨[], left ++ body, hnext, hnameless, ?_⟩
  rw [← hleft] at heq
  simpa [List.append_assoc] using heq

/-- A whole header block is measured together with the garbage. -/
theorem searches_of_oversized (hendless : Endless garbage) (hbody : Nameless body)
    (heq : held ++ ahead = garbage ++ header body.length ++ (body ++ frames rest))
    (hwhole : (garbage ++ header body.length).length ≤ held.length) :
    Searches held ahead rest := by
  obtain ⟨got, rfl⟩ : garbage ++ header body.length <+: held :=
    List.prefix_of_prefix_length_le ⟨_, heq.symm⟩ (List.prefix_append _ _) hwhole
  rw [List.append_assoc, List.append_cancel_left_eq] at heq
  have hsplit := (closedBy_garbage hendless body.length).splits got
  rw [List.append_assoc garbage, ← header_eq] at hsplit
  have hdeclared : declaredLength (garbage ++ lengthLine body.length) =
      .error .headerTooLarge := by
    rw [declaredLength, if_pos]
    rw [List.length_append]
    exact Nat.lt_add_right _ hendless.long
  exact ⟨got, body, by simp only [next, takeHead, hsplit, hdeclared], hbody, heq⟩

theorem searches_of_overreach (hendless : Endless garbage) (hbody : Nameless body)
    (heq : held ++ ahead = garbage ++ frames (body :: rest))
    (hbeyond : garbage.length < held.length) : Searches held ahead rest := by
  rw [frames_cons, ← List.append_assoc] at heq
  by_cases hpartial : held.length < (garbage ++ header body.length).length
  · exact searches_of_begun hendless hbody heq hbeyond hpartial
  · exact searches_of_oversized hendless hbody heq (Nat.le_of_not_lt hpartial)

end

/-! ## All chunks -/

theorem intake_of_crossing {garbage : List UInt8} {found : List (List UInt8)}
    (hendless : Endless garbage) {early later : List (List UInt8)} {chunk : List UInt8}
    (hbegins : early.flatten <+: garbage) (hearly : early.flatten.length ≤ maxHeaderSize)
    (hsearches : Searches (early.flatten ++ chunk) later.flatten found)
    (hsize : ∀ body ∈ found, body.length ≤ maxMessageSize) :
    (empty.intake (early ++ chunk :: later)).1 = .error .headerTooLarge :: found.map .ok := by
  have hshort := intake_of_short hendless.noBreak (chunk :: later) [] hbegins hearly
  rw [empty, hshort]
  exact hsearches.intake hsize

/-- What a buffer makes of garbage and the frames behind it, when everything that
has arrived is taken out after each chunk. -/
theorem resumed_of_endless {garbage : List UInt8} (hendless : Endless garbage)
    {bodies : List (List UInt8)} (hsize : ∀ body ∈ bodies, body.length ≤ maxMessageSize)
    {chunks : List (List UInt8)} (hchunks : chunks.flatten = garbage ++ frames bodies) :
    (¬ Overreaches garbage chunks →
      (empty.intake chunks).1 = .error .headerTooLarge :: bodies.map .ok) ∧
    (Overreaches garbage chunks → ∃ body rest, bodies = body :: rest ∧
      (Nameless body → (empty.intake chunks).1 = .error .headerTooLarge :: rest.map .ok)) := by
  constructor
  · intro hreach
    have hlong : maxHeaderSize < chunks.flatten.length := by
      rw [hchunks, List.length_append]
      exact Nat.lt_add_right _ hendless.long
    obtain ⟨early, chunk, later, rfl, hearly, hcrossing⟩ := exists_crossing hlong
    have hinside : (early.flatten ++ chunk).length ≤ garbage.length :=
      Nat.le_of_not_lt fun hbeyond => hreach ⟨early, chunk, later, rfl, hearly, hbeyond⟩
    rw [List.flatten_append, List.flatten_cons] at hchunks
    have hbegins := hendless.prefix_of_short hchunks hearly
    rw [← List.append_assoc] at hchunks
    exact intake_of_crossing hendless hbegins hearly
      (searches_of_reach hendless hchunks hcrossing hinside) hsize
  · rintro ⟨early, chunk, later, rfl, hearly, hbeyond⟩
    rw [List.flatten_append, List.flatten_cons] at hchunks
    have hbegins := hendless.prefix_of_short hchunks hearly
    rw [← List.append_assoc] at hchunks
    cases bodies with
    | nil =>
        have hlength := congrArg List.length hchunks
        rw [frames, List.flatMap_nil, List.append_nil, List.length_append] at hlength
        omega
    | cons body rest =>
        refine ⟨body, rest, rfl, fun hbody => ?_⟩
        exact intake_of_crossing hendless hbegins hearly
          (searches_of_overreach hendless hbody hchunks hbeyond)
          fun later hlater => hsize later (List.mem_cons_of_mem body hlater)

end FrameBuffer

/-! ## One octet too many -/

/-- The letter `a`, once more often than a header block may be long. -/
def letters : List UInt8 := List.replicate (maxHeaderSize + 1) 97

theorem endless_letters : Endless letters where
  long := by
    rw [letters, List.length_replicate]
    exact Nat.lt_succ_self _
  noBreak := fun h => absurd (List.eq_of_mem_replicate h) (by decide)
  nameless := by
    refine FrameBuffer.seekField_eq_none.1 ?_
    rw [← List.append_nil letters, seekField_skip fun b hb => ?_]
    · rfl
    · rw [List.eq_of_mem_replicate hb]
      decide

namespace FrameBuffer

/-- Cut inside the garbage, behind it, and inside the name of the first frame. -/
theorem resumed_of_cutName :
    (empty.intake [letters.take 8192, letters.drop 8192, Utf8.octets "Conten",
        Utf8.octets "t-Length: 2\r\n\r\n[]"]).1 =
      [.error .headerTooLarge, .ok pairBody] := by
  have hchunks : [letters.take 8192, letters.drop 8192, Utf8.octets "Conten",
      Utf8.octets "t-Length: 2\r\n\r\n[]"].flatten = letters ++ frames [pairBody] := by
    rw [List.flatten_cons, List.flatten_cons, ← List.append_assoc, List.take_append_drop]
    exact congrArg (letters ++ ·) (by decide +kernel)
  refine (resumed_of_endless endless_letters (by decide) hchunks).1 ?_
  have hcut : [letters.take 8192, letters.drop 8192].flatten = letters := by
    rw [List.flatten_cons, List.flatten_cons, List.flatten_nil, List.append_nil,
      List.take_append_drop]
  exact not_overreaches_of_flatten endless_letters hcut [_, _]

/-- Not every frame behind garbage is found: a chunk that makes the garbage too long
and brings a part of the field name throws that part away. -/
theorem not_resumed_of_overreach :
    ¬ ∀ (garbage : List UInt8) (bodies chunks : List (List UInt8)), Endless garbage →
      (∀ body ∈ bodies, body.length ≤ maxMessageSize) →
      chunks.flatten = garbage ++ frames bodies →
      (empty.intake chunks).1 = .error .headerTooLarge :: bodies.map .ok := by
  intro hall
  let early : List UInt8 := letters ++ Utf8.octets "Content-"
  let later : List (List UInt8) := [Utf8.octets "Length: 2\r\n\r\n[]"]
  have heq : early ++ later.flatten = letters ++ frames [pairBody] := by
    rw [List.append_assoc]
    exact congrArg (letters ++ ·) (by decide +kernel)
  have hclaimed := hall letters [pairBody] (early :: later) endless_letters (by decide) heq
  have hbeyond : letters.length < early.length := by
    rw [List.length_append]
    exact Nat.lt_add_of_pos_right (by decide +kernel)
  have hbody : Nameless pairBody := seekField_eq_none.1 (by decide)
  have hsearches : Searches ([] ++ early) later.flatten [] :=
    searches_of_overreach endless_letters hbody heq hbeyond
  rw [empty, hsearches.intake (List.forall_mem_nil _)] at hclaimed
  cases (List.cons.inj hclaimed).2

end FrameBuffer

end LspClient.Wire
