import LspClient.Proofs.Text.Trim
import LspClient.Proofs.Text.Utf8
import LspClient.Proofs.Wire.HeaderLimit

/-!
# The length among other lines

A header block is made of lines, with line breaks of either kind between them, and one line says how
long the body is. What the other lines are does not matter, not even whether they are text: the
block ends at the first empty line, it is split where its lines were joined, and the first line of
the right name decides (`length_of_lines`).

Names and values are described by the octets that they may consist of: blanks of Unicode, and
between them letters or digits (`Shows`). Octets that are no UTF-8 are read as replacement
characters, and these are neither blank nor do they occur in a name or a number, so reading
leniently finds no names and no numbers that are not there (`trim_lossy`).

A carriage return in front of a line feed is not removed with the line break. It stays at the end of
the line, where it can only be the end of a value, and there it is trimmed away.
-/

namespace LspClient.Wire

open Text (Blanks)

/-! ## The lines of a block -/

/-- The two line breaks. -/
def lineBreaks : List (List UInt8) := [[13, 10], [10]]

/-- A line that is not empty and holds no part of a line break. -/
structure IsLine (line : List UInt8) : Prop where
  nonempty : line ≠ []
  plain : ∀ b ∈ line, b ≠ 10 ∧ b ≠ 13

/-- Lines with line breaks between them. -/
inductive Joined : List (List UInt8) → List UInt8 → Prop
  | nil : Joined [] []
  | last {line : List UInt8} : Joined [line] line
  | cons {line next separator rest : List UInt8} {lines : List (List UInt8)}
      (hbreak : separator ∈ lineBreaks) (hrest : Joined (next :: lines) rest) :
      Joined (line :: next :: lines) (line ++ (separator ++ rest))

/-- Octets that show a word: the UTF-8 of the word, with blanks around it. -/
def Shows (bs : List UInt8) (word : List Char) : Prop :=
  ∃ before after, Blanks before ∧ Blanks after ∧
    bs = Utf8.octets (String.ofList (before ++ (word ++ after)))

/-- A line named `Content-Length`, in any letter case, and its value: what is behind the first
colon. -/
def Named (line value : List UInt8) : Prop :=
  ∃ name word, line = name ++ 58 :: value ∧ 58 ∉ name ∧ Shows name word ∧
    word.map Char.toLower = fieldName

/-- A value that counts `n` octets: digits, perhaps with a plus sign in front. -/
def Counts (value : List UInt8) (n : Nat) : Prop :=
  ∃ sign digits, (sign = [] ∨ sign = ['+']) ∧ Numeral.isDigits digits = true ∧
    Numeral.value digits = n ∧ Shows value (sign ++ digits)

/-- The value of the first line of that name. -/
def FirstNamed (lines : List (List UInt8)) (value : List UInt8) : Prop :=
  ∃ before line after, lines = before ++ line :: after ∧ Named line value ∧
    ∀ other ∈ before, ∀ value', ¬ Named other value'

/-! ## Where the block ends -/

theorem splitHeader_step {b : UInt8} {rest : List UInt8} (h : emptyLine? (b :: rest) = none)
    (seen : List UInt8) : splitHeader seen (b :: rest) = splitHeader (b :: seen) rest := by
  rw [splitHeader_cons, h]

theorem emptyLine?_eq_none {bytes : List UInt8}
    (h : ∀ after, bytes ≠ 13 :: 10 :: 13 :: 10 :: after ∧ bytes ≠ 10 :: 10 :: after) :
    emptyLine? bytes = none := by
  cases hbytes : emptyLine? bytes with
  | none => rfl
  | some after =>
      rcases emptyLine?_eq_some.1 hbytes with heq | heq
      · exact absurd heq (h after).1
      · exact absurd heq (h after).2

theorem splitHeader_plain {line : List UInt8} (h : ∀ b ∈ line, b ≠ 10 ∧ b ≠ 13)
    (seen rest : List UInt8) :
    splitHeader seen (line ++ rest) = splitHeader (line.reverse ++ seen) rest := by
  induction line generalizing seen with
  | nil => rfl
  | cons b line ih =>
      have hb := h b List.mem_cons_self
      have hnone : emptyLine? (b :: (line ++ rest)) = none :=
        emptyLine?_eq_none fun after =>
          ⟨fun heq => hb.2 (List.cons.inj heq).1, fun heq => hb.1 (List.cons.inj heq).1⟩
      rw [List.cons_append, splitHeader_step hnone, ih fun c hc => h c (List.mem_cons_of_mem b hc),
        List.reverse_cons, List.append_assoc]
      rfl

/-- A line break in front of a line is no empty line. -/
theorem splitHeader_separator {separator : List UInt8} (h : separator ∈ lineBreaks) {c : UInt8}
    (hc : c ≠ 10 ∧ c ≠ 13) (seen rest : List UInt8) :
    splitHeader seen (separator ++ c :: rest) =
      splitHeader (separator.reverse ++ seen) (c :: rest) := by
  have hfeed (seen : List UInt8) :
      splitHeader seen (10 :: c :: rest) = splitHeader (10 :: seen) (c :: rest) := by
    refine splitHeader_step (emptyLine?_eq_none fun after => ⟨?_, ?_⟩) seen
    · simp
    · simp [hc.1]
  simp only [lineBreaks, List.mem_cons, List.not_mem_nil, or_false] at h
  rcases h with rfl | rfl
  · have hreturn : emptyLine? (13 :: 10 :: c :: rest) = none :=
      emptyLine?_eq_none fun after => ⟨by simp [hc.2], by simp⟩
    exact (splitHeader_step hreturn seen).trans (hfeed _)
  · exact hfeed seen

theorem Joined.head {line block : List UInt8} {lines : List (List UInt8)}
    (h : Joined (line :: lines) block) (hline : IsLine line) :
    ∃ c rest, block = c :: rest ∧ c ≠ 10 ∧ c ≠ 13 := by
  obtain ⟨c, others, rfl⟩ := List.exists_cons_of_ne_nil hline.nonempty
  have hc := hline.plain c List.mem_cons_self
  cases h with
  | last => exact ⟨c, others, rfl, hc⟩
  | cons _ _ => exact ⟨c, _, rfl, hc⟩

theorem splitHeader_joined {lines : List (List UInt8)} {block ending : List UInt8}
    (h : Joined lines block) (hlines : ∀ line ∈ lines, IsLine line) (hending : ending ∈ emptyLines)
    (seen rest : List UInt8) :
    splitHeader seen (block ++ (ending ++ rest)) = some (seen.reverse ++ block, rest) := by
  have hend (seen : List UInt8) :
      splitHeader seen (ending ++ rest) = some (seen.reverse, rest) := by
    simp only [emptyLines, List.mem_cons, List.not_mem_nil, or_false] at hending
    rcases hending with rfl | rfl <;> rfl
  induction h generalizing seen with
  | nil => rw [List.nil_append, hend, List.append_nil]
  | last =>
      rw [splitHeader_plain (hlines _ List.mem_cons_self).plain, hend]
      simp
  | cons hbreak hrest ih =>
      obtain ⟨hline, hothers⟩ := List.forall_mem_cons.1 hlines
      obtain ⟨c, others, heq, hc⟩ := hrest.head (hothers _ List.mem_cons_self)
      rw [List.append_assoc, splitHeader_plain hline.plain, List.append_assoc, heq,
        List.cons_append, splitHeader_separator hbreak hc, ← List.cons_append, ← heq, ih hothers]
      simp

/-! ## What the block is split into -/

theorem field?_colon {name : List UInt8} (h : 58 ∉ name) (value : List UInt8) :
    field? (name ++ 58 :: value) = some (name, value) := by
  have hname : ∀ b ∈ name, (b != 58) = true := fun b hb => bne_iff_ne.2 (ne_of_mem_of_not_mem hb h)
  rw [field?, List.dropWhile_append_of_pos hname, List.takeWhile_append_of_pos hname]
  simp

theorem field?_of_not_mem {line : List UInt8} (h : 58 ∉ line) : field? line = none := by
  have hline : line.dropWhile (· != 58) = [] :=
    List.dropWhile_eq_nil_iff.2 fun b hb => bne_iff_ne.2 (ne_of_mem_of_not_mem hb h)
  rw [field?, hline]

/-- A carriage return behind a value changes nothing. -/
theorem octetCount_return (value : List UInt8) : octetCount (value ++ [13]) = octetCount value := by
  have hreturn : Utf8.lossy [13] = ['\r'] := by
    rw [Utf8.lossy_cons_ascii (by decide), Utf8.lossy_nil]
    rfl
  have hblank : Blanks ['\r'] := List.forall_mem_singleton.2 rfl
  rw [octetCount, Utf8.lossy_append_ascii (by decide), hreturn, Text.trim_blanks hblank, octetCount]

theorem contentLength_return (line : List UInt8) (lines : List (List UInt8)) :
    contentLength ((line ++ [13]) :: lines) = contentLength (line :: lines) := by
  by_cases h : 58 ∈ line
  · obtain ⟨name, value, rfl, hname⟩ := List.eq_append_cons_of_mem h
    rw [contentLength, contentLength, List.append_assoc, List.cons_append, field?_colon hname,
      field?_colon hname]
    dsimp only
    rw [octetCount_return]
  · have hreturn : 58 ∉ line ++ [13] := by simp [h]
    rw [contentLength, contentLength, field?_of_not_mem h, field?_of_not_mem hreturn]

/-- The lines that a block is split into are those that were joined, up to carriage returns. -/
theorem contentLength_joined {lines : List (List UInt8)} {block : List UInt8}
    (h : Joined lines block) (hlines : ∀ line ∈ lines, IsLine line) :
    contentLength (block.splitOn 10) = contentLength lines := by
  have hfeed {line : List UInt8} (hline : IsLine line) : 10 ∉ line :=
    fun hmem => (hline.plain 10 hmem).1 rfl
  induction h with
  | nil => rfl
  | last => rw [List.splitOn_eq_singleton (hfeed (hlines _ List.mem_cons_self))]
  | @cons line next separator rest lines hbreak hrest ih =>
      obtain ⟨hline, hothers⟩ := List.forall_mem_cons.1 hlines
      have hskip (first : List UInt8) (hfirst : contentLength (first :: rest.splitOn 10) =
          contentLength (line :: rest.splitOn 10)) :
          contentLength (first :: rest.splitOn 10) = contentLength (line :: next :: lines) := by
        rw [hfirst, contentLength, contentLength, ih hothers]
      simp only [lineBreaks, List.mem_cons, List.not_mem_nil, or_false] at hbreak
      rcases hbreak with rfl | rfl
      · have hreturn : 10 ∉ line ++ [13] := by simp [hfeed hline]
        have hsplit : line ++ ([13, 10] ++ rest) = line ++ [13] ++ 10 :: rest := by simp
        rw [hsplit, List.splitOn_append_cons_self_of_not_mem hreturn]
        exact hskip _ (contentLength_return line _)
      · rw [List.singleton_append, List.splitOn_append_cons_self_of_not_mem (hfeed hline)]
        exact hskip _ rfl

/-! ## What octets show -/

/-- What is left of a lenient reading when blanks are trimmed away is what the octets show. -/
theorem trim_lossy {bs : List UInt8} {word : List Char} (hword : ∀ c ∈ word, Text.isBlank c = false)
    (hplain : Utf8.replacement ∉ word) : Text.trim (Utf8.lossy bs) = word ↔ Shows bs word := by
  constructor
  · intro htrim
    obtain ⟨before, after, hbefore, hafter, hlossy⟩ := Text.exists_trim (Utf8.lossy bs)
    rw [htrim] at hlossy
    have hblanks {cs : List Char} (h : Blanks cs) : Utf8.replacement ∉ cs :=
      fun hmem => absurd (h _ hmem) (by decide)
    have hwhole : Utf8.replacement ∉ Utf8.lossy bs := by
      rw [hlossy, List.mem_append, List.mem_append, not_or, not_or]
      exact ⟨hblanks hbefore, hplain, hblanks hafter⟩
    exact ⟨before, after, hbefore, hafter, by rw [← hlossy, Utf8.octets_lossy hwhole]⟩
  · rintro ⟨before, after, hbefore, hafter, rfl⟩
    rw [Utf8.lossy_octets, Text.trim_around hbefore hword hafter]

theorem isBlank_of_toLower {c : Char} (h : c.toLower ∈ fieldName) : Text.isBlank c = false := by
  have hnames : fieldName.all (fun c => !Text.isBlank c) = true := rfl
  cases hblank : Text.isBlank c with
  | false => rfl
  | true =>
      -- no blank has another letter case
      have hlower : c.toLower = c := by
        refine dif_neg fun hupper => ?_
        have hnat : 65 ≤ c.toNat ∧ c.toNat ≤ 90 := hupper
        simp only [Text.isBlank, Bool.or_eq_true, Bool.and_eq_true, decide_eq_true_eq,
          beq_iff_eq] at hblank
        omega
      rw [hlower] at h
      exact absurd hblank (by simpa using List.all_eq_true.1 hnames c h)

/-- A name counts if it shows the field name in some letter case. -/
theorem isContentLength_iff {name : List UInt8} :
    isContentLength name = true ↔ ∃ word, Shows name word ∧ word.map Char.toLower = fieldName := by
  have hshows {word : List Char} (h : word.map Char.toLower = fieldName) :
      Text.trim (Utf8.lossy name) = word ↔ Shows name word := by
    have hmem : ∀ c ∈ word, c.toLower ∈ fieldName := fun c hc => h ▸ List.mem_map_of_mem hc
    exact trim_lossy (fun c hc => isBlank_of_toLower (hmem c hc))
      fun hplain => absurd (hmem _ hplain) (by decide)
  rw [isContentLength, beq_iff_eq]
  constructor
  · exact fun h => ⟨_, (hshows h).1 rfl, h⟩
  · rintro ⟨word, hword, h⟩
    rw [(hshows h).2 hword, h]

/-- Digits, perhaps with a plus sign in front, are read as what they denote. -/
theorem unsigned?_sign {sign digits : List Char} (hsign : sign = [] ∨ sign = ['+'])
    (hdigits : Numeral.isDigits digits = true)
    (hbound : Numeral.value digits < Numeral.unsignedBound) :
    Numeral.unsigned? (sign ++ digits) = some (Numeral.value digits) := by
  have hnatural : (Numeral.natural? digits).filter (· < Numeral.unsignedBound) =
      some (Numeral.value digits) := by
    rw [Numeral.natural?_eq_some.2 ⟨hdigits, rfl⟩, Option.filter_some, decide_eq_true hbound,
      if_pos rfl]
  rcases hsign with rfl | rfl
  · rw [List.nil_append, Numeral.unsigned?]
    · exact hnatural
    · rintro rest rfl
      exact absurd (Numeral.isDigit_of_isDigits hdigits '+' List.mem_cons_self) (by decide)
  · exact hnatural

theorem exists_sign_of_unsigned? {cs : List Char} {n : Nat} (h : Numeral.unsigned? cs = some n) :
    n < Numeral.unsignedBound ∧ ∃ sign digits, (sign = [] ∨ sign = ['+']) ∧
      Numeral.isDigits digits = true ∧ Numeral.value digits = n ∧ cs = sign ++ digits := by
  obtain ⟨hnatural, hbound⟩ := Option.filter_eq_some_iff.1 h
  refine ⟨of_decide_eq_true hbound, ?_⟩
  split at hnatural
  all_goals obtain ⟨hdigits, hvalue⟩ := Numeral.natural?_eq_some.1 hnatural
  · exact ⟨['+'], _, .inr rfl, hdigits, hvalue, rfl⟩
  · exact ⟨[], cs, .inl rfl, hdigits, hvalue, rfl⟩

theorem trim_lossy_sign {bs : List UInt8} {sign digits : List Char}
    (hsign : sign = [] ∨ sign = ['+']) (hdigits : Numeral.isDigits digits = true) :
    Text.trim (Utf8.lossy bs) = sign ++ digits ↔ Shows bs (sign ++ digits) := by
  have hchars : ∀ c ∈ sign ++ digits, c = '+' ∨ c.isDigit = true := by
    intro c hc
    rcases List.mem_append.1 hc with hc | hc
    · rcases hsign with rfl | rfl
      · cases hc
      · exact .inl (List.mem_singleton.1 hc)
    · exact .inr (Numeral.isDigit_of_isDigits hdigits c hc)
  refine trim_lossy (fun c hc => ?_) fun hplain => absurd (hchars _ hplain) (by decide)
  rcases hchars c hc with rfl | hdigit
  · rfl
  · exact isBlank_of_isDigit hdigit

/-- A value counts what its digits denote, if that is not too large. -/
theorem octetCount_of_counts {value : List UInt8} {n : Nat} (h : Counts value n)
    (hn : n < Numeral.unsignedBound) : octetCount value = .ok n := by
  obtain ⟨sign, digits, hsign, hdigits, rfl, hshows⟩ := h
  rw [octetCount, (trim_lossy_sign hsign hdigits).2 hshows, unsigned?_sign hsign hdigits hn]

theorem octetCount_of_not_counts {value : List UInt8}
    (h : ∀ n, Counts value n → Numeral.unsignedBound ≤ n) :
    octetCount value =
      .error (.invalidContentLength (String.ofList (Text.trim (Utf8.lossy value)))) := by
  rw [octetCount]
  cases hcount : Numeral.unsigned? (Text.trim (Utf8.lossy value)) with
  | none => rfl
  | some n =>
      obtain ⟨hn, sign, digits, hsign, hdigits, hvalue, htrim⟩ := exists_sign_of_unsigned? hcount
      have hshows := (trim_lossy_sign hsign hdigits).1 htrim
      exact absurd (h n ⟨sign, digits, hsign, hdigits, hvalue, hshows⟩) (Nat.not_le_of_lt hn)

/-! ## Which line decides -/

theorem contentLength_named {line value : List UInt8} (h : Named line value)
    (lines : List (List UInt8)) : contentLength (line :: lines) = octetCount value := by
  obtain ⟨name, word, rfl, hname, hshows, hword⟩ := h
  rw [contentLength, field?_colon hname]
  dsimp only
  rw [if_pos (isContentLength_iff.2 ⟨word, hshows, hword⟩)]

theorem contentLength_other {line : List UInt8} (h : ∀ value, ¬ Named line value)
    (lines : List (List UInt8)) : contentLength (line :: lines) = contentLength lines := by
  by_cases hcolon : 58 ∈ line
  · obtain ⟨name, value, rfl, hname⟩ := List.eq_append_cons_of_mem hcolon
    rw [contentLength, field?_colon hname]
    refine if_neg fun hlength => ?_
    obtain ⟨word, hshows, hword⟩ := isContentLength_iff.1 hlength
    exact h value ⟨name, word, rfl, hname, hshows, hword⟩
  · rw [contentLength, field?_of_not_mem hcolon]

theorem contentLength_skip {before : List (List UInt8)}
    (h : ∀ line ∈ before, ∀ value, ¬ Named line value) (lines : List (List UInt8)) :
    contentLength (before ++ lines) = contentLength lines := by
  induction before with
  | nil => rfl
  | cons line before ih =>
      obtain ⟨hline, hbefore⟩ := List.forall_mem_cons.1 h
      rw [List.cons_append, contentLength_other hline, ih hbefore]

theorem contentLength_firstNamed {lines : List (List UInt8)} {value : List UInt8}
    (h : FirstNamed lines value) : contentLength lines = octetCount value := by
  obtain ⟨before, line, after, rfl, hnamed, hothers⟩ := h
  rw [contentLength_skip hothers, contentLength_named hnamed]

namespace FrameBuffer

/-- A block that declares no length. -/
theorem next_of_undeclared {block ending : List UInt8} {e : FrameError}
    (hclosed : ClosedBy block ending) (h : declaredLength block = .error e) (more : List UInt8) :
    next (empty.extend (block ++ ending ++ more)) = (some (.error e), ⟨more, .resync⟩) := by
  simp only [next, empty, extend, takeHead, List.nil_append, hclosed.splits more, h]

/-- What a new buffer makes of a block and of what is behind it. The first line of the right name
decides: either as many octets as it counts are the body, or its value is refused. Without such a
line the block is refused. -/
theorem length_of_lines {lines : List (List UInt8)} {block ending : List UInt8}
    (hlines : ∀ line ∈ lines, IsLine line) (hblock : Joined lines block)
    (hsize : block.length ≤ maxHeaderSize) (hending : ending ∈ emptyLines) :
    (∀ value body, FirstNamed lines value → Counts value body.length →
      body.length ≤ maxMessageSize →
      drain (empty.extend (block ++ ending ++ body)) = ([.ok body], empty)) ∧
    ((∀ line ∈ lines, ∀ value, ¬ Named line value) → ∀ more,
      next (empty.extend (block ++ ending ++ more)) =
        (some (.error .missingContentLength), ⟨more, .resync⟩)) ∧
    ∀ value, FirstNamed lines value → (∀ n, Counts value n → Numeral.unsignedBound ≤ n) →
      ∀ more, next (empty.extend (block ++ ending ++ more)) =
        (some (.error (.invalidContentLength (String.ofList (Text.trim (Utf8.lossy value))))),
          ⟨more, .resync⟩) := by
  have hsplits := splitHeader_joined hblock hlines hending [] []
  rw [← List.append_assoc] at hsplits
  have hclosed : ClosedBy block ending := closedBy_of_splits hending hsplits
  have hdeclared : declaredLength block = contentLength lines := by
    rw [declaredLength, if_neg (Nat.not_lt_of_le hsize), contentLength_joined hblock hlines]
  refine ⟨fun value body hfirst hcounts hbody => ?_, fun hnone more => ?_,
    fun value hfirst hnot more => ?_⟩
  · have hbound : body.length < Numeral.unsignedBound := Nat.lt_of_le_of_lt hbody (by decide)
    have hlength : declaredLength block = .ok body.length := by
      rw [hdeclared, contentLength_firstNamed hfirst, octetCount_of_counts hcounts hbound]
    exact (drain_of_next_eq (next_of_whole hclosed hlength hbody body)).trans (drain_of_body body)
  · refine next_of_undeclared hclosed (hdeclared.trans ?_) more
    rw [← List.append_nil lines, contentLength_skip hnone, contentLength]
  · refine next_of_undeclared hclosed (hdeclared.trans ?_) more
    rw [contentLength_firstNamed hfirst, octetCount_of_not_counts hnot]

/-- A line that is no text, a length in capitals with a no-break space behind the name and a plus
sign in front of the digits, and another length, which does not count. -/
theorem length_of_mixedLines :
    drain (empty.extend ([0xFF, 0xFE] ++ ([10] ++ (Utf8.octets "CONTENT-LENGTH\u00a0: +03" ++
      ([13, 10] ++ Utf8.octets "Content-Length: 9"))) ++ [10, 10] ++ [1, 2, 3])) =
        ([.ok [1, 2, 3]], empty) ∧
      next (empty.extend ([0xFF, 0xFE] ++ [13, 10, 13, 10] ++ [1, 2, 3])) =
        (some (.error .missingContentLength), ⟨[1, 2, 3], .resync⟩) := by
  have hline {line : List UInt8} (h : line.all (fun b => b != 10 && b != 13) = true)
      (hne : line.isEmpty = false) : IsLine line :=
    ⟨by simpa using hne, fun b hb => by simpa using List.all_eq_true.1 h b hb⟩
  have hnone : ∀ value, ¬ Named [0xFF, 0xFE] value := by
    rintro value ⟨name, word, heq, -, -⟩
    have hcolon : 58 ∈ name ++ 58 :: value := by simp
    rw [← heq] at hcolon
    exact absurd hcolon (by decide)
  constructor
  · have hfeed : [10] ∈ lineBreaks := by decide
    have hreturn : [13, 10] ∈ lineBreaks := by decide
    have hshows : Shows (Utf8.octets "CONTENT-LENGTH\u00a0") "CONTENT-LENGTH".toList :=
      ⟨[], ['\u00a0'], nofun, List.forall_mem_singleton.2 rfl, rfl⟩
    have hnamed : Named (Utf8.octets "CONTENT-LENGTH\u00a0: +03") (Utf8.octets " +03") :=
      ⟨_, _, rfl, by decide, hshows, by decide⟩
    have hvalue : Shows (Utf8.octets " +03") (['+'] ++ ['0', '3']) :=
      ⟨[' '], [], List.forall_mem_singleton.2 rfl, nofun, rfl⟩
    have hcounts : Counts (Utf8.octets " +03") [1, 2, 3].length :=
      ⟨['+'], ['0', '3'], .inr rfl, rfl, rfl, hvalue⟩
    have hfirst : FirstNamed [[0xFF, 0xFE], Utf8.octets "CONTENT-LENGTH\u00a0: +03",
        Utf8.octets "Content-Length: 9"] (Utf8.octets " +03") :=
      ⟨[[0xFF, 0xFE]], _, _, rfl, hnamed, List.forall_mem_singleton.2 hnone⟩
    refine (length_of_lines ?_ (.cons hfeed (.cons hreturn .last)) (by decide) (by decide)).1 _ _
      hfirst hcounts (by decide)
    exact List.forall_mem_cons.2 ⟨hline rfl rfl, List.forall_mem_cons.2
      ⟨hline rfl rfl, List.forall_mem_singleton.2 (hline rfl rfl)⟩⟩
  · exact (length_of_lines (List.forall_mem_singleton.2 (hline rfl rfl)) .last (by decide)
      (by decide)).2.1 (List.forall_mem_singleton.2 hnone) _

end FrameBuffer

end LspClient.Wire
