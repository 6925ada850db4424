import LspClient.Proofs.Json.FirstProblem
import LspClient.Proofs.Json.RoundTrip
import LspClient.Proofs.Json.StrictText

/-!
# Which atoms are numbers

The numerals that are read are a wider language than the one of the standard: there may be zeros in
front and nothing behind the point, and after a minus sign there may be nothing in front of it
(`IsNumeral`). What an atom is read as depends on what it denotes exactly. Without a mark of a
float it is the integer that it denotes, if there is one of 64 bits; anything else is the float
that the exact number is taken for (`Reads`).

Reading goes over an atom three times: for its first character, for its characters, and for the
digits. The last reading alone decides what the language is. The other two refuse what digits
could be read from all the same, a plus sign in front or a bare point.
-/

namespace LspClient.Json

open Strict (Power)

/-! ## The language -/

/-- Digits with a point perhaps, and the digits on both sides of it. Those in front of the point
may be missing after a minus sign only. -/
inductive Mantissa (negative : Bool) : List Char → List Char → List Char → Prop
  | whole {whole : List Char} (h : Numeral.isDigits whole = true) :
      Mantissa negative whole whole []
  | point {whole fraction : List Char} (h : Numeral.isDigits whole = true)
      (hfraction : ∀ c ∈ fraction, c.isDigit = true) :
      Mantissa negative (whole ++ '.' :: fraction) whole fraction
  | bare {fraction : List Char} (hnegative : negative = true)
      (h : Numeral.isDigits fraction = true) : Mantissa negative ('.' :: fraction) [] fraction

/-- A minus sign perhaps, digits, and a power of ten perhaps, with the exact number. -/
inductive IsNumeral : List Char → Decimal → Prop
  | intro (negative : Bool) {body whole fraction mark : List Char} {power : Int}
      (hbody : Mantissa negative body whole fraction) (hpower : Power mark power) :
      IsNumeral (Decimal.sign negative ++ (body ++ mark))
        ⟨negative, Numeral.value (whole ++ fraction), power - fraction.length⟩

/-- The marks of a float. -/
def Marked (cs : List Char) : Prop :=
  ∃ c ∈ cs, c = '.' ∨ c = 'e' ∨ c = 'E'

/-- What a numeral for an exact number is read as. -/
inductive Reads (cs : List Char) (d : Decimal) : Value → Prop
  | integer {n : Int64} (hmarks : ¬ Marked cs) (hn : (n.toInt : ℚ) = d.toRat) :
      Reads cs d (.integer n)
  | float {x : Binary64} (hother : Marked cs ∨ ∀ n : Int64, (n.toInt : ℚ) ≠ d.toRat)
      (hx : d.TakenFor x) : Reads cs d (.float x)

/-! ## Digits by the reader -/

theorem power_of_exponent? {mark : List Char} {power : Int}
    (h : Decimal.exponent? mark = some power) : Power mark power := by
  cases mark with
  | nil =>
      cases h
      exact .absent
  | cons c rest =>
      rw [Decimal.exponent?.eq_def] at h
      dsimp only at h
      split at h
      · next hmark =>
          split at h
          · obtain ⟨i, hi, rfl⟩ := Option.map_eq_some_iff.1 h
            obtain ⟨n, hn, ⟨⟩⟩ := Option.bind_eq_some_iff.1 hi
            obtain ⟨hdigits, rfl⟩ := Numeral.natural?_eq_some.1 hn
            exact .minus hmark hdigits
          · obtain ⟨n, hn, rfl⟩ := Option.map_eq_some_iff.1 h
            obtain ⟨hdigits, rfl⟩ := Numeral.natural?_eq_some.1 hn
            exact .plus hmark hdigits
          · obtain ⟨n, hn, rfl⟩ := Option.map_eq_some_iff.1 h
            obtain ⟨hdigits, rfl⟩ := Numeral.natural?_eq_some.1 hn
            exact .digits hmark hdigits
      · cases h

theorem Mantissa.parts {negative : Bool} {body whole fraction : List Char}
    (h : Mantissa negative body whole fraction) : ∃ point, body = whole ++ point ∧
      (∀ c ∈ whole, c.isDigit = true) ∧ (∀ c ∈ fraction, c.isDigit = true) ∧
      (point = [] ∧ fraction = [] ∨ point = '.' :: fraction) ∧ whole ++ fraction ≠ [] := by
  have hne {ds : List Char} (h : Numeral.isDigits ds = true) : ds ≠ [] := by
    rintro rfl
    cases h
  cases h with
  | whole h =>
      exact ⟨[], (List.append_nil _).symm, Numeral.isDigit_of_isDigits h, List.forall_mem_nil _,
        .inl ⟨rfl, rfl⟩, List.append_ne_nil_of_left_ne_nil (hne h) _⟩
  | point h hfraction =>
      exact ⟨_, rfl, Numeral.isDigit_of_isDigits h, hfraction, .inr rfl,
        List.append_ne_nil_of_left_ne_nil (hne h) _⟩
  | bare _ h =>
      exact ⟨_, rfl, List.forall_mem_nil _, Numeral.isDigit_of_isDigits h, .inr rfl, hne h⟩

/-- Without a minus sign there is a digit in front. -/
theorem Mantissa.head {body whole fraction : List Char} (h : Mantissa false body whole fraction) :
    ∃ c others, body = c :: others ∧ c.isDigit = true := by
  have hfirst {ds : List Char} (h : Numeral.isDigits ds = true) :
      ∃ c others, ds = c :: others ∧ c.isDigit = true := by
    cases ds with
    | nil => cases h
    | cons c others => exact ⟨c, others, rfl, Numeral.isDigit_of_isDigits h c List.mem_cons_self⟩
  cases h with
  | whole h => exact hfirst h
  | point h _ =>
      obtain ⟨c, others, rfl, hc⟩ := hfirst h
      exact ⟨c, _, rfl, hc⟩
  | bare hnegative _ => cases hnegative

/-- Digits that are there are a mantissa, and a bare fraction is one after a minus sign. -/
theorem mantissa_of_parts {negative : Bool} {whole fraction : List Char}
    (hwhole : ∀ c ∈ whole, c.isDigit = true) (hfraction : ∀ c ∈ fraction, c.isDigit = true)
    (hdigits : whole ++ fraction ≠ []) (hbare : whole = [] → negative = true) :
    Mantissa negative (whole ++ '.' :: fraction) whole fraction := by
  by_cases hnone : whole = []
  · subst hnone
    exact .bare (hbare rfl) (Numeral.isDigits_of_forall hdigits hfraction)
  · exact .point (Numeral.isDigits_of_forall hnone hwhole) hfraction

theorem mantissa_of_unsigned? {negative : Bool} {cs : List Char} {r : Nat × Int}
    (h : Decimal.unsigned? cs = some r)
    (hbare : negative = false → ∃ c ∈ cs.head?, c.isDigit = true) :
    ∃ body whole fraction mark power, cs = body ++ mark ∧
      Mantissa negative body whole fraction ∧ Power mark power ∧
      r = (Numeral.value (whole ++ fraction), power - fraction.length) := by
  have htake (cs : List Char) : ∀ c ∈ cs.takeWhile Char.isDigit, c.isDigit = true :=
    fun c hc => List.mem_takeWhile_imp hc
  have hwhole : cs.takeWhile Char.isDigit = [] → negative = true := by
    intro hnil
    cases hnegative : negative with
    | true => rfl
    | false =>
        obtain ⟨c, hc, hdigit⟩ := hbare hnegative
        obtain ⟨others, rfl⟩ := List.head?_eq_some_iff.1 hc
        rw [List.takeWhile_cons_of_pos hdigit] at hnil
        cases hnil
  have hsplit := List.takeWhile_append_dropWhile (p := Char.isDigit) (l := cs)
  generalize hrest : cs.dropWhile Char.isDigit = rest at hsplit
  rw [Decimal.unsigned?, hrest] at h
  dsimp only at h
  split at h
  · next behind =>
      dsimp only at h
      split at h
      · cases h
      · next hdigits =>
          obtain ⟨power, hpower, rfl⟩ := Option.map_eq_some_iff.1 h
          refine ⟨_, _, _, _, power, ?_, mantissa_of_parts (htake cs) (htake behind) ?_ hwhole,
            power_of_exponent? hpower, rfl⟩
          · refine hsplit.symm.trans ?_
            rw [List.append_assoc, List.cons_append, List.takeWhile_append_dropWhile]
          · simpa [not_and_or] using hdigits
  · dsimp only at h
    split at h
    · cases h
    · next hdigits =>
        obtain ⟨power, hpower, rfl⟩ := Option.map_eq_some_iff.1 h
        have hsome : cs.takeWhile Char.isDigit ≠ [] := by simpa using hdigits
        refine ⟨_, _, [], rest, power, hsplit.symm,
          .whole (Numeral.isDigits_of_forall hsome (htake cs)), power_of_exponent? hpower, ?_⟩
        rw [List.append_nil]

theorem unsigned?_mantissa {negative : Bool} {body whole fraction mark : List Char} {power : Int}
    (hbody : Mantissa negative body whole fraction) (hpower : Power mark power) :
    Decimal.unsigned? (body ++ mark) =
      some (Numeral.value (whole ++ fraction), power - fraction.length) := by
  obtain ⟨point, rfl, hwhole, hfraction, hpoint, hdigits⟩ := hbody.parts
  rw [List.append_assoc]
  exact Strict.unsigned?_parts hwhole hfraction hpoint hdigits hpower

theorem read?_isNumeral {cs : List Char} {d : Decimal} (h : IsNumeral cs d) :
    Decimal.read? cs = some d := by
  obtain ⟨negative, hbody, hpower⟩ := h
  have hunsigned := unsigned?_mantissa hbody hpower
  cases negative with
  | true =>
      rw [Decimal.sign, if_pos rfl, List.singleton_append, Decimal.read?, hunsigned]
      rfl
  | false =>
      obtain ⟨c, others, heq, hc⟩ := hbody.head
      rw [Decimal.read?_sign false (congrArg (· ++ _) heq) hc, hunsigned]
      rfl

/-- Digits that are read are a numeral if it starts like one. -/
theorem isNumeral_of_read? {cs : List Char} {d : Decimal} (h : Decimal.read? cs = some d)
    (hstart : startsNumeral cs = true) : IsNumeral cs d := by
  cases cs with
  | nil => cases hstart
  | cons c cs =>
      by_cases hc : c.isDigit = true
      · have hread : Decimal.read? (Decimal.sign false ++ c :: cs) = some d := h
        rw [Decimal.read?_sign false rfl hc] at hread
        obtain ⟨r, hr, rfl⟩ := Option.map_eq_some_iff.1 hread
        obtain ⟨body, whole, fraction, mark, power, heq, hbody, hpower, rfl⟩ :=
          mantissa_of_unsigned? hr fun _ => ⟨c, rfl, hc⟩
        rw [heq]
        exact .intro false hbody hpower
      · obtain rfl : c = '-' := by simpa [startsNumeral, hc] using hstart
        obtain ⟨r, hr, rfl⟩ := Option.map_eq_some_iff.1 h
        have hbare (h : true = false) : ∃ c ∈ cs.head?, c.isDigit = true := by cases h
        obtain ⟨body, whole, fraction, mark, power, rfl, hbody, hpower, rfl⟩ :=
          mantissa_of_unsigned? hr hbare
        exact .intro true hbody hpower

/-! ## Integers by the reader -/

/-- The integer with a sign is read if it has 64 bits. -/
theorem signed?_sign (negative : Bool) {whole : List Char} (h : Numeral.isDigits whole = true)
    {i : Int} (hi : i = if negative then -(Numeral.value whole : Int) else Numeral.value whole) :
    (∃ n : Int64, Numeral.signed? (Decimal.sign negative ++ whole) = some n ∧ n.toInt = i) ∨
      Numeral.signed? (Decimal.sign negative ++ whole) = none ∧ ∀ n : Int64, n.toInt ≠ i := by
  have hnatural : Numeral.natural? whole = some (Numeral.value whole) := if_pos h
  have hhigh (n : Int64) : n.toInt < 0x8000000000000000 := Int64.toInt_lt n
  have hlow (n : Int64) : -0x8000000000000000 ≤ n.toInt := Int64.le_toInt n
  have hback {j : Int} (hlow : -0x8000000000000000 ≤ j) (hhigh : j < 0x8000000000000000) :
      (Int64.ofInt j).toInt = j := Int64.toInt_ofInt_of_le hlow hhigh
  have hbound : Numeral.signedBound = 0x8000000000000000 := rfl
  cases negative with
  | true =>
      rw [if_pos rfl] at hi
      rw [Decimal.sign, if_pos rfl, List.singleton_append, Numeral.signed?, hnatural,
        Option.filter_some]
      split
      · next hle =>
          rw [decide_eq_true_eq] at hle
          exact .inl ⟨_, rfl, (hback (by omega) (by omega)).trans hi.symm⟩
      · next hle =>
          rw [decide_eq_true_eq] at hle
          exact .inr ⟨rfl, fun n hn => by have := hlow n; omega⟩
  | false =>
      rw [if_neg Bool.false_ne_true] at hi
      have hne {c : Char} (hc : c.isDigit = false) (rest : List Char) : whole ≠ c :: rest := by
        rintro rfl
        rw [Numeral.isDigit_of_isDigits h c List.mem_cons_self] at hc
        cases hc
      rw [Decimal.sign, if_neg Bool.false_ne_true, List.nil_append,
        Numeral.signed?.eq_3 _ (hne rfl) (hne rfl), hnatural, Option.filter_some]
      split
      · next hlt =>
          rw [decide_eq_true_eq] at hlt
          exact .inl ⟨_, rfl, (hback (by omega) (by omega)).trans hi.symm⟩
      · next hlt =>
          rw [decide_eq_true_eq] at hlt
          exact .inr ⟨rfl, fun n hn => by have := hhigh n; omega⟩

theorem isNumeral_sign (negative : Bool) {whole : List Char} (h : Numeral.isDigits whole = true) :
    IsNumeral (Decimal.sign negative ++ whole) ⟨negative, Numeral.value whole, 0⟩ := by
  have hnumeral := IsNumeral.intro negative (.whole h) .absent
  simpa using hnumeral

theorem isNumeral_of_signed? {cs : List Char} {n : Int64} (h : Numeral.signed? cs = some n)
    (hstart : startsNumeral cs = true) : ∃ d, IsNumeral cs d := by
  have hdigits {ds : List Char} {p : Nat → Bool} {f : Int → Int64}
      (h : ((Numeral.natural? ds).filter p >>= fun k => pure (k : Int)).map f = some n) :
      Numeral.isDigits ds = true := by
    obtain ⟨i, hi, -⟩ := Option.map_eq_some_iff.1 h
    obtain ⟨k, hk, -⟩ := Option.bind_eq_some_iff.1 hi
    exact (Numeral.natural?_eq_some.1 (Option.filter_eq_some_iff.1 hk).1).1
  rw [Numeral.signed?.eq_def] at h
  split at h
  · exact ⟨_, isNumeral_sign true (hdigits h)⟩
  · cases hstart
  · exact ⟨_, isNumeral_sign false (hdigits h)⟩

/-! ## Atoms by the reader -/

theorem any_isFloatMark {cs : List Char} : cs.any isFloatMark = true ↔ Marked cs := by
  simp [Marked, isFloatMark, or_assoc]

theorem IsNumeral.start {cs : List Char} {d : Decimal} (h : IsNumeral cs d) :
    startsNumeral cs = true := by
  obtain ⟨negative, hbody, -⟩ := h
  cases negative with
  | true => rfl
  | false =>
      obtain ⟨c, others, rfl, hc⟩ := hbody.head
      exact startsNumeral_cons hc _

theorem IsNumeral.chars {cs : List Char} {d : Decimal} (h : IsNumeral cs d) :
    ∀ c ∈ cs, isNumeralChar c = true := by
  obtain ⟨negative, hbody, hpower⟩ := h
  obtain ⟨point, rfl, hwhole, hfraction, hpoint, -⟩ := hbody.parts
  refine List.forall_mem_append.2 ⟨Strict.sign_chars negative, List.forall_mem_append.2
    ⟨List.forall_mem_append.2 ⟨Strict.isNumeralChar_of_digits hwhole, ?_⟩, hpower.chars⟩⟩
  rcases hpoint with ⟨rfl, -⟩ | rfl
  · exact List.forall_mem_nil _
  · exact List.forall_mem_cons.2 ⟨rfl, Strict.isNumeralChar_of_digits hfraction⟩

/-- Without a mark there is nothing but a sign and digits. -/
theorem IsNumeral.digits {cs : List Char} {d : Decimal} (h : IsNumeral cs d)
    (hmarks : ¬ Marked cs) : ∃ negative whole, Numeral.isDigits whole = true ∧
      cs = Decimal.sign negative ++ whole ∧ d = ⟨negative, Numeral.value whole, 0⟩ := by
  obtain ⟨negative, hbody, hpower⟩ := h
  have hmark {c : Char} (hc : c = '.' ∨ c = 'e' ∨ c = 'E') : c ∉ _ :=
    fun hmem => hmarks ⟨c, hmem, hc⟩
  cases hpower with
  | digits h _ | plus h _ | minus h _ => exact absurd (by simp) (hmark (.inr h))
  | absent =>
      cases hbody with
      | point _ _ | bare _ _ => exact absurd (by simp) (hmark (.inl rfl))
      | whole h => exact ⟨negative, _, h, by simp, by simp⟩

/-- A numeral is read as what it denotes. -/
theorem number?_isNumeral {cs : List Char} {d : Decimal} (h : IsNumeral cs d) :
    ∃ v, Reads cs d v ∧ number? cs = some v := by
  have hfloat : float? cs = some (.float d.toBinary64) := by
    rw [float?, read?_isNumeral h]
    rfl
  have hx := Decimal.takenFor_toBinary64 d
  rw [number?, h.start, List.all_eq_true.2 h.chars, Bool.and_true, if_pos rfl]
  by_cases hmarks : Marked cs
  · rw [if_pos (any_isFloatMark.2 hmarks)]
    exact ⟨_, .float (.inl hmarks) hx, hfloat⟩
  · rw [if_neg (any_isFloatMark.not.2 hmarks)]
    obtain ⟨negative, whole, hwhole, rfl, rfl⟩ := h.digits hmarks
    obtain ⟨i, hi⟩ : ∃ i : Int,
      i = if negative then -(Numeral.value whole : Int) else Numeral.value whole := ⟨_, rfl⟩
    have hcast : Decimal.toRat ⟨negative, Numeral.value whole, 0⟩ = i := by
      rw [Strict.toRat_integer, hi]
      cases negative <;> simp
    rcases signed?_sign negative hwhole hi with ⟨n, hn, htoInt⟩ | ⟨hnone, hother⟩
    · rw [hn]
      exact ⟨_, .integer hmarks (by rw [hcast, htoInt]), rfl⟩
    · rw [hnone]
      refine ⟨_, .float (.inr fun n heq => hother n ?_) hx, hfloat⟩
      rw [hcast] at heq
      exact Int.cast_injective heq

theorem number?_eq_none {cs : List Char} (h : ∀ d, ¬ IsNumeral cs d) : number? cs = none := by
  rw [number?]
  split
  · next hcs =>
      have hstart := (Bool.and_eq_true_iff.1 hcs).1
      have hfloat : float? cs = none := by
        rw [float?, Option.map_eq_none_iff, Option.eq_none_iff_forall_ne_some]
        exact fun d hd => h d (isNumeral_of_read? hd hstart)
      split
      · exact hfloat
      · split
        · next n hn =>
            obtain ⟨d, hd⟩ := isNumeral_of_signed? hn hstart
            exact absurd hd (h d)
        · exact hfloat
  · rfl

/-! ## Atoms in a text -/

open Token (Blanks IsLexeme width)

/-- A text is read up to a token with which a value starts, inside the containers that wait for
it. What is behind the token is cut into the rest. -/
def Meets (text : String) (t : Located) (waiting : List Pending)
    (rest : List (Except DecodeError Located)) : Prop :=
  ∃ (located : List Located) (s : Stage), tokens text.toList = located.map .ok ++ .ok t :: rest ∧
    located.foldlM Stage.step (.value []) = .ok s ∧ s.Awaits waiting

theorem Meets.decode_eq {text : String} {word : List Char} {offset : Nat} {waiting : List Pending}
    {rest : List (Except DecodeError Located)}
    (h : Meets text ⟨offset, .atom (String.ofList word)⟩ waiting rest) :
    decode text = match ofAtom? (String.ofList word) with
      | some v => (Stage.complete v waiting).run text.utf8ByteSize rest
      | none => .error (.invalidLiteral (String.ofList word) offset) := by
  obtain ⟨located, s, hcut, hsteps, hs⟩ := h
  rw [decode, hcut, Stage.run_map_ok hsteps, Stage.run, hs offset (.atom _) (by simp),
    Stage.startValue]
  dsimp only
  cases ofAtom? (String.ofList word) with
  | none => rfl
  | some v => rfl

theorem Token.IsLexeme.text_eq {text : String} {lexeme : List Char}
    (h : IsLexeme (.atom text) lexeme) : text = String.ofList lexeme := by
  generalize htoken : Token.atom text = token at h
  cases h with
  | atom _ _ => exact Token.atom.inj htoken
  | string _ => cases htoken
  | structural hmem => simp [← htoken, Token.structurals] at hmem

/-- An atom stands in the text where its token says. -/
theorem Meets.place {text : String} {word : List Char} {offset : Nat} {waiting : List Pending}
    {rest : List (Except DecodeError Located)}
    (h : Meets text ⟨offset, .atom (String.ofList word)⟩ waiting rest) :
    ∃ before after, text = before ++ String.ofList word ++ after ∧
      before.utf8ByteSize = offset := by
  obtain ⟨located, -, hcut, -, -⟩ := h
  obtain ⟨before, others, htext, -, htail⟩ := cuts_of_tokens hcut
  rw [Cursor.items_eq] at htail
  split at htail
  · cases htail
  · next item after hnext =>
      obtain ⟨rfl, -⟩ := List.cons.inj htail
      obtain ⟨blanks, lexeme, hblanks, hlexeme, -, hrest, hoffset, -⟩ :=
        Cursor.lexeme_of_next? hnext
      have hbefore : text = String.ofList (before ++ blanks) ++ String.ofList word ++
          String.ofList after.rest := by
        rw [hlexeme.text_eq, ← String.ofList_append, ← String.ofList_append, List.append_assoc,
          List.append_assoc, ← hrest, ← htext, String.ofList_toList]
      exact ⟨_, _, hbefore, by rw [utf8ByteSize_ofList, Token.width_append]; exact hoffset.symm⟩

/-- An atom between blanks. -/
theorem meets_document {before word after : List Char} (hbefore : Blanks before)
    (hword : IsLexeme (.atom (String.ofList word)) word) (hafter : Blanks after) :
    Meets (String.ofList (before ++ (word ++ after)))
      ⟨before.length, .atom (String.ofList word)⟩ [] [] := by
  have hends : (Token.atom (String.ofList word)).Ends after := by
    rintro _ -
    have hnothing : EndsWord [] := nofun
    simpa using Cursor.endsWord_blanks hafter hnothing
  refine ⟨[], _, ?_, rfl, Stage.awaits_value []⟩
  rw [String.toList_ofList, tokens, Cursor.start, Cursor.items_eq,
    Cursor.next?_of_lexeme hbefore hword hends]
  dsimp only
  rw [Cursor.items_eq, Cursor.next?_of_blanks hafter, hbefore.width, Nat.zero_add]
  rfl

/-- What is made of an atom. -/
structure Numerals (word : List Char) : Prop where
  /-- a numeral is a value where one may start, and a document between blanks -/
  accepted : ∀ d, IsNumeral word d → ∃ v, Reads word d v ∧
    (∀ text offset waiting rest, Meets text ⟨offset, .atom (String.ofList word)⟩ waiting rest →
      decode text = (Stage.complete v waiting).run text.utf8ByteSize rest) ∧
    ∀ before after, Blanks before → Blanks after →
      decode (String.ofList (before ++ (word ++ after))) = .ok v
  /-- anything else is refused there -/
  refused : (∀ d, ¬ IsNumeral word d) →
    (∀ text offset waiting rest, Meets text ⟨offset, .atom (String.ofList word)⟩ waiting rest →
      decode text = .error (.invalidLiteral (String.ofList word) offset)) ∧
    ∀ before after, Blanks before → Blanks after →
      decode (String.ofList (before ++ (word ++ after))) =
        .error (.invalidLiteral (String.ofList word) before.length)
  /-- the offset of an atom is its place in the text -/
  place : ∀ text offset waiting rest,
    Meets text ⟨offset, .atom (String.ofList word)⟩ waiting rest →
      ∃ before after, text = before ++ String.ofList word ++ after ∧ before.utf8ByteSize = offset

/-- An atom that is no name is a number if it is a numeral, and nothing otherwise. The text that is
written for an integer is read as that integer. -/
theorem numerals_of_atom :
    (∀ word : List Char, word ≠ [] → (∀ c ∈ word, Token.isAtomChar c = true) →
      String.ofList word ∉ ["true", "false", "null"] → Numerals word) ∧
    ∀ n : Int64, decode (String.ofList (Numeral.ofSigned n)) = .ok (.integer n) := by
  constructor
  · intro word hne hchars hname
    have hatom : IsLexeme (.atom (String.ofList word)) word := .atom hne hchars
    have hnumber : ofAtom? (String.ofList word) = number? word := by
      simp only [List.mem_cons, List.not_mem_nil, or_false, not_or] at hname
      rw [ofAtom?, if_neg hname.1, if_neg hname.2.1, if_neg hname.2.2, String.toList_ofList]
    constructor
    case accepted =>
      intro d hd
      obtain ⟨v, hreads, hv⟩ := number?_isNumeral hd
      refine ⟨v, hreads, fun text offset waiting rest hmeets => ?_,
        fun before after hbefore hafter => ?_⟩
      · rw [hmeets.decode_eq, hnumber, hv]
      · rw [(meets_document hbefore hatom hafter).decode_eq, hnumber, hv]
        rfl
    case refused =>
      intro hnone
      refine ⟨fun text offset waiting rest hmeets => ?_, fun before after hbefore hafter => ?_⟩
      · rw [hmeets.decode_eq, hnumber, number?_eq_none hnone]
      · rw [(meets_document hbefore hatom hafter).decode_eq, hnumber, number?_eq_none hnone]
    case place => exact fun text offset waiting rest hmeets => hmeets.place
  · intro n
    have hword := isWord_integer n
    have hatom : IsLexeme (.atom _) _ := .atom hword.nonempty hword.chars
    have hnothing : Blanks [] := List.forall_mem_nil _
    have hmeets := meets_document hnothing hatom hnothing
    rw [List.nil_append, List.append_nil] at hmeets
    rw [← write, hmeets.decode_eq, hword.reads]
    rfl

/-- A bare fraction is a number behind a minus sign only. -/
theorem numerals_of_bareFraction :
    (∃ x, Decimal.TakenFor ⟨true, 5, 0⟩ x ∧ decode "-.5e1" = .ok (.float x)) ∧
      decode "[1,.5]" = .error (.invalidLiteral ".5" 3) := by
  constructor
  · have hnumerals : Numerals ['-', '.', '5', 'e', '1'] :=
      numerals_of_atom.1 _ (List.cons_ne_nil _ _) (List.all_eq_true.1 rfl) (by decide)
    have hbody : Mantissa true ['.', '5'] [] ['5'] := .bare rfl rfl
    have hpower : Power ['e', '1'] (Numeral.value ['1']) := .digits (.inl rfl) rfl
    have hnumeral : IsNumeral ['-', '.', '5', 'e', '1'] ⟨true, 5, 0⟩ := .intro true hbody hpower
    obtain ⟨v, hreads, -, hdocument⟩ := hnumerals.accepted _ hnumeral
    have hdecode := hdocument [] [] (List.forall_mem_nil _) (List.forall_mem_nil _)
    cases hreads with
    | integer hmarks _ => exact absurd ⟨'.', by decide, .inl rfl⟩ hmarks
    | float _ hx => exact ⟨_, hx, hdecode⟩
  · have hnumerals : Numerals ['.', '5'] :=
      numerals_of_atom.1 _ (List.cons_ne_nil _ _) (List.all_eq_true.1 rfl) (by decide)
    have hcut : tokens "[1,.5]".toList =
        [⟨0, .beginArray⟩, ⟨1, .atom "1"⟩, ⟨2, .comma⟩].map .ok ++
          [.ok ⟨3, .atom ".5"⟩, .ok ⟨5, .endArray⟩] := by decide +kernel
    have hmeets : Meets "[1,.5]" ⟨3, .atom ".5"⟩ [.element [.integer 1]] [.ok ⟨5, .endArray⟩] :=
      ⟨_, _, hcut, rfl, Stage.awaits_value _⟩
    exact (hnumerals.refused fun d hd => nomatch hd.start).1 _ _ _ _ hmeets

end LspClient.Json
