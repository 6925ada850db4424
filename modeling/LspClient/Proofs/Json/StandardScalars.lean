import LspClient.Proofs.Json.Reports
import LspClient.Proofs.Number.OneFloat

/-!
# Scalars by the standard reader

What the reader makes of the scalars that have a report. It takes the longest beginning that it
can, so what stands behind a number must not continue it, and behind a text the closing quote
stops it. Numbers are read part by part, each part with its own lemma, and only then classed:
the reader decides between the sorts of numbers by the same two questions as the rules do,
whether there is a point or an exponent and whether the integer fits.

The float of a number is the only choice that the rules leave open in form, as they ask for a
float that the number rounds to. There is one (`Decimal.RoundsTo.toBinary64_eq`).
-/

namespace LspClient.Json

namespace Standard

open Strict

/-! ## Numbers -/

theorem isEmpty_of_isDigits {ds : List Char} (h : Numeral.isDigits ds = true) :
    ds.isEmpty = false := by
  cases ds with
  | nil => cases h
  | cons c cs => rfl

theorem whole?_append {whole rest : List Char} (h : Whole whole)
    (hrest : ∀ c ∈ rest.head?, c.isDigit = false) :
    whole? (whole ++ rest) = some (whole, rest) := by
  have hdigits := Numeral.isDigit_of_isDigits h.isDigits
  rw [whole?, takeWhile_of_head hdigits hrest, dropWhile_of_head hdigits hrest]
  cases h with
  | zero => rfl
  | @digits c cs hc hne hcs =>
      split
      · next heq => cases heq
      · next heq =>
          cases heq
          exact absurd rfl hne
      · rfl

theorem isDigit_of_not_isNumeralChar {c : Char} (h : isNumeralChar c = false) :
    c.isDigit = false := by
  rw [← Bool.not_eq_true] at h ⊢
  exact mt isNumeralChar_of_isDigit h

theorem fraction?_append {point fraction rest : List Char} (h : Fraction point fraction)
    (hdigit : ∀ c ∈ rest.head?, c.isDigit = false) (hpoint : ∀ c ∈ rest.head?, c ≠ '.') :
    fraction? (point ++ rest) = some (fraction, rest) := by
  cases h with
  | absent =>
      rw [List.nil_append, fraction?]
      rintro others rfl
      exact hpoint '.' rfl rfl
  | digits h =>
      have hdigits := Numeral.isDigit_of_isDigits h
      rw [List.cons_append, fraction?]
      simp only [takeWhile_of_head hdigits hdigit, dropWhile_of_head hdigits hdigit,
        isEmpty_of_isDigits h, Bool.false_eq_true, if_false]

theorem power?_append (negative : Bool) {ds rest : List Char} (h : Numeral.isDigits ds = true)
    (hrest : ∀ c ∈ rest.head?, c.isDigit = false) :
    power? negative (ds ++ rest) =
      some (some (if negative then -(Numeral.value ds : Int) else Numeral.value ds), rest) := by
  have hdigits := Numeral.isDigit_of_isDigits h
  rw [power?]
  simp only [takeWhile_of_head hdigits hrest, dropWhile_of_head hdigits hrest,
    isEmpty_of_isDigits h, Bool.false_eq_true, if_false]

/-- What the reader makes of an exponent tells whether there is one. -/
theorem exponent?_append {mark rest : List Char} {power : Int} (h : Power mark power)
    (hrest : ∀ c ∈ rest.head?, isNumeralChar c = false) :
    ∃ read : Option Int, exponent? (mark ++ rest) = some (read, rest) ∧ read.getD 0 = power ∧
      read.isNone = mark.isEmpty := by
  have hdigit : ∀ c ∈ rest.head?, c.isDigit = false := fun c hc =>
    isDigit_of_not_isNumeralChar (hrest c hc)
  cases h with
  | absent =>
      refine ⟨none, ?_, rfl, rfl⟩
      cases rest with
      | nil => rfl
      | cons c others =>
          have hc := hrest c rfl
          have hmark : ¬ (c = 'e' ∨ c = 'E') := by rintro (rfl | rfl) <;> cases hc
          exact if_neg hmark
  | @digits mark ds hmark h =>
      -- without a sign there is a digit
      have hsign {c : Char} (hc : c.isDigit = false) (others : List Char) :
          ds ++ rest ≠ c :: others := by
        intro heq
        cases ds with
        | nil => cases h
        | cons d ds =>
            cases heq
            rw [Numeral.isDigit_of_isDigits h c List.mem_cons_self] at hc
            cases hc
      refine ⟨some (Numeral.value ds), ?_, rfl, rfl⟩
      rw [List.cons_append, exponent?, if_pos hmark]
      · exact power?_append false h hdigit
      · exact fun others => hsign rfl others
      · exact fun others => hsign rfl others
  | @plus mark ds hmark h =>
      refine ⟨some (Numeral.value ds), ?_, rfl, rfl⟩
      rw [List.cons_append, List.cons_append, exponent?, if_pos hmark]
      exact power?_append false h hdigit
  | @minus mark ds hmark h =>
      refine ⟨some (-(Numeral.value ds : Int)), ?_, rfl, rfl⟩
      rw [List.cons_append, List.cons_append, exponent?, if_pos hmark]
      exact power?_append true h hdigit

theorem isEmpty_fraction {point fraction : List Char} (h : Fraction point fraction) :
    fraction.isEmpty = point.isEmpty := by
  cases h with
  | absent => rfl
  | digits h => exact isEmpty_of_isDigits h

/-- A minus sign in front of a digit or none. -/
theorem number?_sign (negative : Bool) {c : Char} {others body : List Char}
    (hbody : body = c :: others) (hc : c.isDigit = true) :
    number? (Decimal.sign negative ++ body) = do
      let (whole, rest) ← whole? body
      let (fraction, rest) ← fraction? rest
      let (power, rest) ← exponent? rest
      let event ←
        if fraction.isEmpty && power.isNone then integer? negative (Numeral.value whole)
        else float? ⟨negative, Numeral.value (whole ++ fraction),
          power.getD 0 - fraction.length⟩
      return (event, rest) := by
  cases negative with
  | true => rfl
  | false =>
      rw [Decimal.sign, if_neg Bool.false_ne_true, List.nil_append, hbody, number?]
      rintro rest heq
      rw [(List.cons.inj heq).1] at hc
      cases hc

/-- The number in front of what continues no number. -/
theorem number?_append (negative : Bool) {whole point fraction mark rest : List Char}
    {power : Int} (hwhole : Whole whole) (hfraction : Fraction point fraction)
    (hpower : Power mark power) (hrest : ∀ c ∈ rest.head?, isNumeralChar c = false) :
    number? (Decimal.sign negative ++ whole ++ point ++ mark ++ rest) =
      (if point.isEmpty && mark.isEmpty then integer? negative (Numeral.value whole)
        else float? ⟨negative, Numeral.value (whole ++ fraction), power - fraction.length⟩).map
        fun e => (e, rest) := by
  obtain ⟨c, others, hbody, hc⟩ := hwhole.head (point ++ (mark ++ rest))
  obtain ⟨read, hread, hgetD, hnone⟩ := exponent?_append hpower hrest
  have hmark : ∀ c ∈ (mark ++ rest).head?, c.isDigit = false ∧ c ≠ '.' := by
    intro c hc
    cases mark with
    | nil =>
        have hrest := hrest c hc
        refine ⟨isDigit_of_not_isNumeralChar hrest, ?_⟩
        rintro rfl
        cases hrest
    | cons mark ds =>
        cases hc
        rcases hpower.head c rfl with rfl | rfl <;> decide
  have hpoint : ∀ c ∈ (point ++ (mark ++ rest)).head?, c.isDigit = false := by
    cases hfraction with
    | absent => exact fun c hc => (hmark c hc).1
    | digits _ =>
        rintro c ⟨⟩
        rfl
  have hbehind := fraction?_append hfraction (fun c hc => (hmark c hc).1)
    fun c hc => (hmark c hc).2
  simp only [List.append_assoc]
  rw [number?_sign negative hbody hc, whole?_append hwhole hpoint]
  simp only [Option.bind_eq_bind, Option.bind_some, Option.pure_def, hbehind, hread, hgetD, hnone,
    isEmpty_fraction hfraction, Option.map_eq_bind]
  cases point.isEmpty && mark.isEmpty <;> rfl

theorem float?_of_roundsTo {d : Decimal} {x : Binary64} (h : d.RoundsTo x) :
    float? d = some (.float x) := by
  rw [float?, h.toBinary64_eq]
  exact if_pos h.isFinite

/-- A number is reported as it should be. -/
theorem number?_numeric {cs rest : List Char} {e : Event} (h : Numeric cs e)
    (hrest : ∀ c ∈ rest.head?, isNumeralChar c = false) :
    number? (cs ++ rest) = some (e, rest) := by
  cases h with
  | unsigned hwhole hfits =>
      have hread := number?_append false hwhole .absent .absent hrest
      simp only [Decimal.sign, Bool.false_eq_true, if_false, List.nil_append, List.append_nil,
        List.isEmpty_nil, Bool.and_self, if_true, integer?, if_pos hfits, Option.map_some] at hread
      exact hread
  | signed hwhole hne hfits =>
      have hread := number?_append true hwhole .absent .absent hrest
      simp only [Decimal.sign, if_true, List.append_nil, List.isEmpty_nil, Bool.and_self, integer?,
        if_pos (And.intro hne hfits), Option.map_some] at hread
      exact hread
  | @large negative whole x hwhole hlarge hx =>
      have hread := number?_append negative hwhole .absent .absent hrest
      have hinteger : integer? negative (Numeral.value whole) = some (.float x) := by
        cases negative with
        | true =>
            rw [if_pos rfl] at hlarge
            rw [integer?, if_pos rfl, if_neg fun h => absurd h.2 (Nat.not_le.2 hlarge)]
            exact float?_of_roundsTo hx
        | false =>
            rw [if_neg Bool.false_ne_true] at hlarge
            rw [integer?, if_neg Bool.false_ne_true, if_neg (Nat.not_lt.2 hlarge)]
            exact float?_of_roundsTo hx
      rw [hinteger, List.append_nil, List.append_nil] at hread
      exact hread
  | @fractional negative whole point fraction mark power x hwhole hfraction hpower hmark hx =>
      have hsome : (point.isEmpty && mark.isEmpty) = false := by
        rw [← Bool.not_eq_true, Bool.and_eq_true, List.isEmpty_iff, List.isEmpty_iff]
        rintro ⟨rfl, rfl⟩
        exact hmark rfl
      rw [number?_append negative hwhole hfraction hpower hrest, hsome, float?_of_roundsTo hx]
      rfl

/-! ## Strings -/

theorem space_le_hexDigit {c : Char} {n : Nat} (h : Quoted.hexDigit? c = some n) : ' ' ≤ c := by
  rw [Quoted.hexDigit?] at h
  split at h
  · next hc => exact Char.le_trans (by decide) hc.1
  split at h
  · next hc => exact Char.le_trans (by decide) hc.1
  split at h
  · next hc => exact Char.le_trans (by decide) hc.1
  · cases h

theorem space_le_hex4 {a b c d : Char} {n : Nat} (h : Quoted.hex4? [a, b, c, d] = some n) :
    ∀ x ∈ [a, b, c, d], ' ' ≤ x := by
  simp only [Quoted.hex4?, Option.bind_eq_bind, Option.bind_eq_some_iff] at h
  obtain ⟨i, ha, j, hb, k, hc, l, hd, -⟩ := h
  simp only [List.forall_mem_cons]
  exact ⟨space_le_hexDigit ha, space_le_hexDigit hb, space_le_hexDigit hc, space_le_hexDigit hd,
    List.forall_mem_nil _⟩

theorem space_le_letterEscape {letter : Char} (h : ' ' ≤ letter) :
    ∀ x ∈ ['\\', letter], ' ' ≤ x :=
  List.forall_mem_cons.2 ⟨by decide, List.forall_mem_singleton.2 h⟩

theorem space_le_numericEscape {digits : List Char} (h : ∀ x ∈ digits, ' ' ≤ x) :
    ∀ x ∈ '\\' :: 'u' :: digits, ' ' ≤ x :=
  List.forall_mem_cons.2 ⟨by decide, List.forall_mem_cons.2 ⟨by decide, h⟩⟩

/-- No spelling has a raw control character. -/
theorem space_le_spelling {unit : List Char} {c : Char} (h : Spelling unit c) :
    ∀ x ∈ unit, ' ' ≤ x := by
  cases h with
  | plain hcontrol _ _ => exact List.forall_mem_singleton.2 hcontrol
  | quote | backslash | slash | backspace | formFeed | lineFeed | carriageReturn | tab =>
      exact space_le_letterEscape (by decide)
  | numeric h _ _ => exact space_le_numericEscape (space_le_hex4 h)
  | pair h h' _ _ =>
      exact space_le_numericEscape (List.forall_mem_append.2
        ⟨space_le_hex4 h, space_le_numericEscape (space_le_hex4 h')⟩)

theorem space_le_content {content text : List Char} (h : Content content text) :
    ∀ x ∈ content, ' ' ≤ x := by
  induction h with
  | nil => exact List.forall_mem_nil _
  | cons hunit _ ih => exact List.forall_mem_append.2 ⟨space_le_spelling hunit, ih⟩

theorem text?_content {content text : List Char} (h : Content content text) (rest : List Char) :
    text? (content ++ '"' :: rest) = some (String.ofList text, rest) := by
  obtain ⟨offset, hread⟩ := read_content h 0 0 [] rest
  have hlength : (content ++ '"' :: rest).length - rest.length = (content ++ ['"']).length := by
    simp only [List.length_append, List.length_cons, List.length_nil]
    omega
  have hraw : (content ++ '"' :: rest).take ((content ++ ['"']).length) = content ++ ['"'] := by
    rw [List.append_cons content '"' rest, List.take_left]
  have hall : (content ++ ['"']).all (fun c => !decide (c < ' ')) = true := by
    rw [List.all_eq_true]
    intro c hc
    rw [Bool.not_eq_true', decide_eq_false_iff_not, Char.not_lt]
    rcases List.mem_append.1 hc with hc | hc
    · exact space_le_content h c hc
    · rw [List.mem_singleton.1 hc]
      decide
  rw [text?, hread]
  dsimp only
  rw [hlength, hraw, if_pos hall]
  rfl

theorem text?_quotation {cs : List Char} {s : String} (h : Quotation cs s) (rest : List Char) :
    ∃ inside, cs ++ rest = '"' :: inside ∧ text? inside = some (s, rest) := by
  obtain ⟨hcontent⟩ := h
  exact ⟨_, by simp, text?_content hcontent rest⟩

/-! ## Scalars -/

theorem scalar?_number {c : Char} (hc : c = '-' ∨ c.isDigit = true) (cs : List Char) :
    scalar? (c :: cs) = number? (c :: cs) := by
  rw [scalar?]
  all_goals
    rintro rest heq
    rw [(List.cons.inj heq).1] at hc
    revert hc
    decide

/-- What starts with no bracket is a scalar. -/
theorem events?_scalar {text cs rest : List Char} {c : Char} {e : Event}
    (hskip : skipBlanks text = c :: cs) (harray : c ≠ '[') (hobject : c ≠ '{')
    (h : scalar? (c :: cs) = some (e, rest)) {fuel : Nat} (hfuel : 0 < fuel) (room : Nat) :
    events? room fuel text = some ([e], rest) := by
  obtain ⟨fuel, rfl⟩ := Nat.exists_eq_succ_of_ne_zero hfuel.ne'
  rw [events?, hskip]
  split
  · next heq => exact absurd (List.cons.inj heq).1 harray
  · next heq => exact absurd (List.cons.inj heq).1 hobject
  · rw [h]
    rfl

end Standard

end LspClient.Json
