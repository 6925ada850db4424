import LspClient.Proofs.Json.Tokens
import LspClient.Proofs.Number.DecimalText

/-!
# The words that are written for scalars

Nulls, booleans, integers and floats are written as words. A word is made of
characters that do not end words, and it reads as the value that it was written
for. Which of the two kinds of number a numeral is depends on its marks alone:
integers are written without any, and floats always with a point.
-/

namespace LspClient.Json

/-- A word that reads as a value. -/
structure IsWord (cs : List Char) (v : Value) : Prop where
  nonempty : cs ≠ []
  chars : ∀ c ∈ cs, Token.isAtomChar c = true
  reads : ofAtom? (String.ofList cs) = some v

theorem isWord_null : IsWord ['n', 'u', 'l', 'l'] .null :=
  ⟨nofun, List.all_eq_true.1 rfl, rfl⟩

theorem isWord_bool (b : Bool) : IsWord (write (.bool b)) (.bool b) := by
  cases b with
  | true => exact ⟨nofun, List.all_eq_true.1 rfl, rfl⟩
  | false => exact ⟨nofun, List.all_eq_true.1 rfl, rfl⟩

/-! ## Numerals -/

theorem isAtomChar_of_isNumeralChar {c : Char} (h : isNumeralChar c = true) :
    Token.isAtomChar c = true := by
  cases hc : Token.isAtomChar c with
  | true => rfl
  | false =>
      simp only [Token.isAtomChar, Token.isBlank, Token.isDelimiter, Bool.and_eq_false_iff,
        Bool.not_eq_false', Bool.or_eq_true, beq_iff_eq] at hc
      rcases hc with ((((rfl | rfl) | rfl) | rfl) | rfl) |
        ((((((rfl | rfl) | rfl) | rfl) | rfl) | rfl) | rfl)
      all_goals cases h

theorem isNumeralChar_of_isDigit {c : Char} (h : c.isDigit = true) : isNumeralChar c = true := by
  simp [isNumeralChar, h]

/-- A word that is no name is a number if it is anything. -/
theorem ofAtom?_of_numeral {cs : List Char} (h : ∀ c ∈ cs, isNumeralChar c = true) :
    ofAtom? (String.ofList cs) = number? cs := by
  have hne : ∀ name : String, (∃ c ∈ name.toList, isNumeralChar c = false) →
      String.ofList cs ≠ name := by
    rintro name ⟨c, hc, hnot⟩ rfl
    rw [String.toList_ofList] at hc
    rw [h c hc] at hnot
    cases hnot
  rw [ofAtom?, if_neg (hne "true" ⟨'t', by decide, rfl⟩),
    if_neg (hne "false" ⟨'f', by decide, rfl⟩), if_neg (hne "null" ⟨'n', by decide, rfl⟩),
    String.toList_ofList]

theorem number?_of_mark {cs : List Char} (hstart : startsNumeral cs = true)
    (h : ∀ c ∈ cs, isNumeralChar c = true) {mark : Char} (hmem : mark ∈ cs)
    (hmark : isFloatMark mark = true) : number? cs = float? cs := by
  rw [number?, hstart, List.all_eq_true.2 h, List.any_eq_true.2 ⟨mark, hmem, hmark⟩]
  rfl

theorem number?_of_no_mark {cs : List Char} (hstart : startsNumeral cs = true)
    (h : ∀ c ∈ cs, isNumeralChar c = true) (hmark : ∀ c ∈ cs, isFloatMark c = false)
    {n : Int64} (hn : Numeral.signed? cs = some n) : number? cs = some (.integer n) := by
  have hany : cs.any isFloatMark = false := by
    rw [List.any_eq_false]
    intro c hc
    simp [hmark c hc]
  rw [number?, hstart, List.all_eq_true.2 h, hany, hn]
  rfl

theorem isFloatMark_of_isDigit {c : Char} (h : c.isDigit = true) : isFloatMark c = false := by
  cases hc : isFloatMark c with
  | false => rfl
  | true =>
      simp only [isFloatMark, Bool.or_eq_true, beq_iff_eq] at hc
      rcases hc with (rfl | rfl) | rfl
      all_goals cases h

theorem startsNumeral_cons {c : Char} (h : c.isDigit = true) (cs : List Char) :
    startsNumeral (c :: cs) = true := by
  rw [startsNumeral, h]
  rfl

theorem isWord_integer (n : Int64) : IsWord (write (.integer n)) (.integer n) := by
  obtain ⟨hstart, hchars⟩ : startsNumeral (Numeral.ofSigned n) = true ∧
      ∀ c ∈ Numeral.ofSigned n, c = '-' ∨ c.isDigit = true := by
    rw [Numeral.ofSigned]
    cases n.toInt with
    | ofNat k =>
        obtain ⟨c, cs, hcs, hc⟩ := Numeral.digits_eq_cons k
        refine ⟨?_, fun d hd => .inr (Numeral.isDigit_of_mem_digits hd)⟩
        rw [Numeral.ofInt, hcs]
        exact startsNumeral_cons hc cs
    | negSucc k =>
        refine ⟨rfl, fun d hd => ?_⟩
        rcases List.mem_cons.1 hd with rfl | hd
        · exact .inl rfl
        · exact .inr (Numeral.isDigit_of_mem_digits hd)
  have hnumeral : ∀ c ∈ Numeral.ofSigned n, isNumeralChar c = true := by
    intro c hc
    rcases hchars c hc with rfl | hdigit
    · rfl
    · exact isNumeralChar_of_isDigit hdigit
  have hmarks : ∀ c ∈ Numeral.ofSigned n, isFloatMark c = false := by
    intro c hc
    rcases hchars c hc with rfl | hdigit
    · rfl
    · exact isFloatMark_of_isDigit hdigit
  rw [write]
  refine ⟨?_, fun c hc => isAtomChar_of_isNumeralChar (hnumeral c hc), ?_⟩
  · rintro hnil
    rw [hnil] at hstart
    cases hstart
  · rw [ofAtom?_of_numeral hnumeral]
    exact number?_of_no_mark hstart hnumeral hmarks (Numeral.signed?_ofSigned n)

theorem isWord_float {x : Binary64} (h : x.isFinite = true) : IsWord (writeFloat x) (.float x) := by
  have hread := float?_writeFloat h
  obtain ⟨whole, fraction, htext, hspells⟩ := writeFloat_eq h
  have hwhole := Numeral.isDigit_of_isDigits hspells.isWhole
  have hfraction := Numeral.isDigit_of_isDigits hspells.isFraction
  have hchars : ∀ c ∈ writeFloat x, isNumeralChar c = true := by
    intro c hc
    rw [htext, List.mem_append, List.mem_append, List.mem_cons] at hc
    rcases hc with (hsign | hc) | rfl | hc
    · rw [Decimal.sign] at hsign
      split at hsign
      · rw [List.mem_singleton.1 hsign]
        rfl
      · cases hsign
    · exact isNumeralChar_of_isDigit (hwhole c hc)
    · rfl
    · exact isNumeralChar_of_isDigit (hfraction c hc)
  have hstart : startsNumeral (writeFloat x) = true := by
    rw [htext, Decimal.sign]
    cases x.isNegative with
    | true => rfl
    | false =>
        cases whole with
        | nil => cases hspells.isWhole
        | cons c cs => exact startsNumeral_cons (hwhole c List.mem_cons_self) _
  have hpoint : '.' ∈ writeFloat x := by
    rw [htext]
    simp
  refine ⟨List.ne_nil_of_mem hpoint, fun c hc => isAtomChar_of_isNumeralChar (hchars c hc), ?_⟩
  rw [ofAtom?_of_numeral hchars, number?_of_mark hstart hchars hpoint rfl, hread]

end LspClient.Json
