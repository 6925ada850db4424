import LspClient.Json.Standard
import LspClient.Proofs.Json.Words

/-!
# The strict grammar

JSON as RFC 8259 has it: which texts there are, and what each of them says. The rules are
those of the standard, quoted where they are stated. Classes of characters apart, they share
nothing with the readers. What a text says is a datum, where numbers are exact and where
objects may repeat keys; how a datum is represented is another matter.

The grammar has more than one derivation for most texts, since blanks around a structural
character may count to it or to what is next to it. What a text says does not depend on
that (`IsText.unique`). The proof compares two derivations from the left, up to blanks. The
first character that is not blank tells which rule both of them use, and the induction is
over the length of the text. Numbers and strings are compared through the reader: it takes more
than the standard allows, but what the standard allows it reads as the standard says.
-/

namespace LspClient.Json.Strict

open Standard (isBlank skipBlanks)

/-- What a text says. -/
inductive Datum where
  | null
  | bool (b : Bool)
  | number (d : Decimal)
  | string (s : String)
  | array (items : List Datum)
  | object (members : List (String × Datum))

/-! ## The grammar -/

/-- `ws = *( %x20 / %x09 / %x0A / %x0D )` -/
def Blanks (cs : List Char) : Prop :=
  ∀ c ∈ cs, isBlank c = true

/-- A structural character, such as `begin-array = ws %x5B ws`. -/
inductive Structural (c : Char) : List Char → Prop
  | intro {before after : List Char} (hbefore : Blanks before) (hafter : Blanks after) :
      Structural c (before ++ c :: after)

/-! ### Numbers -/

/-- `int = zero / ( digit1-9 *DIGIT )` -/
inductive Whole : List Char → Prop
  | zero : Whole ['0']
  | digits {c : Char} {cs : List Char} (hc : c.isDigit = true) (hne : c ≠ '0')
      (hcs : ∀ d ∈ cs, d.isDigit = true) : Whole (c :: cs)

/-- `[ frac ]` with `frac = decimal-point 1*DIGIT`, and the digits behind the point. -/
inductive Fraction : List Char → List Char → Prop
  | absent : Fraction [] []
  | digits {ds : List Char} (h : Numeral.isDigits ds = true) : Fraction ('.' :: ds) ds

/-- `[ exp ]` with `exp = e [ minus / plus ] 1*DIGIT`, and the power. -/
inductive Power : List Char → Int → Prop
  | absent : Power [] 0
  | digits {mark : Char} {ds : List Char} (hmark : mark = 'e' ∨ mark = 'E')
      (h : Numeral.isDigits ds = true) : Power (mark :: ds) (Numeral.value ds)
  | plus {mark : Char} {ds : List Char} (hmark : mark = 'e' ∨ mark = 'E')
      (h : Numeral.isDigits ds = true) : Power (mark :: '+' :: ds) (Numeral.value ds)
  | minus {mark : Char} {ds : List Char} (hmark : mark = 'e' ∨ mark = 'E')
      (h : Numeral.isDigits ds = true) : Power (mark :: '-' :: ds) (-(Numeral.value ds : Int))

/-- `number = [ minus ] int [ frac ] [ exp ]` -/
inductive Number : List Char → Decimal → Prop
  | intro (negative : Bool) {whole point fraction mark : List Char} {power : Int}
      (hwhole : Whole whole) (hfraction : Fraction point fraction) (hpower : Power mark power) :
      Number (Decimal.sign negative ++ whole ++ point ++ mark)
        ⟨negative, Numeral.value (whole ++ fraction), power - fraction.length⟩

/-! ### Strings -/

/-- `char`, and the character that it stands for. Half of a surrogate pair stands for
nothing. -/
inductive Spelling : List Char → Char → Prop
  /-- `unescaped = %x20-21 / %x23-5B / %x5D-10FFFF` -/
  | plain {c : Char} (hcontrol : ' ' ≤ c) (hquote : c ≠ '"') (hescape : c ≠ '\\') : Spelling [c] c
  | quote : Spelling ['\\', '"'] '"'
  | backslash : Spelling ['\\', '\\'] '\\'
  | slash : Spelling ['\\', '/'] '/'
  | backspace : Spelling ['\\', 'b'] '\x08'
  | formFeed : Spelling ['\\', 'f'] '\x0c'
  | lineFeed : Spelling ['\\', 'n'] '\n'
  | carriageReturn : Spelling ['\\', 'r'] '\r'
  | tab : Spelling ['\\', 't'] '\t'
  /-- `%x75 4HEXDIG` -/
  | numeric {a b c d : Char} {n : Nat} (h : Quoted.hex4? [a, b, c, d] = some n)
      (hhigh : Quoted.isHighSurrogate n = false) (hlow : Quoted.isLowSurrogate n = false) :
      Spelling ['\\', 'u', a, b, c, d] (Char.ofNat n)
  /-- `%x75 4HEXDIG` twice -/
  | pair {a b c d a' b' c' d' : Char} {high low : Nat}
      (h : Quoted.hex4? [a, b, c, d] = some high) (h' : Quoted.hex4? [a', b', c', d'] = some low)
      (hhigh : Quoted.isHighSurrogate high = true) (hlow : Quoted.isLowSurrogate low = true) :
      Spelling ['\\', 'u', a, b, c, d, '\\', 'u', a', b', c', d']
        (Quoted.ofSurrogates high low)

/-- `*char` -/
inductive Content : List Char → List Char → Prop
  | nil : Content [] []
  | cons {unit others : List Char} {c : Char} {text : List Char} (hunit : Spelling unit c)
      (hothers : Content others text) : Content (unit ++ others) (c :: text)

/-- `string = quotation-mark *char quotation-mark` -/
inductive Quotation : List Char → String → Prop
  | intro {content text : List Char} (h : Content content text) :
      Quotation ('"' :: content ++ ['"']) (String.ofList text)

/-! ### Values -/

/-- `*( value-separator part )` -/
inductive Others {α : Type} (IsPart : List Char → α → Prop) : List Char → List α → Prop
  | nil : Others IsPart [] []
  | cons {comma next others : List Char} {a : α} {as : List α} (hcomma : Structural ',' comma)
      (hnext : IsPart next a) (hothers : Others IsPart others as) :
      Others IsPart (comma ++ next ++ others) (a :: as)

/-- `[ part *( value-separator part ) ]` -/
inductive Row {α : Type} (IsPart : List Char → α → Prop) : List Char → List α → Prop
  | empty : Row IsPart [] []
  | parts {first others : List Char} {a : α} {as : List α} (hfirst : IsPart first a)
      (hothers : Others IsPart others as) : Row IsPart (first ++ others) (a :: as)

mutual

/-- `value = false / null / true / object / array / number / string` -/
inductive IsValue : List Char → Datum → Prop
  | false : IsValue ['f', 'a', 'l', 's', 'e'] (.bool false)
  | null : IsValue ['n', 'u', 'l', 'l'] .null
  | true : IsValue ['t', 'r', 'u', 'e'] (.bool true)
  /-- `object = begin-object [ member *( value-separator member ) ] end-object` -/
  | object {opening content closing : List Char} {members : List (String × Datum)}
      (hopening : Structural '{' opening) (hcontent : Row IsMember content members)
      (hclosing : Structural '}' closing) :
      IsValue (opening ++ content ++ closing) (.object members)
  /-- `array = begin-array [ value *( value-separator value ) ] end-array` -/
  | array {opening content closing : List Char} {items : List Datum}
      (hopening : Structural '[' opening) (hcontent : Row IsValue content items)
      (hclosing : Structural ']' closing) :
      IsValue (opening ++ content ++ closing) (.array items)
  | number {cs : List Char} {d : Decimal} (h : Number cs d) : IsValue cs (.number d)
  | string {cs : List Char} {s : String} (h : Quotation cs s) : IsValue cs (.string s)

/-- `member = string name-separator value` -/
inductive IsMember : List Char → String × Datum → Prop
  | intro {name colon value : List Char} {key : String} {d : Datum} (hname : Quotation name key)
      (hcolon : Structural ':' colon) (hvalue : IsValue value d) :
      IsMember (name ++ colon ++ value) (key, d)

end

/-- `JSON-text = ws value ws` -/
inductive IsText : List Char → Datum → Prop
  | intro {before value after : List Char} {d : Datum} (hbefore : Blanks before)
      (hvalue : IsValue value d) (hafter : Blanks after) : IsText (before ++ value ++ after) d

/-! ## Numbers by the reader -/

theorem Whole.isDigits {whole : List Char} (h : Whole whole) : Numeral.isDigits whole = true := by
  cases h with
  | zero => rfl
  | digits hc _ hcs =>
      exact Numeral.isDigits_of_forall (List.cons_ne_nil _ _) (List.forall_mem_cons.2 ⟨hc, hcs⟩)

theorem Whole.head {whole : List Char} (h : Whole whole) (rest : List Char) :
    ∃ c others, whole ++ rest = c :: others ∧ c.isDigit = true := by
  cases h with
  | zero => exact ⟨_, _, rfl, rfl⟩
  | digits hc _ _ => exact ⟨_, _, rfl, hc⟩

theorem Power.head {mark : List Char} {power : Int} (h : Power mark power) :
    ∀ c ∈ mark.head?, c = 'e' ∨ c = 'E' := by
  cases h with
  | absent => nofun
  | digits hmark _ | plus hmark _ | minus hmark _ =>
      rintro c ⟨⟩
      exact hmark

theorem exponent?_power {mark : List Char} {power : Int} (h : Power mark power) :
    Decimal.exponent? mark = some power := by
  cases h with
  | absent => rfl
  | digits hmark h =>
      have hdigits := Numeral.isDigit_of_isDigits h
      rw [Decimal.exponent?, if_pos hmark]
      · simp [Numeral.natural?, h]
      · rintro rest rfl
        exact absurd (hdigits '-' List.mem_cons_self) (by decide)
      · rintro rest rfl
        exact absurd (hdigits '+' List.mem_cons_self) (by decide)
  | plus hmark h =>
      rw [Decimal.exponent?, if_pos hmark]
      simp [Numeral.natural?, h]
  | minus hmark h =>
      rw [Decimal.exponent?, if_pos hmark]
      simp [Numeral.natural?, h]

/-- Digits around a point and a power, of which each may be missing, but not all digits. -/
theorem unsigned?_parts {whole point fraction mark : List Char} {power : Int}
    (hwhole : ∀ c ∈ whole, c.isDigit = true) (hfraction : ∀ c ∈ fraction, c.isDigit = true)
    (hpoint : point = [] ∧ fraction = [] ∨ point = '.' :: fraction)
    (hdigits : whole ++ fraction ≠ []) (hpower : Power mark power) :
    Decimal.unsigned? (whole ++ (point ++ mark)) =
      some (Numeral.value (whole ++ fraction), power - fraction.length) := by
  have hmark : ∀ c ∈ mark.head?, c.isDigit = false := by
    intro c hc
    rcases hpower.head c hc with rfl | rfl <;> rfl
  have hhead : ∀ c ∈ (point ++ mark).head?, c.isDigit = false := by
    rcases hpoint with ⟨rfl, -⟩ | rfl
    · exact hmark
    · rintro c ⟨⟩
      rfl
  have hnonempty : (whole.isEmpty && fraction.isEmpty) = false := by
    simpa [Bool.and_eq_false_iff, ← not_and_or] using hdigits
  rw [Decimal.unsigned?, takeWhile_of_head hwhole hhead, dropWhile_of_head hwhole hhead]
  rcases hpoint with ⟨rfl, rfl⟩ | rfl
  · dsimp only [List.nil_append]
    split
    · rcases hpower.head '.' rfl with h | h <;> cases h
    · simp only [hnonempty, Bool.false_eq_true, if_false, exponent?_power hpower, Option.map_some]
  · simp only [List.cons_append, takeWhile_of_head hfraction hmark,
      dropWhile_of_head hfraction hmark, hnonempty, Bool.false_eq_true, if_false,
      exponent?_power hpower, Option.map_some]

theorem Fraction.parts {point fraction : List Char} (h : Fraction point fraction) :
    (∀ c ∈ fraction, c.isDigit = true) ∧
      (point = [] ∧ fraction = [] ∨ point = '.' :: fraction) := by
  cases h with
  | absent => exact ⟨List.forall_mem_nil _, .inl ⟨rfl, rfl⟩⟩
  | digits h => exact ⟨Numeral.isDigit_of_isDigits h, .inr rfl⟩

theorem unsigned?_number {whole point fraction mark : List Char} {power : Int}
    (hwhole : Whole whole) (hfraction : Fraction point fraction) (hpower : Power mark power) :
    Decimal.unsigned? (whole ++ (point ++ mark)) =
      some (Numeral.value (whole ++ fraction), power - fraction.length) := by
  have hdigits : whole ++ fraction ≠ [] := by
    cases hwhole with
    | zero | digits => exact List.cons_ne_nil _ _
  obtain ⟨hbehind, hpoint⟩ := hfraction.parts
  exact unsigned?_parts (Numeral.isDigit_of_isDigits hwhole.isDigits) hbehind hpoint hdigits hpower

/-- A number of the standard is read as the number that it denotes. -/
theorem read?_number {cs : List Char} {d : Decimal} (h : Number cs d) :
    Decimal.read? cs = some d := by
  obtain ⟨negative, hwhole, hfraction, hpower⟩ := h
  obtain ⟨c, others, hbody, hc⟩ := hwhole.head _
  rw [List.append_assoc, List.append_assoc, Decimal.read?_sign negative hbody hc,
    unsigned?_number hwhole hfraction hpower]
  rfl

theorem isNumeralChar_of_digits {ds : List Char} (h : ∀ c ∈ ds, c.isDigit = true) :
    ∀ c ∈ ds, isNumeralChar c = true :=
  fun c hc => isNumeralChar_of_isDigit (h c hc)

theorem Power.chars {mark : List Char} {power : Int} (h : Power mark power) :
    ∀ c ∈ mark, isNumeralChar c = true := by
  have hmark {mark : Char} (h : mark = 'e' ∨ mark = 'E') : isNumeralChar mark = true := by
    rcases h with rfl | rfl <;> rfl
  have hdigits {ds : List Char} (h : Numeral.isDigits ds = true) :=
    isNumeralChar_of_digits (Numeral.isDigit_of_isDigits h)
  cases h with
  | absent => exact List.forall_mem_nil _
  | digits h hds => exact List.forall_mem_cons.2 ⟨hmark h, hdigits hds⟩
  | plus h hds | minus h hds =>
      exact List.forall_mem_cons.2 ⟨hmark h, List.forall_mem_cons.2 ⟨rfl, hdigits hds⟩⟩

theorem sign_chars (negative : Bool) : ∀ c ∈ Decimal.sign negative, isNumeralChar c = true := by
  cases negative with
  | true => exact List.forall_mem_singleton.2 rfl
  | false => exact List.forall_mem_nil _

theorem Number.chars {cs : List Char} {d : Decimal} (h : Number cs d) :
    ∀ c ∈ cs, isNumeralChar c = true := by
  obtain ⟨negative, hwhole, hfraction, hpower⟩ := h
  have hwhole := isNumeralChar_of_digits (Numeral.isDigit_of_isDigits hwhole.isDigits)
  refine List.forall_mem_append.2 ⟨List.forall_mem_append.2 ⟨List.forall_mem_append.2
    ⟨sign_chars negative, hwhole⟩, ?_⟩, hpower.chars⟩
  obtain ⟨hdigits, ⟨rfl, -⟩ | rfl⟩ := hfraction.parts
  · exact List.forall_mem_nil _
  · exact List.forall_mem_cons.2 ⟨rfl, isNumeralChar_of_digits hdigits⟩

/-! ## Strings by the reader -/

theorem escape?_numeric {a b c d : Char} {n : Nat} (h : Quoted.hex4? [a, b, c, d] = some n)
    (hhigh : Quoted.isHighSurrogate n = false) (hlow : Quoted.isLowSurrogate n = false)
    (rest : List Char) :
    Quoted.escape? ('u' :: a :: b :: c :: d :: rest) = some (Char.ofNat n, 5) := by
  have hhex : Quoted.hex4? (a :: b :: c :: d :: rest) = some n := h
  simp [Quoted.escape?, Quoted.numericEscape?, hhex, hhigh, hlow]

theorem escape?_pair {a b c d a' b' c' d' : Char} {high low : Nat}
    (h : Quoted.hex4? [a, b, c, d] = some high) (h' : Quoted.hex4? [a', b', c', d'] = some low)
    (hhigh : Quoted.isHighSurrogate high = true) (hlow : Quoted.isLowSurrogate low = true)
    (rest : List Char) :
    Quoted.escape? ('u' :: a :: b :: c :: d :: '\\' :: 'u' :: a' :: b' :: c' :: d' :: rest) =
      some (Quoted.ofSurrogates high low, 11) := by
  have hhex : Quoted.hex4? (a :: b :: c :: d :: '\\' :: 'u' :: a' :: b' :: c' :: d' :: rest) =
      some high := h
  have hhex' : Quoted.hex4? (a' :: b' :: c' :: d' :: rest) = some low := h'
  simp [Quoted.escape?, Quoted.numericEscape?, hhex, hhex', hhigh, hlow]

theorem read_spelling {unit : List Char} {c : Char} (h : Spelling unit c) (start offset : Nat)
    (said rest : List Char) : ∃ offset', Quoted.read start said offset (unit ++ rest) =
      Quoted.read start (c :: said) offset' rest := by
  cases h with
  | plain _ hquote hescape => exact ⟨_, Quoted.read_plain hquote hescape start offset said rest⟩
  | quote | backslash | slash | backspace | formFeed | lineFeed | carriageReturn | tab =>
      exact ⟨_, Quoted.read_letter (fun _ => rfl) start offset said rest⟩
  | numeric h hhigh hlow =>
      exact ⟨_, Quoted.read_escaped (escape?_numeric h hhigh hlow rest) start offset said⟩
  | pair h h' hhigh hlow =>
      exact ⟨_, Quoted.read_escaped (escape?_pair h h' hhigh hlow rest) start offset said⟩

/-- What is between the quotes by the standard is read as what it stands for. -/
theorem read_content {content text : List Char} (h : Content content text) :
    ∀ (start offset : Nat) (said rest : List Char), ∃ offset',
      Quoted.read start said offset (content ++ '"' :: rest) =
        .ok ⟨said.reverse ++ text, offset', rest⟩ := by
  induction h with
  | nil =>
      intro start offset said rest
      refine ⟨offset + 1, ?_⟩
      rw [List.nil_append, Quoted.read, if_pos rfl, List.append_nil]
  | cons hunit _ ih =>
      intro start offset said rest
      obtain ⟨next, hnext⟩ := read_spelling hunit start offset said (_ ++ '"' :: rest)
      obtain ⟨last, hlast⟩ := ih start next (_ :: said) rest
      refine ⟨last, ?_⟩
      rw [List.append_assoc, hnext, hlast, List.reverse_cons, List.append_assoc]
      rfl

/-! ## The first character -/

theorem eq_of_isBlank {c : Char} (h : isBlank c = true) :
    c = ' ' ∨ c = '\t' ∨ c = '\n' ∨ c = '\r' := by
  simpa only [isBlank, Bool.or_eq_true, beq_iff_eq, or_assoc] using h

theorem skipBlanks_append {before : List Char} (h : Blanks before) (rest : List Char) :
    skipBlanks (before ++ rest) = skipBlanks rest :=
  List.dropWhile_append_of_pos h

theorem skipBlanks_cons {c : Char} (h : isBlank c = false) (rest : List Char) :
    skipBlanks (c :: rest) = c :: rest :=
  List.dropWhile_cons_of_neg (by simp [h])

/-- The first character that is not blank. -/
def Leads (c : Char) (text : List Char) : Prop :=
  ∃ others, skipBlanks text = c :: others

/-- What may follow a value. -/
def Ends (text : List Char) : Prop :=
  ∀ c, Leads c text → c = ',' ∨ c = ']' ∨ c = '}'

theorem Leads.unique {c c' : Char} {text text' : List Char} (h : Leads c text)
    (h' : Leads c' text') (heq : skipBlanks text = skipBlanks text') : c = c' := by
  obtain ⟨others, h⟩ := h
  obtain ⟨others', h'⟩ := h'
  rw [h, h'] at heq
  exact (List.cons.inj heq).1

theorem Leads.ends {c : Char} {text : List Char} (h : Leads c text)
    (hc : c = ',' ∨ c = ']' ∨ c = '}') : Ends text := by
  intro c' hc'
  rwa [hc'.unique h rfl]

theorem ends_blanks {after : List Char} (h : Blanks after) : Ends after := by
  rintro c ⟨others, heq⟩
  rw [← List.append_nil after, skipBlanks_append h] at heq
  cases heq

/-- Nothing that may follow a value continues a number. -/
theorem Ends.head {rest : List Char} (h : Ends rest) :
    ∀ c ∈ rest.head?, isNumeralChar c = false := by
  cases rest with
  | nil => nofun
  | cons c others =>
      rintro _ ⟨⟩
      cases hc : isBlank c with
      | true => rcases eq_of_isBlank hc with rfl | rfl | rfl | rfl <;> rfl
      | false => rcases h c ⟨others, skipBlanks_cons hc others⟩ with rfl | rfl | rfl <;> rfl

theorem Structural.skip {c : Char} {cs : List Char} (h : Structural c cs)
    (hc : isBlank c = false) (rest : List Char) :
    ∃ after, skipBlanks (cs ++ rest) = c :: after ∧ skipBlanks after = skipBlanks rest := by
  obtain ⟨hbefore, hafter⟩ := h
  rw [List.append_assoc, skipBlanks_append hbefore, List.cons_append, skipBlanks_cons hc]
  exact ⟨_, rfl, skipBlanks_append hafter rest⟩

theorem Structural.leads {c : Char} {cs : List Char} (h : Structural c cs)
    (hc : isBlank c = false) (rest : List Char) : Leads c (cs ++ rest) :=
  (h.skip hc rest).imp fun _ h => h.1

theorem Structural.length_pos {c : Char} {cs : List Char} (h : Structural c cs) :
    0 < cs.length := by
  obtain ⟨-, -⟩ := h
  rw [List.length_append, List.length_cons]
  omega

theorem Quotation.skip {cs : List Char} {s : String} (h : Quotation cs s) (rest : List Char) :
    skipBlanks (cs ++ rest) = cs ++ rest := by
  obtain ⟨-⟩ := h
  rfl

theorem Number.starts {cs : List Char} {d : Decimal} (h : Number cs d) (rest : List Char) :
    ∃ c others, cs ++ rest = c :: others ∧ (c = '-' ∨ c.isDigit = true) ∧ isBlank c = false := by
  obtain ⟨negative, hwhole, hfraction, hpower⟩ := h
  cases negative with
  | true => exact ⟨'-', _, rfl, .inl rfl, rfl⟩
  | false =>
      rw [Decimal.sign, if_neg Bool.false_ne_true, List.nil_append, List.append_assoc,
        List.append_assoc]
      obtain ⟨c, others, htext, hc⟩ := hwhole.head _
      refine ⟨c, others, htext, .inr hc, ?_⟩
      cases hblank : isBlank c with
      | true => rcases eq_of_isBlank hblank with rfl | rfl | rfl | rfl <;> cases hc
      | false => rfl

theorem Number.skip {cs : List Char} {d : Decimal} (h : Number cs d) (rest : List Char) :
    skipBlanks (cs ++ rest) = cs ++ rest := by
  obtain ⟨c, others, htext, -, hc⟩ := h.starts rest
  rw [htext, skipBlanks_cons hc]

/-- The rules for a value. -/
inductive Kind where
  | false
  | null
  | true
  | object
  | array
  | number
  | string

def Datum.kind : Datum → Kind
  | .bool false => .false
  | .null => .null
  | .bool true => .true
  | .object _ => .object
  | .array _ => .array
  | .number _ => .number
  | .string _ => .string

/-- The rule for values that start with a character. -/
def kind? (c : Char) : Option Kind :=
  if c = '-' ∨ c.isDigit = true then some .number
  else match c with
    | 'f' => some .false
    | 'n' => some .null
    | 't' => some .true
    | '{' => some .object
    | '[' => some .array
    | '"' => some .string
    | _ => none

theorem IsValue.starts {cs : List Char} {d : Datum} (h : IsValue cs d) (rest : List Char) :
    ∃ c, Leads c (cs ++ rest) ∧ kind? c = some d.kind := by
  cases h with
  | false | null | true => exact ⟨_, ⟨_, rfl⟩, rfl⟩
  | object hopening _ _ =>
      rw [List.append_assoc, List.append_assoc]
      exact ⟨_, hopening.leads rfl _, rfl⟩
  | array hopening _ _ =>
      rw [List.append_assoc, List.append_assoc]
      exact ⟨_, hopening.leads rfl _, rfl⟩
  | string h =>
      obtain ⟨-⟩ := h
      exact ⟨_, ⟨_, rfl⟩, rfl⟩
  | number h =>
      obtain ⟨c, others, htext, hc, -⟩ := h.starts rest
      exact ⟨c, ⟨others, by rw [h.skip, htext]⟩, if_pos hc⟩

theorem IsValue.kind_unique {cs cs' rest rest' : List Char} {d d' : Datum} (h : IsValue cs d)
    (h' : IsValue cs' d') (heq : skipBlanks (cs ++ rest) = skipBlanks (cs' ++ rest')) :
    d.kind = d'.kind := by
  obtain ⟨c, hlead, hkind⟩ := h.starts rest
  obtain ⟨c', hlead', hkind'⟩ := h'.starts rest'
  obtain rfl := hlead.unique hlead' heq
  exact Option.some.inj (hkind.symm.trans hkind')

/-! ## One meaning -/

theorem Structural.unique {c : Char} {cs cs' rest rest' : List Char} (h : Structural c cs)
    (h' : Structural c cs') (hc : isBlank c = false)
    (heq : skipBlanks (cs ++ rest) = skipBlanks (cs' ++ rest')) :
    skipBlanks rest = skipBlanks rest' := by
  obtain ⟨after, htext, hafter⟩ := h.skip hc rest
  obtain ⟨after', htext', hafter'⟩ := h'.skip hc rest'
  rw [htext, htext'] at heq
  rw [← hafter, (List.cons.inj heq).2, hafter']

theorem Number.unique {cs cs' rest rest' : List Char} {d d' : Decimal} (h : Number cs d)
    (h' : Number cs' d') (hrest : Ends rest) (hrest' : Ends rest')
    (heq : cs ++ rest = cs' ++ rest') : d = d' ∧ rest = rest' := by
  have hcs : cs = cs' := by
    rw [← takeWhile_of_head h.chars hrest.head, heq, takeWhile_of_head h'.chars hrest'.head]
  subst hcs
  have hd : some d = some d' := by rw [← read?_number h, read?_number h']
  exact ⟨Option.some.inj hd, List.append_cancel_left heq⟩

theorem Quotation.unique {cs cs' rest rest' : List Char} {s s' : String} (h : Quotation cs s)
    (h' : Quotation cs' s') (heq : cs ++ rest = cs' ++ rest') : s = s' ∧ rest = rest' := by
  cases h with
  | @intro content text hcontent =>
  cases h' with
  | @intro content' text' hcontent' =>
  have hrest : content ++ '"' :: rest = content' ++ '"' :: rest' := by
    simpa only [List.cons_append, List.append_assoc, List.cons.injEq, true_and, List.nil_append]
      using heq
  obtain ⟨offset, hread⟩ := read_content hcontent 0 0 [] rest
  obtain ⟨offset', hread'⟩ := read_content hcontent' 0 0 [] rest'
  rw [hrest, hread'] at hread
  cases hread
  exact ⟨rfl, rfl⟩

theorem skipBlanks_unique {word rest rest' : List Char}
    (hword : ∀ after, skipBlanks (word ++ after) = word ++ after)
    (heq : skipBlanks (word ++ rest) = skipBlanks (word ++ rest')) :
    skipBlanks rest = skipBlanks rest' := by
  rw [hword, hword] at heq
  rw [List.append_cancel_left heq]

/-- Whatever else starts the same text says the same, and so does what follows it, up to
blanks. -/
def UniqueAt {α : Type} (IsPart : List Char → α → Prop) (cs : List Char) : Prop :=
  ∀ ⦃cs' rest rest' : List Char⦄ ⦃a a' : α⦄, IsPart cs a → IsPart cs' a' → Ends rest →
    Ends rest' → skipBlanks (cs ++ rest) = skipBlanks (cs' ++ rest') →
      a = a' ∧ skipBlanks rest = skipBlanks rest'

section Rows

variable {α : Type} {IsPart : List Char → α → Prop} {close : Char} {cs cs' rest rest' : List Char}
  {as as' : List α}

theorem Others.ends (h : Others IsPart cs as) (hclose : close = ']' ∨ close = '}')
    (hrest : Leads close rest) : Ends (cs ++ rest) := by
  cases h with
  | nil => exact hrest.ends (.inr hclose)
  | cons hcomma _ _ =>
      rw [List.append_assoc, List.append_assoc]
      exact (hcomma.leads rfl _).ends (.inl rfl)

theorem Others.unique (h : Others IsPart cs as) : ∀ {cs' as' rest rest'},
    (∀ part, part.length ≤ cs.length → UniqueAt IsPart part) → Others IsPart cs' as' →
      (close = ']' ∨ close = '}') → Leads close rest → Leads close rest' →
        skipBlanks (cs ++ rest) = skipBlanks (cs' ++ rest') →
          as = as' ∧ skipBlanks rest = skipBlanks rest' := by
  induction h with
  | nil =>
      intro cs' as' rest rest' _ h' hclose hrest _ heq
      cases h' with
      | nil => exact ⟨rfl, heq⟩
      | cons hcomma' _ _ =>
          -- a bracket is no comma
          simp only [List.append_assoc] at heq
          have hcomma := hrest.unique (hcomma'.leads rfl _) heq
          rcases hclose with rfl | rfl <;> cases hcomma
  | cons hcomma hnext hothers ih =>
      intro cs' as' rest rest' hparts h' hclose hrest hrest' heq
      simp only [List.append_assoc] at heq
      simp only [List.length_append] at hparts
      cases h' with
      | nil =>
          have hcomma := (hcomma.leads rfl _).unique hrest' heq
          rcases hclose with rfl | rfl <;> cases hcomma
      | cons hcomma' hnext' hothers' =>
          simp only [List.append_assoc] at heq
          obtain ⟨rfl, hend⟩ := hparts _ (by omega) hnext hnext' (hothers.ends hclose hrest)
            (hothers'.ends hclose hrest') (hcomma.unique hcomma' rfl heq)
          obtain ⟨rfl, hlast⟩ := ih (fun part hpart => hparts part (by omega)) hothers' hclose
            hrest hrest' hend
          exact ⟨rfl, hlast⟩

theorem Row.unique (h : Row IsPart cs as) (h' : Row IsPart cs' as')
    (hparts : ∀ part, part.length ≤ cs.length → UniqueAt IsPart part)
    (hstart : ∀ {part a after}, IsPart part a → ¬ Leads close (part ++ after))
    (hclose : close = ']' ∨ close = '}') (hrest : Leads close rest) (hrest' : Leads close rest')
    (heq : skipBlanks (cs ++ rest) = skipBlanks (cs' ++ rest')) :
    as = as' ∧ skipBlanks rest = skipBlanks rest' := by
  cases h with
  | empty =>
      cases h' with
      | empty => exact ⟨rfl, heq⟩
      | parts hfirst' _ =>
          -- and no part starts with one
          rw [List.append_assoc, List.nil_append] at heq
          exact absurd (hrest.imp fun _ h => heq ▸ h) (hstart hfirst')
  | parts hfirst hothers =>
      rw [List.append_assoc] at heq
      rw [List.length_append] at hparts
      cases h' with
      | empty => exact absurd (hrest'.imp fun _ h => heq.symm ▸ h) (hstart hfirst)
      | parts hfirst' hothers' =>
          rw [List.append_assoc] at heq
          obtain ⟨rfl, hend⟩ := hparts _ (by omega) hfirst hfirst' (hothers.ends hclose hrest)
            (hothers'.ends hclose hrest') heq
          obtain ⟨rfl, hlast⟩ := hothers.unique (fun part hpart => hparts part (by omega))
            hothers' hclose hrest hrest' hend
          exact ⟨rfl, hlast⟩

end Rows

theorem IsValue.not_leads {cs rest : List Char} {d : Datum} (h : IsValue cs d) :
    ¬ Leads ']' (cs ++ rest) := by
  intro hclose
  obtain ⟨c, hlead, hkind⟩ := h.starts rest
  obtain rfl := hclose.unique hlead rfl
  cases hkind

theorem IsMember.not_leads {cs rest : List Char} {member : String × Datum}
    (h : IsMember cs member) : ¬ Leads '}' (cs ++ rest) := by
  obtain ⟨⟨-⟩, -, -⟩ := h
  intro hclose
  exact absurd (hclose.unique ⟨_, rfl⟩ rfl) (by decide)

theorem uniqueAt_member {cs : List Char}
    (hvalues : ∀ value, value.length < cs.length → UniqueAt IsValue value) :
    UniqueAt IsMember cs := by
  rintro cs' rest rest' - - ⟨hname, hcolon, hvalue⟩ ⟨hname', hcolon', hvalue'⟩ hrest hrest' heq
  have hpos := hcolon.length_pos
  simp only [List.length_append] at hvalues
  simp only [List.append_assoc] at heq
  rw [hname.skip, hname'.skip] at heq
  obtain ⟨rfl, hafter⟩ := hname.unique hname' heq
  obtain ⟨rfl, hend⟩ := hvalues _ (by omega) hvalue hvalue' hrest hrest'
    (hcolon.unique hcolon' rfl (congrArg skipBlanks hafter))
  exact ⟨rfl, hend⟩

/-- Two values of one kind follow the same rule, and the parts of a container are shorter than
the container. -/
theorem uniqueAt_value {cs : List Char}
    (hvalues : ∀ value, value.length < cs.length → UniqueAt IsValue value) :
    UniqueAt IsValue cs := by
  intro cs' rest rest' d d' h h' hrest hrest' heq
  have hkind := h.kind_unique h' heq
  cases h with
  | false =>
      cases h' with
      | false => exact ⟨rfl, skipBlanks_unique (fun _ => rfl) heq⟩
      | _ => cases hkind
  | null =>
      cases h' with
      | null => exact ⟨rfl, skipBlanks_unique (fun _ => rfl) heq⟩
      | _ => cases hkind
  | true =>
      cases h' with
      | true => exact ⟨rfl, skipBlanks_unique (fun _ => rfl) heq⟩
      | _ => cases hkind
  | object hopening hcontent hclosing =>
      cases h' with
      | object hopening' hcontent' hclosing' =>
          have hpos := hopening.length_pos
          simp only [List.length_append] at hvalues
          simp only [List.append_assoc] at heq
          obtain ⟨rfl, hend⟩ := hcontent.unique hcontent'
            (fun part hpart => uniqueAt_member fun value hvalue => hvalues value (by omega))
            IsMember.not_leads (.inr rfl) (hclosing.leads rfl rest) (hclosing'.leads rfl rest')
            (hopening.unique hopening' rfl heq)
          exact ⟨rfl, hclosing.unique hclosing' rfl hend⟩
      | _ => cases hkind
  | array hopening hcontent hclosing =>
      cases h' with
      | array hopening' hcontent' hclosing' =>
          have hpos := hopening.length_pos
          simp only [List.length_append] at hvalues
          simp only [List.append_assoc] at heq
          obtain ⟨rfl, hend⟩ := hcontent.unique hcontent'
            (fun part hpart => hvalues part (by omega)) IsValue.not_leads (.inl rfl)
            (hclosing.leads rfl rest) (hclosing'.leads rfl rest')
            (hopening.unique hopening' rfl heq)
          exact ⟨rfl, hclosing.unique hclosing' rfl hend⟩
      | _ => cases hkind
  | number hnumber =>
      cases h' with
      | number hnumber' =>
          rw [hnumber.skip, hnumber'.skip] at heq
          obtain ⟨rfl, rfl⟩ := hnumber.unique hnumber' hrest hrest' heq
          exact ⟨rfl, rfl⟩
      | _ => cases hkind
  | string hquotation =>
      cases h' with
      | string hquotation' =>
          rw [hquotation.skip, hquotation'.skip] at heq
          obtain ⟨rfl, rfl⟩ := hquotation.unique hquotation' heq
          exact ⟨rfl, rfl⟩
      | _ => cases hkind

theorem uniqueAt_of_length (n : Nat) : ∀ cs, cs.length < n → UniqueAt IsValue cs := by
  induction n with
  | zero => exact fun cs h => absurd h (Nat.not_lt_zero _)
  | succ n ih => exact fun cs h => uniqueAt_value fun value hvalue => ih value (by omega)

/-- A text says one thing at most. -/
theorem IsText.unique {cs : List Char} {d d' : Datum} (h : IsText cs d) (h' : IsText cs d') :
    d = d' := by
  generalize heq : cs = cs' at h'
  obtain ⟨hbefore, hvalue, hafter⟩ := h
  obtain ⟨hbefore', hvalue', hafter'⟩ := h'
  rw [List.append_assoc, List.append_assoc] at heq
  have htext := congrArg skipBlanks heq
  rw [skipBlanks_append hbefore, skipBlanks_append hbefore'] at htext
  exact (uniqueAt_of_length _ _ (Nat.lt_succ_self _) hvalue hvalue' (ends_blanks hafter)
    (ends_blanks hafter') htext).1

end LspClient.Json.Strict
