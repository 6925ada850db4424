import Mathlib.Data.List.Basic
import LspClient.Proofs.Json.Lexemes
import LspClient.Proofs.Text.Slices

/-!
# Cutting octets

A text is held as octets, and cutting it is done there: loops look at one octet after the
other, and what they have passed is taken out as a slice. Nothing in these loops knows of
characters. `Scan.next` is this way of cutting. It has no answer if a slice is asked for
that does not start and end between two characters.

The file proves that this does not happen, and that the items are those of the characters
(`Scan.next_row`). A loop may stop inside a character only if it can tell the octets of one
character apart, and it cannot: all that is looked for is ASCII, and an octet of ASCII is a
character of its own (`forall_mem_encode`). So a loop over octets is a loop over characters,
and a chunk of a literal ends in front of a quote or a backslash and starts behind a quote
or an escape.
-/

namespace LspClient.Json.Scan

open Utf8 (row slice? row_append row_cons)

/-- Space, tab, line feed, form feed and carriage return. -/
def blankOctets : List UInt8 :=
  [0x20, 0x09, 0x0A, 0x0C, 0x0D]

/-- The brackets, the comma, the colon and the quote. -/
def delimiterOctets : List UInt8 :=
  [0x7B, 0x7D, 0x5B, 0x5D, 0x2C, 0x3A, 0x22]

def isBlankOctet (b : UInt8) : Bool :=
  blankOctets.contains b

def isAtomOctet (b : UInt8) : Bool :=
  !isBlankOctet b && !delimiterOctets.contains b

def structuralOctets : List (UInt8 × Token) :=
  [(0x7B, .beginObject), (0x7D, .endObject), (0x5B, .beginArray), (0x5D, .endArray),
    (0x2C, .comma), (0x3A, .colon)]

/-- The octets that may follow a backslash on their own, and what they stand for. -/
def letterOctets : List (UInt8 × Char) :=
  [(0x22, '"'), (0x5C, '\\'), (0x2F, '/'), (0x62, '\x08'), (0x66, '\x0c'), (0x6E, '\n'),
    (0x72, '\r'), (0x74, '\t')]

/-- The first index from one on at which there is no octet of a kind. -/
def skip (kind : UInt8 → Bool) (bs : List UInt8) (i : Nat) : Nat :=
  match _h : bs[i]? with
  | none => i
  | some b => if kind b then skip kind bs (i + 1) else i
termination_by bs.length - i
decreasing_by
  have hlt := (List.getElem?_eq_some_iff.1 _h).1
  omega

def hex4? (bs : List UInt8) (i : Nat) : Option Nat :=
  (slice? bs i (i + 4)).bind fun digits => Quoted.hex4? digits.toList

/-- The character of a numeric escape whose digits start at an index, and the index behind
it. -/
def numeric? (bs : List UInt8) (i : Nat) : Option (Char × Nat) := do
  let high ← hex4? bs i
  if Quoted.isHighSurrogate high then
    if slice? bs (i + 4) (i + 6) ≠ some "\\u" then none
    else
      let low ← hex4? bs (i + 6)
      if Quoted.isLowSurrogate low then some (Quoted.ofSurrogates high low, i + 10) else none
  else if Quoted.isLowSurrogate high then none
  else some (Char.ofNat high, i + 4)

/-- The character of the escape whose backslash is at an index, and the index behind it. -/
def unescape? (bs : List UInt8) (i : Nat) : Option (Char × Nat) := do
  let kind ← bs[i + 1]?
  match letterOctets.lookup kind with
  | some c => some (c, i + 2)
  | none => if kind = 0x75 then numeric? bs (i + 2) else none

theorem lt_of_numeric? {bs : List UInt8} {i j : Nat} {c : Char}
    (h : numeric? bs i = some (c, j)) : i < j := by
  have hbehind : ∀ {d : Char} {k : Nat}, some (d, i + k) = some (c, j) → 0 < k → i < j := by
    intro d k heq hk
    obtain ⟨-, rfl⟩ := Prod.mk.inj (Option.some.inj heq)
    omega
  simp only [numeric?, Option.bind_eq_bind, Option.bind_eq_some_iff] at h
  obtain ⟨high, -, h⟩ := h
  split at h
  · split at h
    · cases h
    obtain ⟨low, -, h⟩ := Option.bind_eq_some_iff.1 h
    split at h
    · exact hbehind h (by decide)
    · cases h
  · split at h
    · cases h
    · exact hbehind h (by decide)

theorem lt_of_unescape? {bs : List UInt8} {i j : Nat} {c : Char}
    (h : unescape? bs i = some (c, j)) : i < j := by
  simp only [unescape?, Option.bind_eq_bind, Option.bind_eq_some_iff] at h
  obtain ⟨kind, -, h⟩ := h
  split at h
  · obtain ⟨-, rfl⟩ := Prod.mk.inj (Option.some.inj h)
    omega
  · split at h
    · have hlt := lt_of_numeric? h
      omega
    · cases h

/-- Reads a literal. What lies in front of `chunk` is in `said` already, and the octets from
there up to `i` stand for themselves. -/
def literal (bs : List UInt8) (start : Nat) (said : String) (chunk i : Nat) :
    Option (Except DecodeError (String × Nat)) :=
  match _h : bs[i]? with
  | none => some (.error (.unterminatedString start))
  | some b =>
    if b = 0x22 then
      (slice? bs chunk i).map fun tail => .ok (said ++ tail, i + 1)
    else if b = 0x5C then
      match slice? bs chunk i with
      | none => none
      | some part =>
        match _hunit : unescape? bs i with
        | none => some (.error (.invalidEscape i))
        | some (c, j) => literal bs start ((said ++ part).push c) j j
    else literal bs start said chunk (i + 1)
termination_by bs.length - i
decreasing_by
  · have hlt := (List.getElem?_eq_some_iff.1 _h).1
    have hunit := lt_of_unescape? _hunit
    omega
  · have hlt := (List.getElem?_eq_some_iff.1 _h).1
    omega

/-- The item that starts at an index, and the index behind it. -/
def item (bs : List UInt8) (start : Nat) : Option (Option (Except DecodeError Located × Nat)) :=
  match bs[start]? with
  | none => some none
  | some b =>
    match structuralOctets.lookup b with
    | some token => some (some (.ok ⟨start, token⟩, start + 1))
    | none =>
      if b = 0x22 then
        (literal bs start "" (start + 1) (start + 1)).map fun
          | .ok (text, stop) => some (.ok ⟨start, .string text⟩, stop)
          | .error e => some (.error e, bs.length)
      else
        let stop := skip isAtomOctet bs start
        (slice? bs start stop).map fun word => some (.ok ⟨start, .atom word⟩, stop)

/-- The next item from an index on. -/
def next (bs : List UInt8) (i : Nat) : Option (Option (Except DecodeError Located × Nat)) :=
  item bs (skip isBlankOctet bs i)

/-! ## Loops over octets and over characters -/

theorem length_row (cs : List Char) : (row cs).length = Token.width cs := by
  induction cs with
  | nil => rfl
  | cons c cs ih =>
      rw [row_cons, List.length_append, String.length_utf8EncodeChar, ih, Token.width]

theorem length_row_append (before cs : List Char) :
    (row (before ++ cs)).length = (row before).length + Token.width cs := by
  rw [row_append, List.length_append, length_row cs]

theorem toNat_of_isBlank {c : Char} (h : Token.isBlank c = true) : c.toNat < 128 := by
  simp only [Token.isBlank, Bool.or_eq_true, beq_iff_eq] at h
  rcases h with (((rfl | rfl) | rfl) | rfl) | rfl
  all_goals decide

theorem toNat_of_not_isAtomChar {c : Char} (h : Token.isAtomChar c = false) : c.toNat < 128 := by
  simp only [Token.isAtomChar, Token.isBlank, Token.isDelimiter, Bool.and_eq_false_iff,
    Bool.not_eq_false', Bool.or_eq_true, beq_iff_eq] at h
  rcases h with ((((rfl | rfl) | rfl) | rfl) | rfl) |
    ((((((rfl | rfl) | rfl) | rfl) | rfl) | rfl) | rfl)
  all_goals decide

theorem isBlankOctet_encode (c : Char) :
    ∀ b ∈ String.utf8EncodeChar c, isBlankOctet b = Token.isBlank c :=
  Utf8.forall_mem_encode false (by decide) (by decide +kernel)
    (fun _ hd => Bool.eq_false_iff.2 fun h => Nat.not_le_of_lt (toNat_of_isBlank h) hd) c

theorem isAtomOctet_encode (c : Char) :
    ∀ b ∈ String.utf8EncodeChar c, isAtomOctet b = Token.isAtomChar c := by
  refine Utf8.forall_mem_encode true (by decide) (by decide +kernel) (fun d hd => ?_) c
  by_contra hatom
  exact Nat.not_le_of_lt (toNat_of_not_isAtomChar (Bool.not_eq_true _ ▸ hatom)) hd

theorem forall_mem_row {p : UInt8 → Bool} {q : Char → Bool}
    (hclass : ∀ c, ∀ b ∈ String.utf8EncodeChar c, p b = q c) {value : Bool} {cs : List Char}
    (h : ∀ c ∈ cs, q c = value) : ∀ b ∈ row cs, p b = value := by
  intro b hb
  obtain ⟨c, hc, hbc⟩ := List.mem_flatMap.1 hb
  rw [hclass c b hbc, h c hc]

theorem head?_row {p : UInt8 → Bool} {q : Char → Bool}
    (hclass : ∀ c, ∀ b ∈ String.utf8EncodeChar c, p b = q c) {value : Bool} {cs : List Char}
    (h : ∀ c ∈ cs.head?, q c = value) : ∀ b ∈ (row cs).head?, p b = value := by
  cases cs with
  | nil => exact nofun
  | cons c cs =>
      obtain ⟨b, bs, hc, -, -⟩ := Utf8.encode_eq_cons c
      rw [row_cons, hc]
      rintro _ ⟨⟩
      rw [hclass c b (by simp [hc]), h c rfl]

theorem getLast?_row {p : UInt8 → Bool} {q : Char → Bool}
    (hclass : ∀ c, ∀ b ∈ String.utf8EncodeChar c, p b = q c) {value : Bool} {cs : List Char}
    (h : ∀ c ∈ cs.getLast?, q c = value) : ∀ b ∈ (row cs).getLast?, p b = value := by
  rcases List.eq_nil_or_concat cs with rfl | ⟨others, c, rfl⟩
  · exact nofun
  · have hc : row [c] = String.utf8EncodeChar c := List.append_nil _
    obtain ⟨d, ds, hcons, -, -⟩ := Utf8.encode_eq_cons c
    rw [List.concat_eq_append] at h ⊢
    rw [row_append, hc]
    intro b hb
    have hmem : b ∈ (String.utf8EncodeChar c).getLast? := by
      rwa [List.getLast?_append_of_ne_nil _ (by simp [hcons])] at hb
    rw [hclass c b (List.mem_of_getLast? hmem), h c List.getLast?_concat]

theorem getElem?_length {α : Type} (as : List α) (a : α) (bs : List α) :
    (as ++ a :: bs)[as.length]? = some a := by
  simp

/-- A loop passes what is of its kind, and stops behind it. -/
theorem skip_append {kind : UInt8 → Bool} {after : List UInt8}
    (hafter : ∀ b ∈ after.head?, kind b = false) :
    ∀ (run before : List UInt8), (∀ b ∈ run, kind b = true) →
      skip kind (before ++ (run ++ after)) before.length = before.length + run.length := by
  intro run
  induction run with
  | nil =>
      intro before _
      rw [List.nil_append, skip]
      split
      · rfl
      · next b hb =>
          rw [List.getElem?_append_right (Nat.le_refl _), Nat.sub_self,
            ← List.head?_eq_getElem?] at hb
          rw [hafter b hb]
          rfl
  | cons b run ih =>
      intro before hrun
      obtain ⟨hb, hrun⟩ := List.forall_mem_cons.1 hrun
      have hnext := ih (before ++ [b]) hrun
      rw [List.append_assoc, List.singleton_append, List.length_append, List.length_singleton]
        at hnext
      rw [skip, List.cons_append]
      split
      · next hnone =>
          rw [getElem?_length] at hnone
          cases hnone
      · next d hd =>
          rw [getElem?_length] at hd
          obtain rfl := Option.some.inj hd
          rw [if_pos hb, hnext, List.length_cons]
          omega

/-- A loop over octets is a loop over characters. -/
theorem skip_row {kind : UInt8 → Bool} {q : Char → Bool}
    (hclass : ∀ c, ∀ b ∈ String.utf8EncodeChar c, kind b = q c) (before cs : List Char) :
    skip kind (row (before ++ cs)) (row before).length =
      (row before).length + (row (cs.takeWhile q)).length := by
  have hrun : ∀ b ∈ row (cs.takeWhile q), kind b = true :=
    forall_mem_row hclass fun c hc => List.mem_takeWhile_imp hc
  have hafter : ∀ b ∈ (row (cs.dropWhile q)).head?, kind b = false :=
    head?_row hclass Cursor.head?_dropWhile
  have hskip := skip_append hafter (row (cs.takeWhile q)) (row before) hrun
  rwa [← row_append, List.takeWhile_append_dropWhile, ← row_append] at hskip

/-! ## Escapes -/

theorem length_row_hex4 {n : Nat} {ds : List Char} (hn : n < 65536) (h : Quoted.IsHex4 n ds) :
    (row ds).length = 4 := by
  rw [length_row, Token.width_ascii (Quoted.ascii_of_isHex4 hn h), Quoted.length_of_isHex4 hn h]

/-- Four digits are read from the octets as from the characters. -/
theorem hex4?_row (before cs : List Char) :
    hex4? (row (before ++ cs)) (row before).length = Quoted.hex4? cs := by
  cases hread : Quoted.hex4? cs with
  | some n =>
      obtain ⟨hn, ds, rest, rfl, hds⟩ := Quoted.hex4?_iff.1 hread
      have hslice := Utf8.slice?_row before ds rest
      rw [length_row_hex4 hn hds] at hslice
      rw [hex4?, hslice, Option.bind_some, String.toList_ofList]
      exact Quoted.hex4?_iff.2 ⟨hn, ds, [], (List.append_nil ds).symm, hds⟩
  | none =>
      rw [hex4?, Option.bind_eq_none_iff]
      intro digits hslice
      obtain ⟨after, rfl, -⟩ := Utf8.slice?_eq_some hslice
      by_contra hsome
      obtain ⟨n, hn⟩ := Option.ne_none_iff_exists'.1 hsome
      obtain ⟨hlt, ds, rest, hdigits, hds⟩ := Quoted.hex4?_iff.1 hn
      rw [hdigits, List.append_assoc,
        Quoted.hex4?_iff.2 ⟨hlt, ds, rest ++ after, rfl, hds⟩] at hread
      cases hread

/-- Two octets are a backslash and a `u` if the characters are. -/
theorem slice?_unit (before cs : List Char) :
    slice? (row (before ++ cs)) (row before).length ((row before).length + 2) = some "\\u" ↔
      ∃ rest, cs = '\\' :: 'u' :: rest := by
  constructor
  · intro h
    obtain ⟨rest, rfl, -⟩ := Utf8.slice?_eq_some h
    exact ⟨rest, rfl⟩
  · rintro ⟨rest, rfl⟩
    exact Utf8.slice?_row before ['\\', 'u'] rest

theorem numeric?_row (before cs : List Char) :
    numeric? (row (before ++ cs)) (row before).length =
      (Quoted.numericEscape? cs).map fun (c, width) => (c, (row before).length + width) := by
  rw [numeric?, hex4?_row, Quoted.numericEscape?]
  cases hread : Quoted.hex4? cs with
  | none => rfl
  | some high =>
      obtain ⟨hhigh, ds, rest, rfl, hds⟩ := Quoted.hex4?_iff.1 hread
      have hlength := length_row_hex4 hhigh hds
      have hunit := slice?_unit (before ++ ds) rest
      have hdrop : (ds ++ rest).drop 4 = rest := by
        rw [← Quoted.length_of_isHex4 hhigh hds, List.drop_left]
      rw [List.append_assoc, row_append before ds, List.length_append, hlength] at hunit
      simp only [Option.bind_eq_bind, Option.bind_some, hdrop]
      split
      · by_cases hfollows : ∃ rest', rest = '\\' :: 'u' :: rest'
        · rw [if_neg (not_not_intro (hunit.2 hfollows))]
          obtain ⟨rest', rfl⟩ := hfollows
          have hlow := hex4?_row (before ++ (ds ++ ['\\', 'u'])) rest'
          have hwidth : (row (before ++ (ds ++ ['\\', 'u']))).length = (row before).length + 6 := by
            rw [row_append, row_append, List.length_append, List.length_append, hlength]
            rfl
          rw [hwidth, List.append_assoc, List.append_assoc, List.cons_append, List.cons_append,
            List.nil_append] at hlow
          rw [hlow]
          change _ = Option.map _ ((Quoted.hex4? rest').bind fun low =>
            if Quoted.isLowSurrogate low then some (Quoted.ofSurrogates high low, 10) else none)
          cases Quoted.hex4? rest' with
          | none => rfl
          | some low =>
              rw [Option.bind_some, Option.bind_some]
              split
              · simp only [Option.map_some]
              · rfl
        · rw [if_pos (mt hunit.1 hfollows)]
          split
          · next rest' => exact absurd ⟨rest', rfl⟩ hfollows
          · rfl
      · split <;> rfl

/-- The characters that may follow a backslash. -/
def escapable : List Char :=
  ['"', '\\', '/', 'b', 'f', 'n', 'r', 't', 'u']

theorem not_escapable {d : Char} (h : d ∉ escapable) : ∀ b ∈ String.utf8EncodeChar d,
    letterOctets.lookup b = none ∧ b ≠ 0x75 := by
  intro b hb
  have hclass := Utf8.forall_mem_encode
    (p := fun b => (letterOctets.lookup b).isNone && b != 0x75)
    (q := fun c => !escapable.contains c) true (by decide) (by decide +kernel)
    (fun c hc => ?_) d b hb
  · rw [show escapable.contains d = false by simpa using h] at hclass
    simpa using hclass
  · have hall : ∀ c ∈ escapable, c.toNat < 128 := by simp [escapable]
    rw [Bool.not_eq_true', ← Bool.not_eq_true, List.contains_iff_mem]
    exact fun hmem => Nat.not_le_of_lt (hall c hmem) hc

theorem escape?_of_not_escapable {d : Char} (h : d ∉ escapable) (cs : List Char) :
    Quoted.escape? (d :: cs) = none := by
  rw [Quoted.escape?.eq_def]
  split
  case h_10 => rfl
  all_goals simp_all [escapable]

theorem unescape?_row (before cs : List Char) :
    unescape? (row (before ++ '\\' :: cs)) (row before).length =
      (Quoted.escape? cs).map fun (c, width) => (c, (row before).length + 1 + width) := by
  have hbefore : before ++ '\\' :: cs = (before ++ ['\\']) ++ cs := by simp
  have hwidth : (row (before ++ ['\\'])).length = (row before).length + 1 := by
    rw [row_append, List.length_append]
    rfl
  have hkind := Utf8.getElem?_row_length (before ++ ['\\']) cs
  rw [← hbefore, hwidth] at hkind
  rw [unescape?, hkind]
  cases cs with
  | nil => rfl
  | cons d cs =>
      obtain ⟨b, bs, hd, -, -⟩ := Utf8.encode_eq_cons d
      rw [row_cons, hd, List.cons_append, List.head?_cons]
      by_cases hd' : d ∈ escapable
      · simp only [escapable, List.mem_cons, List.not_mem_nil, or_false] at hd'
        rcases hd' with rfl | rfl | rfl | rfl | rfl | rfl | rfl | rfl | rfl
        case inr.inr.inr.inr.inr.inr.inr.inr =>
          obtain ⟨rfl, -⟩ := List.cons.inj hd
          have hnumeric := numeric?_row (before ++ ['\\', 'u']) cs
          have hwidth' : (row (before ++ ['\\', 'u'])).length = (row before).length + 2 := by
            rw [row_append, List.length_append]
            rfl
          rw [hwidth', List.append_assoc, List.cons_append, List.cons_append, List.nil_append]
            at hnumeric
          change numeric? _ _ = Option.map _ ((Quoted.numericEscape? cs).map _)
          rw [hnumeric, Option.map_map]
          congr 1
          funext pair
          simp only [Function.comp_apply]
          congr 1
          omega
        all_goals
          obtain ⟨rfl, -⟩ := List.cons.inj hd
          rfl
      · obtain ⟨hletter, hunit⟩ := not_escapable hd' b (by simp [hd])
        rw [escape?_of_not_escapable hd', Option.bind_eq_bind, Option.bind_some, hletter]
        exact if_neg hunit

/-! ## Literals -/

section Steps

variable {bs : List UInt8} {start chunk i : Nat} {said : String}

theorem literal_end (h : bs[i]? = none) :
    literal bs start said chunk i = some (.error (.unterminatedString start)) := by
  rw [literal]
  split
  · rfl
  · next b hb =>
      rw [h] at hb
      cases hb

theorem literal_quote (h : bs[i]? = some 0x22) {tail : String}
    (htail : slice? bs chunk i = some tail) :
    literal bs start said chunk i = some (.ok (said ++ tail, i + 1)) := by
  rw [literal]
  split
  · next hnone =>
      rw [h] at hnone
      cases hnone
  · next b hb =>
      obtain rfl := Option.some.inj (h.symm.trans hb)
      rw [if_pos rfl, htail, Option.map_some]

theorem literal_badEscape (h : bs[i]? = some 0x5C) {part : String}
    (hpart : slice? bs chunk i = some part) (hunit : unescape? bs i = none) :
    literal bs start said chunk i = some (.error (.invalidEscape i)) := by
  rw [literal]
  split
  · next hnone =>
      rw [h] at hnone
      cases hnone
  · next b hb =>
      obtain rfl := Option.some.inj (h.symm.trans hb)
      rw [if_neg (by decide), if_pos rfl, hpart]
      dsimp only
      split
      · rfl
      · next hsome =>
          rw [hunit] at hsome
          cases hsome

theorem literal_escape (h : bs[i]? = some 0x5C) {part : String}
    (hpart : slice? bs chunk i = some part) {c : Char} {j : Nat}
    (hunit : unescape? bs i = some (c, j)) :
    literal bs start said chunk i = literal bs start ((said ++ part).push c) j j := by
  rw [literal]
  split
  · next hnone =>
      rw [h] at hnone
      cases hnone
  · next b hb =>
      obtain rfl := Option.some.inj (h.symm.trans hb)
      rw [if_neg (by decide), if_pos rfl, hpart]
      dsimp only
      split
      · next hnone =>
          rw [hunit] at hnone
          cases hnone
      · next c' j' hsome =>
          obtain ⟨rfl, rfl⟩ := Prod.mk.inj (Option.some.inj (hunit.symm.trans hsome))
          rfl

theorem literal_plain {b : UInt8} (h : bs[i]? = some b) (hquote : b ≠ 0x22) (hescape : b ≠ 0x5C) :
    literal bs start said chunk i = literal bs start said chunk (i + 1) := by
  rw [literal]
  split
  · next hnone =>
      rw [h] at hnone
      cases hnone
  · next b' hb =>
      obtain rfl := Option.some.inj (h.symm.trans hb)
      rw [if_neg hquote, if_neg hescape]

end Steps

/-- A character that stands for itself is passed octet by octet. -/
theorem literal_passes (start chunk : Nat) (said : String) (after : List UInt8) :
    ∀ (run before : List UInt8), (∀ b ∈ run, b ≠ 0x22 ∧ b ≠ 0x5C) →
      literal (before ++ (run ++ after)) start said chunk before.length =
        literal (before ++ (run ++ after)) start said chunk (before.length + run.length) := by
  intro run
  induction run with
  | nil => exact fun _ _ => rfl
  | cons b run ih =>
      intro before hrun
      obtain ⟨hb, hrun⟩ := List.forall_mem_cons.1 hrun
      have hnext := ih (before ++ [b]) hrun
      rw [List.append_assoc, List.singleton_append, List.length_append, List.length_singleton]
        at hnext
      rw [List.cons_append, literal_plain (getElem?_length _ _ _) hb.1 hb.2, hnext,
        List.length_cons, Nat.add_assoc, Nat.add_comm 1]

theorem encode_plain {c : Char} (hquote : c ≠ '"') (hescape : c ≠ '\\') :
    ∀ b ∈ String.utf8EncodeChar c, b ≠ 0x22 ∧ b ≠ 0x5C := by
  intro b hb
  have hclass := Utf8.forall_mem_encode (p := fun b => b != 0x22 && b != 0x5C)
    (q := fun c => c != '"' && c != '\\') true (by decide) (by decide +kernel)
    (fun d hd => ?_) c b hb
  · rw [show (c != '"' && c != '\\') = true by simp [hquote, hescape]] at hclass
    simpa using hclass
  · have hne : d ≠ '"' ∧ d ≠ '\\' := by
      constructor
      all_goals
        rintro rfl
        exact absurd hd (by decide)
    simpa using hne

theorem getElem?_row_part (before part cs : List Char) :
    (row (before ++ (part ++ cs)))[(row (before ++ part)).length]? = (row cs).head? := by
  rw [← List.append_assoc, Utf8.getElem?_row_length]

theorem slice?_part (before part cs : List Char) :
    slice? (row (before ++ (part ++ cs))) (row before).length (row (before ++ part)).length =
      some (String.ofList part) := by
  rw [row_append before part, List.length_append, Utf8.slice?_row]

/-- A literal is read from the octets as from the characters. -/
theorem literal_row {start offset : Nat} {rev cs : List Char} : ∀ (before part : List Char)
    (said : String), rev = (said.toList ++ part).reverse → offset = (row (before ++ part)).length →
    literal (row (before ++ (part ++ cs))) start said (row before).length offset =
      some ((Quoted.read start rev offset cs).map fun reading =>
        (String.ofList reading.text, reading.offset)) := by
  fun_induction Quoted.read start rev offset cs with
  | case1 rev offset =>
      rintro before part said rfl rfl
      exact literal_end (getElem?_row_part before part [])
  | case2 rev offset cs =>
      rintro before part said rfl rfl
      rw [literal_quote (getElem?_row_part before part _) (slice?_part before part _)]
      dsimp only [Except.map]
      rw [List.reverse_reverse, String.ofList_append, String.ofList_toList]
  | case3 rev offset cs hnone =>
      rintro before part said rfl rfl
      have hunit := unescape?_row (before ++ part) cs
      rw [List.append_assoc, hnone, Option.map_none] at hunit
      exact literal_badEscape (getElem?_row_part before part _) (slice?_part before part _) hunit
  | case4 rev offset cs c width hread _ ih =>
      rintro before part said rfl rfl
      have hunit := unescape?_row (before ++ part) cs
      rw [List.append_assoc, hread, Option.map_some] at hunit
      obtain ⟨tail, rest, rfl, rfl, hescape⟩ := Quoted.isEscape_of_escape? hread
      have hwidth : (row (before ++ part)).length + 1 + tail.length =
          (row (before ++ part ++ '\\' :: tail ++ [])).length := by
        rw [List.append_nil, length_row_append (before ++ part),
          Token.width_ascii (Quoted.ascii_of_isEscape hescape), List.length_cons]
        omega
      have htext : before ++ (part ++ '\\' :: (tail ++ rest)) =
          before ++ part ++ '\\' :: tail ++ ([] ++ rest) := by simp
      have hsaid : c :: (said.toList ++ part).reverse =
          (((said ++ String.ofList part).push c).toList ++ []).reverse := by simp
      rw [literal_escape (getElem?_row_part before part _) (slice?_part before part _) hunit]
      have hrest := ih (before ++ part ++ '\\' :: tail) [] _ hsaid hwidth
      rw [List.drop_left] at hrest ⊢
      rw [htext, ← hrest]
      rw [hwidth, List.append_nil]
  | case5 rev offset c cs hquote hescape ih =>
      rintro before part said rfl rfl
      have hpasses := literal_passes start (row before).length said (row cs)
        (String.utf8EncodeChar c) (row (before ++ part)) (encode_plain hquote hescape)
      have hwidth : (row (before ++ part)).length + c.utf8Size =
          (row (before ++ (part ++ [c]))).length := by
        rw [← List.append_assoc, length_row_append (before ++ part)]
        rfl
      have htext : before ++ (part ++ c :: cs) = before ++ (part ++ [c] ++ cs) := by simp
      have hoctets : row (before ++ (part ++ c :: cs)) =
          row (before ++ part) ++ (String.utf8EncodeChar c ++ row cs) := by simp
      rw [← hoctets, String.length_utf8EncodeChar] at hpasses
      rw [hpasses, htext]
      exact ih before (part ++ [c]) said (by simp) hwidth

/-! ## Items -/

theorem structuralOctets_lookup (c : Char) : ∀ b ∈ String.utf8EncodeChar c,
    structuralOctets.lookup b = Token.structural? c := by
  refine Utf8.forall_mem_encode none (by decide) (by decide +kernel) (fun d hd => ?_) c
  have hall : ∀ pair ∈ Token.structurals, pair.1.toNat < 128 := by decide
  refine Option.eq_none_iff_forall_ne_some.2 fun token htoken => ?_
  exact Nat.not_le_of_lt (hall _ (Token.structural?_iff.1 htoken)) hd

theorem quote_encode (c : Char) : ∀ b ∈ String.utf8EncodeChar c, (b == 0x22) = (c == '"') := by
  refine Utf8.forall_mem_encode (p := (· == 0x22)) (q := (· == '"')) false (by decide)
    (by decide +kernel) (fun d hd => ?_) c
  refine beq_eq_false_iff_ne.2 ?_
  rintro rfl
  exact absurd hd (by decide)

theorem item_row (before : List Char) {cs : List Char}
    (hhead : ∀ c ∈ cs.head?, Token.isBlank c = false) :
    item (row (before ++ cs)) (row before).length =
      some ((Cursor.item? ⟨(row before).length, cs⟩).map fun (item, after) =>
        (item, after.offset)) := by
  rw [item, Utf8.getElem?_row_length]
  cases cs with
  | nil => rfl
  | cons c cs =>
      obtain ⟨b, bs, hc, -, -⟩ := Utf8.encode_eq_cons c
      have hb : b ∈ String.utf8EncodeChar c := by simp [hc]
      rw [row_cons, hc, List.cons_append, List.head?_cons, Cursor.item?]
      dsimp only
      rw [structuralOctets_lookup c b hb]
      cases hstructural : Token.structural? c with
      | some token => rfl
      | none =>
          dsimp only
          have hquote := quote_encode c b hb
          by_cases hc' : c = '"'
          · rw [hc', beq_self_eq_true, beq_iff_eq] at hquote
            subst hc'
            have hopening : (row (before ++ ['"'])).length = (row before).length + 1 := by
              rw [length_row_append]
              rfl
            have hliteral := @literal_row (row before).length _ [] cs (before ++ ['"']) [] "" rfl
              (congrArg (fun cs => (row cs).length) (List.append_nil _).symm)
            rw [List.nil_append, List.append_assoc, List.singleton_append, hopening] at hliteral
            rw [if_pos hquote, if_pos rfl, hliteral]
            cases Quoted.read (row before).length [] ((row before).length + 1) cs with
            | ok reading => rfl
            | error e =>
                rw [length_row_append]
                rfl
          · rw [beq_eq_false_iff_ne.2 hc', beq_eq_false_iff_ne] at hquote
            have hatom := Token.isAtomChar_of (hhead c rfl) hstructural hc'
            have hword := Utf8.slice?_row before (c :: cs.takeWhile Token.isAtomChar)
              (cs.dropWhile Token.isAtomChar)
            rw [List.cons_append, List.takeWhile_append_dropWhile] at hword
            rw [if_neg hquote, if_neg hc', skip_row isAtomOctet_encode,
              List.takeWhile_cons_of_pos hatom, hword, length_row (c :: _)]
            rfl

/-- An item is cut from the octets as from the characters, and no slice is asked for that is
none. -/
theorem next_row (before cs : List Char) :
    next (row (before ++ cs)) (row before).length =
      some ((Cursor.next? ⟨(row before).length, cs⟩).map fun (item, after) =>
        (item, after.offset)) := by
  have hblanks : Token.Blanks (cs.takeWhile Token.isBlank) := fun c hc => List.mem_takeWhile_imp hc
  have hstart : (row before).length + (cs.takeWhile Token.isBlank).length =
      (row (before ++ cs.takeWhile Token.isBlank)).length := by
    rw [length_row_append, hblanks.width]
  have hskip := skip_row isBlankOctet_encode before cs
  rw [length_row (cs.takeWhile Token.isBlank), hblanks.width, hstart] at hskip
  have htext : before ++ cs =
      before ++ cs.takeWhile Token.isBlank ++ cs.dropWhile Token.isBlank := by
    rw [List.append_assoc, List.takeWhile_append_dropWhile]
  rw [next, hskip, htext, item_row _ Cursor.head?_dropWhile, Cursor.next?, Cursor.skipBlanks,
    hstart]

end LspClient.Json.Scan
