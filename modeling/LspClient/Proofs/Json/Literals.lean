import LspClient.Proofs.Json.Tokens
import LspClient.Proofs.Text.Utf8

/-!
# How a string may be written

Between quotes a text may be written in many ways: every character stands for itself, or is
escaped by a letter or by the hexadecimal digits of its code units, whatever was chosen for the
characters around it. `Spells` says so without a word about reading. What is read at a quote is
then one of three things (`read_cases`): a spelling and the closing quote, a spelling and a
backslash that starts no escape, or a spelling that the text ends in.

The only work is in the escapes. An escape is found from its first character on, so what stands
behind it never matters, and that gives both directions: an escape is read as its character
(`escape?_of_isEscape`), and what is read is an escape (`isEscape_of_escape?`).
-/

namespace LspClient.Json

/-! ## Widths -/

namespace Token

theorem width_append (cs ds : List Char) : width (cs ++ ds) = width cs + width ds := by
  induction cs with
  | nil => exact (Nat.zero_add _).symm
  | cons c cs ih => rw [List.cons_append, width, width, ih, Nat.add_assoc]

/-- ASCII is as wide as it is long. -/
theorem width_ascii {cs : List Char} (h : ∀ c ∈ cs, c.toNat < 128) : width cs = cs.length := by
  induction cs with
  | nil => rfl
  | cons c cs ih =>
      obtain ⟨hc, hcs⟩ := List.forall_mem_cons.1 h
      have hsize : c.utf8Size = 1 :=
        Char.utf8Size_eq_one_iff.2 (UInt32.le_iff_toNat_le.2 (Nat.le_of_lt_succ hc))
      rw [width, hsize, ih hcs, List.length_cons, Nat.add_comm]

end Token

namespace Quoted

/-! ## Spellings -/

/-- The code units of a character in UTF-16: its number, or else a high and a low surrogate. -/
def codeUnits (c : Char) : List Nat :=
  if c.toNat < 0x10000 then [c.toNat]
  else [0xD800 + (c.toNat - 0x10000) / 0x400, 0xDC00 + (c.toNat - 0x10000) % 0x400]

/-- Four hexadecimal digits for a number, each of them in either case. -/
def IsHex4 (n : Nat) (ds : List Char) : Prop :=
  ds.map Char.toLower = (Nat.toDigits 16 n).leftpad 4 '0'

/-- Code units by their digits. -/
inductive IsUnits : List Nat → List Char → Prop
  | nil : IsUnits [] []
  | cons {n : Nat} {ds : List Char} {ns : List Nat} {others : List Char} (hunit : IsHex4 n ds)
      (hothers : IsUnits ns others) : IsUnits (n :: ns) ('\\' :: 'u' :: ds ++ others)

/-- The characters that have an escape of one letter. -/
def letters : List (Char × Char) :=
  [('"', '"'), ('\\', '\\'), ('/', '/'), ('\x08', 'b'), ('\x0c', 'f'), ('\n', 'n'), ('\r', 'r'),
    ('\t', 't')]

/-- An escape for a character. -/
inductive IsEscape : Char → List Char → Prop
  | letter {c letter : Char} (h : (c, letter) ∈ letters) : IsEscape c ['\\', letter]
  | numeric {c : Char} {unit : List Char} (h : IsUnits (codeUnits c) unit) : IsEscape c unit

/-- A spelling of a text. Each character is written on its own. -/
inductive Spells : List Char → List Char → Prop
  | nil : Spells [] []
  | raw {c : Char} {others text : List Char} (hquote : c ≠ '"') (hescape : c ≠ '\\')
      (hothers : Spells others text) : Spells (c :: others) (c :: text)
  | escaped {c : Char} {unit others text : List Char} (hunit : IsEscape c unit)
      (hothers : Spells others text) : Spells (unit ++ others) (c :: text)

/-! ## Digits -/

theorem hexDigit?_of_large {c : Char} (h : 128 ≤ c.toNat) : hexDigit? c = none := by
  have hle : ∀ d : Char, d.toNat < 128 → ¬ c ≤ d := fun d hd hcd => by
    have : c.toNat ≤ d.toNat := hcd
    omega
  rw [hexDigit?, if_neg fun hd => hle '9' (by decide) hd.2,
    if_neg fun hd => hle 'f' (by decide) hd.2, if_neg fun hd => hle 'F' (by decide) hd.2]

theorem toLower_of_large {c : Char} (h : 128 ≤ c.toNat) : c.toLower = c := by
  have hz : 'Z'.toNat = 90 := rfl
  refine dif_neg ?_
  rintro ⟨-, hle⟩
  have : c.toNat ≤ 'Z'.toNat := hle
  omega

theorem hexDigit?_toLower (c : Char) : hexDigit? c.toLower = hexDigit? c := by
  have hascii : ∀ n < 128, hexDigit? (Char.ofNat n).toLower = hexDigit? (Char.ofNat n) := by decide
  rcases Nat.lt_or_ge c.toNat 128 with hlt | hge
  · rw [← Char.ofNat_toNat c]
    exact hascii c.toNat hlt
  · rw [toLower_of_large hge]

theorem hexDigit?_iff {c : Char} {n : Nat} :
    hexDigit? c = some n ↔ n < 16 ∧ c.toLower = hexDigit n := by
  constructor
  · intro h
    have hascii : ∀ k < 128, ∀ n ∈ hexDigit? (Char.ofNat k),
        n < 16 ∧ (Char.ofNat k).toLower = hexDigit n := by decide
    rcases Nat.lt_or_ge c.toNat 128 with hlt | hge
    · rw [← Char.ofNat_toNat c] at h ⊢
      exact hascii c.toNat hlt n h
    · rw [hexDigit?_of_large hge] at h
      cases h
  · rintro ⟨hn, hc⟩
    rw [← hexDigit?_toLower, hc, hexDigit?_hexDigit hn]

theorem leftpad_toDigits {n : Nat} (h : n < 65536) : (Nat.toDigits 16 n).leftpad 4 '0' =
    [hexDigit (n / 4096 % 16), hexDigit (n / 256 % 16), hexDigit (n / 16 % 16),
      hexDigit (n % 16)] := by
  have hsmall : ∀ {k : Nat}, k < 16 → Nat.toDigits 16 k = [hexDigit k] := fun hk =>
    Nat.toDigits_of_lt_base hk
  have hlarge : ∀ {k : Nat}, 16 ≤ k →
      Nat.toDigits 16 k = Nat.toDigits 16 (k / 16) ++ [hexDigit (k % 16)] := fun hk => by
    rw [Nat.toDigits_eq_if (by decide), if_neg (Nat.not_lt_of_le hk)]
    rfl
  have hdiv : n / 16 / 16 = n / 256 ∧ n / 256 / 16 = n / 4096 := by omega
  have hzero : hexDigit 0 = '0' := rfl
  by_cases h1 : n < 16
  · rw [hsmall h1, show n / 4096 = 0 by omega, show n / 256 = 0 by omega, show n / 16 = 0 by omega,
      Nat.mod_eq_of_lt h1]
    rfl
  by_cases h2 : n < 256
  · rw [hlarge (by omega), hsmall (by omega), show n / 4096 = 0 by omega, show n / 256 = 0 by omega,
      Nat.mod_eq_of_lt (show n / 16 < 16 by omega)]
    rfl
  by_cases h3 : n < 4096
  · rw [hlarge (by omega), hlarge (by omega), hdiv.1, hsmall (by omega), show n / 4096 = 0 by omega,
      Nat.mod_eq_of_lt (show n / 256 < 16 by omega)]
    rfl
  · rw [hlarge (by omega), hlarge (by omega), hdiv.1, hlarge (by omega), hdiv.2, hsmall (by omega),
      Nat.mod_eq_of_lt (show n / 4096 < 16 by omega)]
    rfl

/-- What starts with four digits is read as their number. -/
theorem hex4?_iff {cs : List Char} {n : Nat} : hex4? cs = some n ↔
    n < 65536 ∧ ∃ ds rest, cs = ds ++ rest ∧ IsHex4 n ds := by
  constructor
  · intro h
    obtain _ | ⟨a, _ | ⟨b, _ | ⟨c, _ | ⟨d, rest⟩⟩⟩⟩ := cs
    case cons.cons.cons.cons =>
      simp only [hex4?, Option.bind_eq_bind, Option.bind_eq_some_iff, Option.pure_def,
        Option.some.injEq, hexDigit?_iff] at h
      obtain ⟨i, ⟨hi, ha⟩, j, ⟨hj, hb⟩, k, ⟨hk, hc⟩, l, ⟨hl, hd⟩, hn⟩ := h
      have hplaces : n / 4096 % 16 = i ∧ n / 256 % 16 = j ∧ n / 16 % 16 = k ∧ n % 16 = l := by
        omega
      have hlt : n < 65536 := by omega
      refine ⟨hlt, [a, b, c, d], rest, rfl, ?_⟩
      rw [IsHex4, leftpad_toDigits hlt, hplaces.1, hplaces.2.1, hplaces.2.2.1, hplaces.2.2.2,
        ← ha, ← hb, ← hc, ← hd]
      rfl
    -- fewer than four characters
    all_goals cases h
  · rintro ⟨hlt, ds, rest, rfl, hds⟩
    rw [IsHex4, leftpad_toDigits hlt] at hds
    obtain ⟨a, ds, rfl, ha, hds⟩ := List.map_eq_cons_iff.1 hds
    obtain ⟨b, ds, rfl, hb, hds⟩ := List.map_eq_cons_iff.1 hds
    obtain ⟨c, ds, rfl, hc, hds⟩ := List.map_eq_cons_iff.1 hds
    obtain ⟨d, ds, rfl, hd, hds⟩ := List.map_eq_cons_iff.1 hds
    have hdigit {c : Char} {k : Nat} (h : c.toLower = hexDigit (k % 16)) :
        hexDigit? c = some (k % 16) := hexDigit?_iff.2 ⟨Nat.mod_lt _ (by decide), h⟩
    simp only [List.cons_append, hex4?, hdigit ha, hdigit hb, hdigit hc, hdigit hd,
      Option.bind_eq_bind, Option.bind_some, Option.pure_def]
    congr 1
    omega

theorem length_of_isHex4 {n : Nat} {ds : List Char} (hn : n < 65536) (h : IsHex4 n ds) :
    ds.length = 4 := by
  rw [← List.length_map Char.toLower, h, leftpad_toDigits hn]
  rfl

/-! ## Code units -/

theorem isHighSurrogate_iff {n : Nat} : isHighSurrogate n = true ↔ 0xD800 ≤ n ∧ n ≤ 0xDBFF := by
  rw [isHighSurrogate, Bool.and_eq_true, decide_eq_true_eq, decide_eq_true_eq]

theorem isLowSurrogate_iff {n : Nat} : isLowSurrogate n = true ↔ 0xDC00 ≤ n ∧ n ≤ 0xDFFF := by
  rw [isLowSurrogate, Bool.and_eq_true, decide_eq_true_eq, decide_eq_true_eq]

theorem codeUnits_ofNat {n : Nat} (hn : n < 65536) (hhigh : isHighSurrogate n = false)
    (hlow : isLowSurrogate n = false) : codeUnits (Char.ofNat n) = [n] := by
  have hvalid : n.isValidChar := by
    rw [← Bool.not_eq_true, isHighSurrogate_iff] at hhigh
    rw [← Bool.not_eq_true, isLowSurrogate_iff] at hlow
    rw [Nat.isValidChar]
    omega
  rw [codeUnits, toNat_ofNat hvalid, if_pos hn]

theorem codeUnits_ofSurrogates {high low : Nat} (hhigh : isHighSurrogate high = true)
    (hlow : isLowSurrogate low = true) : codeUnits (ofSurrogates high low) = [high, low] := by
  rw [isHighSurrogate_iff] at hhigh
  rw [isLowSurrogate_iff] at hlow
  have hvalid : (0x10000 + (high - 0xD800) * 0x400 + (low - 0xDC00)).isValidChar := by
    rw [Nat.isValidChar]
    omega
  have hlarge : ¬ 0x10000 + (high - 0xD800) * 0x400 + (low - 0xDC00) < 0x10000 := by omega
  have hfirst : 0xD800 + (0x10000 + (high - 0xD800) * 0x400 + (low - 0xDC00) - 0x10000) / 0x400 =
      high := by omega
  have hsecond : 0xDC00 + (0x10000 + (high - 0xD800) * 0x400 + (low - 0xDC00) - 0x10000) % 0x400 =
      low := by omega
  rw [codeUnits, ofSurrogates, toNat_ofNat hvalid, if_neg hlarge, hfirst, hsecond]

/-- A character has one code unit, which is no surrogate, or two surrogates. -/
theorem codeUnits_cases (c : Char) :
    (∃ n, codeUnits c = [n] ∧ n < 65536 ∧ isHighSurrogate n = false ∧ isLowSurrogate n = false ∧
      Char.ofNat n = c) ∨
    ∃ high low, codeUnits c = [high, low] ∧ isHighSurrogate high = true ∧
      isLowSurrogate low = true ∧ ofSurrogates high low = c := by
  have hvalid := toNat_valid c
  by_cases hsmall : c.toNat < 0x10000
  · refine .inl ⟨c.toNat, by rw [codeUnits, if_pos hsmall], hsmall, ?_, ?_, Char.ofNat_toNat c⟩
    · rw [← Bool.not_eq_true, isHighSurrogate_iff]
      omega
    · rw [← Bool.not_eq_true, isLowSurrogate_iff]
      omega
  · have hnumber : 0x10000 + (0xD800 + (c.toNat - 0x10000) / 0x400 - 0xD800) * 0x400 +
        (0xDC00 + (c.toNat - 0x10000) % 0x400 - 0xDC00) = c.toNat := by omega
    refine .inr ⟨_, _, by rw [codeUnits, if_neg hsmall], ?_, ?_, ?_⟩
    · rw [isHighSurrogate_iff]
      omega
    · rw [isLowSurrogate_iff]
      omega
    · rw [ofSurrogates, hnumber, Char.ofNat_toNat]

/-! ## Escapes -/

/-- The digits of a character's code units are read as that character. -/
theorem numericEscape?_of_isUnits {c : Char} {unit : List Char} (h : IsUnits (codeUnits c) unit) :
    ∃ digits, unit = '\\' :: 'u' :: digits ∧
      ∀ rest, numericEscape? (digits ++ rest) = some (c, digits.length) := by
  rcases codeUnits_cases c with ⟨n, hunits, hn, hhigh, hlow, rfl⟩ |
    ⟨high, low, hunits, hhigh, hlow, rfl⟩
  · rw [hunits] at h
    cases h with
    | @cons _ ds _ _ hds hothers =>
        cases hothers
        refine ⟨ds, by rw [List.append_nil], fun rest => ?_⟩
        have hread : hex4? (ds ++ rest) = some n := hex4?_iff.2 ⟨hn, ds, rest, rfl, hds⟩
        simp [numericEscape?, hread, hhigh, hlow, length_of_isHex4 hn hds]
  · have hhighRange := isHighSurrogate_iff.1 hhigh
    have hlowRange := isLowSurrogate_iff.1 hlow
    rw [hunits] at h
    cases h with
    | @cons _ ds _ _ hds hothers =>
        cases hothers with
        | @cons _ ds' _ _ hds' hothers =>
            cases hothers
            refine ⟨ds ++ '\\' :: 'u' :: ds', by simp, fun rest => ?_⟩
            have hlength : ds.length = 4 := length_of_isHex4 (by omega) hds
            have hlength' : ds'.length = 4 := length_of_isHex4 (by omega) hds'
            have hread : hex4? (ds ++ '\\' :: 'u' :: (ds' ++ rest)) = some high :=
              hex4?_iff.2 ⟨by omega, ds, _, rfl, hds⟩
            have hread' : hex4? (ds' ++ rest) = some low :=
              hex4?_iff.2 ⟨by omega, ds', _, rfl, hds'⟩
            have hdrop : (ds ++ '\\' :: 'u' :: (ds' ++ rest)).drop 4 =
                '\\' :: 'u' :: (ds' ++ rest) := by
              rw [← hlength, List.drop_left]
            simp [numericEscape?, hread, hread', hhigh, hlow, hdrop, hlength, hlength']

/-- What is read as a character from digits are the digits of its code units. -/
theorem isUnits_of_numericEscape? {cs : List Char} {c : Char} {width : Nat}
    (h : numericEscape? cs = some (c, width)) : ∃ digits rest, cs = digits ++ rest ∧
      width = digits.length ∧ IsUnits (codeUnits c) ('\\' :: 'u' :: digits) := by
  simp only [numericEscape?, Option.bind_eq_bind, Option.bind_eq_some_iff] at h
  obtain ⟨high, hread, h⟩ := h
  obtain ⟨hlt, ds, rest, rfl, hds⟩ := hex4?_iff.1 hread
  have hlength : ds.length = 4 := length_of_isHex4 hlt hds
  split at h
  · next hhigh =>
      rw [← hlength, List.drop_left] at h
      split at h
      · next rest' =>
          simp only [Option.bind_eq_some_iff] at h
          obtain ⟨low, hread', h⟩ := h
          obtain ⟨hlt', ds', rest', rfl, hds'⟩ := hex4?_iff.1 hread'
          have hlength' : ds'.length = 4 := length_of_isHex4 hlt' hds'
          split at h
          · next hlow =>
              obtain ⟨rfl, rfl⟩ := Prod.mk.inj (Option.some.inj h)
              refine ⟨ds ++ '\\' :: 'u' :: ds', rest', by simp, by simp [hlength, hlength'], ?_⟩
              rw [codeUnits_ofSurrogates hhigh hlow]
              have hunits := IsUnits.cons hds (.cons hds' .nil)
              simpa using hunits
          · cases h
      · cases h
  · next hhigh =>
      split at h
      · cases h
      · next hlow =>
          obtain ⟨rfl, rfl⟩ := Prod.mk.inj (Option.some.inj h)
          refine ⟨ds, rest, rfl, hlength.symm, ?_⟩
          rw [codeUnits_ofNat hlt (Bool.eq_false_iff.2 hhigh) (Bool.eq_false_iff.2 hlow)]
          have hunits := IsUnits.cons hds .nil
          simpa using hunits

/-- An escape is read as its character, whatever stands behind it. -/
theorem escape?_of_isEscape {c : Char} {unit : List Char} (h : IsEscape c unit) :
    ∃ tail, unit = '\\' :: tail ∧ ∀ rest, escape? (tail ++ rest) = some (c, tail.length) := by
  cases h with
  | @letter letter h =>
      refine ⟨[letter], rfl, fun rest => ?_⟩
      simp only [letters, List.mem_cons, Prod.mk.injEq, List.not_mem_nil, or_false] at h
      rcases h with ⟨rfl, rfl⟩ | ⟨rfl, rfl⟩ | ⟨rfl, rfl⟩ | ⟨rfl, rfl⟩ | ⟨rfl, rfl⟩ | ⟨rfl, rfl⟩ |
        ⟨rfl, rfl⟩ | ⟨rfl, rfl⟩
      all_goals rfl
  | numeric h =>
      obtain ⟨digits, rfl, hread⟩ := numericEscape?_of_isUnits h
      refine ⟨'u' :: digits, rfl, fun rest => ?_⟩
      rw [List.cons_append, escape?, hread, Option.map_some, List.length_cons]

/-- What is read as a character behind a backslash is an escape for it. -/
theorem isEscape_of_escape? {cs : List Char} {c : Char} {width : Nat}
    (h : escape? cs = some (c, width)) :
    ∃ tail rest, cs = tail ++ rest ∧ width = tail.length ∧ IsEscape c ('\\' :: tail) := by
  rw [escape?.eq_def] at h
  split at h
  case h_9 rest =>
    obtain ⟨⟨d, k⟩, hread, heq⟩ := Option.map_eq_some_iff.1 h
    obtain ⟨rfl, rfl⟩ := Prod.mk.inj heq
    obtain ⟨digits, rest, rfl, rfl, hunits⟩ := isUnits_of_numericEscape? hread
    exact ⟨'u' :: digits, rest, rfl, rfl, .numeric hunits⟩
  case h_10 => cases h
  all_goals
    obtain ⟨rfl, rfl⟩ := Prod.mk.inj (Option.some.inj h)
    exact ⟨[_], _, rfl, rfl, .letter (by decide)⟩

theorem ascii_of_isHex4 {n : Nat} {ds : List Char} (hn : n < 65536) (h : IsHex4 n ds) :
    ∀ d ∈ ds, d.toNat < 128 := by
  intro d hd
  have hlower : d.toLower ∈ ds.map Char.toLower := List.mem_map_of_mem hd
  rw [h, leftpad_toDigits hn] at hlower
  obtain ⟨k, hk⟩ : ∃ k, d.toLower = hexDigit (k % 16) := by
    simp only [List.mem_cons, List.not_mem_nil, or_false] at hlower
    rcases hlower with h | h | h | h
    all_goals exact ⟨_, h⟩
  have hread : hexDigit? d = some (k % 16) := hexDigit?_iff.2 ⟨Nat.mod_lt k (by decide), hk⟩
  refine Nat.lt_of_not_le fun hlarge => ?_
  rw [hexDigit?_of_large hlarge] at hread
  cases hread

theorem ascii_of_isUnits {ns : List Nat} {unit : List Char} (h : IsUnits ns unit)
    (hns : ∀ n ∈ ns, n < 65536) : ∀ d ∈ unit, d.toNat < 128 := by
  induction h with
  | nil => exact fun d hd => nomatch hd
  | cons hunit _ ih =>
      obtain ⟨hn, hns⟩ := List.forall_mem_cons.1 hns
      refine List.forall_mem_append.2 ⟨List.forall_mem_cons.2 ⟨by decide, List.forall_mem_cons.2
        ⟨by decide, ascii_of_isHex4 hn hunit⟩⟩, ih hns⟩

theorem codeUnits_lt (c : Char) : ∀ n ∈ codeUnits c, n < 65536 := by
  have hvalid := toNat_valid c
  intro n hn
  rw [codeUnits] at hn
  split at hn
  · rw [List.mem_singleton.1 hn]
    assumption
  · simp only [List.mem_cons, List.not_mem_nil, or_false] at hn
    omega

theorem ascii_of_isEscape {c : Char} {unit : List Char} (h : IsEscape c unit) :
    ∀ d ∈ unit, d.toNat < 128 := by
  cases h with
  | @letter letter h =>
      have hletters : ∀ pair ∈ letters, pair.2.toNat < 128 := by decide
      exact List.forall_mem_cons.2 ⟨by decide, List.forall_mem_singleton.2 (hletters _ h)⟩
  | numeric h => exact ascii_of_isUnits h (codeUnits_lt c)

/-! ## What is read -/

/-- A spelling is read as its text, and then reading goes on behind it. -/
theorem read_spells {spelling text : List Char} (h : Spells spelling text) :
    ∀ (start offset : Nat) (said rest : List Char), read start said offset (spelling ++ rest) =
      read start (text.reverse ++ said) (offset + Token.width spelling) rest := by
  induction h with
  | nil => exact fun _ _ _ _ => rfl
  | @raw c others text hquote hescape _ ih =>
      intro start offset said rest
      rw [List.cons_append, read_plain hquote hescape, ih, List.reverse_cons, List.append_assoc,
        Token.width, Nat.add_assoc]
      rfl
  | @escaped c unit others text hunit _ ih =>
      intro start offset said rest
      have hwidth := Token.width_ascii (ascii_of_isEscape hunit)
      obtain ⟨tail, rfl, hread⟩ := escape?_of_isEscape hunit
      rw [List.append_assoc, List.cons_append, read_escaped (hread _), List.drop_left, ih,
        List.reverse_cons, List.append_assoc, Token.width_append, hwidth, List.length_cons]
      congr 1
      omega

/-- Behind a quote there is a spelling, and then the closing quote, a backslash that starts no
escape, or nothing. -/
theorem read_cases (cs : List Char) : ∃ spelling text rest, Spells spelling text ∧
    cs = spelling ++ rest ∧ ((∃ after, rest = '"' :: after) ∨
      (∃ after, rest = '\\' :: after ∧ escape? after = none) ∨ rest = []) := by
  match cs with
  | [] => exact ⟨[], [], [], .nil, rfl, .inr (.inr rfl)⟩
  | c :: cs =>
      by_cases hquote : c = '"'
      · exact ⟨[], [], c :: cs, .nil, rfl, .inl ⟨cs, by rw [hquote]⟩⟩
      by_cases hescape : c = '\\'
      · cases hread : escape? cs with
        | none => exact ⟨[], [], c :: cs, .nil, rfl, .inr (.inl ⟨cs, by rw [hescape], hread⟩)⟩
        | some found =>
            obtain ⟨tail, others, rfl, -, hunit⟩ := isEscape_of_escape? hread
            obtain ⟨spelling, text, rest, hspells, rfl, hrest⟩ := read_cases others
            refine ⟨_, _, rest, .escaped hunit hspells, ?_, hrest⟩
            rw [hescape, List.cons_append, List.cons_append, List.append_assoc]
      · obtain ⟨spelling, text, rest, hspells, rfl, hrest⟩ := read_cases cs
        exact ⟨_, _, rest, .raw hquote hescape hspells, rfl, hrest⟩
termination_by cs.length

/-- No escape is read exactly if none stands there. -/
theorem escape?_eq_none {cs : List Char} :
    escape? cs = none ↔ ∀ c unit, IsEscape c unit → ¬ unit <+: '\\' :: cs := by
  constructor
  · rintro hnone c unit hunit ⟨rest, heq⟩
    obtain ⟨tail, rfl, hread⟩ := escape?_of_isEscape hunit
    obtain rfl : tail ++ rest = cs := (List.cons.inj heq).2
    rw [hread rest] at hnone
    cases hnone
  · intro hnot
    cases hread : escape? cs with
    | none => rfl
    | some found =>
        obtain ⟨tail, rest, rfl, -, hunit⟩ := isEscape_of_escape? hread
        exact absurd (List.prefix_append ('\\' :: tail) rest) (hnot _ _ hunit)

end Quoted

end LspClient.Json
