import LspClient.Text.Blank
import LspClient.Text.Numeral
import LspClient.Text.Utf8

/-!
# ASCII text and numerals

What is written for machines is ASCII: one octet a character, and the lenient
reading of octets gives back the characters. Most of it are numerals, and these
are read back as the numbers they were written for, however they are read.
-/

namespace LspClient

namespace Utf8

theorem octets_ofList (cs : List Char) :
    octets (String.ofList cs) = cs.flatMap String.utf8EncodeChar := by
  simp [octets, List.utf8Encode]

theorem octets_cons_ascii {c : Char} (h : c.toNat < 128) (cs : List Char) :
    octets (String.ofList (c :: cs)) = c.val.toUInt8 :: octets (String.ofList cs) := by
  have hsize : c.utf8Size = 1 :=
    Char.utf8Size_eq_one_iff.2 (UInt32.le_iff_toNat_le.2 (Nat.le_of_lt_succ h))
  rw [octets_ofList, octets_ofList, List.flatMap_cons, String.utf8EncodeChar_eq_singleton hsize]
  rfl

theorem toNat_octet_ascii {c : Char} (h : c.toNat < 128) : c.val.toUInt8.toNat = c.toNat := by
  rw [UInt32.toNat_toUInt8]
  exact Nat.mod_eq_of_lt (Nat.lt_trans h (by decide))

/-- ASCII is read leniently as itself. -/
theorem lossy_octets_ascii {cs : List Char} (h : ∀ c ∈ cs, c.toNat < 128) :
    lossy (octets (String.ofList cs)) = cs := by
  induction cs with
  | nil => rw [octets_ofList, List.flatMap_nil, lossy_nil]
  | cons c cs ih =>
      have hc := h c List.mem_cons_self
      have hoctet := toNat_octet_ascii hc
      rw [octets_cons_ascii hc, lossy_cons_ascii (by rw [hoctet]; exact hc), hoctet,
        ih fun d hd => h d (List.mem_cons_of_mem c hd), Char.ofNat_toNat]

theorem mem_octets_ascii {cs : List Char} (h : ∀ c ∈ cs, c.toNat < 128) {b : UInt8}
    (hb : b ∈ octets (String.ofList cs)) : ∃ c ∈ cs, b.toNat = c.toNat := by
  induction cs with
  | nil =>
      rw [octets_ofList] at hb
      cases hb
  | cons c cs ih =>
      have hc := h c List.mem_cons_self
      rw [octets_cons_ascii hc, List.mem_cons] at hb
      rcases hb with rfl | hb
      · exact ⟨c, List.mem_cons_self, toNat_octet_ascii hc⟩
      · obtain ⟨d, hd, hoctet⟩ := ih (fun d hd => h d (List.mem_cons_of_mem c hd)) hb
        exact ⟨d, List.mem_cons_of_mem c hd, hoctet⟩

theorem length_octets_ascii {cs : List Char} (h : ∀ c ∈ cs, c.toNat < 128) :
    (octets (String.ofList cs)).length = cs.length := by
  induction cs with
  | nil => rfl
  | cons c cs ih =>
      rw [octets_cons_ascii (h c List.mem_cons_self), List.length_cons, List.length_cons,
        ih fun d hd => h d (List.mem_cons_of_mem c hd)]

end Utf8

/-! ## Digits -/

theorem toNat_of_isDigit {c : Char} (h : c.isDigit = true) : 48 ≤ c.toNat ∧ c.toNat ≤ 57 := by
  rw [Char.isDigit, Bool.and_eq_true, decide_eq_true_eq, decide_eq_true_eq] at h
  exact h

theorem isBlank_of_isDigit {c : Char} (h : c.isDigit = true) : Text.isBlank c = false := by
  have hnat := toNat_of_isDigit h
  simp only [Text.isBlank, Bool.or_eq_false_iff, Bool.and_eq_false_iff, decide_eq_false_iff_not,
    beq_eq_false_iff_ne]
  omega

namespace Numeral

theorem isDigit_of_mem_digits {n : Nat} {c : Char} (h : c ∈ digits n) : c.isDigit = true :=
  Nat.isDigit_of_mem_toDigits (by decide) (by decide) h

theorem digits_ascii {n : Nat} {c : Char} (h : c ∈ digits n) : c.toNat < 128 :=
  Nat.lt_of_le_of_lt (toNat_of_isDigit (isDigit_of_mem_digits h)).2 (by decide)

theorem digits_eq_cons (n : Nat) : ∃ c cs, digits n = c :: cs ∧ c.isDigit = true := by
  cases h : digits n with
  | nil => exact absurd h Nat.toDigits_ne_nil
  | cons c cs => exact ⟨c, cs, rfl, isDigit_of_mem_digits (by rw [h]; exact List.mem_cons_self)⟩

theorem digits_ne_cons {n : Nat} {c : Char} (h : c.isDigit = false) (cs : List Char) :
    digits n ≠ c :: cs := by
  intro heq
  have hc : c.isDigit = true := isDigit_of_mem_digits (by rw [heq]; exact List.mem_cons_self)
  rw [h] at hc
  cases hc

theorem isDigits_of_forall {cs : List Char} (hne : cs ≠ []) (h : ∀ c ∈ cs, c.isDigit = true) :
    isDigits cs = true := by
  rw [isDigits, List.all_eq_true.2 h, Bool.and_true]
  cases cs with
  | nil => exact absurd rfl hne
  | cons c cs => rfl

theorem isDigit_of_isDigits {cs : List Char} (h : isDigits cs = true) :
    ∀ c ∈ cs, c.isDigit = true :=
  List.all_eq_true.1 (Bool.and_eq_true_iff.1 h).2

theorem natural?_eq_some {cs : List Char} {n : Nat} :
    natural? cs = some n ↔ isDigits cs = true ∧ value cs = n := by
  rw [natural?]
  split
  · next h => simp [h]
  · next h => simp [h]

theorem unsigned?_digits {n : Nat} (h : n < unsignedBound) : unsigned? (digits n) = some n := by
  rw [unsigned?, natural?_digits, Option.filter_some, decide_eq_true h, if_pos rfl]
  exact digits_ne_cons rfl

/-- Blanks in front of a numeral are trimmed away, and nothing else. -/
theorem trim_digits (n : Nat) : Text.trim (' ' :: digits n) = digits n := by
  have hstart : Text.trimStart (' ' :: digits n) = digits n := by
    obtain ⟨c, cs, hcs, hc⟩ := digits_eq_cons n
    rw [hcs, Text.trimStart, List.dropWhile_cons_of_pos (by decide), List.dropWhile_cons_of_neg]
    rw [isBlank_of_isDigit hc]
    nofun
  have hend : Text.trimStart (digits n).reverse = (digits n).reverse := by
    cases hcs : (digits n).reverse with
    | nil => rfl
    | cons c cs =>
        have hc : c ∈ digits n := by
          rw [← List.mem_reverse, hcs]
          exact List.mem_cons_self
        rw [Text.trimStart, List.dropWhile_cons_of_neg]
        rw [isBlank_of_isDigit (isDigit_of_mem_digits hc)]
        nofun
  rw [Text.trim, hstart, Text.trimEnd, hend, List.reverse_reverse]

theorem length_digits_le {n k : Nat} (hk : 0 < k) (h : n < Nat.pow 10 k) :
    (digits n).length ≤ k :=
  (Nat.length_toDigits_le_iff (by decide) hk).2 h

/-- A signed numeral reads as the number that it was written for. -/
theorem signed?_ofSigned (n : Int64) : signed? (ofSigned n) = some n := by
  have hback : Int64.ofInt n.toInt = n := Int64.ofInt_toInt n
  have hhigh : n.toInt < 0x8000000000000000 := Int64.toInt_lt n
  have hlow : -0x8000000000000000 ≤ n.toInt := Int64.le_toInt n
  rw [ofSigned]
  cases hn : n.toInt with
  | ofNat k =>
      rw [hn] at hback hhigh
      have hk : k < signedBound := Int.ofNat_lt.1 hhigh
      rw [ofInt, signed?, natural?_digits, Option.filter_some, decide_eq_true hk, if_pos rfl]
      · exact congrArg some hback
      · exact digits_ne_cons rfl
      · exact digits_ne_cons rfl
  | negSucc k =>
      rw [hn] at hback hlow
      have hk : k + 1 ≤ signedBound := by
        rw [signedBound]
        omega
      rw [ofInt, signed?, natural?_digits, Option.filter_some, decide_eq_true hk, if_pos rfl]
      exact congrArg some hback

end Numeral

end LspClient
