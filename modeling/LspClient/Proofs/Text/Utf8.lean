import LspClient.Proofs.Text.Ascii

/-!
# Reading octets leniently

Octets that are UTF-8 are read as the text that they encode (`Utf8.lossy_octets`), and nothing else
is read without a replacement character (`Utf8.octets_lossy`). Octets of ASCII are no part of other
characters, so a reading may be cut in front of one of them (`Utf8.lossy_append_ascii`).

A character has up to four octets. What the first of them announces is described by cases of its
length (`Utf8.Announces`), and all that is left is arithmetic on the payload bits.
-/

namespace LspClient

theorem toNat_ofNat {n : Nat} (h : n.isValidChar) : (Char.ofNat n).toNat = n := by
  rw [Char.ofNat, dif_pos h]
  rfl

theorem toNat_valid (c : Char) : c.toNat < 0xD800 ∨ 0xDFFF < c.toNat ∧ c.toNat < 0x110000 :=
  c.valid

namespace Utf8

/-! ## The first octet -/

/-- What the first octet `b` of a character of two, three or four octets announces. The payload
is what is left of it. -/
inductive Announces (b : Nat) : Lead → Prop
  | two {payload : Nat} (h : 0xC2 ≤ b ∧ b ≤ 0xDF) (hpayload : b = 0xC0 + payload) :
      Announces b ⟨payload, 1, 0x80, 0xBF⟩
  | three {payload low high : Nat} (h : 0xE0 ≤ b ∧ b ≤ 0xEF) (hpayload : b = 0xE0 + payload)
      (hlow : b = 0xE0 ∧ low = 0xA0 ∨ b ≠ 0xE0 ∧ low = 0x80)
      (hhigh : b = 0xED ∧ high = 0x9F ∨ b ≠ 0xED ∧ high = 0xBF) :
      Announces b ⟨payload, 2, low, high⟩
  | four {payload low high : Nat} (h : 0xF0 ≤ b ∧ b ≤ 0xF4) (hpayload : b = 0xF0 + payload)
      (hlow : b = 0xF0 ∧ low = 0x90 ∨ b ≠ 0xF0 ∧ low = 0x80)
      (hhigh : b = 0xF4 ∧ high = 0x8F ∨ b ≠ 0xF4 ∧ high = 0xBF) :
      Announces b ⟨payload, 3, low, high⟩

theorem announces_of_lead? {b : Nat} {lead : Lead} (h : lead? b = some lead) :
    Announces b lead := by
  rw [lead?] at h
  split at h
  · obtain rfl := Option.some.inj h
    exact .two (by omega) (by omega)
  split at h
  · obtain rfl := Option.some.inj h
    exact .three (by omega) (by omega) (by omega) (by omega)
  split at h
  · obtain rfl := Option.some.inj h
    exact .three (by omega) (by omega) (by omega) (by omega)
  split at h
  · obtain rfl := Option.some.inj h
    exact .three (by omega) (by omega) (by omega) (by omega)
  split at h
  · obtain rfl := Option.some.inj h
    exact .four (by omega) (by omega) (by omega) (by omega)
  split at h
  · obtain rfl := Option.some.inj h
    exact .four (by omega) (by omega) (by omega) (by omega)
  split at h
  · obtain rfl := Option.some.inj h
    exact .four (by omega) (by omega) (by omega) (by omega)
  · cases h

theorem lead?_of_announces {b : Nat} {lead : Lead} (h : Announces b lead) :
    lead? b = some lead := by
  cases h with
  | two h hpayload =>
      rw [lead?, if_pos h, hpayload, Nat.add_sub_cancel_left]
  | three h hpayload hlow hhigh | four h hpayload hlow hhigh =>
      rw [lead?]
      repeat' split
      all_goals
        simp only [Option.some.injEq, Lead.mk.injEq, true_and, reduceCtorEq]
        omega

theorem Announces.low_le {b : Nat} {lead : Lead} (h : Announces b lead) : 0x80 ≤ lead.low := by
  cases h with
  | two _ _ => exact Nat.le_refl _
  | three _ _ hlow _ | four _ _ hlow _ =>
      dsimp only
      omega

/-! ## In front of ASCII -/

theorem follow_append_ascii {b : UInt8} (hb : b.toNat < 0x80) (rest : List UInt8)
    {count : Nat} : ∀ {low high acc : Nat} (bs : List UInt8), 0x80 ≤ low →
    follow low high count acc (bs ++ b :: rest) =
      ((follow low high count acc bs).1, (follow low high count acc bs).2 ++ b :: rest) := by
  induction count with
  | zero => exact fun _ _ => rfl
  | succ count ih =>
      intro low high acc bs hlow
      cases bs with
      | nil => rw [List.nil_append, follow, follow, if_neg (by omega), List.nil_append]
      | cons c bs =>
          rw [List.cons_append, follow, follow]
          split
          · exact ih bs (Nat.le_refl _)
          · rfl

/-- A reading may be cut in front of an octet of ASCII. -/
theorem lossy_append_ascii {b : UInt8} (hb : b.toNat < 0x80) (rest bs : List UInt8) :
    lossy (bs ++ b :: rest) = lossy bs ++ lossy (b :: rest) := by
  fun_induction lossy bs with
  | case1 => rfl
  | case2 c bs hc ih => rw [List.cons_append, lossy_cons_ascii hc, ih, List.cons_append]
  | case3 c bs hc hlead ih =>
      rw [List.cons_append, lossy, if_neg hc, hlead]
      dsimp only
      rw [ih, List.cons_append]
  | case4 c bs hc lead hlead read ih =>
      have hlow := (announces_of_lead? hlead).low_le
      rw [List.cons_append, lossy, if_neg hc, hlead]
      dsimp only
      rw [follow_append_ascii hb rest bs hlow]
      exact congrArg (_ :: ·) ih

/-! ## Characters of more than one octet -/

theorem toNat_octet {n : Nat} (h : n < 256) : (UInt8.ofNat n).toNat = n :=
  UInt8.toNat_ofNat_of_lt' h

theorem octet_eq {b : UInt8} {n : Nat} (h : n = b.toNat) : UInt8.ofNat n = b := by
  rw [h, UInt8.ofNat_toNat]

theorem lossy_cons_announces {b : UInt8} {bs rest : List UInt8} {lead : Lead} {n : Nat}
    (h : Announces b.toNat lead)
    (hread : follow lead.low lead.high lead.count lead.payload bs = (some n, rest)) :
    lossy (b :: bs) = Char.ofNat n :: lossy rest := by
  have hb : ¬ b.toNat < 0x80 := by
    cases h <;> omega
  rw [lossy, if_neg hb, lead?_of_announces h]
  dsimp only
  rw [hread]

/-- One octet more, with the six bits that it adds. -/
theorem follow_octet {low high count acc x : Nat} (hx : x < 64) (hlow : low ≤ x + 0x80)
    (hhigh : x + 0x80 ≤ high) (bs : List UInt8) :
    follow low high (count + 1) acc (UInt8.ofNat (x + 0x80) :: bs) =
      follow 0x80 0xBF count (acc * 64 + x) bs := by
  have hmod : (x + 0x80) % 64 = x := by omega
  rw [follow, toNat_octet (by omega), if_pos ⟨hlow, hhigh⟩, hmod]

theorem exists_octet_of_follow {low high count acc n : Nat} {bs rest : List UInt8}
    (h : follow low high (count + 1) acc bs = (some n, rest)) :
    ∃ b others, bs = b :: others ∧ low ≤ b.toNat ∧ b.toNat ≤ high ∧
      follow 0x80 0xBF count (acc * 64 + b.toNat % 64) others = (some n, rest) := by
  cases bs with
  | nil => cases h
  | cons b others =>
      rw [follow] at h
      split at h
      · next hb => exact ⟨b, others, rfl, hb.1, hb.2, h⟩
      · cases h

/-- A bound that depends on whether an octet is a certain one. -/
theorem exists_bound (b least x y : Nat) :
    ∃ bound, b = least ∧ bound = x ∨ b ≠ least ∧ bound = y := by
  by_cases h : b = least
  · exact ⟨x, .inl ⟨h, rfl⟩⟩
  · exact ⟨y, .inr ⟨h, rfl⟩⟩

/-- The octets of a character are read as the character. -/
theorem lossy_encode (c : Char) (bs : List UInt8) :
    lossy (String.utf8EncodeChar c ++ bs) = c :: lossy bs := by
  have hvalid := toNat_valid c
  have hv : c.val.toNat = c.toNat := rfl
  rw [String.utf8EncodeChar, hv]
  generalize hn : c.toNat = n at hvalid
  have hc : Char.ofNat n = c := by rw [← hn, Char.ofNat_toNat]
  split
  · rw [List.singleton_append, lossy_cons_ascii (by rw [toNat_octet (by omega)]; omega),
      toNat_octet (by omega), hc]
  split
  · have hlead : Announces (UInt8.ofNat (n / 64 % 0x20 + 0xC0)).toNat ⟨n / 64, 1, 0x80, 0xBF⟩ := by
      rw [toNat_octet (by omega)]
      exact .two (by omega) (by omega)
    have hnumber : n / 64 * 64 + n % 0x40 = n := by omega
    have hread : follow 0x80 0xBF 1 (n / 64) (UInt8.ofNat (n % 0x40 + 0x80) :: bs) =
        (some n, bs) := by
      rw [follow_octet (by omega) (by omega) (by omega), follow, hnumber]
    exact (lossy_cons_announces hlead hread).trans (by rw [hc])
  split
  · obtain ⟨low, hlow⟩ := exists_bound (n / 4096 % 0x10 + 0xE0) 0xE0 0xA0 0x80
    obtain ⟨high, hhigh⟩ := exists_bound (n / 4096 % 0x10 + 0xE0) 0xED 0x9F 0xBF
    have hlead : Announces (UInt8.ofNat (n / 4096 % 0x10 + 0xE0)).toNat
        ⟨n / 4096, 2, low, high⟩ := by
      rw [toNat_octet (by omega)]
      exact .three (by omega) (by omega) hlow hhigh
    have hnumber : (n / 4096 * 64 + n / 64 % 0x40) * 64 + n % 0x40 = n := by omega
    have hread : follow low high 2 (n / 4096) (UInt8.ofNat (n / 64 % 0x40 + 0x80) ::
        UInt8.ofNat (n % 0x40 + 0x80) :: bs) = (some n, bs) := by
      rw [follow_octet (by omega) (by omega) (by omega),
        follow_octet (by omega) (by omega) (by omega), follow, hnumber]
    exact (lossy_cons_announces hlead hread).trans (by rw [hc])
  · obtain ⟨low, hlow⟩ := exists_bound (n / 262144 % 0x08 + 0xF0) 0xF0 0x90 0x80
    obtain ⟨high, hhigh⟩ := exists_bound (n / 262144 % 0x08 + 0xF0) 0xF4 0x8F 0xBF
    have hlead : Announces (UInt8.ofNat (n / 262144 % 0x08 + 0xF0)).toNat
        ⟨n / 262144, 3, low, high⟩ := by
      rw [toNat_octet (by omega)]
      exact .four (by omega) (by omega) hlow hhigh
    have hnumber : ((n / 262144 * 64 + n / 4096 % 0x40) * 64 + n / 64 % 0x40) * 64 + n % 0x40 =
        n := by omega
    have hread : follow low high 3 (n / 262144) (UInt8.ofNat (n / 4096 % 0x40 + 0x80) ::
        UInt8.ofNat (n / 64 % 0x40 + 0x80) :: UInt8.ofNat (n % 0x40 + 0x80) :: bs) =
        (some n, bs) := by
      rw [follow_octet (by omega) (by omega) (by omega),
        follow_octet (by omega) (by omega) (by omega),
        follow_octet (by omega) (by omega) (by omega), follow, hnumber]
    exact (lossy_cons_announces hlead hread).trans (by rw [hc])

/-- What is read as a character is the octets of it. -/
theorem encode_of_follow {b : UInt8} {bs rest : List UInt8} {lead : Lead} {n : Nat}
    (h : Announces b.toNat lead)
    (hread : follow lead.low lead.high lead.count lead.payload bs = (some n, rest)) :
    b :: bs = String.utf8EncodeChar (Char.ofNat n) ++ rest := by
  cases h with
  | two hb hpayload =>
      dsimp only at hread
      obtain ⟨b1, bs, rfl, hlow1, hhigh1, hread⟩ := exists_octet_of_follow hread
      obtain ⟨hn, rfl⟩ := Prod.mk.inj hread
      have hn := Option.some.inj hn
      have hv : (Char.ofNat n).val.toNat = n := toNat_ofNat (.inl (by omega))
      have h0 : UInt8.ofNat (n / 64 % 0x20 + 0xC0) = b := octet_eq (by omega)
      have h1 : UInt8.ofNat (n % 0x40 + 0x80) = b1 := octet_eq (by omega)
      rw [String.utf8EncodeChar, hv, if_neg (by omega), if_pos (by omega), h0, h1]
      rfl
  | three hb hpayload hlow hhigh =>
      dsimp only at hread
      obtain ⟨b1, bs, rfl, hlow1, hhigh1, hread⟩ := exists_octet_of_follow hread
      obtain ⟨b2, bs, rfl, hlow2, hhigh2, hread⟩ := exists_octet_of_follow hread
      obtain ⟨hn, rfl⟩ := Prod.mk.inj hread
      have hn := Option.some.inj hn
      have hvalid : n.isValidChar := by
        rw [Nat.isValidChar]
        omega
      have hv : (Char.ofNat n).val.toNat = n := toNat_ofNat hvalid
      have h0 : UInt8.ofNat (n / 4096 % 0x10 + 0xE0) = b := octet_eq (by omega)
      have h1 : UInt8.ofNat (n / 64 % 0x40 + 0x80) = b1 := octet_eq (by omega)
      have h2 : UInt8.ofNat (n % 0x40 + 0x80) = b2 := octet_eq (by omega)
      rw [String.utf8EncodeChar, hv, if_neg (by omega), if_neg (by omega), if_pos (by omega), h0,
        h1, h2]
      rfl
  | four hb hpayload hlow hhigh =>
      dsimp only at hread
      obtain ⟨b1, bs, rfl, hlow1, hhigh1, hread⟩ := exists_octet_of_follow hread
      obtain ⟨b2, bs, rfl, hlow2, hhigh2, hread⟩ := exists_octet_of_follow hread
      obtain ⟨b3, bs, rfl, hlow3, hhigh3, hread⟩ := exists_octet_of_follow hread
      obtain ⟨hn, rfl⟩ := Prod.mk.inj hread
      have hn := Option.some.inj hn
      have hvalid : n.isValidChar := by
        rw [Nat.isValidChar]
        omega
      have hv : (Char.ofNat n).val.toNat = n := toNat_ofNat hvalid
      have h0 : UInt8.ofNat (n / 262144 % 0x08 + 0xF0) = b := octet_eq (by omega)
      have h1 : UInt8.ofNat (n / 4096 % 0x40 + 0x80) = b1 := octet_eq (by omega)
      have h2 : UInt8.ofNat (n / 64 % 0x40 + 0x80) = b2 := octet_eq (by omega)
      have h3 : UInt8.ofNat (n % 0x40 + 0x80) = b3 := octet_eq (by omega)
      rw [String.utf8EncodeChar, hv, if_neg (by omega), if_neg (by omega), if_neg (by omega), h0,
        h1, h2, h3]
      rfl

/-! ## Texts -/

/-- The octets of a text are read as the text. -/
theorem lossy_octets (cs : List Char) : lossy (octets (String.ofList cs)) = cs := by
  rw [octets_ofList]
  induction cs with
  | nil => rw [List.flatMap_nil, lossy_nil]
  | cons c cs ih => rw [List.flatMap_cons, lossy_encode, ih]

/-- Octets that are read without a replacement are the octets of what they are read as. -/
theorem octets_lossy {bs : List UInt8} (h : replacement ∉ lossy bs) :
    octets (String.ofList (lossy bs)) = bs := by
  rw [octets_ofList]
  fun_induction lossy bs with
  | case1 => rfl
  | case2 b bs hb ih =>
      rw [List.mem_cons, not_or] at h
      have hv : (Char.ofNat b.toNat).val.toNat = b.toNat := toNat_ofNat (.inl (by omega))
      rw [List.flatMap_cons, ih h.2, String.utf8EncodeChar, hv, if_pos (by omega), octet_eq rfl]
      rfl
  | case3 b bs hb hlead ih => exact absurd List.mem_cons_self h
  | case4 b bs hb lead hlead read ih =>
      rw [List.mem_cons, not_or] at h
      rw [List.flatMap_cons, ih h.2]
      cases hread : read.1 with
      | none =>
          rw [hread] at h
          exact absurd rfl h.1
      | some n =>
          exact (encode_of_follow (announces_of_lead? hlead) (Prod.ext hread rfl)).symm

end Utf8

end LspClient
