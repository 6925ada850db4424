/-!
# Text as octets

Everything on the wire is octets, everything above it is text. Bodies of
messages are read strictly: octets that are not UTF-8 are no text at all.
Header blocks are read leniently, so that a damaged header line can be shown
and does not hide the line after it: each maximal run of octets that begins a
character without completing it becomes one replacement character.
-/

namespace LspClient.Utf8

/-- The octets of a text. -/
def octets (s : String) : List UInt8 :=
  s.toUTF8.data.toList

/-- The text that the octets spell, if they are UTF-8. -/
def text? (bs : List UInt8) : Option String :=
  String.fromUTF8? bs.toByteArray

/-- The character that stands for octets which spell none. -/
def replacement : Char := '\uFFFD'

/-- What a character's first octet announces. -/
structure Lead where
  /-- the payload bits of the first octet -/
  payload : Nat
  /-- how many octets follow -/
  count : Nat
  /-- the least octet that may come next -/
  low : Nat
  /-- the greatest octet that may come next -/
  high : Nat

/-- What the first octet of a character of more than one octet announces. The
bounds on the second octet keep out overlong forms, surrogates and numbers
above the last character; every later octet is between `0x80` and `0xBF`. -/
def lead? (b : Nat) : Option Lead :=
  if 0xC2 ≤ b ∧ b ≤ 0xDF then some ⟨b - 0xC0, 1, 0x80, 0xBF⟩
  else if b = 0xE0 then some ⟨0, 2, 0xA0, 0xBF⟩
  else if b = 0xED then some ⟨0xD, 2, 0x80, 0x9F⟩
  else if 0xE1 ≤ b ∧ b ≤ 0xEF then some ⟨b - 0xE0, 2, 0x80, 0xBF⟩
  else if b = 0xF0 then some ⟨0, 3, 0x90, 0xBF⟩
  else if 0xF1 ≤ b ∧ b ≤ 0xF3 then some ⟨b - 0xF0, 3, 0x80, 0xBF⟩
  else if b = 0xF4 then some ⟨4, 3, 0x80, 0x8F⟩
  else none

/-- Reads `count` continuation octets on top of `acc`, the first of them
between `low` and `high`. Stops in front of the first octet that does not fit,
and then there is no character. -/
def follow (low high : Nat) : (count acc : Nat) → List UInt8 → Option Nat × List UInt8
  | 0, acc, bs => (some acc, bs)
  | _ + 1, _, [] => (none, [])
  | count + 1, acc, b :: bs =>
    if low ≤ b.toNat ∧ b.toNat ≤ high then
      follow 0x80 0xBF count (acc * 64 + b.toNat % 64) bs
    else (none, b :: bs)

theorem follow_length_le (low high count acc : Nat) (bs : List UInt8) :
    (follow low high count acc bs).2.length ≤ bs.length := by
  induction count generalizing low high acc bs with
  | zero => simp [follow]
  | succ count ih =>
    cases bs with
    | nil => simp [follow]
    | cons b bs =>
      rw [follow]
      split
      · exact Nat.le_trans (ih ..) (by simp)
      · simp

/-- The octets as text, with a replacement character for each maximal part
that spells no character. -/
def lossy : List UInt8 → List Char
  | [] => []
  | b :: bs =>
    if b.toNat < 0x80 then Char.ofNat b.toNat :: lossy bs
    else
      match lead? b.toNat with
      | none => replacement :: lossy bs
      | some lead =>
        let read := follow lead.low lead.high lead.count lead.payload bs
        (match read.1 with
          | some n => Char.ofNat n
          | none => replacement) :: lossy read.2
termination_by bs => bs.length
decreasing_by
  · simp
  · simp
  · exact Nat.lt_succ_of_le (follow_length_le ..)

@[simp] theorem lossy_nil : lossy [] = [] := by rw [lossy]

/-- An ASCII octet is read as itself, whatever comes after it. -/
theorem lossy_cons_ascii {b : UInt8} (h : b.toNat < 0x80) (bs : List UInt8) :
    lossy (b :: bs) = Char.ofNat b.toNat :: lossy bs := by
  rw [lossy, if_pos h]

/-- The octets of a text spell that text. -/
theorem text?_octets (s : String) : text? (octets s) = some s := by
  have h : (octets s).toByteArray = s.toByteArray := by
    apply ByteArray.ext
    simp [octets]
  rw [text?, h, String.fromUTF8?, dif_pos s.isValidUTF8]
  rfl

end LspClient.Utf8
