import LspClient.Proofs.Text.Ascii
import LspClient.Wire.Frame
import LspClient.Wire.Header

/-!
# The header block that is written

A frame starts with one line and an empty one. What reads header blocks finds
the end of this block at its last octet and nowhere before, and takes the
declared length from its line. Both need little of the line: it holds no line
feed, its first colon ends the field name, and it is plain ASCII, so the
lenient reading of octets gives back its characters.
-/

namespace LspClient

namespace Wire

/-! ## The end of a block -/

/-- The empty line that ends a block, with the break in front of it. -/
def blockEnd : List UInt8 := lineBreak ++ lineBreak

theorem splitHeader_skip {b : UInt8} {rest : List UInt8} (hb : b ≠ 10)
    (hrest : rest.head? ≠ some 10) (seen : List UInt8) :
    splitHeader seen (b :: rest) = splitHeader (b :: seen) rest := by
  rw [splitHeader]
  split
  · next heq =>
      obtain ⟨-, rfl⟩ := List.cons.inj heq
      exact absurd rfl hrest
  · next heq => exact absurd (List.cons.inj heq).1 hb
  · rfl

/-- Nothing that begins like a line begins with a line feed. -/
theorem head?_ne_of_prefix {line held after : List UInt8} (hline : 10 ∉ line)
    (h : held <+: line ++ blockEnd ++ after) : held.head? ≠ some 10 := by
  obtain ⟨later, hlater⟩ := h
  intro hhead
  cases held with
  | nil => cases hhead
  | cons c held =>
      obtain rfl := Option.some.inj hhead
      cases line with
      | nil => cases (List.cons.inj hlater).1
      | cons b line =>
          rw [(List.cons.inj hlater).1] at hline
          exact hline List.mem_cons_self

/-- A line without a line feed ends where it is ended. -/
theorem splitHeader_line {line : List UInt8} (hline : 10 ∉ line) (seen after : List UInt8) :
    splitHeader seen (line ++ blockEnd ++ after) = some (seen.reverse ++ line, after) := by
  induction line generalizing seen with
  | nil => rw [List.append_nil]; rfl
  | cons b line ih =>
      rw [List.mem_cons, not_or] at hline
      have hhead : (line ++ blockEnd ++ after).head? ≠ some 10 :=
        head?_ne_of_prefix hline.2 (List.prefix_refl _)
      rw [List.cons_append, List.cons_append, splitHeader_skip (Ne.symm hline.1) hhead,
        ih hline.2]
      simp

/-- A block that is still incomplete has no end. -/
theorem splitHeader_incomplete {line : List UInt8} (hline : 10 ∉ line) {held : List UInt8}
    (hheld : held <+: line ++ blockEnd) (hlength : held.length < (line ++ blockEnd).length)
    (seen : List UInt8) : splitHeader seen held = none := by
  induction line generalizing held seen with
  | nil =>
      rw [List.nil_append] at hheld hlength
      rw [List.prefix_iff_eq_take.1 hheld]
      have hlt : held.length < 4 := hlength
      revert hlt
      generalize held.length = n
      intro hlt
      match n with
      | 0 | 1 | 2 | 3 => rfl
      | n + 4 => omega
  | cons b line ih =>
      rw [List.mem_cons, not_or] at hline
      cases held with
      | nil => rfl
      | cons b' held =>
          obtain ⟨rfl, hrest⟩ := List.cons_prefix_cons.1 hheld
          have hhead : held.head? ≠ some 10 :=
            head?_ne_of_prefix hline.2 (hrest.trans (List.prefix_append _ []))
          rw [splitHeader_skip (Ne.symm hline.1) hhead]
          exact ih hline.2 hrest (Nat.lt_of_succ_lt_succ hlength) (b' :: seen)

/-! ## What the block declares -/

/-- The one line of the header block in front of a body of `n` octets. -/
def lengthLine (n : Nat) : List UInt8 :=
  lengthField ++ Utf8.octets (String.ofList (Numeral.digits n))

theorem header_eq (n : Nat) : header n = lengthLine n ++ blockEnd := by
  rw [header, lengthLine, blockEnd, List.append_assoc]

theorem lengthLine_eq (n : Nat) :
    lengthLine n = [67, 111, 110, 116, 101, 110, 116, 45, 76, 101, 110, 103, 116, 104] ++
      58 :: Utf8.octets (String.ofList (' ' :: Numeral.digits n)) := by
  rw [Utf8.octets_cons_ascii (by decide)]
  rfl

theorem not_mem_lengthLine (n : Nat) : 10 ∉ lengthLine n := by
  intro h
  rw [lengthLine, List.mem_append] at h
  rcases h with h | h
  · exact absurd h (by decide)
  · obtain ⟨c, hc, hoctet⟩ := Utf8.mem_octets_ascii (fun c => Numeral.digits_ascii) h
    have hnat := (toNat_of_isDigit (Numeral.isDigit_of_mem_digits hc)).1
    rw [← hoctet] at hnat
    exact absurd hnat (by decide)

theorem field?_lengthLine (n : Nat) :
    field? (lengthLine n) =
      some ([67, 111, 110, 116, 101, 110, 116, 45, 76, 101, 110, 103, 116, 104],
        Utf8.octets (String.ofList (' ' :: Numeral.digits n))) := by
  rw [lengthLine_eq]
  rfl

theorem isContentLength_name :
    isContentLength [67, 111, 110, 116, 101, 110, 116, 45, 76, 101, 110, 103, 116, 104] =
      true := by
  have hname : [67, 111, 110, 116, 101, 110, 116, 45, 76, 101, 110, 103, 116, 104] =
      Utf8.octets (String.ofList "Content-Length".toList) := by rfl
  have hascii : ∀ c ∈ "Content-Length".toList, c.toNat < 128 := fun c hc =>
    of_decide_eq_true (List.all_eq_true.1 (by decide : "Content-Length".toList.all
      fun c => decide (c.toNat < 128)) c hc)
  rw [isContentLength, hname, Utf8.lossy_octets_ascii hascii]
  decide

theorem octetCount_digits {n : Nat} (h : n < Numeral.unsignedBound) :
    octetCount (Utf8.octets (String.ofList (' ' :: Numeral.digits n))) = .ok n := by
  have hascii : ∀ c ∈ ' ' :: Numeral.digits n, c.toNat < 128 := by
    intro c hc
    rcases List.mem_cons.1 hc with rfl | hc
    · decide
    · exact Numeral.digits_ascii hc
  rw [octetCount, Utf8.lossy_octets_ascii hascii, Numeral.trim_digits, Numeral.unsigned?_digits h]

theorem length_lengthLine {n : Nat} (h : n ≤ maxMessageSize) : (lengthLine n).length ≤ 24 := by
  have hdigits : (Numeral.digits n).length ≤ 8 :=
    Numeral.length_digits_le (by decide) (Nat.lt_of_le_of_lt h (by decide))
  rw [lengthLine, List.length_append, Utf8.length_octets_ascii fun c => Numeral.digits_ascii]
  have hfield : lengthField.length = 16 := rfl
  omega

/-- The block says how many octets follow. -/
theorem declaredLength_lengthLine {n : Nat} (h : n ≤ maxMessageSize) :
    declaredLength (lengthLine n) = .ok n := by
  have hshort : ¬ maxHeaderSize < (lengthLine n).length := by
    have hlength := length_lengthLine h
    rw [maxHeaderSize]
    omega
  have hcount : n < Numeral.unsignedBound := Nat.lt_of_le_of_lt h (by decide)
  rw [declaredLength, if_neg hshort, List.splitOn_eq_singleton (not_mem_lengthLine n),
    contentLength, field?_lengthLine]
  simp only [isContentLength_name, if_true, octetCount_digits hcount]

/-! ## What is framed -/

theorem splitHeader_frame (body : List UInt8) :
    splitHeader [] (frame body) = some (lengthLine body.length, body) := by
  rw [frame, header_eq]
  exact splitHeader_line (not_mem_lengthLine body.length) [] body

theorem frameText_inj {text other : String} (h : frameText text = frameText other) :
    text = other := by
  have hsplit := congrArg (splitHeader []) h
  rw [frameText, frameText, splitHeader_frame, splitHeader_frame] at hsplit
  have hbody := (Prod.mk.inj (Option.some.inj hsplit)).2
  have htext := congrArg Utf8.text? hbody
  rw [Utf8.text?_octets, Utf8.text?_octets] at htext
  exact Option.some.inj htext

end Wire

end LspClient
