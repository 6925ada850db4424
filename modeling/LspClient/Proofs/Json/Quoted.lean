import LspClient.Json.Quoted

/-!
# Quoted text reads back

What a character is written as between quotes is read as that character,
whatever follows. An escape is written for seven characters with letters of
their own and for the other controls, whose numbers are written out; every
other character is neither a quote nor a backslash and stands for itself.
-/

namespace LspClient.Json.Quoted

theorem read_plain {c : Char} (hquote : c ≠ '"') (hescape : c ≠ '\\') (start offset : Nat)
    (said cs : List Char) :
    read start said offset (c :: cs) = read start (c :: said) (offset + c.utf8Size) cs := by
  rw [read, if_neg hquote, if_neg hescape]

theorem read_escaped {c : Char} {width : Nat} {cs : List Char}
    (h : escape? cs = some (c, width)) (start offset : Nat) (said : List Char) :
    read start said offset ('\\' :: cs) =
      read start (c :: said) (offset + 1 + width) (cs.drop width) := by
  rw [read, if_neg (by decide), if_pos rfl, h]

theorem hexDigit?_hexDigit {n : Nat} (h : n < 16) : hexDigit? (hexDigit n) = some n := by
  revert n
  decide

/-- Four digits spell the number that they were written for. -/
theorem hex4?_digits {n : Nat} (h : n < 65536) (rest : List Char) :
    hex4? (hexDigit (n / 4096 % 16) :: hexDigit (n / 256 % 16) :: hexDigit (n / 16 % 16) ::
      hexDigit (n % 16) :: rest) = some n := by
  have hlt : ∀ k, k % 16 < 16 := fun k => Nat.mod_lt k (by decide)
  rw [hex4?, hexDigit?_hexDigit (hlt _), hexDigit?_hexDigit (hlt _), hexDigit?_hexDigit (hlt _),
    hexDigit?_hexDigit (hlt _)]
  show some _ = some n
  congr 1
  omega

theorem not_surrogate {n : Nat} (h : n < 0xD800) :
    isHighSurrogate n = false ∧ isLowSurrogate n = false := by
  simp only [isHighSurrogate, isLowSurrogate, Bool.and_eq_false_iff, decide_eq_false_iff_not]
  omega

theorem escape?_numeric {c : Char} (h : c < ' ') (rest : List Char) :
    escape? ((numericEscape c.toNat).drop 1 ++ rest) = some (c, 5) := by
  have hlt : c.toNat < 32 := h
  obtain ⟨hhigh, hlow⟩ := not_surrogate (Nat.lt_trans hlt (by decide))
  have hescape : numericEscape? (hexDigit (c.toNat / 4096 % 16) ::
      hexDigit (c.toNat / 256 % 16) :: hexDigit (c.toNat / 16 % 16) ::
      hexDigit (c.toNat % 16) :: rest) = some (c, 4) := by
    rw [numericEscape?, hex4?_digits (Nat.lt_trans hlt (by decide)) rest]
    simp [hhigh, hlow]
  show (numericEscape? (_ :: _ :: _ :: _ :: rest)).map _ = _
  rw [hescape]
  rfl

theorem read_letter {letter c : Char} (h : ∀ rest, escape? (letter :: rest) = some (c, 1))
    (start offset : Nat) (said rest : List Char) :
    read start said offset (['\\', letter] ++ rest) =
      read start (c :: said) (offset + 1 + 1) rest :=
  read_escaped (h rest) start offset said

/-- A character that was written is read as that character. -/
theorem read_escape (c : Char) (start offset : Nat) (said rest : List Char) :
    ∃ offset', read start said offset (escape c ++ rest) =
      read start (c :: said) offset' rest := by
  rw [escape]
  split
  · next h =>
      rw [h]
      exact ⟨_, read_letter (fun _ => rfl) start offset said rest⟩
  split
  · next h =>
      rw [h]
      exact ⟨_, read_letter (fun _ => rfl) start offset said rest⟩
  split
  · next h =>
      rw [h]
      exact ⟨_, read_letter (fun _ => rfl) start offset said rest⟩
  split
  · next h =>
      rw [h]
      exact ⟨_, read_letter (fun _ => rfl) start offset said rest⟩
  split
  · next h =>
      rw [h]
      exact ⟨_, read_letter (fun _ => rfl) start offset said rest⟩
  split
  · next h =>
      rw [h]
      exact ⟨_, read_letter (fun _ => rfl) start offset said rest⟩
  split
  · next h =>
      rw [h]
      exact ⟨_, read_letter (fun _ => rfl) start offset said rest⟩
  split
  · next h => exact ⟨_, read_escaped (escape?_numeric h rest) start offset said⟩
  · next hquote hescape _ _ _ _ _ _ =>
      exact ⟨_, read_plain hquote hescape start offset said rest⟩

/-- A text that was written is read to its closing quote. -/
theorem read_write (cs : List Char) (start offset : Nat) (said rest : List Char) :
    ∃ offset', read start said offset (cs.flatMap escape ++ '"' :: rest) =
      .ok ⟨said.reverse ++ cs, offset', rest⟩ := by
  induction cs generalizing offset said with
  | nil =>
      refine ⟨offset + 1, ?_⟩
      rw [List.flatMap_nil, List.nil_append, read, if_pos rfl, List.append_nil]
  | cons c cs ih =>
      obtain ⟨next, hnext⟩ := read_escape c start offset said (cs.flatMap escape ++ '"' :: rest)
      obtain ⟨last, hlast⟩ := ih next (c :: said)
      refine ⟨last, ?_⟩
      rw [List.flatMap_cons, List.append_assoc, hnext, hlast, List.reverse_cons,
        List.append_assoc]
      rfl

end LspClient.Json.Quoted
