import LspClient.Proofs.Text.Utf8

/-!
# Slices of a text

Octets of a text that are cut out of it are a text again if both ends are boundaries of
characters, and a boundary is told from the octet behind it alone: an octet continues a
character or begins one. `slice?` cuts only there. So whatever is cut out is a run of the
characters (`slice?_eq_some`), and every run of the characters can be cut out (`slice?_row`).
-/

namespace LspClient.Utf8

/-- Whether an octet continues a character. -/
def isContinuation (b : UInt8) : Bool :=
  0x80 ≤ b.toNat && b.toNat < 0xC0

/-- Whether an index is between two characters, or at an end. -/
def isBoundary (bs : List UInt8) (i : Nat) : Bool :=
  match bs[i]? with
  | some b => !isContinuation b
  | none => i == bs.length

/-- The text between two indices, if both are boundaries. -/
def slice? (bs : List UInt8) (i j : Nat) : Option String :=
  if i ≤ j && isBoundary bs i && isBoundary bs j then text? ((bs.drop i).take (j - i)) else none

/-- The octets of some characters. -/
def row (cs : List Char) : List UInt8 :=
  cs.flatMap String.utf8EncodeChar

theorem octets_eq_row (cs : List Char) : octets (String.ofList cs) = row cs :=
  octets_ofList cs

@[simp] theorem row_nil : row [] = [] := rfl

@[simp] theorem row_cons (c : Char) (cs : List Char) :
    row (c :: cs) = String.utf8EncodeChar c ++ row cs := rfl

@[simp] theorem row_append (cs ds : List Char) : row (cs ++ ds) = row cs ++ row ds :=
  List.flatMap_append

/-! ## The octets of a character -/

theorem isContinuation_iff {b : UInt8} :
    isContinuation b = true ↔ 0x80 ≤ b.toNat ∧ b.toNat < 0xC0 := by
  rw [isContinuation, Bool.and_eq_true, decide_eq_true_eq, decide_eq_true_eq]

theorem isContinuation_octet (x : Nat) : isContinuation (UInt8.ofNat (x % 0x40 + 0x80)) = true := by
  rw [isContinuation_iff, toNat_octet (by omega)]
  omega

theorem not_isContinuation_octet {n : Nat} (h : n < 0x80 ∨ 0xC0 ≤ n ∧ n < 256) :
    isContinuation (UInt8.ofNat n) = false := by
  rw [← Bool.not_eq_true, isContinuation_iff, toNat_octet (by omega)]
  omega

/-- A character is one octet that begins it, and some that continue it. -/
theorem encode_eq_cons (c : Char) : ∃ b bs, String.utf8EncodeChar c = b :: bs ∧
    isContinuation b = false ∧ ∀ d ∈ bs, isContinuation d = true := by
  rw [String.utf8EncodeChar]
  split
  · exact ⟨_, [], rfl, not_isContinuation_octet (by omega), nofun⟩
  split
  · exact ⟨_, _, rfl, not_isContinuation_octet (by omega),
      List.forall_mem_singleton.2 (isContinuation_octet _)⟩
  split
  · exact ⟨_, _, rfl, not_isContinuation_octet (by omega), List.forall_mem_cons.2
      ⟨isContinuation_octet _, List.forall_mem_singleton.2 (isContinuation_octet _)⟩⟩
  · exact ⟨_, _, rfl, not_isContinuation_octet (by omega), List.forall_mem_cons.2
      ⟨isContinuation_octet _, List.forall_mem_cons.2
        ⟨isContinuation_octet _, List.forall_mem_singleton.2 (isContinuation_octet _)⟩⟩⟩

theorem encode_ascii {c : Char} (h : c.toNat < 128) :
    String.utf8EncodeChar c = [UInt8.ofNat c.toNat] :=
  if_pos (Nat.le_of_lt_succ h)

/-- No octet of another character is ASCII. -/
theorem encode_high {c : Char} (h : 128 ≤ c.toNat) :
    ∀ b ∈ String.utf8EncodeChar c, 128 ≤ b.toNat := by
  have hhigh : ∀ n : Nat, 128 ≤ n ∧ n < 256 → 128 ≤ (UInt8.ofNat n).toNat := fun n hn => by
    rw [toNat_octet hn.2]
    exact hn.1
  have hlarge : ¬ c.val.toNat ≤ 127 := Nat.not_le_of_lt h
  rw [String.utf8EncodeChar, if_neg hlarge]
  split
  · exact List.forall_mem_cons.2 ⟨hhigh _ (by omega),
      List.forall_mem_singleton.2 (hhigh _ (by omega))⟩
  split
  · exact List.forall_mem_cons.2 ⟨hhigh _ (by omega), List.forall_mem_cons.2
      ⟨hhigh _ (by omega), List.forall_mem_singleton.2 (hhigh _ (by omega))⟩⟩
  · exact List.forall_mem_cons.2 ⟨hhigh _ (by omega), List.forall_mem_cons.2
      ⟨hhigh _ (by omega), List.forall_mem_cons.2
        ⟨hhigh _ (by omega), List.forall_mem_singleton.2 (hhigh _ (by omega))⟩⟩⟩

/-- What is known of the ASCII characters, of the others, and of the octets above 127 is
known of the octets of every character. -/
theorem forall_mem_encode {α : Type} {p : UInt8 → α} {q : Char → α} (value : α)
    (hascii : ∀ n < 128, p (UInt8.ofNat n) = q (Char.ofNat n))
    (hoctets : ∀ n < 256, 128 ≤ n → p (UInt8.ofNat n) = value)
    (hchars : ∀ c : Char, 128 ≤ c.toNat → q c = value) (c : Char) :
    ∀ b ∈ String.utf8EncodeChar c, p b = q c := by
  rcases Nat.lt_or_ge c.toNat 128 with hlt | hge
  · rw [encode_ascii hlt, List.forall_mem_singleton, hascii _ hlt, Char.ofNat_toNat]
  · intro b hb
    rw [hchars c hge, ← UInt8.ofNat_toNat (x := b)]
    exact hoctets _ b.toNat_lt (encode_high hge b hb)

/-! ## Boundaries -/

theorem getElem?_row_length (before after : List Char) :
    (row (before ++ after))[(row before).length]? = (row after).head? := by
  rw [row_append, List.getElem?_append_right (Nat.le_refl _), Nat.sub_self, List.head?_eq_getElem?]

theorem isBoundary_row (before after : List Char) :
    isBoundary (row (before ++ after)) (row before).length = true := by
  rw [isBoundary, getElem?_row_length]
  cases after with
  | nil => simp
  | cons c after =>
      obtain ⟨b, bs, hc, hb, -⟩ := encode_eq_cons c
      simp [hc, hb]

/-- An index inside a character is no boundary. -/
theorem not_isBoundary_inside {c : Char} {i : Nat} (hpos : 0 < i) (hlt : i < c.utf8Size)
    (cs : List Char) : isBoundary (row (c :: cs)) i = false := by
  obtain ⟨b, bs, hc, -, hbs⟩ := encode_eq_cons c
  obtain ⟨k, rfl⟩ := Nat.exists_eq_succ_of_ne_zero (Nat.ne_of_gt hpos)
  have hk : k < bs.length := by
    have hsize := String.length_utf8EncodeChar c
    rw [hc, List.length_cons] at hsize
    omega
  rw [isBoundary, row_cons, hc, List.cons_append, List.getElem?_cons_succ,
    List.getElem?_append_left hk, List.getElem?_eq_getElem hk]
  dsimp only
  rw [hbs _ (List.getElem_mem hk)]
  rfl

theorem isBoundary_shift (bs cs : List UInt8) (i : Nat) :
    isBoundary (bs ++ cs) (bs.length + i) = isBoundary cs i := by
  rw [isBoundary, isBoundary, List.getElem?_append_right (Nat.le_add_right _ _),
    Nat.add_sub_cancel_left, List.length_append]
  cases cs[i]? with
  | some b => rfl
  | none =>
      rw [Bool.eq_iff_iff, beq_iff_eq, beq_iff_eq]
      exact Nat.add_left_cancel_iff

/-- The boundaries of a text are where it can be divided. -/
theorem isBoundary_iff {text : List Char} {i : Nat} : isBoundary (row text) i = true ↔
    ∃ before after, text = before ++ after ∧ i = (row before).length := by
  constructor
  · intro h
    induction text generalizing i with
    | nil =>
        refine ⟨[], [], rfl, ?_⟩
        simpa [isBoundary] using h
    | cons c text ih =>
        rcases Nat.eq_zero_or_pos i with rfl | hpos
        · exact ⟨[], c :: text, rfl, rfl⟩
        · rcases Nat.lt_or_ge i c.utf8Size with hlt | hge
          · rw [not_isBoundary_inside hpos hlt] at h
            cases h
          · obtain ⟨k, rfl⟩ := Nat.exists_eq_add_of_le hge
            rw [← String.length_utf8EncodeChar, row_cons, isBoundary_shift] at h
            obtain ⟨before, after, rfl, rfl⟩ := ih h
            refine ⟨c :: before, after, rfl, ?_⟩
            rw [row_cons, List.length_append, String.length_utf8EncodeChar]
  · rintro ⟨before, after, rfl, rfl⟩
    exact isBoundary_row before after

/-! ## Slices -/

theorem text?_row (cs : List Char) : text? (row cs) = some (String.ofList cs) := by
  rw [← octets_eq_row, text?_octets]

/-- Every run of the characters is a slice. -/
theorem slice?_row (before run after : List Char) :
    slice? (row (before ++ (run ++ after))) (row before).length
      ((row before).length + (row run).length) = some (String.ofList run) := by
  have hstart := isBoundary_row before (run ++ after)
  have hstop : isBoundary (row (before ++ (run ++ after)))
      ((row before).length + (row run).length) = true := by
    rw [← List.length_append, ← row_append, ← List.append_assoc]
    exact isBoundary_row (before ++ run) after
  rw [slice?, hstart, hstop, decide_eq_true (Nat.le_add_right _ _), Bool.and_self,
    Bool.and_self, if_pos rfl, Nat.add_sub_cancel_left, row_append, List.drop_left, row_append,
    List.take_left, text?_row]

/-- Every slice is a run of the characters. -/
theorem slice?_eq_some {before rest : List Char} {j : Nat} {s : String}
    (h : slice? (row (before ++ rest)) (row before).length j = some s) :
    ∃ after, rest = s.toList ++ after ∧ j = (row before).length + (row s.toList).length := by
  rw [slice?] at h
  split at h
  · next hends =>
      rw [Bool.and_eq_true, Bool.and_eq_true, decide_eq_true_eq] at hends
      obtain ⟨k, rfl⟩ := Nat.exists_eq_add_of_le hends.1.1
      have hstop := hends.2
      rw [row_append, isBoundary_shift] at hstop
      obtain ⟨run, after, rfl, rfl⟩ := isBoundary_iff.1 hstop
      rw [row_append, Nat.add_sub_cancel_left, List.drop_left, row_append, List.take_left,
        text?_row, Option.some.injEq] at h
      subst h
      exact ⟨after, by rw [String.toList_ofList], by rw [String.toList_ofList]⟩
  · cases h

end LspClient.Utf8
