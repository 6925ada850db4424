import LspClient.Json.Token
import LspClient.Proofs.Json.Quoted

/-!
# Cutting written text

What is written for a value is cut back into its tokens: the structural
characters, the quoted texts and the words, with the blanks between them left
out. Only a word needs to know what follows it, since it goes on until
something ends it (`EndsWord`).

The offsets of tokens matter for messages only and are not followed here. That
the items from a place on are some list is said of any offset that the place
may have.
-/

namespace LspClient.Json

/-- Whether a text starts with something that ends a word. -/
def EndsWord (text : List Char) : Prop :=
  ∀ c ∈ text.head?, Token.isAtomChar c = false

theorem of_isAtomChar {c : Char} (h : Token.isAtomChar c = true) :
    Token.isBlank c = false ∧ Token.structural? c = none ∧ c ≠ '"' := by
  simp only [Token.isAtomChar, Token.isDelimiter, Bool.and_eq_true, Bool.not_eq_true',
    Bool.or_eq_false_iff, beq_eq_false_iff_ne] at h
  obtain ⟨hblank, ⟨⟨⟨⟨⟨h1, h2⟩, h3⟩, h4⟩, h5⟩, h6⟩, hquote⟩ := h
  refine ⟨hblank, ?_, hquote⟩
  rw [Token.structural?, if_neg h1, if_neg h2, if_neg h3, if_neg h4, if_neg h5, if_neg h6]

theorem endsWord_cons {c : Char} (h : Token.isAtomChar c = false) (rest : List Char) :
    EndsWord (c :: rest) := by
  intro d hd
  rwa [← Option.some.inj hd]

theorem EndsWord.takeWhile {rest : List Char} (h : EndsWord rest) :
    rest.takeWhile Token.isAtomChar = [] := by
  cases rest with
  | nil => rfl
  | cons c cs => exact List.takeWhile_cons_of_neg (by simp [h c rfl])

theorem EndsWord.dropWhile {rest : List Char} (h : EndsWord rest) :
    rest.dropWhile Token.isAtomChar = rest := by
  cases rest with
  | nil => rfl
  | cons c cs => exact List.dropWhile_cons_of_neg (by simp [h c rfl])

namespace Cursor

theorem items_eq (place : Cursor) : place.items = match place.next? with
    | none => []
    | some (item, after) => item :: after.items := by
  rw [items, itemsOnto]
  split
  · next h => rw [h]; rfl
  · next item after h => rw [h, itemsOnto_eq]; rfl

theorem items_nil (offset : Nat) : items ⟨offset, []⟩ = [] := by
  rw [items_eq]
  rfl

theorem items_blank {c : Char} (h : Token.isBlank c = true) (offset : Nat) (rest : List Char) :
    items ⟨offset, c :: rest⟩ = items ⟨offset + 1, rest⟩ := by
  have hskip : skipBlanks ⟨offset, c :: rest⟩ = skipBlanks ⟨offset + 1, rest⟩ := by
    rw [skipBlanks, skipBlanks, List.takeWhile_cons_of_pos h, List.dropWhile_cons_of_pos h,
      List.length_cons, Nat.add_assoc, Nat.add_comm 1]
  rw [items_eq, next?, hskip, items_eq, next?]

theorem skipBlanks_of_not {c : Char} (h : Token.isBlank c = false) (offset : Nat)
    (rest : List Char) : skipBlanks ⟨offset, c :: rest⟩ = ⟨offset, c :: rest⟩ := by
  have hneg : ¬ Token.isBlank c = true := by simp [h]
  rw [skipBlanks, List.takeWhile_cons_of_neg hneg, List.dropWhile_cons_of_neg hneg]
  rfl

theorem items_structural {c : Char} {token : Token} (h : Token.structural? c = some token)
    (hblank : Token.isBlank c = false) (offset : Nat) (rest : List Char) :
    items ⟨offset, c :: rest⟩ = .ok ⟨offset, token⟩ :: items ⟨offset + 1, rest⟩ := by
  rw [items_eq, next?, skipBlanks_of_not hblank, item?]
  dsimp only
  rw [h]

theorem items_quoted (s : String) (offset : Nat) (rest : List Char) :
    ∃ offset', items ⟨offset, Quoted.write s ++ rest⟩ =
      .ok ⟨offset, .string s⟩ :: items ⟨offset', rest⟩ := by
  have htext : Quoted.write s ++ rest = '"' :: (s.toList.flatMap Quoted.escape ++ '"' :: rest) := by
    rw [Quoted.write, List.cons_append, List.cons_append, List.append_assoc]
    rfl
  obtain ⟨offset', hread⟩ := Quoted.read_write s.toList offset (offset + 1) [] rest
  have hitem : item? ⟨offset, '"' :: (s.toList.flatMap Quoted.escape ++ '"' :: rest)⟩ =
      some (.ok ⟨offset, .string s⟩, ⟨offset', rest⟩) := by
    simp [item?, Token.structural?, hread]
  refine ⟨offset', ?_⟩
  rw [htext, items_eq, next?, skipBlanks_of_not (by decide), hitem]

theorem items_word {c : Char} {cs rest : List Char}
    (hword : ∀ d ∈ c :: cs, Token.isAtomChar d = true) (hrest : EndsWord rest) (offset : Nat) :
    ∃ offset', items ⟨offset, c :: cs ++ rest⟩ =
      .ok ⟨offset, .atom (String.ofList (c :: cs))⟩ :: items ⟨offset', rest⟩ := by
  obtain ⟨hblank, hstructural, hquote⟩ := of_isAtomChar (hword c List.mem_cons_self)
  have hcs : ∀ d ∈ cs, Token.isAtomChar d = true :=
    fun d hd => hword d (List.mem_cons_of_mem c hd)
  refine ⟨offset + Token.width (c :: cs), ?_⟩
  rw [List.cons_append, items_eq, next?, skipBlanks_of_not hblank, item?]
  dsimp only
  rw [hstructural]
  dsimp only
  rw [if_neg hquote, List.takeWhile_append_of_pos hcs, List.dropWhile_append_of_pos hcs,
    hrest.takeWhile, hrest.dropWhile, List.append_nil]

end Cursor

end LspClient.Json
