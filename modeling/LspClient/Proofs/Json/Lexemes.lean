import LspClient.Proofs.Json.Literals
import LspClient.Proofs.Json.Words

/-!
# What the tokens of a text are cut from

A token is cut from a piece of the text, its lexeme. An item is found behind some blanks, starts
where its lexeme starts, and leaves the cursor where the lexeme ends (`lexeme_of_next?`). The other
way round a lexeme is found wherever it stands, unless it is a word that goes on
(`next?_of_lexeme`). What cannot be cut is a literal with a bad escape or without an end, and it is
refused for that (`fault_of_next?`, `next?_of_fault`).

Together these say exactly what is made of a string literal (`literals_of_place`).
-/

namespace LspClient.Json

/-! ## Lexemes -/

namespace Token

/-- The structural characters. -/
def structurals : List (Char × Token) :=
  [('{', beginObject), ('}', endObject), ('[', beginArray), (']', endArray), (',', comma),
    (':', colon)]

/-- The characters that a token is cut from. -/
inductive IsLexeme : Token → List Char → Prop
  | structural {c : Char} {token : Token} (h : (c, token) ∈ structurals) : IsLexeme token [c]
  | string {spelling : List Char} {text : String} (h : Quoted.Spells spelling text.toList) :
      IsLexeme (.string text) ('"' :: spelling ++ ['"'])
  | atom {word : List Char} (hne : word ≠ []) (h : ∀ c ∈ word, isAtomChar c = true) :
      IsLexeme (.atom (String.ofList word)) word

/-- Only a word goes on until something ends it. -/
def Ends (token : Token) (rest : List Char) : Prop :=
  ∀ word, token = .atom word → EndsWord rest

/-- What may stand between tokens. -/
def Blanks (cs : List Char) : Prop :=
  ∀ c ∈ cs, isBlank c = true

theorem structural?_iff {c : Char} {token : Token} :
    structural? c = some token ↔ (c, token) ∈ structurals := by
  constructor
  · intro h
    simp only [structural?] at h
    repeat' split at h
    all_goals simp_all [structurals]
  · have hall : ∀ pair ∈ structurals, structural? pair.1 = some pair.2 := by decide
    exact hall (c, token)

theorem ends_structural {c : Char} {token : Token} (h : (c, token) ∈ structurals)
    (rest : List Char) : token.Ends rest := by
  rintro word rfl
  simp [structurals] at h

theorem isAtomChar_of {c : Char} (hblank : isBlank c = false) (hstructural : structural? c = none)
    (hquote : c ≠ '"') : isAtomChar c = true := by
  simp only [structural?] at hstructural
  repeat' split at hstructural
  all_goals simp_all [isAtomChar, isDelimiter]

/-- Blanks are ASCII. -/
theorem Blanks.width {cs : List Char} (h : Blanks cs) : Token.width cs = cs.length := by
  have hascii : [' ', '\t', '\n', '\x0c', '\r'].all (fun c => decide (c.toNat < 128)) = true := rfl
  refine width_ascii fun c hc => of_decide_eq_true (List.all_eq_true.1 hascii c ?_)
  simpa [isBlank, or_assoc] using h c hc

/-- A lexeme starts with something that is not blank. -/
theorem IsLexeme.head {token : Token} {cs : List Char} (h : token.IsLexeme cs) :
    ∃ c others, cs = c :: others ∧ isBlank c = false := by
  cases h with
  | @structural c _ h =>
      have hall : ∀ pair ∈ structurals, isBlank pair.1 = false := by decide
      exact ⟨c, [], rfl, hall _ h⟩
  | string h => exact ⟨'"', _, rfl, rfl⟩
  | @atom word hne h =>
      obtain ⟨c, others, rfl⟩ := List.exists_cons_of_ne_nil hne
      exact ⟨c, others, rfl, (of_isAtomChar (h c List.mem_cons_self)).1⟩

end Token

namespace Cursor

theorem head?_dropWhile {α : Type} {p : α → Bool} {as : List α} :
    ∀ a ∈ (as.dropWhile p).head?, p a = false := by
  intro a ha
  have hhead := List.head?_dropWhile_not p as
  rwa [ha] at hhead

open Token (IsLexeme Blanks structurals width)
open Quoted (Spells IsEscape)

/-- A text that starts with a quote and is no literal. -/
inductive Fault (offset : Nat) : List Char → DecodeError → Prop
  /-- a backslash that starts no escape, and what is in front of it is right -/
  | badEscape {spelling text after : List Char} (h : Spells spelling text)
      (hnone : ∀ c unit, IsEscape c unit → ¬ unit <+: '\\' :: after) :
      Fault offset ('"' :: spelling ++ '\\' :: after)
        (.invalidEscape (offset + width ('"' :: spelling)))
  /-- no closing quote, and all else is right -/
  | unterminated {spelling text : List Char} (h : Spells spelling text) :
      Fault offset ('"' :: spelling) (.unterminatedString offset)

/-! ## At the start of an item -/

theorem item?_quote (offset : Nat) (cs : List Char) : item? ⟨offset, '"' :: cs⟩ =
    match Quoted.read offset [] (offset + 1) cs with
    | .ok reading => some (.ok ⟨offset, .string (String.ofList reading.text)⟩,
        ⟨reading.offset, reading.rest⟩)
    | .error e => some (.error e, ⟨offset + width ('"' :: cs), []⟩) := by
  rfl

theorem width_literal (spelling : List Char) :
    width ('"' :: spelling ++ ['"']) = 1 + width spelling + 1 := by
  rw [Token.width_append, width]
  rfl

theorem item?_of_lexeme {token : Token} {cs rest : List Char} (h : token.IsLexeme cs)
    (hends : token.Ends rest) (offset : Nat) : item? ⟨offset, cs ++ rest⟩ =
      some (.ok ⟨offset, token⟩, ⟨offset + width cs, rest⟩) := by
  cases h with
  | @structural c _ h =>
      have hwidth : ∀ pair ∈ structurals, width [pair.1] = 1 := by decide
      rw [List.singleton_append, item?, hwidth _ h]
      dsimp only
      rw [Token.structural?_iff.2 h]
  | @string spelling text h =>
      have hcs : '"' :: spelling ++ ['"'] ++ rest = '"' :: (spelling ++ '"' :: rest) := by simp
      rw [hcs, item?_quote, Quoted.read_spells h, Quoted.read, if_pos rfl, width_literal]
      simp only [List.append_nil, List.reverse_reverse, String.ofList_toList, Nat.add_assoc]
  | @atom word hne h =>
      obtain ⟨c, cs, rfl⟩ := List.exists_cons_of_ne_nil hne
      obtain ⟨-, hstructural, hquote⟩ := of_isAtomChar (h c List.mem_cons_self)
      have hcs : ∀ d ∈ cs, Token.isAtomChar d = true :=
        fun d hd => h d (List.mem_cons_of_mem c hd)
      have hrest := hends _ rfl
      rw [List.cons_append, item?]
      dsimp only
      rw [hstructural]
      dsimp only
      rw [if_neg hquote, List.takeWhile_append_of_pos hcs, List.dropWhile_append_of_pos hcs,
        hrest.takeWhile, hrest.dropWhile, List.append_nil]

theorem item?_of_fault {offset : Nat} {cs : List Char} {e : DecodeError} (h : Fault offset cs e) :
    item? ⟨offset, cs⟩ = some (.error e, ⟨offset + width cs, []⟩) := by
  cases h with
  | @badEscape spelling text after h hnone =>
      have hopening : width ('"' :: spelling) = 1 + width spelling := rfl
      rw [List.cons_append, item?_quote, Quoted.read_spells h, Quoted.read, if_neg (by decide),
        if_pos rfl, Quoted.escape?_eq_none.2 hnone, hopening, Nat.add_assoc]
  | @unterminated spelling text h =>
      rw [item?_quote, ← List.append_nil spelling, Quoted.read_spells h, Quoted.read]

/-! ## Behind blanks -/

theorem next?_blanks {blanks rest : List Char} (hblanks : Blanks blanks)
    (hrest : ∀ c ∈ rest.head?, Token.isBlank c = false) (offset : Nat) :
    next? ⟨offset, blanks ++ rest⟩ = item? ⟨offset + width blanks, rest⟩ := by
  rw [next?, skipBlanks, takeWhile_of_head hblanks hrest, dropWhile_of_head hblanks hrest,
    hblanks.width]

theorem next?_of_lexeme {blanks cs rest : List Char} {token : Token} (hblanks : Blanks blanks)
    (h : token.IsLexeme cs) (hends : token.Ends rest) (offset : Nat) :
    next? ⟨offset, blanks ++ (cs ++ rest)⟩ =
      some (.ok ⟨offset + width blanks, token⟩, ⟨offset + width blanks + width cs, rest⟩) := by
  obtain ⟨c, others, rfl, hc⟩ := h.head
  rw [next?_blanks hblanks (by rintro d ⟨⟩; exact hc), item?_of_lexeme h hends]

theorem Fault.head {offset : Nat} {cs : List Char} {e : DecodeError} (h : Fault offset cs e) :
    ∀ c ∈ cs.head?, Token.isBlank c = false := by
  cases h
  all_goals
    rintro c ⟨⟩
    rfl

theorem next?_of_fault {blanks cs : List Char} {e : DecodeError} {offset : Nat}
    (hblanks : Blanks blanks) (h : Fault (offset + width blanks) cs e) :
    next? ⟨offset, blanks ++ cs⟩ =
      some (.error e, ⟨offset + width blanks + width cs, []⟩) := by
  rw [next?_blanks hblanks h.head, item?_of_fault h]

theorem next?_of_blanks {blanks : List Char} (hblanks : Blanks blanks) (offset : Nat) :
    next? ⟨offset, blanks⟩ = none := by
  rw [← List.append_nil blanks, next?_blanks hblanks (by simp)]
  rfl

theorem lexeme_or_fault {c : Char} (hblank : Token.isBlank c = false) (cs : List Char) :
    (∃ (token : Token) (lexeme rest : List Char), token.IsLexeme lexeme ∧ token.Ends rest ∧
        c :: cs = lexeme ++ rest) ∨
      ∀ offset, ∃ e, Fault offset (c :: cs) e := by
  cases hstructural : Token.structural? c with
  | some token =>
      have hmem := Token.structural?_iff.1 hstructural
      exact .inl ⟨token, [c], cs, .structural hmem, Token.ends_structural hmem cs, rfl⟩
  | none =>
      by_cases hquote : c = '"'
      · obtain ⟨spelling, text, rest, hspells, rfl, hrest⟩ := Quoted.read_cases cs
        rw [← String.toList_ofList (l := text)] at hspells
        rcases hrest with ⟨after, rfl⟩ | ⟨after, rfl, hnone⟩ | rfl
        · exact .inl ⟨_, _, after, .string hspells, nofun, by simp [hquote]⟩
        · rw [hquote]
          exact .inr fun _ => ⟨_, .badEscape hspells (Quoted.escape?_eq_none.1 hnone)⟩
        · rw [hquote, List.append_nil]
          exact .inr fun _ => ⟨_, .unterminated hspells⟩
      · have hc := Token.isAtomChar_of hblank hstructural hquote
        refine .inl ⟨_, c :: cs.takeWhile Token.isAtomChar, cs.dropWhile Token.isAtomChar,
          .atom (List.cons_ne_nil _ _) (List.forall_mem_cons.2 ⟨hc, fun d hd => ?_⟩),
          fun _ _ => head?_dropWhile, ?_⟩
        · exact List.mem_takeWhile_imp hd
        · rw [List.cons_append, List.takeWhile_append_dropWhile]

/-- What the next item of a text may be: behind some blanks there is nothing, a lexeme, or a
fault. -/
inductive Found (place : Cursor) : Option (Except DecodeError Located × Cursor) → Prop
  | nothing (hblanks : Blanks place.rest) : Found place none
  | token {blanks lexeme after : List Char} {token : Token} (hblanks : Blanks blanks)
      (hlexeme : token.IsLexeme lexeme) (hends : token.Ends after)
      (hrest : place.rest = blanks ++ (lexeme ++ after)) :
      Found place (some (.ok ⟨place.offset + width blanks, token⟩,
        ⟨place.offset + width blanks + width lexeme, after⟩))
  | fault {blanks rest : List Char} {e : DecodeError} (hblanks : Blanks blanks)
      (hfault : Fault (place.offset + width blanks) rest e) (hrest : place.rest = blanks ++ rest) :
      Found place (some (.error e, ⟨place.offset + width blanks + width rest, []⟩))

theorem exists_blanks (cs : List Char) : ∃ blanks rest, Blanks blanks ∧ cs = blanks ++ rest ∧
    ∀ c ∈ rest.head?, Token.isBlank c = false :=
  ⟨cs.takeWhile Token.isBlank, cs.dropWhile Token.isBlank, fun _ hc => List.mem_takeWhile_imp hc,
    List.takeWhile_append_dropWhile.symm, head?_dropWhile⟩

theorem found_next? (place : Cursor) : Found place place.next? := by
  obtain ⟨offset, cs⟩ := place
  obtain ⟨blanks, rest, hblanks, rfl, hhead⟩ := exists_blanks cs
  cases rest with
  | nil =>
      rw [List.append_nil, next?_of_blanks hblanks]
      exact .nothing hblanks
  | cons c rest =>
      rcases lexeme_or_fault (hhead c rfl) rest with
        ⟨token, lexeme, after, hlexeme, hends, heq⟩ | hfault
      · rw [heq, next?_of_lexeme hblanks hlexeme hends]
        exact .token hblanks hlexeme hends rfl
      · obtain ⟨e, he⟩ := hfault (offset + width blanks)
        rw [next?_of_fault hblanks he]
        exact .fault hblanks he rfl

/-- A token is cut from its lexeme. -/
theorem lexeme_of_next? {place after : Cursor} {t : Located}
    (h : place.next? = some (.ok t, after)) : ∃ blanks lexeme, Blanks blanks ∧
      t.token.IsLexeme lexeme ∧ t.token.Ends after.rest ∧
      place.rest = blanks ++ (lexeme ++ after.rest) ∧ t.offset = place.offset + width blanks ∧
      after.offset = t.offset + width lexeme := by
  have hfound := found_next? place
  rw [h] at hfound
  cases hfound with
  | token hblanks hlexeme hends hrest =>
      exact ⟨_, _, hblanks, hlexeme, hends, hrest, rfl, rfl⟩

/-- What is refused is a literal that is broken or has no end. -/
theorem fault_of_next? {place after : Cursor} {e : DecodeError}
    (h : place.next? = some (.error e, after)) : ∃ blanks rest, Blanks blanks ∧
      place.rest = blanks ++ rest ∧ Fault (place.offset + width blanks) rest e ∧
      after.rest = [] := by
  have hfound := found_next? place
  rw [h] at hfound
  cases hfound with
  | fault hblanks hfault hrest => exact ⟨_, _, hblanks, hrest, hfault, rfl⟩

theorem blanks_of_next? {place : Cursor} (h : place.next? = none) : Blanks place.rest := by
  have hfound := found_next? place
  rw [h] at hfound
  cases hfound with
  | nothing hblanks => exact hblanks

/-! ## String literals -/

/-- What the next item of a text is, if a string literal decides it. -/
structure Literals (place : Cursor) : Prop where
  /-- a literal is the string that it spells, whatever follows -/
  closed : ∀ spelling text rest, Spells spelling text →
    place.rest = '"' :: spelling ++ '"' :: rest →
    place.next? = some (.ok ⟨place.offset, .string (String.ofList text)⟩,
      ⟨place.offset + width ('"' :: spelling ++ ['"']), rest⟩)
  /-- the first backslash that starts no escape is refused -/
  badEscape : ∀ spelling text after, Spells spelling text →
    (∀ c unit, IsEscape c unit → ¬ unit <+: '\\' :: after) →
    place.rest = '"' :: spelling ++ '\\' :: after →
    place.next? = some (.error (.invalidEscape (place.offset + width ('"' :: spelling))),
      ⟨place.offset + width place.rest, []⟩)
  /-- a literal without a closing quote is refused where it starts -/
  unterminated : ∀ spelling text, Spells spelling text → place.rest = '"' :: spelling →
    place.next? = some (.error (.unterminatedString place.offset),
      ⟨place.offset + width place.rest, []⟩)
  /-- there is nothing else that a quote may start -/
  cases : ∀ cs, place.rest = '"' :: cs → ∃ spelling text, Spells spelling text ∧
    ((∃ rest, cs = spelling ++ '"' :: rest) ∨
      (∃ after, cs = spelling ++ '\\' :: after ∧
        ∀ c unit, IsEscape c unit → ¬ unit <+: '\\' :: after) ∨
      cs = spelling)
  /-- every string comes from a literal -/
  spelled : ∀ offset text after, place.next? = some (.ok ⟨offset, .string text⟩, after) →
    ∃ blanks spelling, Blanks blanks ∧ Spells spelling text.toList ∧
      place.rest = blanks ++ '"' :: spelling ++ '"' :: after.rest ∧
      offset = place.offset + width blanks ∧
      after.offset = offset + width ('"' :: spelling ++ ['"'])

/-- Wherever a text is cut. -/
theorem literals_of_place (place : Cursor) : place.Literals := by
  obtain ⟨start, cs⟩ := place
  have hnothing : Blanks [] := nofun
  constructor
  case closed =>
    rintro spelling text rest hspells rfl
    rw [← String.toList_ofList (l := text)] at hspells
    have hends : Token.Ends (.string (String.ofList text)) rest := nofun
    simpa [width] using next?_of_lexeme hnothing (.string hspells) hends start
  case badEscape =>
    rintro spelling text after hspells hnone rfl
    simpa [width] using next?_of_fault hnothing (.badEscape hspells hnone)
  case unterminated =>
    rintro spelling text hspells rfl
    simpa [width] using next?_of_fault hnothing (.unterminated hspells)
  case cases =>
    rintro cs rfl
    obtain ⟨spelling, text, rest, hspells, rfl, hrest⟩ := Quoted.read_cases cs
    refine ⟨spelling, text, hspells, ?_⟩
    rcases hrest with ⟨after, rfl⟩ | ⟨after, rfl, hnone⟩ | rfl
    · exact .inl ⟨after, rfl⟩
    · exact .inr (.inl ⟨after, rfl, Quoted.escape?_eq_none.1 hnone⟩)
    · exact .inr (.inr (List.append_nil spelling))
  case spelled =>
    intro offset text after h
    obtain ⟨blanks, lexeme, hblanks, hlexeme, -, hrest, hoffset, hafter⟩ := lexeme_of_next? h
    cases hlexeme with
    | structural hmem => simp [structurals] at hmem
    | string hspells => exact ⟨blanks, _, hblanks, hspells, by simpa using hrest, hoffset, hafter⟩

end Cursor

end LspClient.Json
