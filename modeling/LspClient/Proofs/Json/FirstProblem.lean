import LspClient.Proofs.Json.Lexemes

/-!
# Errors point at the first problem

A text that is refused could still have become a document at the place that is blamed: what stands
in front of that place has a continuation that is read. For a bad escape the place is the opening
quote of its literal, since a literal that holds such an escape cannot be mended behind it.

There are two halves. Cutting: what was cut in front of a place is cut in the same way when
something else follows, unless a word goes on (`cuts_of_items`). Reading: every stage can be
completed (`completion`), by closing what is open, and a value that is missing is an empty string.
A completion starts with a quote, a colon or a bracket, and so no word in front of it goes on.

The limit on nesting needs no care, because a completion opens nothing.
-/

namespace LspClient.Json

/-! ## Cutting what is in front of a place -/

namespace Cursor

open Token (Blanks width)

/-- What a text in front of a place is cut into, whatever follows that lets no word go on. -/
def Cuts (offset : Nat) (before : List Char) (located : List Located) : Prop :=
  ∀ rest, EndsWord rest → items ⟨offset, before ++ rest⟩ =
    located.map .ok ++ items ⟨offset + width before, rest⟩

theorem items_blanks {blanks : List Char} (h : Blanks blanks) (offset : Nat) (rest : List Char) :
    items ⟨offset, blanks ++ rest⟩ = items ⟨offset + width blanks, rest⟩ := by
  induction blanks generalizing offset with
  | nil => rfl
  | cons c blanks ih =>
      have hblanks : Blanks blanks := fun d hd => h d (List.mem_cons_of_mem c hd)
      rw [List.cons_append, items_blank (h c List.mem_cons_self), ih hblanks, h.width,
        hblanks.width, List.length_cons, Nat.add_assoc, Nat.add_comm 1]

theorem endsWord_append {before rest rest' : List Char} (h : EndsWord (before ++ rest))
    (hrest : EndsWord rest') : EndsWord (before ++ rest') := by
  cases before with
  | nil => exact hrest
  | cons c before => exact h

theorem endsWord_blanks {blanks rest : List Char} (h : Blanks blanks) (hrest : EndsWord rest) :
    EndsWord (blanks ++ rest) := by
  cases blanks with
  | nil => exact hrest
  | cons c blanks =>
      refine endsWord_cons ?_ _
      rw [Token.isAtomChar, h c List.mem_cons_self]
      rfl

theorem cuts_nil (offset : Nat) : Cuts offset [] [] :=
  fun _ _ => rfl

/-- Blanks at the end change nothing. -/
theorem Cuts.blanks {offset : Nat} {before blanks : List Char} {located : List Located}
    (h : Cuts offset before located) (hblanks : Blanks blanks) :
    Cuts offset (before ++ blanks) located := by
  intro rest hrest
  rw [List.append_assoc, h _ (endsWord_blanks hblanks hrest), items_blanks hblanks,
    Token.width_append, Nat.add_assoc]

/-- What was cut is cut again when something else follows. -/
theorem cuts_of_items {located : List Located} : ∀ {place : Cursor}
    {tail : List (Except DecodeError Located)}, place.items = located.map .ok ++ tail →
      ∃ before rest, place.rest = before ++ rest ∧ Cuts place.offset before located ∧
        tail = items ⟨place.offset + width before, rest⟩ := by
  induction located with
  | nil => exact fun h => ⟨[], _, rfl, cuts_nil _, h.symm⟩
  | cons t located ih =>
      intro place tail h
      rw [items_eq] at h
      cases hnext : place.next? with
      | none =>
          rw [hnext] at h
          cases h
      | some found =>
          obtain ⟨item, after⟩ := found
          rw [hnext] at h
          obtain ⟨rfl, hafter⟩ := List.cons.inj h
          obtain ⟨before, rest, hrest, hcuts, htail⟩ := ih hafter
          obtain ⟨blanks, lexeme, hblanks, hlexeme, hends, hplace, hoffset, hat⟩ :=
            lexeme_of_next? hnext
          obtain ⟨start, token⟩ := t
          dsimp only at hoffset hat hlexeme hends
          rw [hrest] at hplace hends
          have hwidth : place.offset + width (blanks ++ (lexeme ++ before)) =
              after.offset + width before := by
            rw [hat, hoffset, Token.width_append, Token.width_append]
            omega
          refine ⟨blanks ++ (lexeme ++ before), rest, by simp [hplace], fun rest' hrest' => ?_, ?_⟩
          · have hnow : token.Ends (before ++ rest') :=
              fun word hword => endsWord_append (hends word hword) hrest'
            rw [List.append_assoc, List.append_assoc, items_eq,
              next?_of_lexeme hblanks hlexeme hnow, hwidth, ← hoffset, ← hat]
            exact congrArg (_ :: ·) (hcuts rest' hrest')
          · rw [hwidth, htail]

end Cursor

namespace Stage

/-! ## Reading what is in front of a place -/

theorem run_map_ok {length : Nat} {located : List Located}
    {tail : List (Except DecodeError Located)} : ∀ {s s' : Stage},
    located.foldlM step s = .ok s' →
      run length s (located.map .ok ++ tail) = run length s' tail := by
  induction located with
  | nil =>
      rintro s s' ⟨⟩
      rfl
  | cons t located ih =>
      intro s s' h
      rw [List.foldlM_cons] at h
      rw [List.map_cons, List.cons_append, run]
      cases hstep : s.step t with
      | error e =>
          rw [hstep] at h
          cases h
      | ok next =>
          rw [hstep] at h
          exact ih h

/-- Why a text is refused: it ends too early, a token may not stand where it stands, or there is
no token. -/
def Refuses (length : Nat) (s : Stage) (e : DecodeError) :
    List (Except DecodeError Located) → Prop
  | [] => s.finish length = .error e
  | .ok t :: _ => s.step t = .error e
  | .error e' :: _ => e' = e

/-- A text is read up to the item that it is refused for. -/
theorem exists_refuses {length : Nat} {e : DecodeError}
    {items : List (Except DecodeError Located)} : ∀ {s : Stage}, run length s items = .error e →
    ∃ (located : List Located) (tail : List (Except DecodeError Located)) (s' : Stage),
      items = located.map .ok ++ tail ∧ located.foldlM step s = .ok s' ∧
        s'.Refuses length e tail := by
  induction items with
  | nil => exact fun h => ⟨[], [], _, rfl, rfl, h⟩
  | cons item items ih =>
      intro s h
      cases item with
      | error e' =>
          refine ⟨[], _, s, rfl, rfl, ?_⟩
          cases h
          rfl
      | ok t =>
          rw [run] at h
          cases hstep : s.step t with
          | error e' =>
              rw [hstep] at h
              cases h
              exact ⟨[], _, s, rfl, rfl, hstep⟩
          | ok next =>
              rw [hstep] at h
              obtain ⟨located, tail, s', rfl, hsteps, hrefuses⟩ := ih h
              refine ⟨t :: located, tail, s', rfl, ?_, hrefuses⟩
              rw [List.foldlM_cons, hstep]
              exact hsteps

/-- An error at an offset, other than a bad escape. -/
structure FoundAt (e : DecodeError) (offset : Nat) : Prop where
  offset_eq : e.offset = offset
  noEscape : ∀ place, e ≠ .invalidEscape place

theorem foundAt_of_startValue {waiting : List Pending} {t : Located} {e : DecodeError}
    (h : startValue waiting t = .error e) : FoundAt e t.offset := by
  have henter {inside : Stage} (h : enter waiting t.offset inside = .error e) :
      FoundAt e t.offset := by
    rw [enter] at h
    split at h
    · cases h
    · cases h
      exact ⟨rfl, fun _ h => by cases h⟩
  rw [startValue.eq_def] at h
  split at h
  · exact henter h
  · exact henter h
  · cases h
  · split at h
    · cases h
    · cases h
      exact ⟨rfl, fun _ h => by cases h⟩
  · cases h
    exact ⟨rfl, fun _ h => by cases h⟩

theorem foundAt_of_startMember {members : Members Value} {outer : List Pending} {t : Located}
    {e : DecodeError} (h : startMember members outer t = .error e) : FoundAt e t.offset := by
  rw [startMember.eq_def] at h
  split at h
  · cases h
  · cases h
    exact ⟨rfl, fun _ h => by cases h⟩

/-- What is found wrong with a token is found where the token starts. -/
theorem foundAt_of_step {s : Stage} {t : Located} {e : DecodeError} (h : s.step t = .error e) :
    FoundAt e t.offset := by
  cases s with
  | value waiting => exact foundAt_of_startValue h
  | firstElement outer =>
      rw [step] at h
      split at h
      · cases h
      · exact foundAt_of_startValue h
  | firstKey outer =>
      rw [step] at h
      split at h
      · cases h
      · exact foundAt_of_startMember h
  | anotherKey members outer => exact foundAt_of_startMember h
  | colon | elementEnd | memberEnd =>
      rw [step] at h
      split at h
      all_goals cases h
      exact ⟨rfl, fun _ h => by cases h⟩
  | finished v =>
      cases h
      exact ⟨rfl, fun _ h => by cases h⟩

theorem foundAt_of_finish {s : Stage} {length : Nat} {e : DecodeError}
    (h : s.finish length = .error e) : FoundAt e length := by
  cases s with
  | finished v => cases h
  | value | firstElement | firstKey | anotherKey | colon | elementEnd | memberEnd =>
      cases h
      exact ⟨rfl, fun _ h => by cases h⟩

/-! ## Completing a document -/

/-- The ends of the open containers. -/
def closing : List Pending → List Char
  | [] => []
  | .element _ :: outer => ']' :: closing outer
  | .member _ _ :: outer => '}' :: closing outer

/-- A continuation that makes a document. -/
def completion : Stage → List Char
  | .value waiting => '"' :: '"' :: closing waiting
  | .firstElement outer => ']' :: closing outer
  | .firstKey outer => '}' :: closing outer
  | .anotherKey _ outer => '"' :: '"' :: ':' :: '"' :: '"' :: '}' :: closing outer
  | .colon _ _ outer => ':' :: '"' :: '"' :: '}' :: closing outer
  | .elementEnd _ outer => ']' :: closing outer
  | .memberEnd _ outer => '}' :: closing outer
  | .finished _ => []

theorem endsWord_completion (s : Stage) : EndsWord s.completion := by
  cases s with
  | finished v => exact fun _ hc => nomatch hc
  | value | firstElement | firstKey | anotherKey | colon | elementEnd | memberEnd =>
      exact endsWord_cons rfl _

/-- A text that makes a document when it follows a stage. -/
def Completes (s : Stage) (text : List Char) : Prop :=
  ∀ length offset, ∃ v, run length s (Cursor.items ⟨offset, text⟩) = .ok v

section

variable {s next : Stage} {text : List Char}

theorem completes_structural {c : Char} {token : Token} (hc : Token.structural? c = some token)
    (hblank : Token.isBlank c = false) (hstep : ∀ offset, s.step ⟨offset, token⟩ = .ok next)
    (h : next.Completes text) : s.Completes (c :: text) := by
  intro length offset
  rw [Cursor.items_structural hc hblank, run, hstep]
  exact h length (offset + 1)

theorem completes_emptyString (hstep : ∀ offset, s.step ⟨offset, .string ""⟩ = .ok next)
    (h : next.Completes text) : s.Completes ('"' :: '"' :: text) := by
  intro length offset
  obtain ⟨offset', hitems⟩ : ∃ offset', Cursor.items ⟨offset, '"' :: '"' :: text⟩ =
    .ok ⟨offset, .string ""⟩ :: Cursor.items ⟨offset', text⟩ := Cursor.items_quoted "" offset text
  rw [hitems, run, hstep]
  exact h length offset'

/-- What is open can be closed. -/
theorem completes_closing (x : Value) (waiting : List Pending) :
    (complete x waiting).Completes (closing waiting) := by
  induction waiting generalizing x with
  | nil =>
      intro length offset
      rw [closing, Cursor.items_nil]
      exact ⟨x, rfl⟩
  | cons pending outer ih =>
      cases pending with
      | element items => exact completes_structural rfl rfl (fun _ => rfl) (ih _)
      | member members key => exact completes_structural rfl rfl (fun _ => rfl) (ih _)

/-- A value that waits for nothing but the end of its object. -/
theorem completes_member (members : Members Value) (key : String) (outer : List Pending) :
    (colon members key outer).Completes (':' :: '"' :: '"' :: '}' :: closing outer) :=
  completes_structural rfl rfl (fun _ => rfl) (completes_emptyString (fun _ => rfl)
    (completes_closing (.string "") (.member members key :: outer)))

/-- Every stage can be completed. -/
theorem completes_completion (s : Stage) : s.Completes s.completion := by
  cases s with
  | value waiting => exact completes_emptyString (fun _ => rfl) (completes_closing _ waiting)
  | firstElement outer | firstKey outer =>
      exact completes_structural rfl rfl (fun _ => rfl) (completes_closing _ outer)
  | anotherKey members outer =>
      exact completes_emptyString (fun _ => rfl) (completes_member members "" outer)
  | colon members key outer => exact completes_member members key outer
  | elementEnd items outer =>
      exact completes_structural rfl rfl (fun _ => rfl) (completes_closing _ outer)
  | memberEnd members outer =>
      exact completes_structural rfl rfl (fun _ => rfl) (completes_closing _ outer)
  | finished v => exact completes_closing v []

end

end Stage

/-! ## The first problem -/

/-- A text that can still become a document. -/
def Viable (before : String) : Prop :=
  ∃ rest v, decode (before ++ rest) = .ok v

/-- What stands in front of the place that an error blames. -/
inductive Blames (text : String) : DecodeError → String → Prop
  /-- A bad escape blames the opening quote of its literal. The text is cut up to that quote and
  no further, and behind it all is spelled up to the backslash. -/
  | literal {before : String} {located : List Located} {spelling said after : List Char}
      {e : DecodeError} (htext : text = before ++ String.ofList ('"' :: spelling ++ '\\' :: after))
      (hspells : Quoted.Spells spelling said)
      (he : e = .invalidEscape (before ++ String.ofList ('"' :: spelling)).utf8ByteSize)
      (hbefore : tokens before.toList = located.map .ok)
      (hcut : tokens text.toList = located.map .ok ++ [.error e]) : Blames text e before
  /-- Anything else blames the place where it was found. -/
  | here {before after : String} {e : DecodeError} (hother : ∀ offset, e ≠ .invalidEscape offset)
      (htext : text = before ++ after) (hoffset : before.utf8ByteSize = e.offset) :
      Blames text e before

theorem utf8ByteSize_ofList (cs : List Char) :
    (String.ofList cs).utf8ByteSize = Token.width cs := by
  induction cs with
  | nil => rfl
  | cons c cs ih =>
      rw [String.ofList_cons, String.utf8ByteSize_append, String.utf8ByteSize_singleton, ih,
        Token.width]

theorem utf8ByteSize_eq (text : String) : text.utf8ByteSize = Token.width text.toList := by
  rw [← utf8ByteSize_ofList, String.ofList_toList]

/-- A place is known by its offset. -/
theorem eq_of_width {before : List Char} : ∀ {before' after after' : List Char},
    before ++ after = before' ++ after' → Token.width before = Token.width before' →
      before = before' := by
  have hpos : ∀ (c : Char) (cs : List Char), Token.width (c :: cs) ≠ 0 := fun c cs h => by
    have := Char.utf8Size_pos c
    rw [Token.width] at h
    omega
  induction before with
  | nil =>
      rintro (_ | ⟨c, before'⟩) after after' - hwidth
      · rfl
      · exact absurd hwidth.symm (hpos c before')
  | cons c before ih =>
      rintro (_ | ⟨c', before'⟩) after after' h hwidth
      · exact absurd hwidth (hpos c before)
      · obtain ⟨rfl, hrest⟩ := List.cons.inj h
        rw [Token.width, Token.width, Nat.add_left_cancel_iff] at hwidth
        rw [ih hrest hwidth]

open Token (Blanks width)

/-- Where the item stands that a text is refused for: behind some blanks, at the offset of the
error, or at the quote of a literal with a bad escape. -/
theorem blanks_of_refuses {length offset : Nat} {rest : List Char} {s : Stage} {e : DecodeError}
    (hlength : length = offset + width rest)
    (h : s.Refuses length e (Cursor.items ⟨offset, rest⟩)) :
    ∃ blanks more, Blanks blanks ∧ rest = blanks ++ more ∧
      (Stage.FoundAt e (offset + width blanks) ∨
        ∃ spelling said after, Quoted.Spells spelling said ∧
          more = '"' :: spelling ++ '\\' :: after ∧
          e = .invalidEscape (offset + width blanks + width ('"' :: spelling)) ∧
          Cursor.items ⟨offset, rest⟩ = [.error e]) := by
  rw [Cursor.items_eq] at h ⊢
  cases hnext : Cursor.next? ⟨offset, rest⟩ with
  | none =>
      rw [hnext] at h
      have hfound := Stage.foundAt_of_finish h
      rw [hlength] at hfound
      exact ⟨rest, [], Cursor.blanks_of_next? hnext, (List.append_nil rest).symm, .inl hfound⟩
  | some found =>
      obtain ⟨item, after⟩ := found
      rw [hnext] at h
      cases item with
      | ok t =>
          obtain ⟨blanks, lexeme, hblanks, -, -, hrest, hstart, -⟩ := Cursor.lexeme_of_next? hnext
          have hfound := Stage.foundAt_of_step h
          rw [hstart] at hfound
          exact ⟨blanks, _, hblanks, hrest, .inl hfound⟩
      | error e' =>
          cases h
          obtain ⟨blanks, more, hblanks, hrest, hfault, hafter⟩ := Cursor.fault_of_next? hnext
          obtain ⟨last, others⟩ := after
          obtain rfl : others = [] := hafter
          refine ⟨blanks, more, hblanks, hrest, ?_⟩
          cases hfault with
          | badEscape hspells _ =>
              exact .inr ⟨_, _, _, hspells, rfl, rfl, congrArg (_ :: ·) (Cursor.items_nil last)⟩
          | unterminated _ => exact .inl ⟨rfl, fun _ h => by cases h⟩

/-- What was read without an error can be continued. -/
theorem viable_of_cuts {before : List Char} {located : List Located} {s : Stage}
    (hcuts : Cursor.Cuts 0 before located)
    (hsteps : located.foldlM Stage.step (.value []) = .ok s) : Viable (String.ofList before) := by
  refine ⟨String.ofList s.completion, ?_⟩
  rw [decode, String.toList_append, String.toList_ofList, String.toList_ofList, tokens,
    Cursor.start, hcuts _ s.endsWord_completion, Stage.run_map_ok hsteps]
  exact s.completes_completion _ _

theorem cuts_of_tokens {text : List Char} {located : List Located}
    {tail : List (Except DecodeError Located)} (h : tokens text = located.map .ok ++ tail) :
    ∃ before rest, text = before ++ rest ∧ Cursor.Cuts 0 before located ∧
      tail = Cursor.items ⟨width before, rest⟩ := by
  obtain ⟨before, rest, hrest, hcuts, htail⟩ := Cursor.cuts_of_items h
  rw [Cursor.start, Nat.zero_add] at htail
  exact ⟨before, rest, hrest, hcuts, htail⟩

theorem tokens_of_cuts {before : List Char} {located : List Located}
    (h : Cursor.Cuts 0 before located) : tokens before = located.map .ok := by
  have hall := h [] (fun _ hc => nomatch hc)
  rwa [List.append_nil, Cursor.items_nil, List.append_nil] at hall

/-- A text that is cut without an error is cut up to some blanks. -/
theorem cuts_of_tokens_eq {before : List Char} {located : List Located}
    (h : tokens before = located.map .ok) : Cursor.Cuts 0 before located := by
  obtain ⟨front, blanks, rfl, hcuts, hnothing⟩ :=
    cuts_of_tokens (h.trans (List.append_nil _).symm)
  have hnext : Cursor.next? ⟨width front, blanks⟩ = none := by
    rw [Cursor.items_eq] at hnothing
    split at hnothing
    · assumption
    · cases hnothing
  exact hcuts.blanks (Cursor.blanks_of_next? hnext)

/-- Something is blamed, and what stands in front of it can be continued. -/
theorem exists_blames {text : String} {e : DecodeError} (h : decode text = .error e) :
    ∃ before, Blames text e before ∧ Viable before := by
  obtain ⟨located, tail, s, hitems, hsteps, hrefuses⟩ := Stage.exists_refuses h
  obtain ⟨before, rest, hrest, hcuts, rfl⟩ := cuts_of_tokens hitems
  have hlength : text.utf8ByteSize = width before + width rest := by
    rw [utf8ByteSize_eq, hrest, Token.width_append]
  obtain ⟨blanks, more, hblanks, rfl, hplace⟩ := blanks_of_refuses hlength hrefuses
  have hcuts' := hcuts.blanks hblanks
  have htext : text = String.ofList (before ++ blanks) ++ String.ofList more := by
    rw [← String.ofList_append, List.append_assoc, ← hrest, String.ofList_toList]
  refine ⟨_, ?_, viable_of_cuts hcuts' hsteps⟩
  rcases hplace with hfound | ⟨spelling, said, after, hspells, rfl, he, hlast⟩
  · refine .here hfound.noEscape htext ?_
    rw [utf8ByteSize_ofList, Token.width_append, hfound.offset_eq]
  · refine .literal htext hspells ?_ ?_ (hlast ▸ hitems)
    · rw [he, ← String.ofList_append, utf8ByteSize_ofList, Token.width_append, Token.width_append]
    · rw [String.toList_ofList, tokens_of_cuts hcuts']

/-- What is in front of a bad escape was read without an error. -/
theorem steps_of_run {length offset : Nat} {located : List Located} : ∀ {s : Stage},
    s.run length (located.map .ok ++ [.error (.invalidEscape offset)]) =
      .error (.invalidEscape offset) → ∃ s', located.foldlM Stage.step s = .ok s' := by
  induction located with
  | nil => exact fun _ => ⟨_, rfl⟩
  | cons t located ih =>
      intro s h
      rw [List.map_cons, List.cons_append, Stage.run] at h
      cases hstep : s.step t with
      | error e =>
          rw [hstep] at h
          cases h
          exact absurd rfl ((Stage.foundAt_of_step hstep).noEscape offset)
      | ok next =>
          rw [hstep] at h
          obtain ⟨s', hsteps⟩ := ih h
          refine ⟨s', ?_⟩
          rw [List.foldlM_cons, hstep]
          exact hsteps

theorem Blames.viable {text before : String} {e : DecodeError} (hblames : Blames text e before)
    (h : decode text = .error e) : Viable before := by
  cases hblames with
  | literal htext hspells he hbefore hcut =>
      subst he
      rw [decode, hcut] at h
      obtain ⟨s, hsteps⟩ := steps_of_run h
      have hviable := viable_of_cuts (cuts_of_tokens_eq hbefore) hsteps
      rwa [String.ofList_toList] at hviable
  | here hother htext hoffset =>
      obtain ⟨before', hblames', hviable⟩ := exists_blames h
      cases hblames' with
      | literal _ _ he _ _ => exact absurd he (hother _)
      | here _ htext' hoffset' =>
          have hlists := congrArg String.toList (htext.symm.trans htext')
          rw [String.toList_append, String.toList_append] at hlists
          rw [utf8ByteSize_eq] at hoffset hoffset'
          have heq := eq_of_width hlists (hoffset.trans hoffset'.symm)
          rwa [String.toList_inj.1 heq]

/-- The place that an error names is a place in the text. -/
theorem Blames.offset_eq {text before : String} {e : DecodeError} (h : Blames text e before) :
    ∃ front back, text = front ++ back ∧ front.utf8ByteSize = e.offset := by
  cases h with
  | @literal _ _ spelling said after _ htext _ he _ _ =>
      refine ⟨before ++ String.ofList ('"' :: spelling), String.ofList ('\\' :: after), ?_, ?_⟩
      · rw [htext, String.append_assoc, ← String.ofList_append]
      · rw [he, DecodeError.offset]
  | here _ htext hoffset => exact ⟨_, _, htext, hoffset⟩

/-- An error names a place in the text and blames one, and what stands in front of the place that
is blamed can be continued to a document. -/
theorem viable_of_refused {text : String} {e : DecodeError} (h : decode text = .error e) :
    (∃ front back, text = front ++ back ∧ front.utf8ByteSize = e.offset) ∧
      (∃ before, Blames text e before) ∧ ∀ before, Blames text e before → Viable before := by
  obtain ⟨before, hblames, -⟩ := exists_blames h
  exact ⟨hblames.offset_eq, ⟨before, hblames⟩, fun _ hother => hother.viable h⟩

/-- An escape that does not exist, in a key where a colon is missing: the literal is blamed and
not the backslash, and in front of it three containers are open. -/
theorem viable_of_strayEscape :
    decode "\x7b\"a\": [1, \x7b\"b\" \"c\\q" = .error (.invalidEscape 17) ∧
      Viable "\x7b\"a\": [1, \x7b\"b\" " := by
  have hcut : tokens "\x7b\"a\": [1, \x7b\"b\" \"c\\q".toList =
      [⟨0, .beginObject⟩, ⟨1, .string "a"⟩, ⟨4, .colon⟩, ⟨6, .beginArray⟩, ⟨7, .atom "1"⟩,
        ⟨8, .comma⟩, ⟨10, .beginObject⟩, ⟨11, .string "b"⟩].map .ok ++
        [.error (.invalidEscape 17)] := by decide +kernel
  have hrefused : decode "\x7b\"a\": [1, \x7b\"b\" \"c\\q" = .error (.invalidEscape 17) := by
    rw [decode, hcut]
    rfl
  have hspells : Quoted.Spells ['c'] ['c'] := .raw (by decide) (by decide) .nil
  have htext : "\x7b\"a\": [1, \x7b\"b\" \"c\\q" =
      "\x7b\"a\": [1, \x7b\"b\" " ++ String.ofList ('"' :: ['c'] ++ '\\' :: ['q']) := by decide
  refine ⟨hrefused, (viable_of_refused hrefused).2.2 _ ?_⟩
  exact .literal htext hspells (by decide) (by decide +kernel) hcut

end LspClient.Json
