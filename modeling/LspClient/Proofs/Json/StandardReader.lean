import LspClient.Proofs.Json.StandardScalars

/-!
# The standard reader conforms

The reader of files reports every text by the rules, if the containers of the text nest no
deeper than it goes (`Standard.conforms_told?`).

It goes through arrays and objects in the same way, and `Standard.Goes` says what that is: how a
container opens, what comes behind a part, and where it ends. Everything else about containers
is proved from that, once for both. The induction is over the length of the text, since blanks
may count to a bracket or to what is next to it, and within a container over the parts that are
left. Fuel is no part of the argument but that two calls take a character.
-/

namespace LspClient.Json

namespace Standard

open Strict

/-! ## Containers -/

/-- A member, key and value. -/
def member? (room fuel : Nat) (cs : List Char) : Option (List Event × List Char) :=
  match key? cs with
  | none => none
  | some (key, rest) => (events? room fuel rest).map fun (es, rest) => (.key key :: es, rest)

theorem events?_array {text after : List Char} (h : skipBlanks text = '[' :: after)
    (room fuel : Nat) : events? (room + 1) (fuel + 1) text =
      match skipBlanks after with
      | ']' :: rest => some ([.beginArray, .endArray], rest)
      | _ => (elements? room fuel after).map fun (es, rest) => (.beginArray :: es, rest) := by
  rw [events?, h]
  rfl

theorem events?_object {text after : List Char} (h : skipBlanks text = '{' :: after)
    (room fuel : Nat) : events? (room + 1) (fuel + 1) text =
      match skipBlanks after with
      | '}' :: rest => some ([.beginObject, .endObject], rest)
      | _ => (members? room fuel after).map fun (es, rest) => (.beginObject :: es, rest) := by
  rw [events?, h]
  rfl

/-- How the reader goes through containers of one sort: `part` reads a part, and `row` reads the
parts from one on to the end of the container. -/
structure Goes (opening closing : Char) (begins ends : Event)
    (part row : Nat → Nat → List Char → Option (List Event × List Char)) : Prop where
  empty : ∀ {text after tail : List Char}, skipBlanks text = opening :: after →
    skipBlanks after = closing :: tail → ∀ room fuel,
      events? (room + 1) (fuel + 1) text = some ([begins, ends], tail)
  first : ∀ {text after tail : List Char} {es : List Event} {room fuel : Nat},
    skipBlanks text = opening :: after → ¬ Leads closing after →
      row room fuel after = some (es, tail) →
        events? (room + 1) (fuel + 1) text = some (begins :: es, tail)
  next : ∀ {text rest after tail : List Char} {es others : List Event} {room fuel : Nat},
    part room fuel text = some (es, rest) → skipBlanks rest = ',' :: after →
      row room fuel after = some (others, tail) →
        row room (fuel + 1) text = some (es ++ others, tail)
  last : ∀ {text rest tail : List Char} {es : List Event} {room fuel : Nat},
    part room fuel text = some (es, rest) → skipBlanks rest = closing :: tail →
      row room (fuel + 1) text = some (es ++ [ends], tail)

theorem goes_array : Goes '[' ']' .beginArray .endArray events? elements? where
  empty hopening hclosing room fuel := by
    rw [events?_array hopening, hclosing]
    rfl
  first hopening hfirst hrow := by
    rw [events?_array hopening]
    split
    · next heq => exact absurd ⟨_, heq⟩ hfirst
    · rw [hrow]
      rfl
  next hpart hcomma hrow := by
    rw [elements?, hpart]
    dsimp only
    rw [hcomma]
    exact Option.map_eq_some_iff.2 ⟨_, hrow, rfl⟩
  last hpart hclosing := by
    rw [elements?, hpart]
    dsimp only
    rw [hclosing]
    rfl

/-- What reading a member takes. -/
theorem member?_eq_some {room fuel : Nat} {text rest : List Char} {es : List Event}
    (h : member? room fuel text = some (es, rest)) : ∃ key between events,
      key? text = some (key, between) ∧ events? room fuel between = some (events, rest) ∧
        es = .key key :: events := by
  rw [member?] at h
  split at h
  · cases h
  · next key between hkey =>
      obtain ⟨⟨events, after⟩, hevents, heq⟩ := Option.map_eq_some_iff.1 h
      cases heq
      exact ⟨key, between, events, hkey, hevents, rfl⟩

theorem goes_object : Goes '{' '}' .beginObject .endObject member? members? where
  empty hopening hclosing room fuel := by
    rw [events?_object hopening, hclosing]
    rfl
  first hopening hfirst hrow := by
    rw [events?_object hopening]
    split
    · next heq => exact absurd ⟨_, heq⟩ hfirst
    · rw [hrow]
      rfl
  next hpart hcomma hrow := by
    obtain ⟨key, between, events, hkey, hevents, rfl⟩ := member?_eq_some hpart
    rw [members?, hkey]
    dsimp only
    rw [hevents]
    dsimp only
    rw [hcomma]
    exact Option.map_eq_some_iff.2 ⟨_, hrow, rfl⟩
  last hpart hclosing := by
    obtain ⟨key, between, events, hkey, hevents, rfl⟩ := member?_eq_some hpart
    rw [members?, hkey]
    dsimp only
    rw [hevents]
    dsimp only
    rw [hclosing]
    rfl

/-! ## Parts by their reports -/

/-- Whatever follows it, a text that has a report is read as it is reported, and what follows
is left, up to blanks. There has to be room for the containers of the text and fuel for its
characters. -/
def ReadsAt (part : Nat → Nat → List Char → Option (List Event × List Char))
    (IsPart : List Char → Report → Prop) (cs : List Char) : Prop :=
  ∀ ⦃text rest : List Char⦄ ⦃report : Report⦄ ⦃room fuel : Nat⦄, IsPart cs report → Ends rest →
    skipBlanks text = skipBlanks (cs ++ rest) → report.depth ≤ room → 2 * cs.length ≤ fuel →
      ∃ rest', part room fuel text = some (report.events, rest') ∧
        skipBlanks rest' = skipBlanks rest

section Rows

variable {opening closing : Char} {begins ends : Event}
  {part row : Nat → Nat → List Char → Option (List Event × List Char)}
  {IsPart : List Char → Report → Prop} {others rest tail : List Char} {parts : List Report}

/-- A part and the others behind it, up to the end of the container. The induction is on the
others: each of them is a first part of those that follow. -/
theorem Goes.reads_parts (hgoes : Goes opening closing begins ends part row)
    (hothers : Others IsPart others parts) (hclosing : closing = ']' ∨ closing = '}')
    (hrest : skipBlanks rest = closing :: tail) {room : Nat} :
    ∀ {first text : List Char} {report : Report} {fuel : Nat}, IsPart first report →
      (∀ cs, cs.length ≤ (first ++ others).length → ReadsAt part IsPart cs) →
      Report.depthOfParts (report :: parts) ≤ room →
      skipBlanks text = skipBlanks (first ++ (others ++ rest)) →
      2 * (first ++ others).length + 1 ≤ fuel →
        row room fuel text = some ((report :: parts).flatMap Report.events ++ [ends], tail) := by
  induction hothers with
  | nil =>
      intro first text report fuel hfirst hreads hdepth htext hfuel
      rw [Report.depthOfParts, Nat.max_le] at hdepth
      rw [List.append_nil] at hfuel
      obtain ⟨fuel, rfl⟩ := Nat.exists_eq_succ_of_ne_zero (n := fuel) (by omega)
      have hfirstFuel : 2 * first.length ≤ fuel := by omega
      obtain ⟨rest', hread, hskip⟩ := hreads first (by simp) hfirst
        (Leads.ends ⟨tail, hrest⟩ (.inr hclosing)) htext hdepth.1 hfirstFuel
      rw [hgoes.last hread (hskip.trans hrest)]
      simp
  | @cons comma next others a as hcomma hnext hothers ih =>
      intro first text report fuel hfirst hreads hdepth htext hfuel
      rw [Report.depthOfParts, Nat.max_le] at hdepth
      simp only [List.append_assoc, List.length_append] at htext hfuel hreads
      have hpos := hcomma.length_pos
      obtain ⟨fuel, rfl⟩ := Nat.exists_eq_succ_of_ne_zero (n := fuel) (by omega)
      have hfirstFuel : 2 * first.length ≤ fuel := by omega
      have hothersFuel : 2 * (next ++ others).length + 1 ≤ fuel := by
        rw [List.length_append]
        omega
      obtain ⟨rest', hread, hskip⟩ := hreads first (by omega) hfirst
        ((hcomma.leads rfl _).ends (.inl rfl)) htext hdepth.1 hfirstFuel
      obtain ⟨after, hlead, hafter⟩ := hcomma.skip rfl (next ++ (others ++ rest))
      have hshorter (cs : List Char) (hcs : cs.length ≤ (next ++ others).length) :
          ReadsAt part IsPart cs := by
        rw [List.length_append] at hcs
        exact hreads cs (by omega)
      have hrow := ih hnext hshorter hdepth.2 hafter hothersFuel
      rw [hgoes.next hread (hskip.trans hlead) hrow]
      simp

/-- A container whose parts are read as they are reported. -/
theorem Goes.reads_container (hgoes : Goes opening closing begins ends part row)
    (hblank : isBlank opening = false) (hclosing : closing = ']' ∨ closing = '}')
    (hstart : ∀ {cs after : List Char} {report : Report}, IsPart cs report →
      ¬ Leads closing (cs ++ after))
    {start content close text : List Char} (hopened : Structural opening start)
    (hcontent : Row IsPart content parts) (hclosed : Structural closing close)
    (hreads : ∀ cs, cs.length < (start ++ content ++ close).length → ReadsAt part IsPart cs)
    {room fuel : Nat} (htext : skipBlanks text = skipBlanks (start ++ content ++ close ++ rest))
    (hdepth : (Report.container begins ends parts).depth ≤ room)
    (hfuel : 2 * (start ++ content ++ close).length ≤ fuel) :
    ∃ rest', events? room fuel text = some ((Report.container begins ends parts).events, rest') ∧
      skipBlanks rest' = skipBlanks rest := by
  have hclosingBlank : isBlank closing = false := by
    rcases hclosing with rfl | rfl <;> rfl
  have hopenedPos := hopened.length_pos
  have hclosedPos := hclosed.length_pos
  simp only [List.append_assoc, List.length_append] at htext hfuel hreads
  obtain ⟨fuel, rfl⟩ := Nat.exists_eq_succ_of_ne_zero (n := fuel) (by omega)
  have hroom : 0 < room := Nat.lt_of_lt_of_le (Nat.succ_pos _) hdepth
  obtain ⟨room, rfl⟩ := Nat.exists_eq_succ_of_ne_zero hroom.ne'
  obtain ⟨after, hlead, hafter⟩ := hopened.skip hblank (content ++ (close ++ rest))
  obtain ⟨tail, hend, htail⟩ := hclosed.skip hclosingBlank rest
  refine ⟨tail, ?_, htail⟩
  cases hcontent with
  | empty => exact hgoes.empty (htext.trans hlead) (hafter.trans hend) room fuel
  | @parts first others report parts hfirst hothers =>
      rw [List.append_assoc] at hafter
      rw [List.length_append] at hfuel hreads
      have hshorter (cs : List Char) (hcs : cs.length ≤ (first ++ others).length) :
          ReadsAt part IsPart cs := by
        rw [List.length_append] at hcs
        exact hreads cs (by omega)
      have hrowFuel : 2 * (first ++ others).length + 1 ≤ fuel := by
        rw [List.length_append]
        omega
      have hrow := hgoes.reads_parts hothers hclosing hend hfirst hshorter
        (Nat.le_of_succ_le_succ hdepth) hafter hrowFuel
      exact hgoes.first (htext.trans hlead) (fun h => hstart hfirst (h.imp fun _ h => hafter ▸ h))
        hrow

end Rows

/-! ## Values -/

theorem key?_append {text name colon rest : List Char} {key : String} (hname : Quotation name key)
    (hcolon : Structural ':' colon)
    (htext : skipBlanks text = skipBlanks (name ++ (colon ++ rest))) :
    ∃ after, key? text = some (key, after) ∧ skipBlanks after = skipBlanks rest := by
  obtain ⟨inside, hinside, hread⟩ := text?_quotation hname (colon ++ rest)
  obtain ⟨after, hlead, hafter⟩ := hcolon.skip rfl rest
  rw [hname.skip, hinside] at htext
  refine ⟨after, ?_, hafter⟩
  rw [key?, htext]
  simp only [hread, hlead]

theorem readsAt_member {cs : List Char}
    (hvalues : ∀ value, value.length < cs.length → ReadsAt events? Reported value) :
    ReadsAt member? ReportedMember cs := by
  intro text rest _ room fuel h hrest htext hdepth hfuel
  obtain @⟨name, colon, value, key, report, hname, hcolon, hvalue⟩ := h
  have hpos := hcolon.length_pos
  simp only [List.append_assoc] at htext
  simp only [List.length_append] at hvalues hfuel
  have hvalueFuel : 2 * value.length ≤ fuel := by omega
  obtain ⟨between, hkey, hbetween⟩ := key?_append hname hcolon htext
  obtain ⟨rest', hread, hskip⟩ :=
    hvalues value (by omega) hvalue hrest hbetween hdepth hvalueFuel
  refine ⟨rest', ?_, hskip⟩
  rw [member?, hkey]
  dsimp only
  rw [hread]
  rfl

/-- Each rule for a value is a way of the reader, and the parts of a container are shorter than
the container. -/
theorem readsAt_value {cs : List Char}
    (hvalues : ∀ value, value.length < cs.length → ReadsAt events? Reported value) :
    ReadsAt events? Reported cs := by
  intro text rest report room fuel h hrest htext hdepth hfuel
  have hpos : 0 < fuel := by
    have hlength := h.length_pos
    omega
  cases h with
  | object hopening hcontent hclosing =>
      exact goes_object.reads_container rfl (.inr rfl) ReportedMember.not_leads hopening hcontent
        hclosing (fun part hpart => readsAt_member fun value hvalue => hvalues value (by omega))
        htext hdepth hfuel
  | array hopening hcontent hclosing =>
      exact goes_array.reads_container rfl (.inl rfl) Reported.not_leads hopening hcontent
        hclosing hvalues htext hdepth hfuel
  | false => exact ⟨rest, events?_scalar htext (by decide) (by decide) rfl hpos room, rfl⟩
  | null => exact ⟨rest, events?_scalar htext (by decide) (by decide) rfl hpos room, rfl⟩
  | true => exact ⟨rest, events?_scalar htext (by decide) (by decide) rfl hpos room, rfl⟩
  | number h =>
      obtain ⟨d, hnumber⟩ := h.number
      obtain ⟨c, others, hstart, hc, -⟩ := hnumber.starts rest
      have hread := number?_numeric h hrest.head
      rw [hnumber.skip, hstart] at htext
      rw [hstart, ← scalar?_number hc] at hread
      refine ⟨rest, events?_scalar htext ?_ ?_ hread hpos room, rfl⟩
      all_goals
        rintro rfl
        exact absurd hc (by decide)
  | string h =>
      obtain ⟨inside, hinside, hread⟩ := text?_quotation h rest
      rw [h.skip, hinside] at htext
      refine ⟨rest, events?_scalar htext (by decide) (by decide) ?_ hpos room, rfl⟩
      rw [scalar?, hread]
      rfl

theorem readsAt_of_length (n : Nat) : ∀ cs, cs.length < n → ReadsAt events? Reported cs := by
  induction n with
  | zero => exact fun cs h => absurd h (Nat.not_lt_zero _)
  | succ n ih => exact fun cs h => readsAt_value fun value hvalue => ih value (by omega)

/-! ## Documents -/

/-- What the reader tells of a document. -/
def told? (text : String) : Option (List Event) :=
  match events? maxDepth (2 * text.toList.length + 1) text.toList with
  | some (es, rest) => if (skipBlanks rest).isEmpty then some es else none
  | none => none

/-- The reader reports by the rules. -/
theorem conforms_told? : Conforms told? := by
  intro before value after report hbefore hvalue hafter hdepth
  have htext : skipBlanks (before ++ value ++ after) = skipBlanks (value ++ after) := by
    rw [List.append_assoc, skipBlanks_append hbefore]
  have hfuel : 2 * value.length ≤ 2 * (before ++ value ++ after).length + 1 := by
    simp only [List.length_append]
    omega
  obtain ⟨rest, hread, hskip⟩ := readsAt_of_length _ value (Nat.lt_succ_self _) hvalue
    (ends_blanks hafter) htext hdepth hfuel
  have hend : skipBlanks rest = [] := by
    rw [hskip, ← List.append_nil after, skipBlanks_append hafter]
    rfl
  rw [told?, String.toList_ofList, hread]
  simp only [hend, List.isEmpty_nil, if_true]

/-- Where the reader tells a value, what it reads is that value in the form asked for. -/
theorem readAs_of_told {α : Type} (cast : Value → Except ReadError α) {text : String}
    {es : List Event} {v : Value} (h : told? text = some es) (hv : Value.ofEvents? es = some v) :
    readAs cast text = cast v := by
  rw [told?] at h
  split at h
  · next events rest hread =>
      split at h
      · next hend =>
          cases h
          have hvalue : valueThen? text.toList = some (v, rest) := by
            rw [valueThen?, hread]
            exact congrArg (Option.bind · _) hv
          rw [readAs, hvalue]
          simp only [hend, if_true]
          cases cast v <;> rfl
      · cases h
  · cases h

end Standard

end LspClient.Json
