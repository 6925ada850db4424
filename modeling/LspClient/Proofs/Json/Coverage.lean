import LspClient.Proofs.Json.Scan

/-!
# What covers a text

Cutting a text leaves nothing out. The items stand one behind the other, each on octets of
its own, and what lies between them is blank. A word is not cut short at either end. What
cannot be cut reaches to the end of the text and is the last item.

All of this is said of octets and of the scanner that works on them (`Scan.next`), whose calls
are followed one by one (`Scan.Yields`). The argument is about characters: they alternate
between blanks and lexemes (`Layout`), and every statement is an induction over that.
-/

namespace LspClient.Json

open Token (Blanks IsLexeme width width_append)
open Cursor (Fault)
open Utf8 (row row_append slice? octets)

/-- An item, the index at which it starts, and the one at which cutting goes on. -/
structure Cut where
  item : Except DecodeError Located
  start : Nat
  stop : Nat

/-- Whether an item is made of a piece of the text. -/
def Cut.IsOf (cut : Cut) (piece : List Char) : Prop :=
  match cut.item with
  | .ok t => t.offset = cut.start ∧ t.token.IsLexeme piece
  | .error e => Fault cut.start piece e

/-- The characters in front of an item, its own, and those behind it. -/
structure Cut.Stands (cut : Cut) (text before piece after : List Char) : Prop where
  text : text = before ++ (piece ++ after)
  start : cut.start = width before
  stop : cut.stop = cut.start + width piece
  isOf : cut.IsOf piece
  /-- a word goes on neither in front nor behind -/
  word : ∀ t word, cut.item = .ok t → t.token = .atom word →
    (∀ d ∈ before.getLast?, Token.isAtomChar d = false) ∧ EndsWord after

/-- The items that are cut from an index on, call by call, until there are no more. -/
inductive Scan.Yields (bs : List UInt8) : Nat → List Cut → Prop
  | done {i : Nat} (hnext : next bs i = some none) : Yields bs i []
  | item {i stop : Nat} {item : Except DecodeError Located} {cuts : List Cut}
      (hnext : next bs i = some (some (item, stop))) (hrest : Yields bs stop cuts) :
      Yields bs i (⟨item, skip isBlankOctet bs i, stop⟩ :: cuts)

/-- How some characters are cut that start at an offset. -/
inductive Layout : Nat → List Char → List Cut → Prop
  | blanks {offset : Nat} {blanks : List Char} (hblanks : Blanks blanks) : Layout offset blanks []
  | token {offset : Nat} {blanks lexeme after : List Char} {token : Token} {cuts : List Cut}
      (hblanks : Blanks blanks) (hlexeme : token.IsLexeme lexeme) (hends : token.Ends after)
      (hafter : Layout (offset + width blanks + width lexeme) after cuts) :
      Layout offset (blanks ++ (lexeme ++ after))
        (⟨.ok ⟨offset + width blanks, token⟩, offset + width blanks,
          offset + width blanks + width lexeme⟩ :: cuts)
  | fault {offset : Nat} {blanks piece : List Char} {e : DecodeError} (hblanks : Blanks blanks)
      (hfault : Fault (offset + width blanks) piece e) :
      Layout offset (blanks ++ piece)
        [⟨.error e, offset + width blanks, offset + width blanks + width piece⟩]

/-! ## Every text is laid out -/

namespace Scan

theorem skip_blanks (before : List Char) {blanks rest : List Char} (hblanks : Blanks blanks)
    (hhead : ∀ c ∈ rest.head?, Token.isBlank c = false) :
    skip isBlankOctet (row (before ++ (blanks ++ rest))) (row before).length =
      (row before).length + width blanks := by
  rw [skip_row isBlankOctet_encode, takeWhile_of_head hblanks hhead, length_row blanks]

theorem next_end (text : List Char) : next (row text) (row text).length = some none := by
  have hnone : Blanks [] := nofun
  have hnext := next_row text []
  rwa [List.append_nil, Cursor.next?_of_blanks hnone] at hnext

end Scan

theorem lexeme_head {token : Token} {lexeme : List Char} (h : token.IsLexeme lexeme)
    (after : List Char) : ∀ c ∈ (lexeme ++ after).head?, Token.isBlank c = false := by
  obtain ⟨c, others, rfl, hc⟩ := h.head
  rintro d ⟨⟩
  exact hc

/-- The scanner cuts a text from a place on, and cuts it as its characters are laid out. -/
theorem exists_layout (before cs : List Char) :
    ∃ cuts, Scan.Yields (row (before ++ cs)) (row before).length cuts ∧
      Cursor.items ⟨(row before).length, cs⟩ = cuts.map Cut.item ∧
      Layout (row before).length cs cuts := by
  have hnext := Scan.next_row before cs
  have hfound := Cursor.found_next? ⟨(row before).length, cs⟩
  have hitems := Cursor.items_eq ⟨(row before).length, cs⟩
  generalize Cursor.next? ⟨(row before).length, cs⟩ = found at hnext hfound hitems
  cases hfound with
  | nothing hblanks => exact ⟨[], .done hnext, hitems, .blanks hblanks⟩
  | @token blanks lexeme after token hblanks hlexeme hends hrest =>
      dsimp only at hrest hnext hitems
      subst hrest
      have hshorter : after.length < (blanks ++ (lexeme ++ after)).length := by
        obtain ⟨c, others, rfl, -⟩ := hlexeme.head
        simp only [List.length_append, List.length_cons]
        omega
      have hwidth : (row before).length + width blanks + width lexeme =
          (row (before ++ (blanks ++ lexeme))).length := by
        rw [Scan.length_row_append, width_append, Nat.add_assoc]
      have htext : before ++ (blanks ++ (lexeme ++ after)) =
          before ++ (blanks ++ lexeme) ++ after := by simp
      obtain ⟨cuts, hyields, hrest, hlayout⟩ := exists_layout (before ++ (blanks ++ lexeme)) after
      rw [← hwidth] at hyields hrest hlayout
      rw [← htext] at hyields
      have hstart := Scan.skip_blanks before hblanks (lexeme_head hlexeme after)
      have hall := Scan.Yields.item hnext hyields
      rw [hstart] at hall
      exact ⟨_, hall, by rw [hitems, hrest]; rfl, .token hblanks hlexeme hends hlayout⟩
  | @fault blanks piece e hblanks hfault hrest =>
      dsimp only at hrest hnext hitems
      subst hrest
      have hwidth : (row before).length + width blanks + width piece =
          (row (before ++ (blanks ++ piece))).length := by
        rw [Scan.length_row_append, width_append, Nat.add_assoc]
      have hend := Scan.next_end (before ++ (blanks ++ piece))
      rw [← hwidth] at hend
      have hstart := Scan.skip_blanks before hblanks hfault.head
      have hall := Scan.Yields.item hnext (.done hend)
      rw [hstart] at hall
      exact ⟨_, hall, by rw [hitems, Cursor.items_nil]; rfl, .fault hblanks hfault⟩
termination_by cs.length

/-! ## What a layout says -/

theorem width_pos {cs : List Char} (hne : cs ≠ []) : 0 < width cs := by
  obtain ⟨c, others, rfl⟩ := List.exists_cons_of_ne_nil hne
  have hsize := c.utf8Size_pos
  rw [width]
  omega

theorem lexeme_ne_nil {token : Token} {lexeme : List Char} (h : token.IsLexeme lexeme) :
    lexeme ≠ [] := by
  obtain ⟨c, others, rfl, -⟩ := h.head
  exact List.cons_ne_nil c others

theorem fault_eq_cons {offset : Nat} {piece : List Char} {e : DecodeError}
    (h : Fault offset piece e) : ∃ others, piece = '"' :: others := by
  cases h <;> exact ⟨_, rfl⟩

/-- If a word may go on behind a lexeme, then it does not. -/
theorem lexeme_last {token : Token} {lexeme after : List Char} (h : token.IsLexeme lexeme)
    (hends : token.Ends after) :
    ∀ d ∈ lexeme.getLast?, Token.isAtomChar d = true → EndsWord after := by
  cases h with
  | @structural c _ h =>
      have hall : ∀ pair ∈ Token.structurals, Token.isAtomChar pair.1 = false := by decide
      intro d hd hatom
      obtain rfl : c = d := Option.some.inj hd
      rw [hall _ h] at hatom
      cases hatom
  | string h =>
      intro d hd hatom
      rw [List.getLast?_concat] at hd
      cases hd
      cases hatom
  | atom hne h => exact fun _ _ _ => hends _ rfl

theorem of_isLexeme_atom {word : String} {piece : List Char}
    (h : (Token.atom word).IsLexeme piece) :
    piece ≠ [] ∧ ∀ c ∈ piece, Token.isAtomChar c = true := by
  cases h with
  | structural h => simp [Token.structurals] at h
  | atom hne h => exact ⟨hne, h⟩

/-- What stands in front of a word is no part of one. -/
theorem word_first {before blanks lexeme after : List Char} {word : String}
    (hblanks : Blanks blanks) (h : (Token.atom word).IsLexeme lexeme)
    (hbefore : ∀ d ∈ before.getLast?, Token.isAtomChar d = true →
      EndsWord (blanks ++ (lexeme ++ after))) :
    ∀ d ∈ (before ++ blanks).getLast?, Token.isAtomChar d = false := by
  intro d hd
  rcases eq_or_ne blanks [] with rfl | hne
  · rw [List.append_nil] at hd
    rw [← Bool.not_eq_true]
    intro hatom
    obtain ⟨hne, hword⟩ := of_isLexeme_atom h
    obtain ⟨c, others, rfl⟩ := List.exists_cons_of_ne_nil hne
    have hfirst := hword c List.mem_cons_self
    rw [hbefore d hd hatom c rfl] at hfirst
    cases hfirst
  · rw [List.getLast?_append_of_ne_nil _ hne] at hd
    rw [Token.isAtomChar, hblanks d (List.mem_of_getLast? hd)]
    rfl

theorem blankOctet_of {blanks : List Char} (hblanks : Blanks blanks) {b : UInt8}
    (hb : b ∈ row blanks) : b ∈ Scan.blankOctets := by
  have hblank := Scan.forall_mem_row Scan.isBlankOctet_encode hblanks b hb
  rwa [Scan.isBlankOctet, List.contains_iff_mem] at hblank

namespace Layout

/-- The items stand inside of the text. -/
theorem bounds {offset : Nat} {cs : List Char} {cuts : List Cut} (h : Layout offset cs cuts) :
    ∀ cut ∈ cuts, offset ≤ cut.start ∧ cut.start < cut.stop ∧ cut.stop ≤ offset + width cs := by
  induction h with
  | blanks hblanks => exact nofun
  | @token offset blanks lexeme after token cuts hblanks hlexeme hends hafter ih =>
      have hpos := width_pos (lexeme_ne_nil hlexeme)
      rw [width_append, width_append]
      refine List.forall_mem_cons.2 ⟨by dsimp only; omega, fun cut hcut => ?_⟩
      have hcut := ih cut hcut
      omega
  | @fault offset blanks piece e hblanks hfault =>
      obtain ⟨others, rfl⟩ := fault_eq_cons hfault
      have hpos := width_pos (List.cons_ne_nil '"' others)
      rw [width_append]
      exact List.forall_mem_singleton.2 (by dsimp only; omega)

/-- They stand one behind the other. -/
theorem apart {offset : Nat} {cs : List Char} {cuts : List Cut} (h : Layout offset cs cuts) :
    cuts.Pairwise fun first later => first.stop ≤ later.start := by
  induction h with
  | blanks hblanks => exact .nil
  | token hblanks hlexeme hends hafter ih =>
      exact .cons (fun cut hcut => (hafter.bounds cut hcut).1) ih
  | fault hblanks hfault => exact List.pairwise_singleton _ _

/-- What cannot be cut is the rest of the text. -/
theorem last {offset : Nat} {cs : List Char} {cuts : List Cut} (h : Layout offset cs cuts)
    {before after : List Cut} {cut : Cut} {e : DecodeError} (hcuts : cuts = before ++ cut :: after)
    (hitem : cut.item = .error e) : after = [] ∧ cut.stop = offset + width cs := by
  induction h generalizing before with
  | blanks hblanks => simp at hcuts
  | @token offset blanks lexeme rest token cuts hblanks hlexeme hends hafter ih =>
      cases before with
      | nil =>
          obtain ⟨rfl, -⟩ := List.cons.inj hcuts
          cases hitem
      | cons first before =>
          obtain ⟨hnothing, hstop⟩ := ih (List.cons.inj hcuts).2
          refine ⟨hnothing, ?_⟩
          rw [hstop, width_append, width_append]
          omega
  | @fault offset blanks piece e hblanks hfault =>
      cases before with
      | nil =>
          obtain ⟨rfl, rfl⟩ := List.cons.inj hcuts
          refine ⟨rfl, ?_⟩
          rw [width_append]
          exact Nat.add_assoc _ _ _
      | cons first before => simp at hcuts

/-- An octet in no item is blank. -/
theorem blank_of_outside {offset : Nat} {cs : List Char} {cuts : List Cut}
    (h : Layout offset cs cuts) {i : Nat} {b : UInt8} (hb : (row cs)[i]? = some b)
    (hout : ∀ cut ∈ cuts, ¬ (cut.start ≤ offset + i ∧ offset + i < cut.stop)) :
    b ∈ Scan.blankOctets := by
  induction h generalizing i with
  | blanks hblanks => exact blankOctet_of hblanks (List.mem_of_getElem? hb)
  | @token offset blanks lexeme rest token cuts hblanks hlexeme hends hafter ih =>
      obtain ⟨hfirst, hothers⟩ := List.forall_mem_cons.1 hout
      dsimp only at hfirst
      rw [row_append, row_append, List.getElem?_append, List.getElem?_append, Scan.length_row,
        Scan.length_row] at hb
      split at hb
      · exact blankOctet_of hblanks (List.mem_of_getElem? hb)
      split at hb
      · exact absurd (by omega) hfirst
      · refine ih hb fun cut hcut => ?_
        have hcut := hothers cut hcut
        rwa [show offset + width blanks + width lexeme + (i - width blanks - width lexeme) =
          offset + i by omega]
  | @fault offset blanks piece e hblanks hfault =>
      have hfirst := hout _ List.mem_cons_self
      dsimp only at hfirst
      rw [row_append, List.getElem?_append, Scan.length_row] at hb
      split at hb
      · exact blankOctet_of hblanks (List.mem_of_getElem? hb)
      · have hlt := (List.getElem?_eq_some_iff.1 hb).1
        rw [Scan.length_row] at hlt
        exact absurd (by omega) hfirst

/-- Each item is made of a piece of the text. For a word to be all of it, no word may go on
from in front of the layout. -/
theorem stands {offset : Nat} {cs : List Char} {cuts : List Cut} (h : Layout offset cs cuts) :
    ∀ outer : List Char, offset = width outer →
      (∀ d ∈ outer.getLast?, Token.isAtomChar d = true → EndsWord cs) →
      ∀ cut ∈ cuts, ∃ before piece after, cut.Stands (outer ++ cs) before piece after := by
  induction h with
  | blanks hblanks => exact fun _ _ _ => nofun
  | @token offset blanks lexeme after token cuts hblanks hlexeme hends hafter ih =>
      rintro outer rfl houter
      refine List.forall_mem_cons.2 ⟨⟨outer ++ blanks, lexeme, after, ?_⟩, fun cut hcut => ?_⟩
      · constructor
        case text => rw [List.append_assoc]
        case start => exact (width_append outer blanks).symm
        case stop => rfl
        case isOf => exact ⟨rfl, hlexeme⟩
        case word =>
          rintro _ word ⟨⟩ rfl
          exact ⟨word_first hblanks hlexeme houter, hends word rfl⟩
      · have hne := lexeme_ne_nil hlexeme
        have hlast : ∀ d ∈ (outer ++ (blanks ++ lexeme)).getLast?,
            Token.isAtomChar d = true → EndsWord after := by
          intro d hd
          rw [List.getLast?_append_of_ne_nil _ (List.append_ne_nil_of_right_ne_nil blanks hne),
            List.getLast?_append_of_ne_nil _ hne] at hd
          exact lexeme_last hlexeme hends d hd
        have hwidth : width outer + width blanks + width lexeme =
            width (outer ++ (blanks ++ lexeme)) := by
          rw [width_append, width_append, Nat.add_assoc]
        have hcut := ih (outer ++ (blanks ++ lexeme)) hwidth hlast cut hcut
        rwa [List.append_assoc, List.append_assoc] at hcut
  | @fault offset blanks piece e hblanks hfault =>
      rintro outer rfl -
      refine List.forall_mem_singleton.2 ⟨outer ++ blanks, piece, [], ?_⟩
      constructor
      case text => rw [List.append_nil, List.append_assoc]
      case start => exact (width_append outer blanks).symm
      case stop => rfl
      case isOf => exact hfault
      case word => exact fun t word ht => nomatch ht

end Layout

/-! ## What covers a text -/

/-- Octets of a kind, with none of them in front and none behind. -/
inductive IsRun (kind : UInt8 → Bool) : List UInt8 → Nat → Nat → Prop
  | mk {before run after : List UInt8} (hrun : ∀ b ∈ run, kind b = true)
      (hbefore : ∀ b ∈ before.getLast?, kind b = false)
      (hafter : ∀ b ∈ after.head?, kind b = false) :
      IsRun kind (before ++ (run ++ after)) before.length (before.length + run.length)

/-- What is cut from a text, and from where. What cannot be cut has a place among the items as
well, from its quote to the end of the text, so what is in no item is in front of it. -/
structure Coverage (text : String) (cuts : List Cut) : Prop where
  items : tokens text.toList = cuts.map Cut.item
  /-- every call has an answer, and the last one is that there are no more items -/
  calls : Scan.Yields (octets text) 0 cuts
  /-- the place from which cutting goes on moves, call by call, and stays inside of the text -/
  progress : (0 :: cuts.map Cut.stop).Pairwise (· < ·)
  inside : ∀ cut ∈ cuts, cut.stop ≤ (octets text).length
  offsets : (((tokens text.toList).filterMap Except.toOption).map Located.offset).Pairwise (· < ·)
  nonempty : ∀ cut ∈ cuts, cut.start < cut.stop
  disjoint : cuts.Pairwise fun first later => first.stop ≤ later.start
  boundaries : ∀ cut ∈ cuts, Utf8.isBoundary (octets text) cut.start = true ∧
    Utf8.isBoundary (octets text) cut.stop = true
  slices : ∀ cut ∈ cuts, ∃ piece, slice? (octets text) cut.start cut.stop = some piece ∧
    cut.IsOf piece.toList
  /-- nothing is passed over but blanks -/
  blanks : ∀ i b, (octets text)[i]? = some b →
    (∀ cut ∈ cuts, ¬ (cut.start ≤ i ∧ i < cut.stop)) → b ∈ Scan.blankOctets
  words : ∀ cut ∈ cuts, ∀ t word, cut.item = .ok t → t.token = .atom word →
    IsRun Scan.isAtomOctet (octets text) cut.start cut.stop
  /-- there is nothing behind what cannot be cut, and nothing is found there -/
  last : ∀ before cut after e, cuts = before ++ cut :: after → cut.item = .error e →
    after = [] ∧ cut.stop = (octets text).length ∧ Scan.next (octets text) cut.stop = some none

namespace Cut.Stands

variable {cut : Cut} {text before piece after : List Char}

theorem isBoundary (h : cut.Stands text before piece after) :
    Utf8.isBoundary (row text) cut.start = true ∧ Utf8.isBoundary (row text) cut.stop = true := by
  constructor
  · rw [h.start, h.text, ← Scan.length_row]
    exact Utf8.isBoundary_row before (piece ++ after)
  · rw [h.stop, h.start, h.text, ← width_append, ← Scan.length_row, ← List.append_assoc]
    exact Utf8.isBoundary_row (before ++ piece) after

theorem slice (h : cut.Stands text before piece after) :
    slice? (row text) cut.start cut.stop = some (String.ofList piece) := by
  rw [h.stop, h.start, h.text, ← Scan.length_row, ← Scan.length_row]
  exact Utf8.slice?_row before piece after

theorem offset (h : cut.Stands text before piece after) {t : Located}
    (ht : cut.item.toOption = some t) : t.offset = cut.start := by
  have hof := h.isOf
  rw [Cut.IsOf] at hof
  split at hof
  · next u hitem =>
      rw [hitem] at ht
      obtain rfl := Option.some.inj ht
      exact hof.1
  · next e hitem =>
      rw [hitem] at ht
      cases ht

theorem isRun (h : cut.Stands text before piece after) {t : Located} {word : String}
    (hitem : cut.item = .ok t) (hword : t.token = .atom word) :
    IsRun Scan.isAtomOctet (row text) cut.start cut.stop := by
  obtain ⟨hbefore, hafter⟩ := h.word t word hitem hword
  have hof := h.isOf
  rw [Cut.IsOf, hitem] at hof
  obtain ⟨-, hlexeme⟩ := hof
  rw [hword] at hlexeme
  obtain ⟨-, hrun⟩ := of_isLexeme_atom hlexeme
  rw [h.stop, h.start, h.text, ← Scan.length_row, ← Scan.length_row, row_append, row_append]
  exact .mk (Scan.forall_mem_row Scan.isAtomOctet_encode hrun)
    (Scan.getLast?_row Scan.isAtomOctet_encode hbefore)
    (Scan.head?_row Scan.isAtomOctet_encode hafter)

end Cut.Stands

/-- Whatever the text is. -/
theorem exists_coverage (text : String) : ∃ cuts, Coverage text cuts := by
  obtain ⟨cuts, hcalls, hitems, hlayout⟩ := exists_layout [] text.toList
  have hoctets : octets text = row text.toList := by
    rw [← Utf8.octets_eq_row, String.ofList_toList]
  have hlength : (octets text).length = width text.toList := by rw [hoctets, Scan.length_row]
  rw [List.nil_append, ← hoctets] at hcalls
  rw [Utf8.row_nil, List.length_nil] at hcalls hitems hlayout
  have hstands := hlayout.stands [] rfl nofun
  rw [List.nil_append] at hstands
  have hbounds := hlayout.bounds
  rw [Nat.zero_add] at hbounds
  refine ⟨cuts, ?_⟩
  constructor
  case items => exact hitems
  case calls => exact hcalls
  case progress =>
    refine List.pairwise_cons.2 ⟨?_, List.pairwise_map.2 ?_⟩
    · refine List.forall_mem_map.2 fun cut hcut => ?_
      exact Nat.lt_of_le_of_lt (Nat.zero_le _) (hbounds cut hcut).2.1
    · refine hlayout.apart.imp_of_mem fun _ hlater hapart => ?_
      exact Nat.lt_of_le_of_lt hapart (hbounds _ hlater).2.1
  case inside => exact fun cut hcut => hlength ▸ (hbounds cut hcut).2.2
  case offsets =>
    have hitems : tokens text.toList = cuts.map Cut.item := hitems
    rw [hitems, List.pairwise_map, List.filterMap_map, List.pairwise_filterMap]
    refine hlayout.apart.imp_of_mem fun hfirst hlater hapart t ht u hu => ?_
    obtain ⟨_, _, _, hfirst'⟩ := hstands _ hfirst
    obtain ⟨_, _, _, hlater'⟩ := hstands _ hlater
    rw [hfirst'.offset ht, hlater'.offset hu]
    exact Nat.lt_of_lt_of_le (hbounds _ hfirst).2.1 hapart
  case nonempty => exact fun cut hcut => (hbounds cut hcut).2.1
  case disjoint => exact hlayout.apart
  case boundaries =>
    intro cut hcut
    obtain ⟨before, piece, after, h⟩ := hstands cut hcut
    exact hoctets ▸ h.isBoundary
  case slices =>
    intro cut hcut
    obtain ⟨before, piece, after, h⟩ := hstands cut hcut
    refine ⟨_, hoctets ▸ h.slice, ?_⟩
    rw [String.toList_ofList]
    exact h.isOf
  case blanks =>
    intro i b hb hout
    rw [hoctets] at hb
    refine hlayout.blank_of_outside hb fun cut hcut => ?_
    rw [Nat.zero_add]
    exact hout cut hcut
  case words =>
    intro cut hcut t word hitem hword
    obtain ⟨before, piece, after, h⟩ := hstands cut hcut
    exact hoctets ▸ h.isRun hitem hword
  case last =>
    intro before cut after e hcuts hitem
    obtain ⟨rfl, hstop⟩ := hlayout.last hcuts hitem
    rw [Nat.zero_add] at hstop
    refine ⟨rfl, hstop.trans hlength.symm, ?_⟩
    rw [hstop, ← hlength, hoctets]
    exact Scan.next_end text.toList

end LspClient.Json
