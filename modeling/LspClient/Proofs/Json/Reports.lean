import LspClient.Proofs.Json.StrictText
import LspClient.Proofs.Json.Telling

/-!
# What a standard reader reports

A reader of the standard that knows nothing about values reports a text event by event. The
rules here say which events, part by part of the strict grammar: scalars as they stand, keys in
front of their values, everything in order. Numbers come in three sorts. Integers are unsigned
without a minus sign and signed with one, as long as they fit 64 bits, and every other number is
the float that it rounds to. A negative zero without a point has no rule, as there is no
agreement what it is.

The rules say nothing about how the text is read. Of a reader they ask that what has a report
is reported so (`Conforms`), and only where containers nest no deeper than readers are known to
go.

The text of a value is reported as the value tells itself, up to the sort of its integers
(`Strict.reported_write`). The induction follows the writer, as in the proof that it is strict.
-/

namespace LspClient.Json

namespace Strict

/-- What a reader tells of a text, and how deep the containers of the text nest. -/
structure Report where
  events : List Event
  depth : Nat

namespace Report

/-- The report of a scalar. -/
def leaf (e : Event) : Report :=
  ⟨[e], 0⟩

/-- How deep the containers in the parts of a row nest. -/
def depthOfParts : List Report → Nat
  | [] => 0
  | part :: parts => max part.depth (depthOfParts parts)

/-- The report of a container: what it opens with, its parts in order, what it closes with. -/
def container (opening closing : Event) (parts : List Report) : Report where
  events := opening :: (parts.flatMap events ++ [closing])
  depth := depthOfParts parts + 1

/-- The report of a member: its key, then its value. -/
def member (key : String) (value : Report) : Report where
  events := .key key :: value.events
  depth := value.depth

end Report

/-! ## Rules -/

/-- How a number is reported. -/
inductive Numeric : List Char → Event → Prop
  | unsigned {whole : List Char} (hwhole : Whole whole)
      (hfits : Numeral.value whole < Numeral.unsignedBound) :
      Numeric whole (.unsigned (UInt64.ofNat (Numeral.value whole)))
  | signed {whole : List Char} (hwhole : Whole whole) (hne : Numeral.value whole ≠ 0)
      (hfits : Numeral.value whole ≤ Numeral.signedBound) :
      Numeric ('-' :: whole) (.signed (Int64.ofInt (-(Numeral.value whole : Int))))
  /-- an integer that does not fit -/
  | large (negative : Bool) {whole : List Char} {x : Binary64} (hwhole : Whole whole)
      (hlarge : if negative then Numeral.signedBound < Numeral.value whole
        else Numeral.unsignedBound ≤ Numeral.value whole)
      (hx : Decimal.RoundsTo ⟨negative, Numeral.value whole, 0⟩ x) :
      Numeric (Decimal.sign negative ++ whole) (.float x)
  /-- a number with a point or an exponent -/
  | fractional (negative : Bool) {whole point fraction mark : List Char} {power : Int}
      {x : Binary64} (hwhole : Whole whole) (hfraction : Fraction point fraction)
      (hpower : Power mark power) (hmark : point ++ mark ≠ [])
      (hx : Decimal.RoundsTo
        ⟨negative, Numeral.value (whole ++ fraction), power - fraction.length⟩ x) :
      Numeric (Decimal.sign negative ++ whole ++ point ++ mark) (.float x)

mutual

/-- How a value is reported. -/
inductive Reported : List Char → Report → Prop
  | false : Reported ['f', 'a', 'l', 's', 'e'] (.leaf (.bool false))
  | null : Reported ['n', 'u', 'l', 'l'] (.leaf .null)
  | true : Reported ['t', 'r', 'u', 'e'] (.leaf (.bool true))
  | object {opening content closing : List Char} {parts : List Report}
      (hopening : Structural '{' opening) (hcontent : Row ReportedMember content parts)
      (hclosing : Structural '}' closing) :
      Reported (opening ++ content ++ closing) (.container .beginObject .endObject parts)
  | array {opening content closing : List Char} {parts : List Report}
      (hopening : Structural '[' opening) (hcontent : Row Reported content parts)
      (hclosing : Structural ']' closing) :
      Reported (opening ++ content ++ closing) (.container .beginArray .endArray parts)
  | number {cs : List Char} {e : Event} (h : Numeric cs e) : Reported cs (.leaf e)
  | string {cs : List Char} {s : String} (h : Quotation cs s) : Reported cs (.leaf (.text s))

/-- How a member is reported. -/
inductive ReportedMember : List Char → Report → Prop
  | intro {name colon value : List Char} {key : String} {report : Report}
      (hname : Quotation name key) (hcolon : Structural ':' colon)
      (hvalue : Reported value report) :
      ReportedMember (name ++ colon ++ value) (.member key report)

end

/-- A reader conforms if it reports every text by the rules whose containers do not nest
too deep. What it does with other texts is its own affair. -/
def Conforms (told? : String → Option (List Event)) : Prop :=
  ∀ ⦃before value after : List Char⦄ ⦃report : Report⦄, Blanks before → Reported value report →
    Blanks after → report.depth ≤ Standard.maxDepth →
      told? (String.ofList (before ++ value ++ after)) = some report.events

/-! ## The first character -/

theorem number_whole (negative : Bool) {whole : List Char} (hwhole : Whole whole) :
    Number (Decimal.sign negative ++ whole) ⟨negative, Numeral.value whole, 0⟩ := by
  simpa using Number.intro negative hwhole .absent .absent

theorem Numeric.number {cs : List Char} {e : Event} (h : Numeric cs e) : ∃ d, Number cs d := by
  cases h with
  | unsigned hwhole _ => exact ⟨_, number_whole false hwhole⟩
  | signed hwhole _ _ => exact ⟨_, number_whole true hwhole⟩
  | large negative hwhole _ _ => exact ⟨_, number_whole negative hwhole⟩
  | fractional negative hwhole hfraction hpower _ _ =>
      exact ⟨_, Number.intro negative hwhole hfraction hpower⟩

theorem Reported.length_pos {cs : List Char} {report : Report} (h : Reported cs report) :
    0 < cs.length := by
  cases h with
  | false | null | true => decide
  | object hopening _ _ | array hopening _ _ =>
      have hpos := hopening.length_pos
      simp only [List.length_append]
      omega
  | number h =>
      obtain ⟨d, hnumber⟩ := h.number
      obtain ⟨c, others, htext, -⟩ := hnumber.starts []
      rw [List.append_nil] at htext
      rw [htext]
      exact Nat.succ_pos _
  | string h =>
      obtain ⟨-⟩ := h
      exact Nat.succ_pos _

theorem Reported.not_leads {cs after : List Char} {report : Report} (h : Reported cs report) :
    ¬ Leads ']' (cs ++ after) := by
  intro hclose
  cases h with
  | false | null | true => exact absurd (hclose.unique ⟨_, rfl⟩ rfl) (by decide)
  | object hopening _ _ =>
      rw [List.append_assoc, List.append_assoc] at hclose
      exact absurd (hclose.unique (hopening.leads rfl _) rfl) (by decide)
  | array hopening _ _ =>
      rw [List.append_assoc, List.append_assoc] at hclose
      exact absurd (hclose.unique (hopening.leads rfl _) rfl) (by decide)
  | number h =>
      obtain ⟨d, hnumber⟩ := h.number
      obtain ⟨c, others, htext, hc, -⟩ := hnumber.starts after
      have hlead : Leads c (cs ++ after) := ⟨others, by rw [hnumber.skip, htext]⟩
      rw [← hclose.unique hlead rfl] at hc
      exact absurd hc (by decide)
  | string h =>
      obtain ⟨-⟩ := h
      exact absurd (hclose.unique ⟨_, rfl⟩ rfl) (by decide)

theorem ReportedMember.not_leads {cs after : List Char} {report : Report}
    (h : ReportedMember cs report) : ¬ Leads '}' (cs ++ after) := by
  obtain ⟨⟨-⟩, -, -⟩ := h
  intro hclose
  exact absurd (hclose.unique ⟨_, rfl⟩ rfl) (by decide)

/-! ## The text of a value -/

theorem numeric_integer (n : Int64) :
    Numeric (Numeral.ofSigned n) (Event.signed n).inText := by
  have hlow : -(Numeral.signedBound : Int) ≤ n.toInt := n.le_toInt
  rw [Numeral.ofSigned, Event.inText]
  cases hn : n.toInt with
  | ofNat k =>
      have hnonneg : 0 ≤ Int.ofNat k := Int.natCast_nonneg k
      have hk : n.toUInt64.toNat = k := Int.ofNat.inj ((toNat_toUInt64 (hn ▸ hnonneg)).trans hn)
      have hfits : Numeral.value (Numeral.digits k) < Numeral.unsignedBound := by
        rw [Numeral.value_digits, ← hk]
        exact n.toUInt64.toNat_lt
      have h := Numeric.unsigned (whole_digits k) hfits
      rw [Numeral.value_digits, ← hk, UInt64.ofNat_toNat, hk] at h
      rw [if_pos hnonneg]
      exact h
  | negSucc k =>
      have hminus : -((k + 1 : Nat) : Int) = n.toInt := hn.symm
      have hfits : Numeral.value (Numeral.digits (k + 1)) ≤ Numeral.signedBound := by
        rw [Numeral.value_digits]
        omega
      have hne : Numeral.value (Numeral.digits (k + 1)) ≠ 0 := by
        rw [Numeral.value_digits]
        exact Nat.succ_ne_zero k
      have h := Numeric.signed (whole_digits (k + 1)) hne hfits
      rw [Numeral.value_digits, hminus, Int64.ofInt_toInt] at h
      rw [if_neg (Int.not_le.2 (Int.negSucc_lt_zero k))]
      exact h

theorem numeric_float {x : Binary64} (h : x.isFinite = true) :
    Numeric (writeFloat x) (.float x) := by
  obtain ⟨whole, fraction, htext, hspells⟩ := writeFloat_eq h
  have hwhole := whole_of_noSpareZero hspells.isWhole hspells.noSpareZero
  have hrounds : Decimal.RoundsTo
      ⟨x.isNegative, Numeral.value (whole ++ fraction), 0 - fraction.length⟩ x := by
    rw [Int.zero_sub]
    exact Decimal.roundsTo_of_magnitude rfl hspells.denotes h
  have hnumeric := Numeric.fractional x.isNegative hwhole (.digits hspells.isFraction) .absent
    (List.cons_ne_nil _ _) hrounds
  rwa [List.append_nil, ← htext] at hnumeric

mutual

/-- The text of a value is reported as the value tells itself in text. -/
theorem reported_write (v : Value) (hfinite : v.hasFiniteFloats = true) :
    Reported (write v) ⟨v.events.map Event.inText, v.depth⟩ := by
  match v with
  | .null => exact .null
  | .bool true => exact .true
  | .bool false => exact .false
  | .integer n => exact .number (numeric_integer n)
  | .float x =>
      rw [Value.hasFiniteFloats] at hfinite
      exact .number (numeric_float hfinite)
  | .string s => exact .string (quotation_write s)
  | .array [] => exact .array (structural_plain '[') .empty (structural_plain ']')
  | .array (v :: items) =>
      rw [Value.hasFiniteFloats, Value.finiteInItems, Bool.and_eq_true] at hfinite
      have hv := reported_write v hfinite.1
      obtain ⟨others, closing, parts, htext, hothers, hclosing, hevents, hdepth⟩ :=
        others_reportedElements items hfinite.2
      have hreported := Reported.array (structural_plain '[') (.parts hv hothers) hclosing
      rw [write, htext, Value.events, Value.eventsOfItems, Value.depth, Value.depthOfItems]
      simpa [Report.container, Report.depthOfParts, Event.inText, hevents, hdepth] using hreported
  | .object [] => exact .object (structural_plain '{') .empty (structural_plain '}')
  | .object ((key, v) :: members) =>
      rw [Value.hasFiniteFloats, Value.finiteInMembers, Bool.and_eq_true] at hfinite
      have hv := reported_write v hfinite.1
      obtain ⟨others, closing, parts, htext, hothers, hclosing, hevents, hdepth⟩ :=
        others_reportedMembers members hfinite.2
      have hmember := ReportedMember.intro (quotation_write key) (structural_blank ':') hv
      have hreported := Reported.object (structural_plain '{') (.parts hmember hothers) hclosing
      rw [write, htext, Value.events, Value.eventsOfMembers, Value.depth, Value.depthOfMembers]
      simpa [Report.container, Report.member, Report.depthOfParts, Event.inText, hevents, hdepth]
        using hreported

theorem others_reportedElements (items : List Value)
    (hfinite : Value.finiteInItems items = true) : ∃ others closing parts,
    writeElements items = others ++ closing ∧ Others Reported others parts ∧
      Structural ']' closing ∧
      (Value.eventsOfItems items).map Event.inText = parts.flatMap Report.events ++ [.endArray] ∧
      Value.depthOfItems items = Report.depthOfParts parts := by
  match items with
  | [] =>
      rw [writeElements]
      exact ⟨[], _, [], rfl, .nil, structural_plain ']', rfl, rfl⟩
  | v :: items =>
      rw [Value.finiteInItems, Bool.and_eq_true] at hfinite
      have hv := reported_write v hfinite.1
      obtain ⟨others, closing, parts, htext, hothers, hclosing, hevents, hdepth⟩ :=
        others_reportedElements items hfinite.2
      rw [writeElements, htext, Value.eventsOfItems, Value.depthOfItems]
      exact ⟨_, closing, _, by simp, .cons (structural_blank ',') hv hothers, hclosing,
        by simp [hevents], by rw [hdepth, Report.depthOfParts]⟩

theorem others_reportedMembers (members : List (String × Value))
    (hfinite : Value.finiteInMembers members = true) : ∃ others closing parts,
    writeMembers members = others ++ closing ∧ Others ReportedMember others parts ∧
      Structural '}' closing ∧
      (Value.eventsOfMembers members).map Event.inText =
        parts.flatMap Report.events ++ [.endObject] ∧
      Value.depthOfMembers members = Report.depthOfParts parts := by
  match members with
  | [] =>
      rw [writeMembers]
      exact ⟨[], _, [], rfl, .nil, structural_plain '}', rfl, rfl⟩
  | (key, v) :: members =>
      rw [Value.finiteInMembers, Bool.and_eq_true] at hfinite
      have hv := reported_write v hfinite.1
      obtain ⟨others, closing, parts, htext, hothers, hclosing, hevents, hdepth⟩ :=
        others_reportedMembers members hfinite.2
      rw [writeMembers, htext, Value.eventsOfMembers, Value.depthOfMembers]
      have hmember := ReportedMember.intro (quotation_write key) (structural_blank ':') hv
      exact ⟨_, closing, _, by simp, .cons (structural_blank ',') hmember hothers, hclosing,
        by simp [Report.member, Event.inText, hevents],
        by rw [hdepth, Report.depthOfParts, Report.member]⟩

end

end Strict

/-- A reader that conforms reports the text of a value as the value tells itself in text. -/
theorem told_encode {told? : String → Option (List Event)} (htold : Strict.Conforms told?)
    {v : Value} (hfinite : v.hasFiniteFloats = true) (hdepth : v.depth ≤ Standard.maxDepth) :
    told? (encode v) = some (v.events.map Event.inText) := by
  have h := htold (List.forall_mem_nil _) (Strict.reported_write v hfinite)
    (List.forall_mem_nil _) hdepth
  rwa [List.nil_append, List.append_nil] at h

end LspClient.Json
