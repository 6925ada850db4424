import LspClient.Proofs.Json.DistinctKeys

/-!
# What is read does not nest too deep

A text may open only so many containers before it closes one. A value that is read
from it is no deeper than that, whatever becomes of members whose key comes again:
they can only be left out.

The induction is over the derivation and carries the number of containers that are
open outside. A value leaves that number as it found it, so what stands in front of
an element does not count for it.
-/

namespace LspClient.Json

namespace Value

theorem depthOfItems_le {n : Nat} {items : List Value} :
    depthOfItems items ≤ n ↔ ∀ v ∈ items, v.depth ≤ n := by
  induction items with
  | nil => simp [depthOfItems]
  | cons v items ih => rw [depthOfItems, Nat.max_le, ih, List.forall_mem_cons]

theorem depthOfMembers_le {n : Nat} {members : Members Value} :
    depthOfMembers members ≤ n ↔ ∀ member ∈ members, member.2.depth ≤ n := by
  induction members with
  | nil => simp [depthOfMembers]
  | cons member members ih =>
      obtain ⟨key, v⟩ := member
      rw [depthOfMembers, Nat.max_le, ih, List.forall_mem_cons]

/-- A member of an object is less deep than the object. -/
theorem depth_of_member? {v part : Value} {key : String} (h : v.member? key = some part) :
    part.depth + 1 ≤ v.depth := by
  obtain ⟨members, hmembers, hget⟩ := Option.bind_eq_some_iff.1 h
  cases v with
  | object m =>
      cases hmembers
      obtain ⟨member, hfind, rfl⟩ := Option.map_eq_some_iff.1 hget
      rw [depth]
      exact Nat.succ_le_succ
        (depthOfMembers_le.1 (Nat.le_refl _) member (List.mem_of_find?_eq_some hfind))
  | _ => cases hmembers

end Value

theorem Members.mem_ofList {α : Type} {pairs : List (String × α)} {member : String × α}
    (h : member ∈ ofList pairs) : ∃ pair ∈ pairs, member.2 = pair.2 := by
  induction pairs using List.reverseRecOn with
  | nil => cases h
  | append_singleton pairs pair ih =>
      rw [ofList_concat] at h
      rcases mem_set h with hold | hnew
      · obtain ⟨earlier, hearlier, heq⟩ := ih hold
        exact ⟨earlier, List.mem_append_left _ hearlier, heq⟩
      · exact ⟨pair, List.mem_append_right _ List.mem_cons_self, hnew⟩

theorem nestsWithin_append {limit : Nat} {outside : Int} {ts us : List Token}
    (h : NestsWithin limit outside (ts ++ us)) :
    NestsWithin limit outside ts ∧ NestsWithin limit (outside + level ts) us := by
  refine ⟨fun before hbefore => h before (hbefore.trans (List.prefix_append ts us)), ?_⟩
  intro before hbefore
  have hlevel := h (ts ++ before) ((List.prefix_append_right_inj ts).2 hbefore)
  rw [level_append] at hlevel
  omega

/-- What stands behind tokens that close what they open has the same room. -/
theorem NestsWithin.behind {limit : Nat} {outside : Int} {ts us : List Token}
    (h : NestsWithin limit outside (ts ++ us)) (hlevel : level ts = 0) :
    NestsWithin limit outside us := by
  have hrest := (nestsWithin_append h).2
  rwa [hlevel, Int.add_zero] at hrest

theorem NestsWithin.leaf {limit : Nat} {outside : Int} {ts : List Token} {v : Value}
    (h : NestsWithin limit outside ts) (hleaf : v.depth = 0) : outside + v.depth ≤ limit := by
  rw [hleaf]
  simpa using h.outside_le

theorem depth_of_number? {cs : List Char} {v : Value} (h : number? cs = some v) :
    v.depth = 0 := by
  obtain ⟨n, rfl⟩ | ⟨x, rfl⟩ := number?_cases h <;> rfl

/-- A container takes one level, and its parts have the others. -/
theorem depth_object_le {limit : Nat} {outside : Int} {members : Members Value}
    (hopened : outside + 1 ≤ limit)
    (h : ∀ member ∈ members, outside + 1 + member.2.depth ≤ limit) :
    outside + (Value.object members).depth ≤ limit := by
  have hparts : Value.depthOfMembers members ≤ (limit - (outside + 1)).toNat :=
    Value.depthOfMembers_le.2 fun member hmember => by
      have hmember := h member hmember
      omega
  rw [Value.depth]
  omega

theorem depth_array_le {limit : Nat} {outside : Int} {items : List Value}
    (hopened : outside + 1 ≤ limit) (h : ∀ v ∈ items, outside + 1 + v.depth ≤ limit) :
    outside + (Value.array items).depth ≤ limit := by
  have hparts : Value.depthOfItems items ≤ (limit - (outside + 1)).toNat :=
    Value.depthOfItems_le.2 fun v hv => by
      have hv := h v hv
      omega
  rw [Value.depth]
  omega

mutual

/-- A value is no deeper than its derivation nests. -/
theorem depth_of_denotes {limit : Nat} {ts : List Token} {v : Value} (h : Denotes ts v)
    {outside : Int} (hnests : NestsWithin limit outside ts) : outside + v.depth ≤ limit := by
  match h with
  | .string _ | .true | .false | .null => exact hnests.leaf rfl
  | .number hnumber => exact hnests.leaf (depth_of_number? hnumber)
  | .emptyObject | .emptyArray => exact (nestsWithin_cons.1 hnests).2.outside_le
  | .object key hfirst hothers =>
      have hparts := (nestsWithin_append hnests).1
      simp only [List.cons_append, nestsWithin_cons, Token.change, Int.add_zero] at hparts
      obtain ⟨-, hopened, -, hparts⟩ := hparts
      have hvalue := depth_of_denotes hfirst (nestsWithin_append hparts).1
      have hmembers := depth_of_members hothers (hparts.behind (level_of_denotes hfirst))
      rw [← Members.ofList_eq_settled]
      refine depth_object_le hopened fun member hmember => ?_
      obtain ⟨pair, hpair, heq⟩ := Members.mem_ofList hmember
      rw [heq]
      rcases List.mem_cons.1 hpair with rfl | hother
      · exact hvalue
      · exact hmembers pair hother
  | .array hfirst hothers =>
      have hparts := (nestsWithin_append hnests).1
      simp only [List.cons_append, nestsWithin_cons, Token.change] at hparts
      obtain ⟨-, hparts⟩ := hparts
      have hvalue := depth_of_denotes hfirst (nestsWithin_append hparts).1
      have hitems := depth_of_elements hothers (hparts.behind (level_of_denotes hfirst))
      exact depth_array_le hparts.outside_le (List.forall_mem_cons.2 ⟨hvalue, hitems⟩)

theorem depth_of_members {limit : Nat} {ts : List Token} {pairs : List (String × Value)}
    (h : OtherMembers ts pairs) {inside : Int} (hnests : NestsWithin limit inside ts) :
    ∀ pair ∈ pairs, inside + pair.2.depth ≤ limit := by
  match h with
  | .nil => exact List.forall_mem_nil _
  | .cons key hnext hothers =>
      have hvalue := (nestsWithin_append hnests).1
      simp only [nestsWithin_cons, Token.change, Int.add_zero] at hvalue
      refine List.forall_mem_cons.2 ⟨depth_of_denotes hnext hvalue.2.2.2, ?_⟩
      refine depth_of_members hothers (hnests.behind ?_)
      simp only [level, Token.change, Int.zero_add, level_of_denotes hnext]

theorem depth_of_elements {limit : Nat} {ts : List Token} {items : List Value}
    (h : OtherElements ts items) {inside : Int} (hnests : NestsWithin limit inside ts) :
    ∀ v ∈ items, inside + v.depth ≤ limit := by
  match h with
  | .nil => exact List.forall_mem_nil _
  | .cons hnext hothers =>
      have hvalue := (nestsWithin_append hnests).1
      simp only [nestsWithin_cons, Token.change, Int.add_zero] at hvalue
      refine List.forall_mem_cons.2 ⟨depth_of_denotes hnext hvalue.2, ?_⟩
      refine depth_of_elements hothers (hnests.behind ?_)
      simp only [level, Token.change, Int.zero_add, level_of_denotes hnext]

end

/-- Nothing is read that nests deeper than a text may. -/
theorem depth_of_decode {text : String} {v : Value} (h : decode text = .ok v) :
    v.depth ≤ maxDepth := by
  obtain ⟨located, -, hdenotes, hnests⟩ := (decode_eq_ok text v).1 h
  have hdepth := depth_of_denotes hdenotes hnests
  omega

end LspClient.Json
