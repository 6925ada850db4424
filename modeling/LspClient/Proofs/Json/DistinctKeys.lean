import LspClient.Proofs.Json.Grammar
import LspClient.Proofs.Json.RoundTrip

/-!
# Objects with distinct keys

Reading gives values in which the keys of every object are distinct, since a key
that comes again is stored where it was. Storing and removing members keeps keys
distinct, and so does looking up a part. So nothing but a value that was built
otherwise can have a key twice, and values are read back as they were written as
long as the caller hands over none of those.

Lookups also do not see what is lost when a value is written, apart from the floats
themselves: texts and the places of members are what they were.
-/

namespace LspClient.Json

namespace Value

theorem distinctInMembers_iff {members : Members Value} :
    distinctInMembers members = true ↔
      members.keys.Nodup ∧ ∀ member ∈ members, member.2.hasDistinctKeys = true := by
  induction members with
  | nil => simp [distinctInMembers, Members.keys]
  | cons member members ih =>
      obtain ⟨key, v⟩ := member
      have hkeys : Members.keys ((key, v) :: members) = key :: Members.keys members := rfl
      rw [distinctInMembers_cons, ih, List.forall_mem_cons, hkeys, List.nodup_cons]
      tauto

theorem hasDistinctKeys_object {members : Members Value} :
    (Value.object members).hasDistinctKeys = true ↔
      members.keys.Nodup ∧ ∀ member ∈ members, member.2.hasDistinctKeys = true := by
  rw [hasDistinctKeys, distinctInMembers_iff]

theorem hasDistinctKeys_array {items : List Value} :
    (Value.array items).hasDistinctKeys = true ↔ ∀ v ∈ items, v.hasDistinctKeys = true := by
  rw [hasDistinctKeys]
  induction items with
  | nil => simp [distinctInItems]
  | cons v items ih => rw [distinctInItems_cons, ih, List.forall_mem_cons]

end Value

namespace Members

theorem mem_set {α : Type} {m : Members α} {key : String} {v : α} {x : String × α}
    (h : x ∈ m.set key v) : x ∈ m ∨ x.2 = v := by
  induction m with
  | nil =>
      rw [List.mem_singleton.1 h]
      exact .inr rfl
  | cons member rest ih =>
      rw [set] at h
      split at h
      · rcases List.mem_cons.1 h with rfl | hrest
        · exact .inr rfl
        · exact .inl (List.mem_cons_of_mem member hrest)
      · rcases List.mem_cons.1 h with rfl | hrest
        · exact .inl List.mem_cons_self
        · exact (ih hrest).imp_left (List.mem_cons_of_mem member)

theorem distinct_set {m : Members Value} (h : (Value.object m).hasDistinctKeys = true)
    (key : String) {v : Value} (hv : v.hasDistinctKeys = true) :
    (Value.object (m.set key v)).hasDistinctKeys = true := by
  rw [Value.hasDistinctKeys_object] at h ⊢
  refine ⟨nodup_keys_set h.1 key v, fun member hmember => ?_⟩
  rcases mem_set hmember with hold | hnew
  · exact h.2 member hold
  · rwa [hnew]

theorem distinct_remove {m : Members Value} (h : (Value.object m).hasDistinctKeys = true)
    (key : String) : (Value.object (m.remove key)).hasDistinctKeys = true := by
  rw [Value.hasDistinctKeys_object] at h ⊢
  have hsub : (m.remove key).Sublist m := List.eraseP_sublist
  exact ⟨h.1.sublist (hsub.map Prod.fst), fun member hmember => h.2 member (hsub.subset hmember)⟩

theorem distinct_ofList {pairs : List (String × Value)}
    (h : ∀ pair ∈ pairs, pair.2.hasDistinctKeys = true) :
    (Value.object (ofList pairs)).hasDistinctKeys = true := by
  induction pairs using List.reverseRecOn with
  | nil => rfl
  | append_singleton pairs pair ih =>
      rw [List.forall_mem_append, List.forall_mem_singleton] at h
      rw [ofList_concat]
      exact distinct_set (ih h.1) pair.1 h.2

end Members

/-! ## What is read -/

/-- A numeral is an integer or a float. -/
theorem number?_cases {cs : List Char} {v : Value} (h : number? cs = some v) :
    (∃ n, v = .integer n) ∨ ∃ x, v = .float x := by
  have hfloat : float? cs = some v → ∃ x, v = .float x := by
    intro hread
    obtain ⟨d, -, rfl⟩ := Option.map_eq_some_iff.1 hread
    exact ⟨_, rfl⟩
  rw [number?] at h
  split at h
  · split at h
    · exact .inr (hfloat h)
    · split at h
      · cases h
        exact .inl ⟨_, rfl⟩
      · exact .inr (hfloat h)
  · cases h

theorem distinct_of_number? {cs : List Char} {v : Value} (h : number? cs = some v) :
    v.hasDistinctKeys = true := by
  obtain ⟨n, rfl⟩ | ⟨x, rfl⟩ := number?_cases h <;> rfl

mutual

/-- A derivation denotes a value in which keys are distinct. -/
theorem distinct_of_denotes {ts : List Token} {v : Value} (h : Denotes ts v) :
    v.hasDistinctKeys = true := by
  match h with
  | .string _ | .true | .false | .null | .emptyObject | .emptyArray => rfl
  | .number hnumber => exact distinct_of_number? hnumber
  | .object key hfirst hothers =>
      rw [← Members.ofList_eq_settled]
      refine Members.distinct_ofList (List.forall_mem_cons.2 ⟨distinct_of_denotes hfirst, ?_⟩)
      exact distinct_of_members hothers
  | .array hfirst hothers =>
      rw [Value.hasDistinctKeys_array, List.forall_mem_cons]
      exact ⟨distinct_of_denotes hfirst, distinct_of_elements hothers⟩

theorem distinct_of_members {ts : List Token} {pairs : List (String × Value)}
    (h : OtherMembers ts pairs) : ∀ pair ∈ pairs, pair.2.hasDistinctKeys = true := by
  match h with
  | .nil => exact List.forall_mem_nil _
  | .cons key hnext hothers =>
      exact List.forall_mem_cons.2 ⟨distinct_of_denotes hnext, distinct_of_members hothers⟩

theorem distinct_of_elements {ts : List Token} {items : List Value}
    (h : OtherElements ts items) : ∀ v ∈ items, v.hasDistinctKeys = true := by
  match h with
  | .nil => exact List.forall_mem_nil _
  | .cons hnext hothers =>
      exact List.forall_mem_cons.2 ⟨distinct_of_denotes hnext, distinct_of_elements hothers⟩

end

/-- The keys of every object in a document are distinct once it is read. -/
theorem distinct_of_decode {text : String} {v : Value} (h : decode text = .ok v) :
    v.hasDistinctKeys = true := by
  obtain ⟨located, -, ⟨first, x, rest, hfirst, -, -, rfl⟩, -⟩ :=
    (Stage.run_eq_ok (Nat.zero_le _)).1 h
  exact distinct_of_denotes hfirst

/-! ## Lookups -/

namespace Value

theorem distinct_of_member? {v part : Value} {key : String} (h : v.hasDistinctKeys = true)
    (hpart : v.member? key = some part) : part.hasDistinctKeys = true := by
  obtain ⟨members, hmembers, hget⟩ := Option.bind_eq_some_iff.1 hpart
  cases v with
  | object m =>
      cases hmembers
      rw [hasDistinctKeys_object] at h
      obtain ⟨member, hfind, rfl⟩ := Option.map_eq_some_iff.1 hget
      exact h.2 member (List.mem_of_find?_eq_some hfind)
  | _ => cases hmembers

theorem distinct_of_member {v : Value} (h : v.hasDistinctKeys = true) (key : String) :
    (v.member key).hasDistinctKeys = true := by
  rw [member]
  cases hpart : v.member? key with
  | none => rfl
  | some part => exact distinct_of_member? h hpart

theorem get?_membersInJson (members : Members Value) (key : String) :
    Members.get? (membersInJson members) key = (members.get? key).map inJson := by
  induction members with
  | nil => rfl
  | cons member members ih =>
      obtain ⟨k, v⟩ := member
      rw [membersInJson, Members.get?_cons, Members.get?_cons, ih]
      split <;> rfl

theorem member_inJson (v : Value) (key : String) :
    v.inJson.member key = (v.member key).inJson := by
  cases v with
  | object m =>
      rw [inJson, member, member, member?, member?, members?, members?, Option.bind_some,
        Option.bind_some, get?_membersInJson]
      cases Members.get? m key <;> rfl
  | float x =>
      rw [inJson]
      split <;> rfl
  | _ => rfl

theorem string?_inJson (v : Value) : v.inJson.string? = v.string? := by
  cases v with
  | float x =>
      rw [inJson]
      split <;> rfl
  | _ => rfl

end Value

end LspClient.Json
