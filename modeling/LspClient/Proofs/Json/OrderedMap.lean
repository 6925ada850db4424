import LspClient.Proofs.Json.Grammar
import Mathlib.Data.Nat.Find
import Mathlib.Data.List.Dedup

/-!
# An object is an ordered map

An object is changed by three calls: a value is stored under a key, one that is there is
overwritten, a member is removed. The reference says what an object is after any sequence
of them, and it looks at the calls only, one key at a time.

What is *stored* under a key is decided by the calls for that key, the last one foremost.
How long ago the key has come is decided by the last moment at which nothing was stored
under it, since the call after that moment is the one that has put it there. An object
agrees with its calls when it has every key that something is stored under, each once,
with what is stored, and in the order in which the keys have come.

Each call leaves the members with other keys what they were and where they were, so only
the key of the call needs a look. Its place is the old one if it was there and the last
one if it was not, and the moment of its coming is then later than all others.
-/

namespace LspClient.Json

namespace Members

variable {α : Type}

/-! ## What each operation does to the values -/

theorem get?_replace (m : Members α) (key k : String) (v : α) :
    (m.replace key v).get? k = if key = k then (m.get? k).map fun _ => v else m.get? k := by
  induction m with
  | nil => exact (ite_self none).symm
  | cons member rest ih =>
      rw [replace]
      by_cases hkey : member.1 = key
      · rw [if_pos (beq_iff_eq.2 hkey), get?_cons, get?_cons, hkey]
        split <;> rfl
      · rw [if_neg (mt beq_iff_eq.1 hkey), get?_cons, get?_cons, ih]
        by_cases hk : member.1 = k
        · have hne : key ≠ k := fun h => hkey (hk.trans h.symm)
          rw [if_pos hk, if_neg hne, if_pos hk]
        · rw [if_neg hk, if_neg hk]

theorem get?_eq_none_iff {m : Members α} {key : String} : m.get? key = none ↔ key ∉ m.keys := by
  induction m with
  | nil => simp [get?, keys]
  | cons member rest ih =>
      have hkeys : keys (member :: rest) = member.1 :: keys rest := rfl
      rw [get?_cons, hkeys, List.mem_cons, not_or, ← ih, eq_comm (a := key)]
      split <;> simp [*]

theorem isSome_get?_iff {m : Members α} {key : String} :
    (m.get? key).isSome = true ↔ key ∈ m.keys := by
  rw [← Option.ne_none_iff_isSome, ne_eq, get?_eq_none_iff, not_not]

theorem get?_remove_self {m : Members α} (h : m.keys.Nodup) (key : String) :
    (m.remove key).get? key = none := by
  rw [get?_eq_none_iff, keys_remove]
  exact h.not_mem_erase

/-! ## What is displaced -/

theorem set_of_get? {m : Members α} {key : String} {old : α} (h : m.get? key = some old) (v : α) :
    m.set key v = m.replace key v := by
  induction m with
  | nil => cases h
  | cons member rest ih =>
      rw [set, replace]
      split
      · rfl
      · next hkey =>
          rw [get?_cons, if_neg (mt beq_iff_eq.2 hkey)] at h
          rw [ih h]

theorem set_of_absent {m : Members α} {key : String} (h : m.get? key = none) (v : α) :
    m.set key v = m ++ [(key, v)] := by
  induction m with
  | nil => rfl
  | cons member rest ih =>
      rw [get?_cons] at h
      split at h
      · cases h
      · next hkey => rw [set, if_neg (mt beq_iff_eq.1 hkey), ih h, List.cons_append]

theorem replace_of_absent {m : Members α} {key : String} (h : m.get? key = none) (v : α) :
    m.replace key v = m := by
  induction m with
  | nil => rfl
  | cons member rest ih =>
      rw [get?_cons] at h
      split at h
      · cases h
      · next hkey => rw [replace, if_neg (mt beq_iff_eq.1 hkey), ih h]

theorem exchange_eq (m : Members α) (key : String) (v : α) :
    m.exchange key v = (m.get? key, m.set key v) := by
  rw [exchange]
  cases h : m.get? key with
  | none => rw [set_of_absent h]
  | some old => rw [set_of_get? h]

theorem overwrite_eq (m : Members α) (key : String) (v : α) :
    m.overwrite key v = (m.get? key, m.replace key v) := by
  rw [overwrite]
  cases h : m.get? key with
  | none => rw [replace_of_absent h]
  | some old => rfl

theorem withdraw_cons_self {member : String × α} {key : String} (h : member.1 = key)
    (m : Members α) : withdraw (member :: m) key = (some member.2, m) := by
  rw [withdraw, List.findIdx?_cons, if_pos (beq_iff_eq.2 h)]
  rfl

theorem withdraw_cons {member : String × α} {key : String} (h : member.1 ≠ key)
    (m : Members α) :
    withdraw (member :: m) key = ((m.withdraw key).1, member :: (m.withdraw key).2) := by
  rw [withdraw, List.findIdx?_cons, if_neg (mt beq_iff_eq.1 h), withdraw]
  cases m.findIdx? fun member => member.1 == key <;> rfl

theorem withdraw_eq (m : Members α) (key : String) :
    m.withdraw key = (m.get? key, m.remove key) := by
  induction m with
  | nil => rfl
  | cons member rest ih =>
      rw [get?_cons, remove, List.eraseP_cons]
      by_cases hkey : member.1 = key
      · rw [withdraw_cons_self hkey, if_pos hkey, beq_iff_eq.2 hkey, cond_true]
      · rw [withdraw_cons hkey, ih, if_neg hkey, beq_false_of_ne hkey, cond_false, remove]

end Members

/-! ## Calls -/

/-- What is asked of an object. -/
inductive Call (α : Type) where
  | set (key : String) (v : α)
  | overwrite (key : String) (v : α)
  | remove (key : String)

namespace Call

variable {α : Type}

def key : Call α → String
  | .set key _ => key
  | .overwrite key _ => key
  | .remove key => key

/-- What is handed out, and the members that remain. -/
def apply (m : Members α) : Call α → Option α × Members α
  | .set key v => m.exchange key v
  | .overwrite key v => m.overwrite key v
  | .remove key => m.withdraw key

/-- What is stored under the key of a call, given what was stored there. -/
def leaves (before : Option α) : Call α → Option α
  | .set _ v => some v
  | .overwrite _ v => before.map fun _ => v
  | .remove _ => none

end Call

/-- What is stored under a key after a sequence of calls. -/
def stored {α : Type} (key : String) (history : List (Call α)) : Option α :=
  history.foldl (fun before call => if call.key = key then call.leaves before else before) none

/-- How many calls there had been when nothing was stored under a key for the last time. -/
def lastAbsence {α : Type} (key : String) (history : List (Call α)) : Nat :=
  Nat.findGreatest (fun count => (stored key (history.take count)).isNone = true) history.length

namespace Members

variable {α : Type}

/-- The members with other keys than one. -/
def others (m : Members α) (key : String) : Members α :=
  m.filter fun member => member.1 != key

/-- The members after calls on an object. -/
def after (m : Members α) (calls : List (Call α)) : Members α :=
  calls.foldl (fun m call => (call.apply m).2) m

/-- The calls that collect pairs. -/
def collecting (pairs : List (String × α)) : List (Call α) :=
  pairs.map fun pair => .set pair.1 pair.2

/-- Members agree with the calls that have been made. -/
structure Agrees (m : Members α) (history : List (Call α)) : Prop where
  /-- no key is there twice -/
  distinct : m.keys.Nodup
  /-- the keys stand in the order of their first insertion since they were last absent -/
  inOrder : m.keys.Pairwise fun a b => lastAbsence a history < lastAbsence b history
  /-- a lookup gives what is stored -/
  get : ∀ key, m.get? key = stored key history
  /-- a key is there if something is stored under it -/
  has : ∀ key, m.contains key = (stored key history).isSome
  /-- the keys are those that something is stored under -/
  key_mem : ∀ key, key ∈ m.keys ↔ (stored key history).isSome = true
  /-- there are as many members as keys that something is stored under -/
  size : m.length =
    ((history.map Call.key).dedup.filter fun key => (stored key history).isSome).length
  /-- the members are the keys with what is stored -/
  members : m = m.keys.filterMap fun key => (stored key history).map fun v => (key, v)
  /-- every further call hands out what is stored under its key -/
  given : ∀ call : Call α, (call.apply m).1 = stored call.key history
  /-- and neither changes nor moves the members with other keys -/
  untouched : ∀ call : Call α, (call.apply m).2.others call.key = m.others call.key

/-! ## The other members -/

theorem others_cons_self {member : String × α} {key : String} (h : member.1 = key)
    (m : Members α) : others (member :: m) key = m.others key := by
  rw [others, List.filter_cons_of_neg (by simp [h]), others]

theorem others_cons {member : String × α} {key : String} (h : member.1 ≠ key) (m : Members α) :
    others (member :: m) key = member :: m.others key := by
  rw [others, List.filter_cons_of_pos (by simp [h]), others]

theorem others_set (m : Members α) (key : String) (v : α) :
    (m.set key v).others key = m.others key := by
  induction m with
  | nil => exact others_cons_self rfl []
  | cons member rest ih =>
      rw [set]
      by_cases hkey : member.1 = key
      · have hkey' : (member.1, v).1 = key := hkey
        rw [if_pos (beq_iff_eq.2 hkey), others_cons_self hkey', others_cons_self hkey]
      · rw [if_neg (mt beq_iff_eq.1 hkey), others_cons hkey, others_cons hkey, ih]

theorem others_replace (m : Members α) (key : String) (v : α) :
    (m.replace key v).others key = m.others key := by
  induction m with
  | nil => rfl
  | cons member rest ih =>
      rw [replace]
      by_cases hkey : member.1 = key
      · have hkey' : (member.1, v).1 = key := hkey
        rw [if_pos (beq_iff_eq.2 hkey), others_cons_self hkey', others_cons_self hkey]
      · rw [if_neg (mt beq_iff_eq.1 hkey), others_cons hkey, others_cons hkey, ih]

theorem others_remove (m : Members α) (key : String) :
    (m.remove key).others key = m.others key := by
  induction m with
  | nil => rfl
  | cons member rest ih =>
      rw [remove, List.eraseP_cons]
      by_cases hkey : member.1 = key
      · rw [beq_iff_eq.2 hkey, cond_true, others_cons_self hkey]
      · rw [beq_false_of_ne hkey, cond_false, others_cons hkey, others_cons hkey, ← ih, remove]

theorem others_apply (m : Members α) (call : Call α) :
    (call.apply m).2.others call.key = m.others call.key := by
  cases call with
  | set key v => rw [Call.apply, exchange_eq, Call.key, others_set]
  | overwrite key v => rw [Call.apply, overwrite_eq, Call.key, others_replace]
  | remove key => rw [Call.apply, withdraw_eq, Call.key, others_remove]

theorem get?_others {key k : String} (h : k ≠ key) (m : Members α) :
    (m.others key).get? k = m.get? k := by
  induction m with
  | nil => rfl
  | cons member rest ih =>
      by_cases hkey : member.1 = key
      · have hk : member.1 ≠ k := fun heq => h (heq.symm.trans hkey)
        rw [others_cons_self hkey, ih, get?_cons, if_neg hk]
      · rw [others_cons hkey, get?_cons, get?_cons, ih]

/-! ## One call -/

theorem given_apply (m : Members α) (call : Call α) : (call.apply m).1 = m.get? call.key := by
  cases call with
  | set key v => rw [Call.apply, exchange_eq, Call.key]
  | overwrite key v => rw [Call.apply, overwrite_eq, Call.key]
  | remove key => rw [Call.apply, withdraw_eq, Call.key]

theorem get?_apply_self {m : Members α} (h : m.keys.Nodup) (call : Call α) :
    (call.apply m).2.get? call.key = call.leaves (m.get? call.key) := by
  cases call with
  | set key v => rw [Call.apply, exchange_eq, Call.key, get?_set, if_pos rfl, Call.leaves]
  | overwrite key v =>
      rw [Call.apply, overwrite_eq, Call.key, get?_replace, if_pos rfl, Call.leaves]
  | remove key => rw [Call.apply, withdraw_eq, Call.key, get?_remove_self h, Call.leaves]

theorem get?_apply {m : Members α} (h : m.keys.Nodup) (call : Call α) (key : String) :
    (call.apply m).2.get? key =
      if call.key = key then call.leaves (m.get? key) else m.get? key := by
  split
  · next hkey => rw [← hkey, get?_apply_self h]
  · next hkey =>
      have hne : key ≠ call.key := fun heq => hkey heq.symm
      rw [← get?_others hne, others_apply, get?_others hne]

/-- A call keeps the keys, adds its own behind them, or takes its own out. -/
theorem keys_apply (m : Members α) (call : Call α) :
    (call.apply m).2.keys = m.keys ∨
      (call.key ∉ m.keys ∧ (call.apply m).2.keys = m.keys ++ [call.key]) ∨
      (call.apply m).2.keys = m.keys.erase call.key := by
  cases call with
  | set key v =>
      rw [Call.apply, exchange_eq, Call.key, keys_set]
      split
      · exact .inl rfl
      · next hkey => exact .inr (.inl ⟨hkey, rfl⟩)
  | overwrite key v =>
      rw [Call.apply, overwrite_eq, keys_replace]
      exact .inl rfl
  | remove key =>
      rw [Call.apply, withdraw_eq, keys_remove]
      exact .inr (.inr rfl)

end Members

/-! ## The reference after one more call -/

section Reference

variable {α : Type}

theorem stored_concat (key : String) (history : List (Call α)) (call : Call α) :
    stored key (history ++ [call]) =
      if call.key = key then call.leaves (stored key history) else stored key history := by
  rw [stored, List.foldl_append]
  rfl

theorem lastAbsence_le (key : String) (history : List (Call α)) :
    lastAbsence key history ≤ history.length :=
  Nat.findGreatest_le history.length

theorem lastAbsence_of_absent {key : String} {history : List (Call α)}
    (h : stored key history = none) : lastAbsence key history = history.length := by
  refine le_antisymm (lastAbsence_le key history) (Nat.le_findGreatest (Nat.le_refl _) ?_)
  rw [List.take_length, h, Option.isNone_none]

theorem lastAbsence_lt {key : String} {history : List (Call α)}
    (h : (stored key history).isSome = true) : lastAbsence key history < history.length := by
  refine lt_of_le_of_ne (lastAbsence_le key history) fun heq => ?_
  have hempty : (stored key (history.take 0)).isNone = true := rfl
  have habsent := Nat.findGreatest_spec (P := fun count =>
    (stored key (history.take count)).isNone = true) (Nat.zero_le history.length) hempty
  rw [show Nat.findGreatest _ history.length = history.length from heq, List.take_length,
    Option.isNone_iff_eq_none] at habsent
  rw [habsent] at h
  cases h

/-- While something stays stored under a key, its coming stays where it is. -/
theorem lastAbsence_concat {key : String} {history : List (Call α)} {call : Call α}
    (h : (stored key (history ++ [call])).isSome = true) :
    lastAbsence key (history ++ [call]) = lastAbsence key history := by
  have hpresent : ¬(stored key ((history ++ [call]).take (history.length + 1))).isNone = true := by
    rw [List.take_of_length_le (by simp)]
    cases hs : stored key (history ++ [call]) with
    | none =>
        rw [hs] at h
        cases h
    | some v => exact Bool.false_ne_true
  obtain ⟨-, hlast, hlater⟩ := Nat.findGreatest_eq_iff.1 (rfl : lastAbsence key history = _)
  have htake : ∀ {count}, count ≤ history.length →
      (history ++ [call]).take count = history.take count :=
    fun hcount => List.take_append_of_le_length hcount
  rw [lastAbsence, List.length_append, List.length_singleton, Nat.findGreatest_of_not hpresent]
  refine Nat.findGreatest_eq_iff.2 ⟨lastAbsence_le key history, fun hne => ?_,
    fun count hlt hcount => ?_⟩
  · rw [htake (lastAbsence_le key history)]
    exact hlast hne
  · rw [htake hcount]
    exact hlater hlt hcount

end Reference

namespace Members

variable {α : Type}

/-! ## Any calls -/

theorem after_concat (m : Members α) (calls : List (Call α)) (call : Call α) :
    m.after (calls ++ [call]) = (call.apply (m.after calls)).2 := by
  rw [after, List.foldl_append]
  rfl

theorem after_append (m : Members α) (calls later : List (Call α)) :
    m.after (calls ++ later) = (m.after calls).after later :=
  List.foldl_append

theorem ofList_eq_after (pairs : List (String × α)) :
    ofList pairs = after [] (collecting pairs) := by
  induction pairs using List.reverseRecOn with
  | nil => rfl
  | append_singleton pairs pair ih =>
      have hcollecting : collecting (pairs ++ [pair]) =
          collecting pairs ++ [Call.set pair.1 pair.2] := List.map_append
      rw [ofList_concat, hcollecting, after_concat, ← ih, Call.apply, exchange_eq]

theorem nodup_apply {m : Members α} (h : m.keys.Nodup) (call : Call α) :
    (call.apply m).2.keys.Nodup := by
  rcases keys_apply m call with hkeys | ⟨hnew, hkeys⟩ | hkeys <;> rw [hkeys]
  · exact h
  · exact List.nodup_append_comm.1 (List.nodup_cons.2 ⟨hnew, h⟩)
  · exact h.erase call.key

theorem nodup_after (history : List (Call α)) : (after [] history).keys.Nodup := by
  induction history using List.reverseRecOn with
  | nil => exact List.nodup_nil
  | append_singleton history call ih =>
      rw [after_concat]
      exact nodup_apply ih call

theorem get?_after (history : List (Call α)) (key : String) :
    (after [] history).get? key = stored key history := by
  induction history using List.reverseRecOn with
  | nil => rfl
  | append_singleton history call ih =>
      rw [after_concat, get?_apply (nodup_after history), stored_concat, ih]

theorem mem_keys_after {history : List (Call α)} {key : String} :
    key ∈ (after [] history).keys ↔ (stored key history).isSome = true := by
  rw [← get?_after, isSome_get?_iff]

/-- A key that comes has come later than all that are there. -/
theorem inOrder_after (history : List (Call α)) :
    (after [] history).keys.Pairwise fun a b => lastAbsence a history < lastAbsence b history := by
  induction history using List.reverseRecOn with
  | nil => exact List.Pairwise.nil
  | append_singleton history call ih =>
      have hbefore : (after [] (history ++ [call])).keys.Pairwise fun a b =>
          lastAbsence a history < lastAbsence b history := by
        rw [after_concat]
        rcases keys_apply (after [] history) call with hkeys | ⟨hnew, hkeys⟩ | hkeys <;> rw [hkeys]
        · exact ih
        · refine List.pairwise_append.2 ⟨ih, List.pairwise_singleton _ _, fun a ha b hb => ?_⟩
          have habsent : stored call.key history = none := by
            rw [← get?_after, get?_eq_none_iff]
            exact hnew
          rw [List.mem_singleton.1 hb, lastAbsence_of_absent habsent]
          exact lastAbsence_lt (mem_keys_after.1 ha)
        · exact ih.sublist List.erase_sublist
      -- the call does not change when the keys that are there after it have come
      refine hbefore.imp_of_mem fun {a b} ha hb hab => ?_
      rwa [lastAbsence_concat (mem_keys_after.1 ha), lastAbsence_concat (mem_keys_after.1 hb)]

/-- What is stored under a key was stored by a call for it. -/
theorem mem_called {history : List (Call α)} {key : String}
    (h : (stored key history).isSome = true) : key ∈ history.map Call.key := by
  induction history using List.reverseRecOn with
  | nil => cases h
  | append_singleton history call ih =>
      rw [List.map_append, List.mem_append, List.map_singleton, List.mem_singleton]
      rw [stored_concat] at h
      split at h
      · next hkey => exact .inr hkey.symm
      · exact .inl (ih h)

theorem length_after (history : List (Call α)) :
    (after [] history).length =
      ((history.map Call.key).dedup.filter fun key => (stored key history).isSome).length := by
  have hperm : (after [] history).keys.Perm
      ((history.map Call.key).dedup.filter fun key => (stored key history).isSome) := by
    refine (List.perm_ext_iff_of_nodup (nodup_after history)
      ((List.nodup_dedup _).filter _)).2 fun key => ?_
    rw [mem_keys_after, List.mem_filter, List.mem_dedup]
    exact ⟨fun h => ⟨mem_called h, h⟩, fun h => h.2⟩
  rw [← hperm.length_eq, keys, List.length_map]

/-- However an object is built and changed, it is the ordered map that its calls describe. -/
theorem agrees_of_calls (pairs : List (String × α)) (calls : List (Call α)) :
    Agrees ((ofList pairs).after calls) (collecting pairs ++ calls) := by
  rw [ofList_eq_after, ← after_append]
  generalize collecting pairs ++ calls = history
  have hnodup := nodup_after history
  refine ⟨hnodup, inOrder_after history, get?_after history, fun key => ?_,
    fun key => mem_keys_after, length_after history, ?_, fun call => ?_, others_apply _⟩
  · rw [contains, get?_after]
  · have hmembers := eq_of_nodup hnodup
    simp only [get?_after] at hmembers
    exact hmembers
  · rw [given_apply, get?_after]

example : (after [] [.set "a" 1, .set "b" 2, .remove "a", .set "a" 3]).keys = ["b", "a"] := by
  decide

end Members

end LspClient.Json
