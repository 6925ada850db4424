/-!
# Members of an object

An object is an insertion-ordered map from texts to values. It is held as the
list of its members, and every operation below keeps the keys distinct, so the
list *is* the map: a key keeps the place of its first insertion, storing under
a key that is present replaces the value in that place, and removing a member
closes the gap.

The operations do not look at the values, so the values are a parameter. That
is also what lets the type of JSON values contain members of itself.
-/

namespace LspClient.Json

/-- The members of an object in insertion order. -/
abbrev Members (α : Type) : Type := List (String × α)

namespace Members

variable {α : Type}

/-- The keys in insertion order. -/
def keys (m : Members α) : List String :=
  m.map Prod.fst

/-- The value stored under a key. -/
def get? (m : Members α) (key : String) : Option α :=
  (m.find? fun member => member.1 == key).map Prod.snd

def contains (m : Members α) (key : String) : Bool :=
  (m.get? key).isSome

/-- Stores a value under a key, in place if the key is there, at the end if it
is not. -/
def set : Members α → String → α → Members α
  | [], key, v => [(key, v)]
  | member :: rest, key, v =>
    if member.1 == key then (member.1, v) :: rest else member :: set rest key v

/-- Overwrites the value under a key that is there. -/
def replace : Members α → String → α → Members α
  | [], _, _ => []
  | member :: rest, key, v =>
    if member.1 == key then (member.1, v) :: rest else member :: replace rest key v

/-- Removes the member with a key. The others keep their order. -/
def remove (m : Members α) (key : String) : Members α :=
  m.eraseP fun member => member.1 == key

/-- The members that remain when pairs are stored one after another. -/
def ofList (pairs : List (String × α)) : Members α :=
  pairs.foldl (fun m pair => m.set pair.1 pair.2) []

/-! ## What is displaced

Whoever stores, overwrites or removes a value is handed the one that was there. -/

/-- Puts a value in the place of the one under a key, or at the end if there is none. -/
def exchange (m : Members α) (key : String) (v : α) : Option α × Members α :=
  match m.get? key with
  | some old => (some old, m.replace key v)
  | none => (none, m ++ [(key, v)])

/-- Puts a value in the place of the one under a key, if there is one. -/
def overwrite (m : Members α) (key : String) (v : α) : Option α × Members α :=
  match m.get? key with
  | some old => (some old, m.replace key v)
  | none => (none, m)

/-- Takes out the member with a key. -/
def withdraw (m : Members α) (key : String) : Option α × Members α :=
  match m.findIdx? fun member => member.1 == key with
  | some index => (m[index]?.map Prod.snd, m.eraseIdx index)
  | none => (none, m)

/-! ## What each operation does to the keys -/

theorem keys_set (m : Members α) (key : String) (v : α) :
    (m.set key v).keys = if key ∈ m.keys then m.keys else m.keys ++ [key] := by
  induction m with
  | nil => simp [set, keys]
  | cons member rest ih =>
    by_cases h : member.1 = key
    · simp [set, keys, h]
    · have h' : key ≠ member.1 := fun e => h e.symm
      simp only [keys] at ih
      simp only [set, keys, List.map_cons, List.mem_cons, h, h', beq_iff_eq, if_false, ih,
        false_or]
      split <;> simp [*]

theorem keys_replace (m : Members α) (key : String) (v : α) :
    (m.replace key v).keys = m.keys := by
  induction m with
  | nil => rfl
  | cons member rest ih =>
    rw [replace]
    split
    · rfl
    · exact congrArg (member.1 :: ·) ih

theorem keys_remove (m : Members α) (key : String) :
    (m.remove key).keys = m.keys.erase key := by
  rw [remove, keys, keys, List.erase_eq_eraseP', List.eraseP_map]
  rfl

theorem nodup_keys_set {m : Members α} (h : m.keys.Nodup) (key : String) (v : α) :
    (m.set key v).keys.Nodup := by
  rw [keys_set]
  split
  · exact h
  · next hmem => exact List.nodup_append.2 ⟨h, by simp, by
      intro a ha b hb
      simp only [List.mem_singleton] at hb
      subst hb
      exact fun e => hmem (e ▸ ha)⟩

end Members

end LspClient.Json
