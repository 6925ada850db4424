import LspClient.Client.Basic

/-!
# One link among many

A client finds a session by its number among its links. What is done to links
comes in four shapes: a new link is appended, the link of one session is
replaced, every link is changed on its own, and the server of one link is
changed. For each of them this file says what becomes of the link that a
number is found at.

Only for the third shape does it matter that no two links have the same
session: if one of two such links lost its session, the number would be found
at the other.
-/

namespace LspClient

namespace Link

/-- The number of the session of a link. -/
def id? (l : Link) : Option SessionId :=
  l.session.map Session.id

/-- The session of a link with its server. -/
def peer? (l : Link) : Option Peer :=
  l.session.map fun s => { session := s, server := l.server }

theorem owns_iff {id : SessionId} {l : Link} : l.owns id = true ↔ l.id? = some id := by
  rw [owns, id?]
  cases l.session <;> simp

end Link

/-- The peer with a number among links. -/
def findPeer (id : SessionId) (links : List Link) : Option Peer :=
  (links.find? (Link.owns id)).bind Link.peer?

theorem findPeer_cons (id : SessionId) (l : Link) (links : List Link) :
    findPeer id (l :: links) = if l.id? = some id then l.peer? else findPeer id links := by
  rw [findPeer, List.find?_cons]
  by_cases h : l.id? = some id
  · rw [if_pos h, Link.owns_iff.2 h]
    rfl
  · have hf : l.owns id = false := Bool.eq_false_iff.2 (mt Link.owns_iff.1 h)
    rw [if_neg h, hf]
    rfl

theorem findPeer_eq_none {id : SessionId} {links : List Link}
    (h : ∀ l ∈ links, l.id? ≠ some id) : findPeer id links = none := by
  induction links with
  | nil => rfl
  | cons l links ih =>
      rw [findPeer_cons, if_neg (h l (by simp))]
      exact ih fun l' hl' => h l' (by simp [hl'])

theorem id_of_findPeer {id : SessionId} {links : List Link} {p : Peer}
    (h : findPeer id links = some p) : p.session.id = id := by
  induction links with
  | nil => simp [findPeer] at h
  | cons l links ih =>
      rw [findPeer_cons] at h
      split at h
      · next hid =>
          simp only [Link.peer?, Option.map_eq_some_iff] at h
          obtain ⟨s, hs, rfl⟩ := h
          simpa [Link.id?, hs] using hid
      · exact ih h

theorem findPeer_append_of_ne {id : SessionId} {links : List Link} {new : Link}
    (h : new.id? ≠ some id) : findPeer id (links ++ [new]) = findPeer id links := by
  induction links with
  | nil => rw [List.nil_append, findPeer_cons, if_neg h]
  | cons l links ih => rw [List.cons_append, findPeer_cons, findPeer_cons, ih]

theorem findPeer_append_self {id : SessionId} {links : List Link} {new : Link}
    (hfresh : ∀ l ∈ links, l.id? ≠ some id) (h : new.id? = some id) :
    findPeer id (links ++ [new]) = new.peer? := by
  induction links with
  | nil => rw [List.nil_append, findPeer_cons, if_pos h]
  | cons l links ih =>
      rw [List.cons_append, findPeer_cons, if_neg (hfresh l (by simp))]
      exact ih fun l' hl' => hfresh l' (by simp [hl'])

/-- Putting a link in the place of a session's link concerns no other
session. -/
theorem findPeer_put_of_ne {id target : SessionId} {links : List Link} {new : Link}
    (hne : id ≠ target) (hnew : new.id? ≠ some id) :
    findPeer id (links.map fun old => if old.owns target then new else old) =
      findPeer id links := by
  induction links with
  | nil => rfl
  | cons l links ih =>
      rw [List.map_cons, findPeer_cons, findPeer_cons, ih]
      by_cases howns : l.owns target = true
      · have hid := Link.owns_iff.1 howns
        rw [if_pos howns, if_neg hnew, if_neg (by rw [hid]; simpa using Ne.symm hne)]
      · rw [if_neg howns]

theorem findPeer_put_self {id : SessionId} {links : List Link} {p : Peer}
    (h : findPeer id links = some p) (new : Link) :
    findPeer id (links.map fun old => if old.owns id then new else old) =
      if new.id? = some id then new.peer? else none := by
  induction links with
  | nil => simp [findPeer] at h
  | cons l links ih =>
      rw [findPeer_cons] at h
      rw [List.map_cons, findPeer_cons]
      by_cases hid : l.id? = some id
      · rw [if_pos (Link.owns_iff.2 hid)]
        split
        · rfl
        · next hnew =>
            refine findPeer_eq_none fun l' hl' => ?_
            obtain ⟨old, -, rfl⟩ := List.mem_map.1 hl'
            split
            · exact hnew
            · next howns => exact fun h' => howns (Link.owns_iff.2 h')
      · rw [if_neg hid] at h
        rw [if_neg (fun howns => hid (Link.owns_iff.1 howns)), if_neg hid]
        exact ih h

/-- If links have different sessions, what happens to every link on its own
happens to the link of one session. -/
theorem findPeer_map {f : Link → Link} (hf : ∀ l, (f l).id? = l.id? ∨ (f l).id? = none)
    {id : SessionId} {links : List Link} (hids : (links.filterMap Link.id?).Nodup)
    {q : Peer} (h : findPeer id (links.map f) = some q) :
    ∃ l, l ∈ links ∧ findPeer id links = l.peer? ∧ (f l).peer? = some q := by
  induction links with
  | nil => simp [findPeer] at h
  | cons l links ih =>
      rw [List.map_cons, findPeer_cons] at h
      rw [findPeer_cons]
      by_cases hid : l.id? = some id
      · refine ⟨l, by simp, by rw [if_pos hid], ?_⟩
        rw [List.filterMap_cons_some hid, List.nodup_cons] at hids
        have hrest : findPeer id (links.map f) = none := by
          refine findPeer_eq_none fun l' hl' hl'id => ?_
          obtain ⟨old, hold, rfl⟩ := List.mem_map.1 hl'
          refine hids.1 (List.mem_filterMap.2 ⟨old, hold, ?_⟩)
          rcases hf old with hkept | hgone
          · rw [← hkept, hl'id]
          · rw [hgone] at hl'id
            cases hl'id
        split at h
        · exact h
        · rw [hrest] at h
          cases h
      · have hfid : (f l).id? ≠ some id := by
          rcases hf l with hkept | hgone
          · rw [hkept]; exact hid
          · rw [hgone]; simp
        rw [if_neg hfid] at h
        have hrest : (links.filterMap Link.id?).Nodup :=
          hids.sublist ((List.sublist_cons_self l links).filterMap Link.id?)
        obtain ⟨l', hl', hfind, hq⟩ := ih hrest h
        exact ⟨l', by simp [hl'], by rw [if_neg hid, hfind], hq⟩

/-- What happens to a server happens to no session. -/
theorem findPeer_modify {g : Link → Link} (hg : ∀ l, (g l).session = l.session)
    {id : SessionId} {links : List Link} {index : Nat} {q : Peer}
    (h : findPeer id (links.modify index g) = some q) :
    ∃ p, findPeer id links = some p ∧ p.session = q.session := by
  have hid : ∀ l, (g l).id? = l.id? := fun l => by rw [Link.id?, hg, Link.id?]
  induction links generalizing index with
  | nil => simp [findPeer] at h
  | cons l links ih =>
      cases index with
      | zero =>
          rw [List.modify_zero_cons, findPeer_cons, hid] at h
          rw [findPeer_cons]
          by_cases hl : l.id? = some id
          · rw [if_pos hl] at h ⊢
            simp only [Link.peer?, hg, Option.map_eq_some_iff] at h ⊢
            obtain ⟨s, hs, rfl⟩ := h
            exact ⟨_, ⟨s, hs, rfl⟩, rfl⟩
          · rw [if_neg hl] at h ⊢
            exact ⟨q, h, rfl⟩
      | succ index =>
          rw [List.modify_succ_cons, findPeer_cons] at h
          rw [findPeer_cons]
          by_cases hl : l.id? = some id
          · rw [if_pos hl] at h ⊢
            exact ⟨q, h, rfl⟩
          · rw [if_neg hl] at h ⊢
            exact ih h

end LspClient
