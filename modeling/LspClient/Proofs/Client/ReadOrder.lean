import LspClient.Proofs.Client.Alone

/-!
# The order of reading

The client reads its sessions one after another. Since a read concerns one link,
and what it records is recorded under the number of that link's session, the
order makes no difference, except to the order of records of different sessions.
-/

namespace LspClient

/-- If no two of some lists have anything in them, they can be concatenated in any
order. -/
theorem flatten_map_perm {α β : Type} {f : α → List β} {xs ys : List α} (h : xs.Perm ys)
    (hsingle : ∀ a ∈ xs, ∀ b ∈ xs, a ≠ b → f a = [] ∨ f b = []) :
    (xs.map f).flatten = (ys.map f).flatten := by
  induction h with
  | nil => rfl
  | cons x h ih =>
      rw [List.map_cons, List.flatten_cons, List.map_cons, List.flatten_cons,
        ih fun a ha b hb => hsingle a (List.mem_cons_of_mem _ ha) b (List.mem_cons_of_mem _ hb)]
  | swap x y rest =>
      rw [List.map_cons, List.map_cons, List.map_cons, List.map_cons, List.flatten_cons,
        List.flatten_cons, List.flatten_cons, List.flatten_cons]
      by_cases hxy : x = y
      · rw [hxy]
      · rcases hsingle x (by simp) y (by simp) hxy with hx | hy
        · rw [hx, List.nil_append, List.nil_append]
        · rw [hy, List.nil_append, List.nil_append]
  | trans h₁ _ ih₁ ih₂ =>
      refine (ih₁ hsingle).trans (ih₂ fun a ha b hb => ?_)
      exact hsingle a (h₁.mem_iff.2 ha) b (h₁.mem_iff.2 hb)

namespace Client

/-- One read of the link with an index. -/
def readAt (c : Client) (index : Nat) : Client :=
  match c.links[index]? with
  | none => c
  | some l =>
    let pumped := pumpLink c.settings.debug l
    { c with links := c.links.set index pumped.link, records := c.records ++ pumped.records }

/-- What one read of the link with an index records. -/
def recordsAt (c : Client) (index : Nat) : List Record :=
  match c.links[index]? with
  | none => []
  | some l => (pumpLink c.settings.debug l).records

theorem readAt_eq {c : Client} {index : Nat} {l : Link} (hl : c.links[index]? = some l) :
    c.readAt index =
      { c with links := c.links.set index (pumpLink c.settings.debug l).link,
               records := c.records ++ c.recordsAt index } := by
  rw [readAt, recordsAt, hl]

/-- Reads of different links leave each other alone. -/
theorem readAt_foldl {order : List Nat} : ∀ {c : Client}, order.Nodup →
    (∀ index ∈ order, index < c.links.length) →
      (∀ index : Nat, (order.foldl readAt c).links[index]? = c.links[index]?.map fun l =>
        if index ∈ order then (pumpLink c.settings.debug l).link else l) ∧
      (order.foldl readAt c).records = c.records ++ (order.map c.recordsAt).flatten := by
  induction order with
  | nil =>
      intro c _ _
      refine ⟨fun index => ?_, (List.append_nil _).symm⟩
      simp only [List.foldl_nil, List.not_mem_nil, if_false, Option.map_id']
  | cons first rest ih =>
      intro c hnodup hlt
      obtain ⟨hfirst, hrest⟩ := List.nodup_cons.1 hnodup
      have hbound := hlt first List.mem_cons_self
      have hl := List.getElem?_eq_getElem hbound
      have hread := readAt_eq hl
      have hother : ∀ index, index ≠ first → (c.readAt first).links[index]? = c.links[index]? := by
        intro index hne
        rw [hread]
        exact List.getElem?_set_ne (Ne.symm hne)
      obtain ⟨hlinks, hrecords⟩ := ih (c := c.readAt first) hrest fun index hindex => by
        rw [hread, List.length_set]
        exact hlt index (List.mem_cons_of_mem _ hindex)
      have hdebug : (c.readAt first).settings = c.settings := by rw [hread]
      rw [List.foldl_cons]
      constructor
      · intro index
        rw [hlinks index, hdebug]
        by_cases heq : index = first
        · rw [heq, hl, hread, List.getElem?_set_self hbound, Option.map_some, Option.map_some,
            if_neg hfirst, if_pos List.mem_cons_self]
        · have hmem : index ∈ first :: rest ↔ index ∈ rest :=
            List.mem_cons.trans (or_iff_right heq)
          rw [hother index heq]
          simp only [hmem]
      · have hsame : rest.map (c.readAt first).recordsAt = rest.map c.recordsAt := by
          refine List.map_congr_left fun index hindex => ?_
          have hne : index ≠ first := fun heq => hfirst (heq ▸ hindex)
          rw [recordsAt, hother index hne, hdebug, recordsAt]
        rw [hrecords, hsame, List.map_cons, List.flatten_cons, ← List.append_assoc, hread]

theorem map_recordsAt (c : Client) :
    (List.range c.links.length).map c.recordsAt =
      c.links.map fun l => (pumpLink c.settings.debug l).records := by
  refine List.ext_getElem (by simp) fun index hindex _ => ?_
  have hlt : index < c.links.length := by simpa using hindex
  rw [List.getElem_map, List.getElem_map, List.getElem_range, recordsAt,
    List.getElem?_eq_getElem hlt]

/-- In whatever order the links are read, each once, the same becomes of them,
and the records of every session are the same. -/
def ReadsCommute (c : Client) : Prop :=
  ∀ order : List Nat, order.Perm (List.range c.links.length) →
    (order.foldl readAt c).links = c.process.2.links ∧
      ∀ id : SessionId, (order.foldl readAt c).records.filter (fun r => r.session == id) =
        c.process.2.records.filter (fun r => r.session == id)

theorem Ordered.readsCommute {c : Client} (hc : c.Ordered) : c.ReadsCommute := by
  intro order h
  have hmem : ∀ index, index ∈ order ↔ index < c.links.length := fun index => by
    rw [h.mem_iff, List.mem_range]
  have hnodup : order.Nodup := h.nodup_iff.2 List.nodup_range
  obtain ⟨hlinks, hrecords⟩ := readAt_foldl hnodup fun index hindex => (hmem index).1 hindex
  constructor
  · refine List.ext_getElem? fun index => ?_
    rw [hlinks index, process_links, List.getElem?_map]
    cases hl : c.links[index]? with
    | none => rfl
    | some l =>
        have hlt : index < c.links.length := (List.getElem?_eq_some_iff.1 hl).1
        rw [Option.map_some, Option.map_some, if_pos ((hmem index).2 hlt)]
  · intro id
    have hsession : ∀ index, (c.recordsAt index).filter (fun r => r.session == id) ≠ [] →
        ∃ l, c.links[index]? = some l ∧ l.id? = some id := by
      intro index hne
      obtain ⟨r, hr⟩ := List.exists_mem_of_ne_nil _ hne
      obtain ⟨hmem, hid⟩ := List.mem_filter.1 hr
      rw [recordsAt] at hmem
      split at hmem
      · cases hmem
      · next l hl =>
          rw [pumpLink_records] at hmem
          exact ⟨l, hl, beq_iff_eq.1 hid ▸ Link.session_of_newRecords hmem⟩
    rw [hrecords, process_records, ← map_recordsAt, List.filter_append, List.filter_append, List.filter_flatten,
      List.filter_flatten, List.map_map, List.map_map]
    congr 1
    refine flatten_map_perm h fun i _ j _ hne => ?_
    by_cases hi : (c.recordsAt i).filter (fun r => r.session == id) = []
    · exact .inl hi
    · by_cases hj : (c.recordsAt j).filter (fun r => r.session == id) = []
      · exact .inr hj
      · obtain ⟨l, hl, hid⟩ := hsession i hi
        obtain ⟨l', hl', hid'⟩ := hsession j hj
        exact absurd (hc.index_eq hl hl' hid hid') hne

end Client

end LspClient
