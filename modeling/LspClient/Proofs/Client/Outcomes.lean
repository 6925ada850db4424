import LspClient.Client.Operation
import LspClient.Proofs.Client.Links
import LspClient.Proofs.Session.Moves

/-!
# What operations come to

The operations that a caller directs at one session can come to a handful of
things each. They are listed here once, so that nothing later has to open the
definitions again.

The second half is about the numbers of sessions. They are handed out in
increasing order and never twice, not even after a handshake that could not be
written, and no operation gives a session another number.
-/

namespace LspClient

open Json (Value)

namespace Session

theorem Moves.id_eq {s t : Session} {events : List Event} (h : Moves s events t) :
    t.id = s.id := by
  cases h with
  | greeted r entry hanswers hmethod =>
      obtain ⟨info, status, heq⟩ := (s.retire entry.id).greeted_eq r
      rw [heq]
      rfl
  | _ => rfl

theorem Path.id_eq {s t : Session} {events : List Event} (h : Path s events t) :
    t.id = s.id := by
  induction h with
  | nil s => rfl
  | cons first rest ih => rw [ih, first.id_eq]

end Session

namespace Peer

theorem request_id {keep : Bool} {p q : Peer} {method : String} {params : Value}
    {r : Except TransportError RequestId} (h : p.request keep method params = (r, q)) :
    q.session.id = p.session.id := by
  cases r with
  | error e => rw [request_error h]; rfl
  | ok id =>
      obtain ⟨-, payload, hq⟩ := request_ok h
      rw [hq]
      rfl

end Peer

namespace Client

/-! ## Each operation -/

theorem peer?_eq (c : Client) (id : SessionId) : c.peer? id = findPeer id c.links := rfl

theorem connect_cases (c : Client) (command : String) (connection : Connection) :
    (∃ e, c.connect command connection = (.error e, c)) ∨
    (∃ e server records, c.connect command connection =
      (.error (.transport e), { c with lastSession := c.lastSession + 1,
                                       links := c.links ++ [⟨server, none⟩],
                                       records := records })) ∨
    ∃ q : Peer, Peer.Opened (c.lastSession + 1) q.session ∧
      c.connect command connection =
        (.ok (c.lastSession + 1), { c with lastSession := c.lastSession + 1,
                                           links := c.links ++ [⟨q.server, some q.session⟩],
                                           records := c.records ++ q.records }) := by
  rw [connect]
  split
  · exact .inl ⟨_, rfl⟩
  · next server hstart =>
      right
      dsimp only
      split
      · next q hopen =>
          exact .inr ⟨q, Peer.openSession_ok rfl hopen, rfl⟩
      · next e q hopen => exact .inl ⟨e, _, _, rfl⟩

theorem close_cases (c : Client) (id : SessionId) :
    (c.peer? id = none ∧ c.close id = (.error (.unknownSession id), c)) ∨
    ∃ p, c.peer? id = some p ∧
      (p.session.closing = true ∧ c.close id = (.ok (), c) ∨
       (∃ q, p.session.closing = false ∧
          p.endSession c.settings.debug = (.ok (), q) ∧
          c.close id = (.ok (), c.putPeer id q)) ∨
       ∃ e q, c.close id = (.error (.transport e), c.dropPeer id q)) := by
  rw [close]
  cases hp : c.peer? id with
  | none => exact .inl ⟨rfl, rfl⟩
  | some p =>
      refine .inr ⟨p, rfl, ?_⟩
      dsimp only
      cases hclosing : p.session.closing with
      | true => exact .inl ⟨rfl, rfl⟩
      | false =>
          right
          rw [if_neg (by simp)]
          split
          · next q hend => exact .inl ⟨q, rfl, hend, rfl⟩
          · next e q hend => exact .inr ⟨e, q, rfl⟩

/-- A session that a caller may send on is registered, connected and not about
to end. -/
theorem connectedPeer_ok {c : Client} {id : SessionId} {p : Peer}
    (h : c.connectedPeer id = .ok p) :
    c.peer? id = some p ∧ p.session.status = .connected ∧ p.session.closing = false := by
  rw [connectedPeer] at h
  split at h
  · cases h
  · next p' hp =>
      split at h
      · cases h
      · next hclosing =>
          split at h
          · cases h
          · next hstatus =>
              simp only [Except.ok.injEq] at h
              subst h
              exact ⟨hp, Decidable.not_not.1 hstatus, by simpa using hclosing⟩

/-- A session that a caller may not send on is refused for what it is, not for
its transport. -/
theorem connectedPeer_error {c : Client} {id : SessionId} {e : ClientError}
    (h : c.connectedPeer id = .error e) : ∀ t, e ≠ .transport t := by
  intro t ht
  subst ht
  rw [connectedPeer] at h
  split at h
  · cases h
  · split at h
    · cases h
    · split at h <;> cases h

theorem request_cases (c : Client) (id : SessionId) (method : String) (params : Value) :
    (∃ e, (∀ t, e ≠ .transport t) ∧ c.request id method params = (.error e, c)) ∨
    ∃ p q, c.peer? id = some p ∧ p.session.status = .connected ∧
      p.session.closing = false ∧
      ((∃ number, p.request c.settings.debug method params = (.ok number, q) ∧
          c.request id method params = (.ok number, c.putPeer id q)) ∨
       ∃ e, p.request c.settings.debug method params = (.error e, q) ∧
          c.request id method params = (.error (.transport e), c.putPeer id q)) := by
  rw [request]
  cases hp : c.connectedPeer id with
  | error e => exact .inl ⟨e, connectedPeer_error hp, rfl⟩
  | ok p =>
      obtain ⟨hpeer, hconnected, hopen⟩ := connectedPeer_ok hp
      right
      dsimp only
      split
      · next number q hreq =>
          exact ⟨p, q, hpeer, hconnected, hopen, .inl ⟨number, hreq, rfl⟩⟩
      · next e q hreq => exact ⟨p, q, hpeer, hconnected, hopen, .inr ⟨e, hreq, rfl⟩⟩

theorem notify_cases (c : Client) (id : SessionId) (method : String) (params : Value) :
    (∃ e, c.notify id method params = (.error e, c)) ∨
    ∃ p q r, c.peer? id = some p ∧ q.session = p.session ∧
      c.notify id method params = (r, c.putPeer id q) := by
  rw [notify]
  cases hp : c.connectedPeer id with
  | error e => exact .inl ⟨e, rfl⟩
  | ok p =>
      obtain ⟨hpeer, -, -⟩ := connectedPeer_ok hp
      have hsession := Peer.notify_session c.settings.debug p method params
      right
      dsimp only
      split
      · next q hnotify => rw [hnotify] at hsession; exact ⟨p, q, _, hpeer, hsession, rfl⟩
      · next e q hnotify => rw [hnotify] at hsession; exact ⟨p, q, _, hpeer, hsession, rfl⟩

theorem pumpLink_id? (keep : Bool) (l : Link) :
    (pumpLink keep l).link.id? = l.id? ∨ (pumpLink keep l).link.id? = none := by
  rw [pumpLink]
  cases hs : l.session with
  | none => exact .inl rfl
  | some s =>
      cases hfinished : (Peer.pump keep { session := s, server := l.server }).finished with
      | true => exact .inr (by simp [Link.id?, hfinished])
      | false =>
          have hid := (Peer.pump_path hfinished).id_eq
          exact .inl (by simp [Link.id?, hs, hfinished, hid])

theorem process_links (c : Client) :
    c.process.2.links = c.links.map fun l => (pumpLink c.settings.debug l).link := by
  simp [process, Function.comp_def]

/-! ## Numbers of sessions -/

/-- The numbers of the registered sessions. -/
def ids (c : Client) : List SessionId :=
  c.links.filterMap Link.id?

/-- Registered sessions have increasing numbers, all of them handed out. -/
structure Ordered (c : Client) : Prop where
  increasing : c.ids.Pairwise (· < ·)
  bounded : ∀ id ∈ c.ids, id ≤ c.lastSession

theorem Ordered.nodup {c : Client} (h : c.Ordered) : c.ids.Nodup :=
  h.increasing.imp fun hlt => Nat.ne_of_lt hlt

theorem Ordered.id?_ne {c : Client} (h : c.Ordered) {id : SessionId}
    (hid : c.lastSession < id) : ∀ l ∈ c.links, l.id? ≠ some id := by
  intro l hl hlid
  have hle := h.bounded id (List.mem_filterMap.2 ⟨l, hl, hlid⟩)
  exact Nat.not_le_of_lt hid hle

theorem Ordered.of_sublist {c d : Client} (h : c.Ordered) (hids : d.ids.Sublist c.ids)
    (hlast : d.lastSession = c.lastSession) : d.Ordered where
  increasing := h.increasing.sublist hids
  bounded := fun id hid => hlast ▸ h.bounded id (hids.subset hid)

theorem ids_map_sublist {f : Link → Link}
    (hf : ∀ l, (f l).id? = l.id? ∨ (f l).id? = none) (links : List Link) :
    ((links.map f).filterMap Link.id?).Sublist (links.filterMap Link.id?) := by
  induction links with
  | nil => exact .slnil
  | cons l links ih =>
      rw [List.map_cons, List.filterMap_cons, List.filterMap_cons]
      rcases hf l with hkept | hgone
      · rw [hkept]
        cases l.id? with
        | none => exact ih
        | some id => exact ih.cons_cons id
      · rw [hgone]
        cases l.id? with
        | none => exact ih
        | some id => exact ih.cons id

theorem ids_modify {g : Link → Link} (hg : ∀ l, (g l).id? = l.id?) (links : List Link)
    (index : Nat) :
    (links.modify index g).filterMap Link.id? = links.filterMap Link.id? := by
  induction links generalizing index with
  | nil => rw [List.modify_nil]
  | cons l links ih =>
      cases index with
      | zero => rw [List.modify_zero_cons, List.filterMap_cons, hg, List.filterMap_cons]
      | succ index =>
          rw [List.modify_succ_cons, List.filterMap_cons, ih, List.filterMap_cons]

theorem ids_putLink_sublist {c : Client} {target : SessionId} {new : Link}
    (hnew : new.id? = some target ∨ new.id? = none) :
    (c.putLink target new).ids.Sublist c.ids := by
  refine ids_map_sublist (fun l => ?_) c.links
  split
  · next howns => rw [Link.owns_iff.1 howns]; exact hnew
  · exact .inl rfl

theorem Ordered.putPeer {c : Client} (h : c.Ordered) {target : SessionId} {q : Peer}
    (hq : q.session.id = target) : (c.putPeer target q).Ordered :=
  h.of_sublist (ids_putLink_sublist (.inl (by simp [Link.id?, hq]))) rfl

theorem Ordered.dropPeer {c : Client} (h : c.Ordered) (target : SessionId) (q : Peer) :
    (c.dropPeer target q).Ordered :=
  h.of_sublist (ids_putLink_sublist (.inr (by simp [Link.id?]))) rfl

theorem ids_append (links : List Link) (new : Link) :
    (links ++ [new]).filterMap Link.id? = links.filterMap Link.id? ++ new.id?.toList := by
  rw [List.filterMap_append]
  cases h : new.id? <;> simp [h]

theorem Ordered.connect {c : Client} (h : c.Ordered) (command : String)
    (connection : Connection) : (c.connect command connection).2.Ordered := by
  rcases connect_cases c command connection with
    ⟨e, heq⟩ | ⟨e, server, records, heq⟩ | ⟨q, hq, heq⟩
  · rw [heq]
    exact h
  · rw [heq]
    have hids : ids { c with lastSession := c.lastSession + 1,
                             links := c.links ++ [⟨server, none⟩],
                             records := records } = c.ids := by
      rw [ids, ids_append, ids]
      exact List.append_nil _
    refine ⟨?_, fun id hmem => ?_⟩
    · rw [hids]
      exact h.increasing
    · rw [hids] at hmem
      exact Nat.le_succ_of_le (h.bounded id hmem)
  · rw [heq]
    have hid : q.session.id = c.lastSession + 1 := by
      obtain ⟨command, payload, hs⟩ := hq
      rw [hs]
      rfl
    have hids : ids { c with lastSession := c.lastSession + 1,
                             links := c.links ++ [⟨q.server, some q.session⟩],
                             records := c.records ++ q.records } =
        c.ids ++ [c.lastSession + 1] := by
      rw [ids, ids_append, ids]
      simp [Link.id?, hid]
    refine ⟨?_, fun id hmem => ?_⟩
    · rw [hids, List.pairwise_append]
      refine ⟨h.increasing, List.pairwise_singleton _ _, fun a ha b hb => ?_⟩
      rw [List.mem_singleton.1 hb]
      exact Nat.lt_succ_of_le (h.bounded a ha)
    · rw [hids, List.mem_append, List.mem_singleton] at hmem
      rcases hmem with hmem | rfl
      · exact Nat.le_succ_of_le (h.bounded id hmem)
      · exact Nat.le_refl _

/-- No operation mixes up the numbers of sessions. -/
theorem Ordered.step {c : Client} (h : c.Ordered) (operation : Operation) :
    (c.step operation).2.Ordered := by
  cases operation with
  | connect command connection =>
      rw [Client.step]
      have := h.connect command connection
      split <;> next heq => rwa [heq] at this
  | close target =>
      show (c.close target).2.Ordered
      rcases close_cases c target with
        ⟨-, heq⟩ | ⟨p, hp, ⟨-, heq⟩ | ⟨q, hopen, hend, heq⟩ | ⟨e, q, heq⟩⟩
      · rw [heq]; exact h
      · rw [heq]; exact h
      · rw [heq]
        exact h.putPeer ((Peer.endSession_ok hopen hend).id_eq.trans (id_of_findPeer hp))
      · rw [heq]; exact h.dropPeer target q
  | request target method params =>
      rw [Client.step]
      rcases request_cases c target method params with
        ⟨e, -, heq⟩ | ⟨p, q, hp, -, -, ⟨number, hreq, heq⟩ | ⟨e, hreq, heq⟩⟩
      · rw [heq]; exact h
      · rw [heq]; exact h.putPeer ((Peer.request_id hreq).trans (id_of_findPeer hp))
      · rw [heq]; exact h.putPeer ((Peer.request_id hreq).trans (id_of_findPeer hp))
  | notify target method params =>
      show (c.notify target method params).2.Ordered
      rcases notify_cases c target method params with ⟨e, heq⟩ | ⟨p, q, r, hp, hq, heq⟩
      · rw [heq]; exact h
      · rw [heq]; exact h.putPeer (by rw [hq]; exact id_of_findPeer hp)
  | process =>
      show c.process.2.Ordered
      refine h.of_sublist ?_ rfl
      rw [ids, process_links]
      exact ids_map_sublist (pumpLink_id? c.settings.debug) c.links
  | takeCompletions target =>
      show (c.takeCompletions target).2.Ordered
      rw [Client.takeCompletions]
      cases hp : c.peer? target with
      | none => exact h
      | some p =>
          have hid : p.session.id = target := id_of_findPeer hp
          exact h.putPeer hid
  | takeNotices target =>
      show (c.takeNotices target).2.Ordered
      rw [Client.takeNotices]
      cases hp : c.peer? target with
      | none => exact h
      | some p =>
          have hid : p.session.id = target := id_of_findPeer hp
          exact h.putPeer hid
  | shutdown =>
      refine h.of_sublist (ids_map_sublist (fun l => ?_) c.links) rfl
      rw [Link.retire]
      cases hs : l.session with
      | none => exact .inl rfl
      | some s => exact .inr rfl
  | server index event =>
      have hids : (c.step (.server index event)).2.ids = c.ids :=
        ids_modify (g := fun l => { l with server := event.apply l.server })
          (fun l => rfl) c.links index
      exact h.of_sublist (hids ▸ List.Sublist.refl _) rfl
  | adjust change => exact ⟨h.increasing, h.bounded⟩
  | lose command => exact ⟨h.increasing, h.bounded⟩
  | failNewServers failure => exact ⟨h.increasing, h.bounded⟩

end Client

end LspClient
