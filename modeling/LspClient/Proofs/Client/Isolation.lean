import LspClient.Proofs.Client.History
import LspClient.Proofs.Client.ReadOrder

/-!
# Sessions are isolated

What happens to a session in a client with many is what would happen to it in a
client that has no other. The run of that client is what remains of the whole run
if everything is left out that names another session or another server, and the
settings are taken as they were when the session was opened.

`Client.Mirrors` is the relation between the two clients. It says that the one
link of the first is the session's link in the second, under other numbers, and
that nothing else in the second has to do with the session. One operation keeps
it, whether it remains for the session alone or not, and while it holds the
operations that name the session get the same answers from both.
-/

namespace LspClient

open Json (Value)

/-! ## Two clients -/

namespace Client

theorem settings_step {c : Client} (hc : c.Ordered) (operation : Operation) :
    (c.step operation).2.settings =
      match operation with
      | .adjust change => change.apply c.settings
      | _ => c.settings := by
  cases hscope : operation.scope with
  | session id =>
      have hsettings : (c.step operation).2.settings = c.settings := by
        cases hp : c.peer? id with
        | none => rw [step_of_unknown hscope hp]
        | some p =>
            rw [step_of_target hc hscope hp]
            rfl
      rw [hsettings]
      cases operation <;> first | rfl | cases hscope
  | sessions => cases operation <;> first | rfl | cases hscope
  | server target event => cases operation <;> first | rfl | cases hscope
  | nothing =>
      cases operation with
      | connect command connection =>
          rw [step_connect]
          cases c.launcher.start c.links.length command connection.args <;> rfl
      | adjust change => rfl
      | lose command => rfl
      | failNewServers failure => rfl
      | _ => cases hscope

theorem debug_step {c : Client} (hc : c.Ordered) (operation : Operation) :
    (c.step operation).2.settings.debug = operation.debug?.getD c.settings.debug := by
  rw [settings_step hc]
  cases operation with
  | adjust change => cases change <;> rfl
  | _ => rfl

theorem opening_under (c : Client) (command : String) (connection : Connection)
    (server : Server) :
    (c.opening command connection server).under (c.lastSession + 1) server.processId =
      c.opening command connection server := by
  let p : Peer := { session := { id := c.lastSession + 1, command }, server }
  have hself : p.under (c.lastSession + 1) server.processId = p := Peer.under_self (p := p) rfl
  rw [opening, ← Peer.opening_under, hself]

/-- Opening a session concerns its own number only, which is new. -/
theorem session_of_opening {c : Client} {operation : Operation} {id : SessionId}
    (hid : id ≤ c.lastSession) :
    (∀ r ∈ c.openingRecords operation, r.session ≠ id) ∧
      ∀ l ∈ c.newLinks operation, l.id? ≠ some id := by
  have hne : id ≠ c.lastSession + 1 := Nat.ne_of_lt (Nat.lt_succ_of_le hid)
  cases operation with
  | connect command connection =>
      rw [openingRecords, newLinks]
      cases c.launcher.start c.links.length command connection.args with
      | error e =>
          exact ⟨fun _ => (absurd · List.not_mem_nil), fun _ => (absurd · List.not_mem_nil)⟩
      | ok server =>
          obtain ⟨hrecords, hlink⟩ :=
            Upshot.session_of_under (c.opening_under command connection server)
          refine ⟨fun r hr heq => hne (heq.symm.trans (hrecords r hr)), fun l hl heq => ?_⟩
          rw [List.mem_singleton.1 hl] at heq
          exact hne (hlink id heq)
  | _ => exact ⟨fun _ => (absurd · List.not_mem_nil), fun _ => (absurd · List.not_mem_nil)⟩

/-- A client with one session is to it what a client with many is to the session
with a number, whose server has an index. -/
structure Mirrors (d c : Client) (id : SessionId) (index : Nat) : Prop where
  /-- no other session will have the number -/
  spent : id ≤ c.lastSession
  link : ∃ l, c.links[index]? = some l ∧ d.links = [l.under 1 firstProcessId] ∧
    ∀ s, l.session = some s → s.id = id
  /-- no other link has the session -/
  elsewhere : ∀ j l, c.links[j]? = some l → l.id? = some id → j = index
  debug : d.settings.debug = c.settings.debug
  records : d.records = (c.records.filter fun r => r.session == id).map (Record.under 1)

/-- What one operation adds to the records of one session. -/
theorem filter_records_step {c : Client} (hc : c.Ordered) (operation : Operation)
    {id : SessionId} {index : Nat} {l : Link} (hspent : id ≤ c.lastSession)
    (hl : c.links[index]? = some l) (hown : ∀ s, l.session = some s → s.id = id)
    (helsewhere : ∀ j l, c.links[j]? = some l → l.id? = some id → j = index) :
    (c.step operation).2.records.filter (fun r => r.session == id) =
      c.records.filter (fun r => r.session == id) ++ l.newRecords c.settings.debug operation := by
  have hopening : (c.openingRecords operation).filter (fun r => r.session == id) = [] := by
    refine List.filter_eq_nil_iff.2 fun r hr heq => ?_
    exact (session_of_opening hspent).1 r hr (beq_iff_eq.1 heq)
  have hhere : (l.newRecords c.settings.debug operation).filter (fun r => r.session == id) =
      l.newRecords c.settings.debug operation := by
    refine List.filter_eq_self.2 fun r hr => ?_
    obtain ⟨s, hs, hid⟩ := Option.map_eq_some_iff.1 (Link.session_of_newRecords hr)
    rw [← hid, hown s hs, beq_self_eq_true]
  have hothers : ∀ j other, c.links[j]? = some other → j ≠ index →
      (other.newRecords c.settings.debug operation).filter (fun r => r.session == id) = [] := by
    intro j other hj hne
    refine List.filter_eq_nil_iff.2 fun r hr heq => hne (helsewhere j other hj ?_)
    rw [Link.session_of_newRecords hr, beq_iff_eq.1 heq]
  rw [records_step hc, List.filter_append, List.filter_append, hopening, List.append_nil,
    List.filter_flatten, List.map_map]
  congr 1
  exact (flatten_map_single hl hothers).trans hhere

/-- The only link of a client does what remains of an operation, and no link is
added. -/
theorem links_of_alone {d : Client} (hd : d.Ordered) {l : Link} (hl : d.links = [l])
    {operation rest : Operation} {id : SessionId} {index : Nat}
    (hrest : operation.alone id index = some rest) :
    (d.step rest).2.links = [l.after d.settings.debug 0 rest] := by
  rw [links_step hd, (Operation.opens_nothing_of_alone hrest d).1, hl]
  rfl

theorem records_of_alone {d : Client} (hd : d.Ordered) {l : Link} (hl : d.links = [l])
    {operation rest : Operation} {id : SessionId} {index : Nat}
    (hrest : operation.alone id index = some rest) :
    (d.step rest).2.records = d.records ++ l.newRecords d.settings.debug rest := by
  rw [records_step hd, (Operation.opens_nothing_of_alone hrest d).2, hl, List.append_nil]
  exact congrArg _ (List.append_nil _)

/-- One operation keeps the two clients alike, whether it remains for the session
alone or not. -/
theorem Mirrors.step {c d : Client} {id : SessionId} {index : Nat} (h : d.Mirrors c id index)
    (hc : c.Ordered) (hd : d.Ordered) (operation : Operation) :
    ((operation.alone id index).elim d fun rest => (d.step rest).2).Mirrors
      (c.step operation).2 id index := by
  obtain ⟨l, hl, hlinks, hown⟩ := h.link
  constructor
  case spent =>
    rcases c.step_lastSession operation with ⟨hlast, -⟩ | ⟨hlast, -⟩
    · rw [hlast]
      exact h.spent
    · rw [hlast]
      exact Nat.le_succ_of_le h.spent
  case link =>
    refine ⟨l.after c.settings.debug index operation, getElem?_step hc hl operation, ?_,
      fun s hs => ?_⟩
    · have hafter := Link.after_alone hown c.settings.debug index firstProcessId operation
      rw [← hafter]
      cases hrest : operation.alone id index with
      | none => exact hlinks
      | some rest =>
          rw [Option.elim_some, links_of_alone hd hlinks hrest, h.debug]
          rfl
    · have hid : (l.after c.settings.debug index operation).id? = some s.id := by
        rw [Link.id?, hs]
        rfl
      obtain ⟨old, hold, hsame⟩ := Option.map_eq_some_iff.1 (Link.id?_of_after hid)
      rw [← hsame]
      exact hown old hold
  case elsewhere =>
    intro j new hnew hid
    cases hold : c.links[j]? with
    | some old =>
        rw [getElem?_step hc hold, Option.some.injEq] at hnew
        rw [← hnew] at hid
        exact h.elsewhere j old hold (Link.id?_of_after hid)
    | none =>
        exfalso
        rw [links_step hc, List.getElem?_append_right (by simpa using hold)] at hnew
        exact (session_of_opening h.spent).2 new (List.mem_of_getElem? hnew) hid
  case debug =>
    rw [debug_step hc, ← operation.debug?_alone id index]
    cases hrest : operation.alone id index with
    | none => exact h.debug
    | some rest =>
        rw [Option.elim_some, debug_step hd, h.debug]
        rfl
  case records =>
    have hadded := Link.newRecords_alone hown c.settings.debug index firstProcessId operation
    rw [filter_records_step hc operation h.spent hl hown h.elsewhere, List.map_append, ← hadded,
      ← h.records]
    cases hrest : operation.alone id index with
    | none => exact (List.append_nil _).symm
    | some rest =>
        rw [Option.elim_some, records_of_alone hd hlinks hrest, h.debug]
        rfl

theorem Mirrors.peers {c d : Client} {id : SessionId} {index : Nat} (h : d.Mirrors c id index)
    (hc : c.Ordered) : d.peer? 1 = (c.peer? id).map (Peer.under 1 firstProcessId) := by
  obtain ⟨l, hl, hlinks, hown⟩ := h.link
  rw [peer?_eq, hlinks, findPeer_cons]
  cases hs : l.session with
  | none =>
      have hnone : c.peer? id = none := by
        cases hp : c.peer? id with
        | none => rfl
        | some p =>
            obtain ⟨j, other, hj, hid⟩ := exists_link_of_peer? hp
            obtain rfl := h.elsewhere j other hj hid
            rw [hl, Option.some.injEq] at hj
            rw [← hj, Link.id?, hs] at hid
            cases hid
      rw [hnone, Link.id?, Link.under, hs]
      rfl
  | some s =>
      have hid : l.id? = some id := by
        rw [Link.id?, hs, Option.map_some, hown s hs]
      rw [peer?_of_getElem? hc hl hid, Link.peer?, Link.peer?, Link.id?, Link.under, hs]
      rfl

/-- An operation that names the session gets the same answer if the session is
alone. -/
theorem Mirrors.reply {c d : Client} {id : SessionId} {index : Nat} (h : d.Mirrors c id index)
    (hc : c.Ordered) (hd : d.Ordered) {operation rest : Operation}
    (hscope : operation.scope = .session id) (hrest : operation.alone id index = some rest) :
    (d.step rest).1 = (c.step operation).1.under 1 := by
  have hpeers := h.peers hc
  rcases operation.alone_of_session hscope id index with
    ⟨hne, -⟩ | ⟨-, rest', hrest', hrestScope, hunknown, hsame⟩
  · exact absurd rfl hne
  · obtain rfl := Option.some.inj (hrest.symm.trans hrest')
    cases hp : c.peer? id with
    | none =>
        rw [hp] at hpeers
        rw [step_of_unknown hscope hp, step_of_unknown hrestScope hpeers]
        exact hunknown
    | some p =>
        rw [hp] at hpeers
        rw [step_of_target hc hscope hp, step_of_target hd hrestScope hpeers, hsame, h.debug,
          Peer.upshot_under]
        rfl

/-- What the operations of a run that name a session answer. -/
def repliesTo (id : SessionId) (c : Client) : List Operation → List Reply
  | [] => []
  | operation :: rest =>
    (if operation.names id then [(c.step operation).1] else []) ++
      (c.step operation).2.repliesTo id rest

theorem Mirrors.run {id : SessionId} {index : Nat} (operations : List Operation) {c d : Client}
    (h : d.Mirrors c id index) (hc : c.Ordered) (hd : d.Ordered) :
    (d.run (operations.filterMap (Operation.alone id index))).Mirrors (c.run operations) id index ∧
      d.repliesTo 1 (operations.filterMap (Operation.alone id index)) =
        (c.repliesTo id operations).map (Reply.under 1) := by
  induction operations generalizing c d with
  | nil => exact ⟨h, rfl⟩
  | cons operation later ih =>
      have hstep := h.step hc hd operation
      have hnames := operation.names_alone id index
      rw [run_cons, repliesTo, List.map_append]
      cases hrest : operation.alone id index with
      | none =>
          rw [hrest, Option.elim_none] at hstep
          rw [hrest, Option.map_none, Option.getD_none] at hnames
          obtain ⟨hrun, hreplies⟩ := ih hstep (hc.step operation) hd
          rw [List.filterMap_cons_none hrest, ← hnames, hreplies]
          exact ⟨hrun, rfl⟩
      | some rest =>
          rw [hrest, Option.elim_some] at hstep
          rw [hrest, Option.map_some, Option.getD_some] at hnames
          obtain ⟨hrun, hreplies⟩ := ih hstep (hc.step operation) (hd.step rest)
          rw [List.filterMap_cons_some hrest, run_cons, repliesTo, hnames, hreplies]
          refine ⟨hrun, ?_⟩
          congr 1
          cases hnamed : operation.names id with
          | false => rfl
          | true =>
              have hreply := h.reply hc hd (Operation.scope_of_names hnamed) hrest
              exact congrArg (fun reply => [reply]) hreply

/-! ## Opening a session -/

/-- Records are kept under numbers that were handed out. -/
def Filed (c : Client) : Prop :=
  ∀ r ∈ c.records, r.session ≤ c.lastSession

theorem Filed.step {c : Client} (h : c.Filed) (hc : c.Ordered) (operation : Operation) :
    (c.step operation).2.Filed := by
  have hlast : c.lastSession ≤ (c.step operation).2.lastSession := by
    rcases c.step_lastSession operation with ⟨hlast, -⟩ | ⟨hlast, -⟩
    · exact Nat.le_of_eq hlast.symm
    · rw [hlast]
      exact Nat.le_succ _
  have hopening : ∀ r ∈ c.openingRecords operation,
      r.session ≤ (c.step operation).2.lastSession := by
    intro r hr
    cases operation with
    | connect command connection =>
        rw [openingRecords] at hr
        rw [step_connect]
        cases hstart : c.launcher.start c.links.length command connection.args with
        | error e =>
            rw [hstart] at hr
            cases hr
        | ok server =>
            rw [hstart] at hr
            have hopened := Upshot.session_of_under (c.opening_under command connection server)
            exact Nat.le_of_eq (hopened.1 r hr)
    | _ => cases hr
  intro r hr
  rw [records_step hc, List.mem_append, List.mem_append] at hr
  rcases hr with (hold | hadded) | hopened
  · exact Nat.le_trans (h r hold) hlast
  · obtain ⟨records, hrecords, hmem⟩ := List.mem_flatten.1 hadded
    obtain ⟨l, hl, rfl⟩ := List.mem_map.1 hrecords
    have hid := Link.session_of_newRecords hmem
    exact Nat.le_trans (hc.bounded _ (List.mem_filterMap.2 ⟨l, hl, hid⟩)) hlast
  · exact hopening r hopened

theorem Filed.run (operations : List Operation) {c : Client} (h : c.Filed) (hc : c.Ordered) :
    (c.run operations).Filed := by
  induction operations generalizing c with
  | nil => exact h
  | cons operation rest ih => exact ih (h.step hc operation) (hc.step operation)

theorem start_under {launcher : Launcher} {index : Nat} {command : String} {args : List String}
    {server : Server} (h : launcher.start index command args = .ok server) :
    launcher.start 0 command args = .ok (server.under firstProcessId) := by
  rw [Launcher.start] at h ⊢
  split at h
  · cases h
  · next hfound =>
      cases h
      rw [if_neg hfound]
      rfl

/-- A session is opened in the same way if it is alone, by a client with the same
settings. -/
theorem mirrors_opening {c : Client} (hc : c.Ordered) (hfiled : c.Filed) {command : String}
    {connection : Connection} {server : Server}
    (hstart : c.launcher.start c.links.length command connection.args = .ok server) :
    ((initial c.settings c.processId c.launcher).step (.connect command connection)).2.Mirrors
        (c.step (.connect command connection)).2 (c.lastSession + 1) c.links.length ∧
      ((initial c.settings c.processId c.launcher).step (.connect command connection)).1 =
        (c.step (.connect command connection)).1.under 1 := by
  have hopening : (initial c.settings c.processId c.launcher).opening command connection
      (server.under firstProcessId) =
        (c.opening command connection server).under 1 firstProcessId :=
    Peer.opening_under 1 firstProcessId c.settings.debug
      { session := { id := c.lastSession + 1, command }, server } _
  have hself := Upshot.session_of_under (c.opening_under command connection server)
  have hlone : (initial c.settings c.processId c.launcher).launcher.start
      (initial c.settings c.processId c.launcher).links.length command connection.args =
        .ok (server.under firstProcessId) := start_under hstart
  rw [step_connect, step_connect, hstart, hlone]
  dsimp only
  rw [hopening]
  refine ⟨⟨Nat.le_refl _, ?_, ?_, rfl, ?_⟩, rfl⟩
  · refine ⟨_, List.getElem?_concat_length, rfl, fun s hs => hself.2 s.id ?_⟩
    rw [Link.id?, hs]
    rfl
  · intro j l hl hid
    obtain ⟨hlt, -⟩ := List.getElem?_eq_some_iff.1 hl
    rw [List.length_append, List.length_singleton] at hlt
    rcases Nat.lt_or_eq_of_le (Nat.le_of_lt_succ hlt) with hold | heq
    · have hthere : c.links[j]? = some l := by rw [← hl, List.getElem?_append_left hold]
      exact absurd hid (hc.id?_ne (Nat.lt_succ_self _) l (List.mem_of_getElem? hthere))
    · exact heq
  · have hnone : (c.records.filter fun r => r.session == c.lastSession + 1) = [] := by
      refine List.filter_eq_nil_iff.2 fun r hr heq => ?_
      exact Nat.not_succ_le_self _ (beq_iff_eq.1 heq ▸ hfiled r hr)
    have hall : (c.opening command connection server).records.filter
        (fun r => r.session == c.lastSession + 1) =
          (c.opening command connection server).records := by
      refine List.filter_eq_self.2 fun r hr => ?_
      rw [hself.1 r hr, beq_self_eq_true]
    rw [List.filter_append, hnone, hall]
    rfl

/-! ## Runs -/

/-- A client with one session shows of it what a client with many shows of the
session with a number, whose server has an index. -/
structure ActsAlone (d c : Client) (id : SessionId) (index : Nat) : Prop where
  session : d.session? 1 = (c.session? id).map (Session.under 1)
  server : d.server? 0 = (c.server? index).map (Server.under firstProcessId)
  records : d.records = (c.records.filter fun r => r.session == id).map (Record.under 1)

theorem Mirrors.actsAlone {c d : Client} {id : SessionId} {index : Nat}
    (h : d.Mirrors c id index) (hc : c.Ordered) : d.ActsAlone c id index where
  session := by
    rw [session?_eq, session?_eq, h.peers hc, Option.map_map, Option.map_map]
    rfl
  server := by
    obtain ⟨l, hl, hlinks, -⟩ := h.link
    rw [server?, server?, hl, hlinks]
    rfl
  records := h.records

theorem opened_eq {c : Client} {command : String} {connection : Connection} {id : SessionId}
    (h : (c.step (.connect command connection)).1 = .opened id) :
    ∃ server, c.launcher.start c.links.length command connection.args = .ok server ∧
      c.lastSession + 1 = id := by
  rw [step_connect] at h
  cases hstart : c.launcher.start c.links.length command connection.args with
  | error e =>
      rw [hstart] at h
      cases h
  | ok server =>
      rw [hstart] at h
      refine ⟨server, rfl, ?_⟩
      change (c.opening command connection server).reply = _ at h
      rw [opening, Peer.opening] at h
      split at h
      · exact Reply.opened.inj h
      · cases h

/-- A client that has no session yet, with everything else as it is. -/
def lone (c : Client) : Client :=
  initial c.settings c.processId c.launcher

/-- What is true of a session that is opened and of the operations after it. -/
structure Isolated (c : Client) (opening : Operation) (id : SessionId)
    (after : List Operation) : Prop where
  /-- the session and its server end up as they do if the session is alone -/
  alone : (c.lone.run (opening :: after.filterMap (Operation.alone id c.links.length))).ActsAlone
    (c.run (opening :: after)) id c.links.length
  opened : (c.lone.step opening).1 = .opened 1
  /-- operations on the session get the same answers -/
  replies : c.lone.repliesTo 1 (opening :: after.filterMap (Operation.alone id c.links.length)) =
    (c.repliesTo id (opening :: after)).map (Reply.under 1)
  /-- and sessions can be read in any order -/
  order : (c.run (opening :: after)).ReadsCommute

/-- In every run, what happens to a session is what happens to it in the run that
remains if the session is alone. -/
theorem isolated_of_run {settings : Settings} {processId : Nat} {launcher : Launcher}
    {before : List Operation} {c : Client} (hc : (initial settings processId launcher).run before = c)
    {command : String} {connection : Connection} {id : SessionId}
    (hopened : (c.step (.connect command connection)).1 = .opened id) (after : List Operation) :
    c.Isolated (.connect command connection) id after := by
  have hordered : c.Ordered := hc ▸ (ordered_initial settings processId launcher).run before
  have hfiled : c.Filed := by
    have hinitial : (initial settings processId launcher).Filed := fun r hr => (nomatch hr)
    exact hc ▸ hinitial.run before (ordered_initial settings processId launcher)
  have hlone : c.lone.Ordered := ordered_initial c.settings c.processId c.launcher
  obtain ⟨server, hstart, rfl⟩ := opened_eq hopened
  obtain ⟨hmirrors, hreply⟩ := mirrors_opening hordered hfiled hstart
  obtain ⟨hrun, hreplies⟩ := hmirrors.run after (hordered.step _) (hlone.step _)
  have hafter := hordered.run (.connect command connection :: after)
  refine ⟨hrun.actsAlone hafter, ?_, hreplies, hafter.readsCommute⟩
  rw [lone, hreply, hopened]
  rfl

/-- A server that will not answer comes before, with records kept from now on. -/
def silentNeighbour : List Operation :=
  [.connect "silent" {}, .adjust (.debug true)]

/-- A server accepts the handshake and answers a request, while its neighbour
writes garbage and cannot be written to any more. -/
def noisyExchange : List Operation :=
  [.server 0 (.emit [0, 13, 10, 13, 10]),
    .server 1 (.emit (Wire.frameText "\x7b\"id\":1,\"result\":null\x7d")),
    .process,
    .request 2 "textDocument/hover" .null,
    .server 0 (.failWrites (some .brokenPipe)),
    .close 1,
    .server 1 (.emit (Wire.frameText "\x7b\"id\":2,\"result\":7\x7d")),
    .process,
    .takeCompletions 2]

theorem isolated_of_noisyExchange :
    (((initial {} 0 {}).run silentNeighbour).step (.connect "server" {})).1 = .opened 2 ∧
      ((initial {} 0 {}).run silentNeighbour).Isolated (.connect "server" {}) 2 noisyExchange := by
  have hopened :
      (((initial {} 0 {}).run silentNeighbour).step (.connect "server" {})).1 = .opened 2 := rfl
  exact ⟨hopened, isolated_of_run rfl hopened noisyExchange⟩

end Client

end LspClient
