import LspClient.Proofs.Client.Exchanges
import LspClient.Proofs.Session.Requests

/-!
# The requests of every run

The `k`-th request that is tried at a server has the number `k`, in every run that
tries fewer than 2⁶³ − 1 of them there. What waits was asked for by one operation of
the run, was written under its number when that operation happened, and is listed
once, in the order of the numbers. A request that could not be written does not wait.

The numbers and the order are an invariant of exchanges
(`Session.Life.requesting`). What is added here is which operation a request comes
from. Only three of them make one, each at most one, and reading makes none, so the
passage of a request is the only passage of its operation (`asked_of_mem`).
-/

namespace LspClient

open Json (Value)

namespace Client

/-! ## Where a request comes from -/

/-- The method and the parameters of the request that an operation asks for. -/
def asked? (c : Client) : Operation → Option (String × Value)
  | .connect _ connection =>
    some (Lifecycle.opening.method, handshakeParameters c.processId c.settings connection)
  | .close _ => some (Lifecycle.ending.method, .null)
  | .request _ method params => some (method, params)
  | _ => none

theorem mem_passages {index : Nat} {operations : List Operation} {c : Client} {x : Passage}
    (h : x ∈ c.passages index operations) :
    ∃ before operation after, operations = before ++ operation :: after ∧
      x ∈ (c.run before).passagesOf index operation := by
  induction operations generalizing c with
  | nil => cases h
  | cons operation rest ih =>
      rcases List.mem_append.1 h with hnow | hlater
      · exact ⟨[], operation, rest, rfl, hnow⟩
      · obtain ⟨before, later, after, rfl, hx⟩ := ih hlater
        exact ⟨operation :: before, later, after, rfl, hx⟩

end Client

/-- What passes at a link when a request is tried: that request and nothing else. -/
theorem Link.asked_of_mem {c : Client} {l : Link} {operation : Operation} {caller written : Bool}
    {envelope : Value} {id : RequestId} (hid : Envelope.requestId? envelope = some id)
    (h : .tried caller envelope written ∈ l.passages operation) :
    l.passages operation = [.tried caller envelope written] ∧
      ∃ method params, c.asked? operation = some (method, params) ∧
        envelope = Envelope.request id method params := by
  rw [Link.passages] at h ⊢
  cases hconcerned : l.concerned? operation with
  | none =>
      rw [hconcerned] at h
      cases h
  | some p =>
      rw [hconcerned] at h
      rw [Option.map_some, Option.getD_some] at h ⊢
      cases operation with
      | close target =>
          rw [Peer.passages] at h ⊢
          split at h
          · cases h
          · next hclosing =>
              cases List.mem_singleton.1 h
              rw [Envelope.requestId?_request, Option.some.injEq] at hid
              rw [if_neg hclosing]
              exact ⟨rfl, _, _, rfl, by rw [hid]⟩
      | request target method params =>
          rw [Peer.passages] at h ⊢
          cases hadmits : p.admits with
          | error e =>
              rw [hadmits] at h
              cases h
          | ok _ =>
              rw [hadmits] at h
              cases List.mem_singleton.1 h
              rw [Envelope.requestId?_request, Option.some.injEq] at hid
              exact ⟨rfl, _, _, rfl, by rw [hid]⟩
      | notify target method params =>
          rw [Peer.passages] at h
          split at h
          · cases h
          · cases List.mem_singleton.1 h
            rw [Envelope.requestId?_notification] at hid
            cases hid
      | process =>
          rw [Peer.passages] at h
          split at h
          · cases h
          · obtain ⟨body, hbody | ⟨other, hanswers, htried⟩⟩ := Session.mem_passages h
            · cases hbody
            · cases htried
              rw [hanswers.requestId?] at hid
              cases hid
      | _ => cases h

namespace Client

/-- The same for a server that may only just have been started. -/
theorem asked_of_mem {c : Client} {index : Nat} {operation : Operation} {caller written : Bool}
    {envelope : Value} {id : RequestId} (hid : Envelope.requestId? envelope = some id)
    (h : .tried caller envelope written ∈ c.passagesOf index operation) :
    c.passagesOf index operation = [.tried caller envelope written] ∧
      ∃ method params, c.asked? operation = some (method, params) ∧
        envelope = Envelope.request id method params := by
  rw [passagesOf] at h ⊢
  cases hl : c.links[index]? with
  | some l =>
      rw [hl] at h
      exact Link.asked_of_mem hid h
  | none =>
      rw [hl] at h
      dsimp only at h ⊢
      split at h
      · next hindex =>
          rw [if_pos hindex]
          cases operation with
          | connect command connection =>
              rw [openingPassages] at h ⊢
              split at h
              · cases h
              · cases List.mem_singleton.1 h
                rw [Envelope.requestId?_request, Option.some.injEq] at hid
                exact ⟨rfl, _, _, rfl, by rw [hid]⟩
          | _ => cases h
      · cases h

/-! ## Runs -/

/-- The operation of a run that a request comes from: it asked for the request,
which was written to the server with an index under its number. -/
def Came (c : Client) (operations : List Operation) (index : Nat) (entry : PendingRequest) :
    Prop :=
  ∃ before operation after caller params,
    operations = before ++ operation :: after ∧
    (c.run before).asked? operation = some (entry.method, params) ∧
    (c.run before).passagesOf index operation =
      [.tried caller (Envelope.request entry.id entry.method params) true] ∧
    entry.payload = Json.encode (Envelope.request entry.id entry.method params)

theorem came_of_waits {c : Client} {operations : List Operation} {index : Nat} {s : Session}
    (h : s.Waits (c.passages index operations)) {entry : PendingRequest}
    (hentry : entry ∈ s.pending) : c.Came operations index entry := by
  obtain ⟨caller, params, htried, hpayload⟩ := h.written entry hentry
  obtain ⟨before, operation, after, rfl, hx⟩ := mem_passages htried
  obtain ⟨honly, method, others, hasked, henvelope⟩ :=
    asked_of_mem (Envelope.requestId?_request ..) hx
  -- the parameters are known by their text, but the method is the same
  have hmethod : entry.method = method := by
    have hsame := congrArg Envelope.method? henvelope
    rwa [Envelope.method?_request, Envelope.method?_request, Option.some.injEq] at hsame
  rw [← hmethod] at hasked henvelope
  rw [henvelope] at honly hpayload
  exact ⟨before, operation, after, caller, others, rfl, hasked, honly, hpayload⟩

/-- The numbers of the requests that were tried at a server. -/
structure Numbering (ids : List RequestId) : Prop where
  /-- the first is 1, and each is one more than the one before -/
  counted : ∀ (k : Nat) id, ids[k]? = some id → id.number.toInt = k + 1
  increasing : ids.Pairwise fun a b => a.number < b.number
  once : ids.Nodup

/-- The requests that wait at a session, whose server has an index. -/
structure Tracking (c : Client) (operations : List Operation) (index : Nat) (s : Session)
    (v : Server) : Prop where
  next : s.nextRequest.number.toInt = (idsTried (c.passages index operations)).length + 1
  keys : ∀ id entry, s.pending? id = some entry →
    entry.id = id ∧ id.number < s.nextRequest.number
  came : ∀ entry ∈ s.pending,
    c.Came operations index entry ∧ Wire.frameText entry.payload <:+: v.written
  failed : ∀ caller id method params,
    .tried caller (Envelope.request id method params) false ∈ c.passages index operations →
      s.pending? id = none
  /-- every request that waits is listed, once and in order -/
  listed : ((c.run operations).pendingRequests s.id).Pairwise fun a b => a.id.number < b.id.number
  complete : ∀ entry,
    entry ∈ (c.run operations).pendingRequests s.id ↔ s.pending? entry.id = some entry

theorem numbering_of_counts {ids : List RequestId}
    (h : ids = (List.range ids.length).map RequestId.nth) (hfew : ids.length < 0x7fffffffffffffff) :
    Numbering ids := by
  have hget : ∀ (k : Nat) (hk : k < ids.length), ids[k] = .nth k := by
    intro k hk
    have hk' : ids[k]? = ((List.range ids.length).map RequestId.nth)[k]? := by rw [← h]
    rw [List.getElem?_map, List.getElem?_range hk, List.getElem?_eq_getElem hk] at hk'
    exact Option.some.inj hk'
  have hincreasing : ids.Pairwise fun a b => a.number < b.number := by
    rw [List.pairwise_iff_getElem]
    intro i j hi hj hij
    rw [hget i hi, hget j hj, Int64.lt_iff_toInt_lt, RequestId.toInt_nth (by omega),
      RequestId.toInt_nth (by omega)]
    omega
  refine ⟨fun k id hk => ?_, hincreasing, hincreasing.imp RequestId.ne_of_number_lt⟩
  obtain ⟨hlt, rfl⟩ := List.getElem?_eq_some_iff.1 hk
  rw [hget k hlt, RequestId.toInt_nth (by omega)]

theorem frame_of_written {l : Link} {passed : List Passage} (h : Reached l passed) {caller : Bool}
    {envelope : Value} (htried : .tried caller envelope true ∈ passed) :
    Envelope.wire envelope <:+: l.server.written := by
  have hwrites : l.server.writes = passed.filterMap Passage.wire? := h
  have hmem : Envelope.wire envelope ∈ l.server.writes := by
    rw [hwrites]
    exact List.mem_filterMap.2 ⟨_, htried, rfl⟩
  obtain ⟨before, after, hsplit⟩ := List.append_of_mem hmem
  refine ⟨before.flatten, after.flatten, ?_⟩
  rw [Server.written, hsplit, List.flatten_append, List.flatten_cons, List.append_assoc]

theorem pendingRequests_of_getElem? {c : Client} (hc : c.Ordered) {index : Nat} {s : Session}
    {v : Server} (hl : c.links[index]? = some ⟨v, some s⟩) :
    c.pendingRequests s.id = s.pending := by
  have hpeer := peer?_of_getElem? hc hl rfl
  rw [pendingRequests, session?_eq, hpeer]
  rfl

theorem tracking_of_told {settings : Settings} {processId : Nat} {launcher : Launcher}
    {operations : List Operation} {index : Nat} {s : Session} {v : Server}
    (hl : ((initial settings processId launcher).run operations).links[index]? = some ⟨v, some s⟩)
    (hfew : (idsTried ((initial settings processId launcher).passages index operations)).length <
      0x7fffffffffffffff) :
    (initial settings processId launcher).Tracking operations index s v := by
  have htold := told_of_run settings processId launcher operations hl
  have hordered := (ordered_initial settings processId launcher).run operations
  have hrequesting := htold.life.requesting
  have hwaits : s.Waits ((initial settings processId launcher).passages index operations) :=
    hrequesting.waits hfew s rfl
  constructor
  case next => rw [hrequesting.counts.next s rfl, RequestId.toInt_nth hfew]
  case keys =>
    intro id entry hentry
    obtain rfl := Session.id_of_pending? hentry
    exact ⟨rfl, hwaits.below entry (List.mem_of_find?_eq_some hentry)⟩
  case came =>
    intro entry hentry
    obtain ⟨caller, params, htried, hpayload⟩ := hwaits.written entry hentry
    have hframe := frame_of_written htold.reached htried
    rw [Envelope.wire, ← hpayload] at hframe
    exact ⟨came_of_waits hwaits hentry, hframe⟩
  case failed =>
    intro caller id method params htried
    refine List.find?_eq_none.2 fun entry hentry hid => ?_
    exact hwaits.failed caller _ id htried (Envelope.requestId?_request ..) entry hentry
      (beq_iff_eq.1 hid)
  case listed =>
    rw [pendingRequests_of_getElem? hordered hl]
    exact hwaits.sorted
  case complete =>
    intro entry
    rw [pendingRequests_of_getElem? hordered hl]
    exact ⟨PendingRequest.find?_of_sorted hwaits.sorted, List.mem_of_find?_eq_some⟩

/-- In every run, the requests that are tried at a server are numbered from 1, and
what waits at its session are requests that were asked for and written. -/
theorem requests_of_run (settings : Settings) (processId : Nat) (launcher : Launcher)
    (operations : List Operation) {index : Nat} {l : Link}
    (hl : ((initial settings processId launcher).run operations).links[index]? = some l)
    (hfew : (idsTried ((initial settings processId launcher).passages index operations)).length <
      0x7fffffffffffffff) :
    Numbering (idsTried ((initial settings processId launcher).passages index operations)) ∧
      ∀ s, l.session = some s →
        (initial settings processId launcher).Tracking operations index s l.server := by
  have hcounts := (told_of_run settings processId launcher operations hl).life.requesting.counts
  refine ⟨numbering_of_counts hcounts.tried hfew, fun s hs => ?_⟩
  refine tracking_of_told ?_ hfew
  rw [hl, ← hs]

/-- A request is lost between two that are written, and the end is asked for. -/
def lostRequest : List Operation :=
  [.connect "server" {},
    .server 0 (.emit (Wire.frameText "\x7b\"id\":1,\"result\":null\x7d")),
    .process,
    .request 1 "textDocument/hover" .null,
    .server 0 (.failWrites (some .brokenPipe)),
    .request 1 "textDocument/definition" .null,
    .server 0 (.failWrites none),
    .close 1]

theorem requests_of_lostRequest :
    ∃ l s, ((initial {} 0 {}).run lostRequest).links[0]? = some l ∧
      (idsTried ((initial {} 0 {}).passages 0 lostRequest)).length < 0x7fffffffffffffff ∧
      l.session = some s ∧ s.pending.map (fun entry => entry.id.number) = [2, 4] ∧
      Numbering (idsTried ((initial {} 0 {}).passages 0 lostRequest)) ∧
      (initial {} 0 {}).Tracking lostRequest 0 s l.server := by
  have hdone : (((initial {} 0 {}).run lostRequest).links[0]?.bind Link.session).map
      (fun s => s.pending.map fun entry => entry.id.number) = some [2, 4] := by decide +kernel
  have hfew : (idsTried ((initial {} 0 {}).passages 0 lostRequest)).length < 0x7fffffffffffffff := by
    have hfour : (idsTried ((initial {} 0 {}).passages 0 lostRequest)).length = 4 := by
      decide +kernel
    omega
  obtain ⟨s, hbind, hpending⟩ := Option.map_eq_some_iff.1 hdone
  obtain ⟨l, hl, hs⟩ := Option.bind_eq_some_iff.1 hbind
  obtain ⟨hnumbering, htracking⟩ := requests_of_run {} 0 {} lostRequest hl hfew
  exact ⟨l, s, hl, hfew, hs, hpending, hnumbering, htracking s hs⟩

end Client

end LspClient
