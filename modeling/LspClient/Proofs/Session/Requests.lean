import LspClient.Proofs.Session.Correlation
import LspClient.Proofs.Session.Exchanges
import LspClient.Proofs.Session.WireOrder

/-!
# Numbers of requests, and what waits under them

A request takes the next number when it is tried, and what is tried is a passage
whether or not it is written. So the numbers are counted by the passages alone
(`idsTried`), and a session is always at the number behind the last one
(`Session.Counts`).

What waits is what was written and not answered yet. As long as the numbers do not
wrap around, a new request has a greater number than all that wait, so it takes the
last place among them, and what waits is in the order of the numbers
(`Session.Waits`).
-/

namespace LspClient

open Json (Value)

/-! ## The numbers that were tried -/

/-- The number of a message, if it is a request. -/
def Envelope.requestId? (envelope : Value) : Option RequestId :=
  if (method? envelope).isSome then (envelope.member "id").integer?.map RequestId.mk else none

/-- The number of a request that was tried. -/
def Passage.requestId? : Passage → Option RequestId
  | .tried _ envelope _ => Envelope.requestId? envelope
  | .handled _ => none

/-- The numbers of all requests that were tried, written or not. -/
def idsTried (passed : List Passage) : List RequestId :=
  passed.filterMap Passage.requestId?

namespace Envelope

theorem member_id_request (id : RequestId) (method : String) (params : Value) :
    (request id method params).member "id" = id.toJson := by
  cases hparams : params.isContainer <;>
    simp [request, call, version, parameters, hparams, Value.member, Value.member?,
      Value.members?, Json.Members.get?]

theorem member_id_notification (method : String) (params : Value) :
    (notification method params).member "id" = .null := by
  cases hparams : params.isContainer <;>
    simp [notification, version, parameters, hparams, Value.member, Value.member?,
      Value.members?, Json.Members.get?]

@[simp] theorem requestId?_request (id : RequestId) (method : String) (params : Value) :
    requestId? (request id method params) = some id := by
  rw [requestId?, method?_request, Option.isSome_some, if_pos rfl, member_id_request]
  rfl

@[simp] theorem requestId?_notification (method : String) (params : Value) :
    requestId? (notification method params) = none := by
  rw [requestId?, method?_notification, Option.isSome_some, if_pos rfl, member_id_notification]
  rfl

end Envelope

theorem idsTried_append (passed later : List Passage) :
    idsTried (passed ++ later) = idsTried passed ++ idsTried later :=
  List.filterMap_append

@[simp] theorem idsTried_request (caller written : Bool) (id : RequestId) (method : String)
    (params : Value) :
    idsTried [.tried caller (Envelope.request id method params) written] = [id] := by
  simp [idsTried, Passage.requestId?]

@[simp] theorem idsTried_notification (caller written : Bool) (method : String) (params : Value) :
    idsTried [.tried caller (Envelope.notification method params) written] = [] := by
  simp [idsTried, Passage.requestId?]

theorem idsTried_of_mem {passed : List Passage} {caller written : Bool} {envelope : Value}
    {id : RequestId} (h : .tried caller envelope written ∈ passed)
    (hid : Envelope.requestId? envelope = some id) : id ∈ idsTried passed :=
  List.mem_filterMap.2 ⟨_, h, hid⟩

namespace Session

/-- No request is tried because of a body. -/
theorem Answers.requestId? {body : List UInt8} {envelope : Value} (h : Answers body envelope) :
    Envelope.requestId? envelope = none := by
  cases h with
  | echo => rfl
  | ready => rfl
  | leaving => rfl

theorem idsTried_greeting (s : Session) (r : Response) (written : Bool) :
    idsTried ((s.greetingReplies r).map fun e => .tried false e written) = [] := by
  rw [greetingReplies]
  repeat' split
  all_goals rfl

/-! ## The next number -/

theorem greeted_pending (s : Session) (r : Response) :
    (s.greeted r).pending = s.pending ∧ (s.greeted r).nextRequest = s.nextRequest := by
  obtain ⟨info, status, heq⟩ := s.greeted_eq r
  rw [heq]
  exact ⟨rfl, rfl⟩

/-- A session is at the number behind those that were tried. -/
structure Counts (o : Option Session) (passed : List Passage) : Prop where
  tried : idsTried passed = (List.range (idsTried passed).length).map RequestId.nth
  next : ∀ s, o = some s → s.nextRequest = .nth (idsTried passed).length

theorem Counts.quiet {s : Session} {o : Option Session} {passed later : List Passage}
    (h : Counts (some s) passed) (hlater : idsTried later = [])
    (ho : ∀ t, o = some t → t.nextRequest = s.nextRequest) : Counts o (passed ++ later) := by
  have hsame : idsTried (passed ++ later) = idsTried passed := by
    rw [idsTried_append, hlater, List.append_nil]
  exact
    { tried := by rw [hsame]; exact h.tried
      next := fun t ht => by rw [ho t ht, hsame, h.next s rfl] }

theorem Counts.issue {s : Session} {o : Option Session} {passed later : List Passage}
    (h : Counts (some s) passed) (hlater : idsTried later = [s.nextRequest])
    (ho : ∀ t, o = some t → t.nextRequest = s.nextRequest.next) : Counts o (passed ++ later) := by
  have hmore : idsTried (passed ++ later) = idsTried passed ++ [s.nextRequest] := by
    rw [idsTried_append, hlater]
  have hnext := h.next s rfl
  constructor
  · rw [hmore, List.length_append, List.length_singleton, List.range_succ, List.map_append,
      ← h.tried, hnext]
    rfl
  · intro t ht
    rw [ho t ht, hmore, hnext, RequestId.nth_next, List.length_append, List.length_singleton]

theorem Counts.exchange {s : Session} {o : Option Session} {passed xs : List Passage}
    (h : Counts (some s) passed) (exchange : s.Exchange xs o) : Counts o (passed ++ xs) := by
  cases exchange with
  | quiet => exact h.quiet rfl fun t ht => by cases ht; rfl
  | handled body => exact h.quiet rfl fun t ht => by cases ht; rfl
  | acknowledged id written => exact h.quiet rfl fun t ht => by cases ht; rfl
  | greeted r entry written hanswers hmethod =>
      refine h.quiet (s.idsTried_greeting r written) fun t ht => ?_
      cases ht
      exact ((s.retire entry.id).greeted_pending r).2
  | completed r entry hanswers hmethod => exact h.quiet rfl fun t ht => by cases ht; rfl
  | granted r entry written hanswers hmethod => exact h.quiet rfl fun t ht => nomatch ht
  | sent method params hconnected hopen =>
      exact h.issue (idsTried_request ..) fun t ht => by cases ht; rfl
  | unsent method params hconnected hopen =>
      exact h.issue (idsTried_request ..) fun t ht => by cases ht; rfl
  | told method params written hconnected hopen =>
      exact h.quiet (idsTried_notification ..) fun t ht => by cases ht; rfl
  | closing hopen => exact h.issue (idsTried_request ..) fun t ht => by cases ht; rfl
  | severed hopen => exact h.issue (idsTried_request ..) fun t ht => nomatch ht
  | dropped => exact h.quiet rfl fun t ht => nomatch ht

end Session

/-! ## What waits -/

theorem RequestId.ne_of_number_lt {a b : RequestId} (h : a.number < b.number) : a ≠ b := by
  rintro rfl
  exact Int64.lt_irrefl h

/-- A request whose number is greater than all others takes the last place. -/
theorem PendingRequest.enlist_of_greatest {entry : PendingRequest} {waiting : List PendingRequest}
    (h : ∀ p ∈ waiting, p.id.number < entry.id.number) :
    entry.enlist waiting = waiting ++ [entry] := by
  induction waiting with
  | nil => rfl
  | cons p rest ih =>
      rw [List.forall_mem_cons] at h
      rw [enlist, if_neg (RequestId.ne_of_number_lt h.1), if_pos h.1, ih h.2, List.cons_append]

/-- What waits in order is found under its number. -/
theorem PendingRequest.find?_of_sorted {waiting : List PendingRequest}
    (h : waiting.Pairwise fun a b => a.id.number < b.id.number) {entry : PendingRequest}
    (hentry : entry ∈ waiting) : (waiting.find? fun p => p.id == entry.id) = some entry := by
  induction waiting with
  | nil => cases hentry
  | cons p rest ih =>
      rw [List.pairwise_cons] at h
      rcases List.mem_cons.1 hentry with rfl | hrest
      · rw [List.find?_cons_of_pos (by simp)]
      · have hne : p.id ≠ entry.id := RequestId.ne_of_number_lt (h.1 entry hrest)
        rw [List.find?_cons_of_neg (by simp [hne]), ih h.2 hrest]

/-- The first 2⁶³ − 1 numbers count from 1. -/
theorem RequestId.toInt_nth {n : Nat} (h : n < 0x7fffffffffffffff) :
    (nth n).number.toInt = n + 1 := by
  have hn := Int64.toInt_ofNat_of_lt (n := n + 1) (by omega)
  rw [nth, hn]
  omega

namespace Session

/-- What is known of the requests that wait. -/
structure Waits (s : Session) (passed : List Passage) : Prop where
  below : ∀ entry ∈ s.pending, entry.id.number < s.nextRequest.number
  sorted : s.pending.Pairwise fun a b => a.id.number < b.id.number
  written : ∀ entry ∈ s.pending, ∃ caller params,
    .tried caller (Envelope.request entry.id entry.method params) true ∈ passed ∧
    entry.payload = Json.encode (Envelope.request entry.id entry.method params)
  failed : ∀ caller envelope id, .tried caller envelope false ∈ passed →
    Envelope.requestId? envelope = some id → ∀ entry ∈ s.pending, entry.id ≠ id

theorem Waits.quiet {s t : Session} {passed later : List Passage} (h : s.Waits passed)
    (hlater : idsTried later = []) (hpending : t.pending.Sublist s.pending)
    (hnext : t.nextRequest = s.nextRequest) : t.Waits (passed ++ later) where
  below := fun entry hentry => hnext ▸ h.below entry (hpending.subset hentry)
  sorted := h.sorted.sublist hpending
  written := fun entry hentry => by
    obtain ⟨caller, params, htried, hpayload⟩ := h.written entry (hpending.subset hentry)
    exact ⟨caller, params, List.mem_append_left later htried, hpayload⟩
  failed := fun caller envelope id htried hid entry hentry => by
    rcases List.mem_append.1 htried with hearlier | hnow
    · exact h.failed caller envelope id hearlier hid entry (hpending.subset hentry)
    · have hmem := idsTried_of_mem hnow hid
      rw [hlater] at hmem
      cases hmem

theorem Waits.unsent {s : Session} {passed : List Passage} (h : s.Waits passed)
    (hgreater : s.nextRequest.number < s.nextRequest.next.number) (caller : Bool)
    (method : String) (params : Value) :
    s.numbered.Waits
      (passed ++ [.tried caller (Envelope.request s.nextRequest method params) false]) where
  below := fun entry hentry => Int64.lt_trans (h.below entry hentry) hgreater
  sorted := h.sorted
  written := fun entry hentry => by
    obtain ⟨other, others, htried, hpayload⟩ := h.written entry hentry
    exact ⟨other, others, List.mem_append_left _ htried, hpayload⟩
  failed := fun other envelope id htried hid entry hentry => by
    rcases List.mem_append.1 htried with hearlier | hnow
    · exact h.failed other envelope id hearlier hid entry hentry
    · -- the number that was just lost is greater than all that wait
      cases List.mem_singleton.1 hnow
      rw [Envelope.requestId?_request, Option.some.injEq] at hid
      exact hid ▸ RequestId.ne_of_number_lt (h.below entry hentry)

theorem Waits.asking {s : Session} {passed : List Passage} (h : s.Waits passed)
    (hgreater : s.nextRequest.number < s.nextRequest.next.number)
    (hnew : s.nextRequest ∉ idsTried passed) (caller : Bool) (method : String) (params : Value) :
    (s.asking method params).Waits
      (passed ++ [.tried caller (Envelope.request s.nextRequest method params) true]) := by
  have hpending : (s.asking method params).pending = s.pending ++
      [⟨s.nextRequest, method, Json.encode (Envelope.request s.nextRequest method params)⟩] :=
    PendingRequest.enlist_of_greatest h.below
  constructor
  case below =>
    intro entry hentry
    rw [hpending, List.mem_append, List.mem_singleton] at hentry
    rcases hentry with hentry | rfl
    · exact Int64.lt_trans (h.below entry hentry) hgreater
    · exact hgreater
  case sorted =>
    rw [hpending, List.pairwise_append]
    refine ⟨h.sorted, List.pairwise_singleton _ _, fun a ha b hb => ?_⟩
    rw [List.mem_singleton.1 hb]
    exact h.below a ha
  case written =>
    intro entry hentry
    rw [hpending, List.mem_append, List.mem_singleton] at hentry
    rcases hentry with hentry | rfl
    · obtain ⟨other, others, htried, hpayload⟩ := h.written entry hentry
      exact ⟨other, others, List.mem_append_left _ htried, hpayload⟩
    · exact ⟨caller, params, by simp, rfl⟩
  case failed =>
    intro other envelope id htried hid entry hentry
    have hearlier : .tried other envelope false ∈ passed := by simpa using htried
    rw [hpending, List.mem_append, List.mem_singleton] at hentry
    rcases hentry with hentry | rfl
    · exact h.failed other envelope id hearlier hid entry hentry
    · intro heq
      have hmem := idsTried_of_mem hearlier hid
      rw [← heq] at hmem
      exact hnew hmem

/-! ## Exchanges -/

/-- What is known of requests while their numbers do not wrap around. -/
structure Requesting (o : Option Session) (passed : List Passage) : Prop where
  counts : Counts o passed
  waits : (idsTried passed).length < 0x7fffffffffffffff → ∀ s, o = some s → s.Waits passed

theorem Counts.fresh {s : Session} {passed : List Passage} (h : Counts (some s) passed)
    (hfew : (idsTried passed).length + 1 < 0x7fffffffffffffff) :
    s.nextRequest.number < s.nextRequest.next.number ∧ s.nextRequest ∉ idsTried passed := by
  rw [h.next s rfl, RequestId.nth_next]
  constructor
  · rw [Int64.lt_iff_toInt_lt, RequestId.toInt_nth (by omega), RequestId.toInt_nth hfew]
    omega
  · rw [h.tried, List.length_map, List.length_range]
    intro hmem
    obtain ⟨k, hk, heq⟩ := List.mem_map.1 hmem
    rw [List.mem_range] at hk
    have hsame := RequestId.nth_injective (by omega) (by omega) heq
    omega

theorem Requesting.exchange {s : Session} {o : Option Session} {passed xs : List Passage}
    (h : Requesting (some s) passed) (exchange : s.Exchange xs o) :
    Requesting o (passed ++ xs) := by
  refine ⟨h.counts.exchange exchange, fun hfew t ht => ?_⟩
  rw [idsTried_append, List.length_append] at hfew
  have hwaits := h.waits (by omega) s rfl
  have hfresh (hone : idsTried xs = [s.nextRequest]) :=
    h.counts.fresh (by rw [hone] at hfew; exact hfew)
  cases exchange with
  | quiet => cases ht; exact hwaits.quiet rfl (List.Sublist.refl _) rfl
  | handled body => cases ht; exact hwaits.quiet rfl (List.Sublist.refl _) rfl
  | acknowledged id written => cases ht; exact hwaits.quiet rfl (List.Sublist.refl _) rfl
  | greeted r entry written hanswers hmethod =>
      cases ht
      obtain ⟨hpending, hnext⟩ := (s.retire entry.id).greeted_pending r
      exact hwaits.quiet (s.idsTried_greeting r written)
        (hpending ▸ s.retire_sublist entry.id) hnext
  | completed r entry hanswers hmethod =>
      cases ht
      exact hwaits.quiet rfl (s.retire_sublist entry.id) rfl
  | granted r entry written hanswers hmethod => cases ht
  | sent method params hconnected hopen =>
      cases ht
      obtain ⟨hgreater, hnew⟩ := hfresh (idsTried_request ..)
      exact hwaits.asking hgreater hnew true method params
  | unsent method params hconnected hopen =>
      cases ht
      exact hwaits.unsent (hfresh (idsTried_request ..)).1 true method params
  | told method params written hconnected hopen =>
      cases ht
      exact hwaits.quiet (idsTried_notification ..) (List.Sublist.refl _) rfl
  | closing hopen =>
      cases ht
      obtain ⟨hgreater, hnew⟩ := hfresh (idsTried_request ..)
      have hasking := hwaits.asking hgreater hnew false Lifecycle.ending.method .null
      exact ⟨hasking.below, hasking.sorted, hasking.written, hasking.failed⟩
  | severed hopen => cases ht
  | dropped => cases ht

/-- The request for the handshake is the first, and waits if it was written. -/
theorem requesting_opened (id : SessionId) (command : String) (params : Value) (written : Bool) :
    Requesting (if written then some (opened id command params) else none)
      [.tried false (Envelope.request .first Lifecycle.opening.method params) written] := by
  let s : Session := { id, command }
  have hcounts : Counts (some s) [] := ⟨rfl, fun t ht => by cases ht; rfl⟩
  constructor
  case counts =>
    refine hcounts.issue (idsTried_request ..) fun t ht => ?_
    cases written <;> cases ht
    rfl
  case waits =>
    intro _ t ht
    cases written <;> cases ht
    have hnothing : s.Waits [] := by constructor <;> simp [s]
    obtain ⟨hgreater, hnew⟩ := hcounts.fresh (by decide)
    have hasking := hnothing.asking hgreater hnew false Lifecycle.opening.method params
    exact ⟨hasking.below, hasking.sorted, hasking.written, hasking.failed⟩

/-- Everything that can become of a session keeps its requests in order. -/
theorem Life.requesting {o : Option Session} {passed : List Passage} (h : Life o passed) :
    Requesting o passed :=
  h.preserves requesting_opened fun _ hp exchange => hp.exchange exchange

end Session

end LspClient
