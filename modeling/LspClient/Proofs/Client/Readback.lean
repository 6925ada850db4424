import LspClient.Proofs.Client.Exchanges
import LspClient.Proofs.Client.Isolation
import LspClient.Proofs.Message.DistinctKeys
import LspClient.Proofs.Wire.Reassembly

/-!
# What was written is read back

Whatever a run does, the octets that a server was sent are frames of messages, one
behind the other, and a reader of the same make gets the messages out of them: no
frame is bad, no body is anything but text, no text is anything but a document, and
nothing is left over. The messages are what was sent, except for floats that have no
spelling. It takes that no message nests too deep or is too long.

Framing, text and documents have their own theorems, so what is left is to see that
every message meets their conditions, wherever it comes from: the parameters of the
handshake, what callers hand over, and identifiers that are echoed. The one condition
that is not on the size of a message is that its objects have distinct keys. Objects
are maps, so callers have no others to hand over (`Operation.IsDistinct`).
-/

namespace LspClient

open Json (Value Members)

/-! ## One server -/

/-- The message that reached the server. -/
def Passage.written? : Passage → Option Value
  | .tried _ envelope written => if written then some envelope else none
  | .handled _ => none

/-- The messages that reached the server, in order. -/
def writtenOf (passed : List Passage) : List Value :=
  passed.filterMap Passage.written?

theorem wires_eq_writtenOf (passed : List Passage) :
    passed.filterMap Passage.wire? = (writtenOf passed).map Envelope.wire := by
  rw [writtenOf, List.map_filterMap]
  congr 1
  funext x
  cases x with
  | tried caller envelope written => cases written <;> rfl
  | handled body => rfl

/-- Whether a message can be read: it does not nest too deep and is not too
long. -/
structure Envelope.Fits (envelope : Value) : Prop where
  depth : envelope.depth ≤ Json.maxDepth
  size : (Utf8.octets (Json.encode envelope)).length ≤ Wire.maxMessageSize

theorem Envelope.fits_iff {envelope : Value} :
    Fits envelope ↔ envelope.depth ≤ Json.maxDepth ∧
      ((Json.write envelope).flatMap String.utf8EncodeChar).length ≤ Wire.maxMessageSize := by
  rw [← Utf8.octets_ofList]
  exact ⟨fun h => ⟨h.depth, h.size⟩, fun h => ⟨h.1, h.2⟩⟩

instance (envelope : Value) : Decidable (Envelope.Fits envelope) :=
  decidable_of_iff _ Envelope.fits_iff.symm

/-- A server that was sent messages, and what a reader makes of it. -/
structure Server.ReadsBack (v : Server) (envelopes : List Value) : Prop where
  written : v.written = (envelopes.map fun e => Wire.frameText (Json.encode e)).flatten
  /-- every frame is handed out, and nothing is left -/
  frames : (Wire.FrameBuffer.empty.extend v.written).drain =
    (envelopes.map fun e => .ok (Utf8.octets (Json.encode e)), .empty)
  /-- every body is text, and every text is a document -/
  documents : ∀ e ∈ envelopes, Utf8.text? (Utf8.octets (Json.encode e)) = some (Json.encode e) ∧
    Json.decode (Json.encode e) = .ok e.inJson
  messages : v.messages = envelopes.map Value.inJson

theorem bodies_of_octets (texts : List String) :
    Server.bodies (texts.map fun text => .ok (Utf8.octets text)) = texts := by
  rw [Server.bodies, List.filterMap_map]
  have htext : ∀ text ∈ texts, Utf8.text? (Utf8.octets text) = some text :=
    fun text _ => Utf8.text?_octets text
  exact (List.filterMap_congr htext).trans List.filterMap_some

theorem readsBack_of_writes {v : Server} {envelopes : List Value}
    (hwrites : v.writes = envelopes.map Envelope.wire)
    (hdistinct : ∀ e ∈ envelopes, e.hasDistinctKeys = true)
    (hfits : ∀ e ∈ envelopes, Envelope.Fits e) : v.ReadsBack envelopes := by
  have hdocument : ∀ e ∈ envelopes, Json.decode (Json.encode e) = .ok e.inJson :=
    fun e he => Json.decode_of_shallow (hdistinct e he) (hfits e he).depth
  have hwritten : v.written = (envelopes.map fun e => Wire.frameText (Json.encode e)).flatten := by
    rw [Server.written, hwrites]
    rfl
  have hframes : (Wire.FrameBuffer.empty.extend v.written).drain =
      (envelopes.map fun e => .ok (Utf8.octets (Json.encode e)), .empty) := by
    let bodies := envelopes.map fun e => Utf8.octets (Json.encode e)
    have hsize : ∀ body ∈ bodies, body.length ≤ Wire.maxMessageSize := by
      intro body hbody
      obtain ⟨e, he, rfl⟩ := List.mem_map.1 hbody
      exact (hfits e he).size
    have hawaits : (Wire.FrameBuffer.empty.extend v.written).Awaits [] bodies := by
      show [] ++ v.written ++ [] = Wire.frames bodies
      rw [List.nil_append, List.append_nil, hwritten, Wire.frames, List.flatMap_map,
        List.flatMap_def]
      rfl
    rw [hawaits.drain hsize, List.map_map]
    rfl
  constructor
  case written => exact hwritten
  case frames => exact hframes
  case documents => exact fun e he => ⟨Utf8.text?_octets _, hdocument e he⟩
  case messages =>
    have hbodies : Server.bodiesOf v.written = envelopes.map Json.encode := by
      rw [Server.bodiesOf, hframes]
      have hall := bodies_of_octets (envelopes.map Json.encode)
      rwa [List.map_map] at hall
    rw [Server.messages, hbodies, List.map_map]
    refine List.map_congr_left fun e he => ?_
    rw [Function.comp_apply, Json.decodeSoft, hdocument e he]

/-! ## What passes has distinct keys -/

/-- Whether the objects in a message that was tried have distinct keys. -/
def Passage.IsDistinct : Passage → Prop
  | .tried _ envelope _ => envelope.hasDistinctKeys = true
  | .handled _ => True

/-- Whether the objects in what a caller hands over have distinct keys. -/
def Operation.IsDistinct : Operation → Prop
  | .connect _ connection => ∀ options ∈ connection.options, options.hasDistinctKeys = true
  | .request _ _ params => params.hasDistinctKeys = true
  | .notify _ _ params => params.hasDistinctKeys = true
  | .adjust (.setCapability _ _ v) => v.hasDistinctKeys = true
  | _ => True

instance (operation : Operation) : Decidable operation.IsDistinct := by
  unfold Operation.IsDistinct
  split <;> infer_instance

/-- What a session says because of a body has distinct keys, since the body was
read. -/
theorem Session.Answers.distinct {body : List UInt8} {envelope : Value}
    (h : Answers body envelope) : envelope.hasDistinctKeys = true := by
  cases h with
  | echo hbody =>
      obtain ⟨text, -, hmessage⟩ := Option.bind_eq_some_iff.1 hbody
      rw [Peer.messageOf?] at hmessage
      split at hmessage
      · next v hdecode =>
          have hid := Incoming.distinct_id (Json.distinct_of_decode hdecode) hmessage
          exact Envelope.distinct_response hid rfl
      · cases hmessage
  | ready => rfl
  | leaving => rfl

theorem Peer.distinct_of_passages {p : Peer} {operation : Operation} (hgiven : operation.IsDistinct)
    {x : Passage} (h : x ∈ p.passages operation) : x.IsDistinct := by
  cases operation with
  | close id =>
      rw [passages] at h
      split at h
      · cases h
      · rw [List.mem_singleton.1 h]
        exact Envelope.distinct_request rfl _ _
  | request id method params =>
      rw [passages] at h
      split at h
      · cases h
      · rw [List.mem_singleton.1 h]
        exact Envelope.distinct_request hgiven _ _
  | notify id method params =>
      rw [passages] at h
      split at h
      · cases h
      · rw [List.mem_singleton.1 h]
        exact Envelope.distinct_notification hgiven _
  | process =>
      rw [passages] at h
      split at h
      · cases h
      · obtain ⟨body, rfl | ⟨envelope, hanswers, rfl⟩⟩ := Session.mem_passages h
        · trivial
        · exact hanswers.distinct
  | _ => cases h

theorem Link.distinct_of_passages {l : Link} {operation : Operation}
    (hgiven : operation.IsDistinct) {x : Passage} (h : x ∈ l.passages operation) :
    x.IsDistinct := by
  rw [passages] at h
  cases hconcerned : l.concerned? operation with
  | none =>
      rw [hconcerned] at h
      cases h
  | some p =>
      rw [hconcerned] at h
      exact Peer.distinct_of_passages hgiven h

namespace Client

theorem distinct_of_passagesOf {c : Client} (hc : c.settings.capabilities.IsDistinct)
    {index : Nat} {operation : Operation} (hgiven : operation.IsDistinct) {x : Passage}
    (h : x ∈ c.passagesOf index operation) : x.IsDistinct := by
  rw [passagesOf] at h
  split at h
  · exact Link.distinct_of_passages hgiven h
  · split at h
    · cases operation with
      | connect command connection =>
          rw [openingPassages] at h
          split at h
          · cases h
          · rw [List.mem_singleton.1 h]
            exact Envelope.distinct_request (distinct_handshakeParameters hc hgiven c.processId) _ _
      | _ => cases h
    · cases h

theorem distinct_step {c : Client} (hc : c.Ordered) (hdistinct : c.settings.capabilities.IsDistinct)
    {operation : Operation} (hgiven : operation.IsDistinct) :
    (c.step operation).2.settings.capabilities.IsDistinct := by
  rw [settings_step hc]
  cases operation with
  | adjust change =>
      cases change with
      | setCapability category key v =>
          exact hdistinct.put (Members.distinct_set (hdistinct category) key hgiven)
      | removeCapability category key =>
          exact hdistinct.put (Members.distinct_remove (hdistinct category) key)
      | _ => exact hdistinct
  | _ => exact hdistinct

/-! ## Runs -/

theorem distinct_of_run {index : Nat} (operations : List Operation) {c : Client} (hc : c.Ordered)
    (hdistinct : c.settings.capabilities.IsDistinct)
    (hgiven : ∀ operation ∈ operations, operation.IsDistinct) :
    ∀ x ∈ c.passages index operations, x.IsDistinct := by
  induction operations generalizing c with
  | nil => exact fun x hx => nomatch hx
  | cons operation rest ih =>
      rw [List.forall_mem_cons] at hgiven
      intro x hx
      rcases List.mem_append.1 hx with hnow | hlater
      · exact distinct_of_passagesOf hdistinct hgiven.1 hnow
      · exact ih (hc.step operation) (distinct_step hc hdistinct hgiven.1) hgiven.2 x hlater

theorem readsBack_of_told {l : Link} {passed : List Passage} (htold : Told l passed)
    (hdistinct : ∀ x ∈ passed, x.IsDistinct) (hfits : ∀ e ∈ writtenOf passed, Envelope.Fits e) :
    l.server.ReadsBack (writtenOf passed) := by
  refine readsBack_of_writes ?_ (fun e he => ?_) hfits
  · rw [← wires_eq_writtenOf]
    exact htold.reached
  · obtain ⟨x, hx, hwritten⟩ := List.mem_filterMap.1 he
    cases x with
    | handled body => cases hwritten
    | tried caller envelope written =>
        cases written <;> cases hwritten
        exact hdistinct _ hx

/-- What every server of every run was sent is read back. -/
theorem readsBack_of_run {settings : Settings} {processId : Nat} {launcher : Launcher}
    {operations : List Operation} {index : Nat} {l : Link}
    (hl : ((initial settings processId launcher).run operations).links[index]? = some l)
    (hsettings : settings.capabilities.IsDistinct)
    (hgiven : ∀ operation ∈ operations, operation.IsDistinct)
    (hfits : ∀ e ∈ writtenOf ((initial settings processId launcher).passages index operations),
      Envelope.Fits e) :
    l.server.ReadsBack (writtenOf ((initial settings processId launcher).passages index operations)) := by
  have htold := told_of_run settings processId launcher operations hl
  have hordered := ordered_initial settings processId launcher
  exact readsBack_of_told htold (distinct_of_run operations hordered hsettings hgiven) hfits

/-- A float without a spelling is sent, a request cannot be, and an identifier is
echoed. -/
def mixedTraffic : List Operation :=
  [.connect "server" {},
    .server 0 (.emit (Wire.frameText "\x7b\"id\":1,\"result\":null\x7d")),
    .process,
    .notify 1 "$/progress" (.array [.float ⟨0x7FF8000000000000⟩, .string "é"]),
    .server 0 (.failWrites (some .brokenPipe)),
    .request 1 "textDocument/hover" .null,
    .server 0 (.failWrites none),
    .server 0 (.emit (Wire.frameText "\x7b\"id\":[1],\"method\":\"ping\"\x7d")),
    .process]

theorem readsBack_of_mixedTraffic :
    ∃ l, ((initial {} 0 {}).run mixedTraffic).links[0]? = some l ∧
      (Settings.capabilities {}).IsDistinct ∧
      (∀ operation ∈ mixedTraffic, operation.IsDistinct) ∧
      (∀ e ∈ writtenOf ((initial {} 0 {}).passages 0 mixedTraffic), Envelope.Fits e) ∧
      (writtenOf ((initial {} 0 {}).passages 0 mixedTraffic)).length = 4 ∧
      l.server.ReadsBack (writtenOf ((initial {} 0 {}).passages 0 mixedTraffic)) := by
  have hsettings : (Settings.capabilities {}).IsDistinct := by
    intro category
    cases category <;> decide
  have hgiven : ∀ operation ∈ mixedTraffic, operation.IsDistinct := by decide
  have hfits : ∀ e ∈ writtenOf ((initial {} 0 {}).passages 0 mixedTraffic), Envelope.Fits e := by
    decide +kernel
  have hfour : (writtenOf ((initial {} 0 {}).passages 0 mixedTraffic)).length = 4 := by
    decide +kernel
  have hlinks : ((initial {} 0 {}).run mixedTraffic).links.length = 1 := by decide +kernel
  have hl : ((initial {} 0 {}).run mixedTraffic).links[0]? =
      some ((initial {} 0 {}).run mixedTraffic).links[0] := List.getElem?_eq_getElem (by omega)
  exact ⟨_, hl, hsettings, hgiven, hfits, hfour, readsBack_of_run hl hsettings hgiven hfits⟩

end Client

end LspClient
