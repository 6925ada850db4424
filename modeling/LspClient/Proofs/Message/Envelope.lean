import LspClient.Proofs.Json.RoundTrip
import LspClient.Proofs.Wire.Reassembly
import LspClient.Message.Envelope
import LspClient.Message.Incoming

/-!
# Envelopes are understood as they are meant

An envelope passes through four layers on its way out and through the same four
on the way in: it is built from its parts, written as text, framed, and cut
somewhere on the wire. What comes out at the other end is the message that the
sender meant. Only parameters that are neither object nor array do not arrive,
since they are not sent.

Each layer has its own theorem, and what is left to say here is that an
envelope meets their conditions when its parts do: its own keys are distinct
from each other, it holds no floats of its own, and it adds one level of
nesting. That is why the parts may use all levels but one.
-/

namespace LspClient.Envelope

open Json (Value Members)

/-- An envelope before it is built. -/
inductive Draft where
  | request (id : RequestId) (method : String) (params : Value)
  | notification (method : String) (params : Value)
  | response (id result : Value)

namespace Draft

/-- The envelope that is built. -/
def build : Draft → Value
  | .request id method params => Envelope.request id method params
  | .notification method params => Envelope.notification method params
  | .response id result => Envelope.response id result

/-- The values that it is built from. -/
def parts : Draft → List Value
  | .request _ _ params => [params]
  | .notification _ params => [params]
  | .response id result => [id, result]

/-- Parameters as they arrive. -/
def passed (params : Value) : Value :=
  if params.isContainer then params else .null

/-- The message that is meant. -/
def meant : Draft → Incoming
  | .request id method params => .request id.toJson method (passed params)
  | .notification method params => .notification method (passed params)
  | .response id result => .response ⟨id, result, none⟩

theorem classify?_build (d : Draft) : Incoming.classify? d.build = some d.meant := by
  cases d with
  | request id method params =>
      cases hparams : params.isContainer <;>
        simp [build, meant, passed, Envelope.request, call, version, parameters, hparams,
          RequestId.toJson, Incoming.classify?, Value.member, Value.member?, Value.members?,
          Json.Members.get?, Value.string?]
  | notification method params =>
      cases hparams : params.isContainer <;>
        simp [build, meant, passed, Envelope.notification, version, parameters, hparams,
          Incoming.classify?, Value.member, Value.member?, Value.members?, Json.Members.get?,
          Value.string?]
  | response id result =>
      simp [build, meant, Envelope.response, version, Incoming.classify?, Value.member,
        Value.member?, Value.members?, Json.Members.get?, Value.string?]

end Draft

/-! ## What is kept on the way -/

/-- A value that arrives as it is, where containers may nest so deep. -/
structure Kept (room : Nat) (v : Value) : Prop where
  keys : v.hasDistinctKeys = true
  floats : v.hasFiniteFloats = true
  depth : v.depth ≤ room

theorem Kept.object {room : Nat} {members : Members Value} (hkeys : members.keys.Nodup)
    (h : ∀ member ∈ members, Kept room member.2) : Kept (room + 1) (.object members) := by
  -- one more level for all members together
  suffices hparts : Value.distinctInMembers members = true ∧
      Value.finiteInMembers members = true ∧ Value.depthOfMembers members ≤ room by
    refine ⟨?_, ?_, ?_⟩
    · rw [Value.hasDistinctKeys, hparts.1]
    · rw [Value.hasFiniteFloats, hparts.2.1]
    · rw [Value.depth]
      omega
  induction members with
  | nil => exact ⟨rfl, rfl, Nat.zero_le room⟩
  | cons member members ih =>
      obtain ⟨key, v⟩ := member
      rw [Members.keys, List.map_cons, List.nodup_cons] at hkeys
      rw [List.forall_mem_cons] at h
      obtain ⟨hdistinct, hfinite, hdepth⟩ := ih hkeys.2 h.2
      refine ⟨Value.distinctInMembers_cons.2 ⟨hkeys.1, h.1.keys, hdistinct⟩, ?_, ?_⟩
      · rw [Value.finiteInMembers, h.1.floats, hfinite]
        rfl
      · rw [Value.depthOfMembers]
        exact max_le h.1.depth hdepth

theorem Kept.string (room : Nat) (text : String) : Kept room (.string text) :=
  ⟨rfl, rfl, Nat.zero_le room⟩

theorem Kept.id (room : Nat) (id : RequestId) : Kept room id.toJson :=
  ⟨rfl, rfl, Nat.zero_le room⟩

theorem Draft.kept_build {room : Nat} {d : Draft} (h : ∀ part ∈ d.parts, Kept room part) :
    Kept (room + 1) d.build := by
  cases d with
  | request id method params =>
      have hparams : Kept room params := h params List.mem_cons_self
      refine Kept.object ?_ ?_ <;> cases hcontainer : params.isContainer <;>
        simp [parameters, hcontainer, version, Members.keys, hparams, Kept.string, Kept.id]
  | notification method params =>
      have hparams : Kept room params := h params List.mem_cons_self
      refine Kept.object ?_ ?_ <;> cases hcontainer : params.isContainer <;>
        simp [parameters, hcontainer, version, Members.keys, hparams, Kept.string]
  | response id result =>
      have hid : Kept room id := h id List.mem_cons_self
      have hresult : Kept room result := h result (List.mem_cons_of_mem id List.mem_cons_self)
      refine Kept.object ?_ ?_ <;> simp [version, Members.keys, hid, hresult, Kept.string]

/-! ## All layers -/

/-- An envelope that is fed in whatever turns comes out as one body, and what
this body says is what was meant. -/
theorem understood_of_wire {d : Draft}
    (hparts : ∀ part ∈ d.parts, Kept (Json.maxDepth - 1) part)
    (hsize : (Utf8.octets (Json.encode d.build)).length ≤ Wire.maxMessageSize)
    {turns : List Wire.Turn} (hfed : Wire.fed turns = wire d.build) :
    ∃ body text, (Wire.FrameBuffer.empty.play turns).1 ++
        (Wire.FrameBuffer.empty.play turns).2.drain.1 = [.ok body] ∧
      (Wire.FrameBuffer.empty.play turns).2.drain.2 = .empty ∧
      Utf8.text? body = some text ∧ Json.decode text = .ok d.build ∧
      Incoming.classify? d.build = some d.meant := by
  have hkept : Kept Json.maxDepth d.build := Draft.kept_build hparts
  have hframes : Wire.fed turns = Wire.frames [Utf8.octets (Json.encode d.build)] := by
    rw [hfed, wire, Wire.frameText, Wire.frames, List.flatMap_singleton]
  obtain ⟨hresults, hnothing⟩ :=
    Wire.FrameBuffer.results_of_frames (List.forall_mem_singleton.2 hsize) hframes
  exact ⟨_, _, hresults, hnothing, Utf8.text?_octets _,
    Json.decode_of_finite hkept.keys hkept.floats hkept.depth, d.classify?_build⟩

/-- A call whose method and parameters need escapes and more than one octet for
a character. -/
def quotedCall : Draft :=
  .request .first "é\"\n" (.object [("ключ", .array [.integer (-1), .object []]), ("", .null)])

/-- Its octets, cut inside the header block. -/
def quotedTurns : List Wire.Turn :=
  [.feed ((wire quotedCall.build).take 20), .ask, .feed ((wire quotedCall.build).drop 20)]

theorem understood_of_quotedCall :
    ∃ body text, (Wire.FrameBuffer.empty.play quotedTurns).1 ++
        (Wire.FrameBuffer.empty.play quotedTurns).2.drain.1 = [.ok body] ∧
      (Wire.FrameBuffer.empty.play quotedTurns).2.drain.2 = .empty ∧
      Utf8.text? body = some text ∧ Json.decode text = .ok quotedCall.build ∧
      Incoming.classify? quotedCall.build = some quotedCall.meant := by
  refine understood_of_wire ?_ ?_ ?_
  · exact List.forall_mem_singleton.2 ⟨by decide, by decide, by decide⟩
  · decide +kernel
  · decide +kernel

end LspClient.Envelope
