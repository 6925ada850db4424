import LspClient.Handshake.Parameters
import LspClient.Message.Envelope
import LspClient.Message.Incoming
import LspClient.Proofs.Json.DistinctKeys

/-!
# What is sent has distinct keys

An envelope adds members of its own to the values that it is built from, and their
keys differ from each other. So the objects in it have distinct keys if those in the
values have. The parameters of the handshake are built from the settings and the
connection in the same way, and their values are texts but for the capabilities and
what the caller wants the server to be told.

What comes from a server was read from a text, so it has distinct keys in any case.
That is what lets a server's identifier be echoed.
-/

namespace LspClient

open Json (Value Members)

namespace Envelope

theorem distinct_request {params : Value} (h : params.hasDistinctKeys = true) (id : RequestId)
    (method : String) : (request id method params).hasDistinctKeys = true := by
  rw [request, call, Value.hasDistinctKeys_object]
  cases hcontainer : params.isContainer <;>
    simp [parameters, hcontainer, version, Members.keys, h, Value.hasDistinctKeys, RequestId.toJson]

theorem distinct_notification {params : Value} (h : params.hasDistinctKeys = true)
    (method : String) : (notification method params).hasDistinctKeys = true := by
  rw [notification, Value.hasDistinctKeys_object]
  cases hcontainer : params.isContainer <;>
    simp [parameters, hcontainer, version, Members.keys, h, Value.hasDistinctKeys]

theorem distinct_response {id result : Value} (hid : id.hasDistinctKeys = true)
    (hresult : result.hasDistinctKeys = true) : (response id result).hasDistinctKeys = true := by
  rw [response, Value.hasDistinctKeys_object]
  simp [version, Members.keys, hid, hresult, Value.hasDistinctKeys]

theorem distinct_failure {id : Value} (h : id.hasDistinctKeys = true) (code : Int64)
    (message : String) : (failure id code message).hasDistinctKeys = true := by
  have herror : (Value.object [("code", .integer code),
      ("message", .string message)]).hasDistinctKeys = true := rfl
  rw [failure, Value.hasDistinctKeys_object]
  refine ⟨by simp [version, Members.keys], ?_⟩
  exact List.forall_mem_cons.2 ⟨rfl, List.forall_mem_cons.2 ⟨h,
    List.forall_mem_singleton.2 herror⟩⟩

end Envelope

/-- Whether the keys of every object among the capabilities are distinct. -/
def ClientCapabilities.IsDistinct (c : ClientCapabilities) : Prop :=
  ∀ category, (Value.object (c.get category)).hasDistinctKeys = true

theorem ClientCapabilities.get_put (c : ClientCapabilities) (category other : Category)
    (members : Members Value) :
    (c.put category members).get other = if category = other then members else c.get other := by
  cases category <;> cases other <;> rfl

theorem ClientCapabilities.IsDistinct.put {c : ClientCapabilities} (h : c.IsDistinct)
    {category : Category} {members : Members Value}
    (hmembers : (Value.object members).hasDistinctKeys = true) :
    (c.put category members).IsDistinct := by
  intro other
  rw [get_put]
  split
  · exact hmembers
  · exact h other

theorem ClientCapabilities.IsDistinct.toJson {c : ClientCapabilities} (h : c.IsDistinct) :
    c.toJson.hasDistinctKeys = true := by
  rw [ClientCapabilities.toJson, Value.hasDistinctKeys_object]
  constructor
  · have hall : (Category.all.map Category.key).Nodup := by decide
    rw [Members.keys, List.map_map]
    exact hall.sublist (List.filter_sublist.map Category.key)
  · intro member hmember
    obtain ⟨category, -, rfl⟩ := List.mem_map.1 hmember
    exact h category

theorem distinct_announcedFolders (c : Connection) :
    c.announcedFolders.hasDistinctKeys = true := by
  have hfolder (f : WorkspaceFolder) : f.toJson.hasDistinctKeys = true := rfl
  rw [Connection.announcedFolders]
  split
  · rfl
  · rfl
  · rw [Value.hasDistinctKeys_array]
    intro v hv
    obtain ⟨f, -, rfl⟩ := List.mem_map.1 hv
    exact hfolder f

theorem distinct_textOrNull (text : Option String) : (textOrNull text).hasDistinctKeys = true := by
  cases text <;> rfl

theorem distinct_handshakeParameters {s : Settings} {connection : Connection}
    (hcapabilities : s.capabilities.IsDistinct)
    (hoptions : ∀ options ∈ connection.options, options.hasDistinctKeys = true)
    (processId : Nat) : (handshakeParameters processId s connection).hasDistinctKeys = true := by
  have hclient : (Value.object [("name", .string s.clientName),
      ("version", .string s.clientVersion)]).hasDistinctKeys = true := rfl
  rw [handshakeParameters, Value.hasDistinctKeys_object]
  cases hgiven : connection.options with
  | none =>
      simp [Members.keys, Value.hasDistinctKeys, distinct_announcedFolders, distinct_textOrNull,
        hcapabilities.toJson, Value.distinctInMembers]
  | some options =>
      have hdistinct := hoptions options hgiven
      simp [Members.keys, Value.hasDistinctKeys, distinct_announcedFolders, distinct_textOrNull,
        hcapabilities.toJson, Value.distinctInMembers, hdistinct]

/-- A server's request has an identifier with distinct keys, since it was read. -/
theorem Incoming.distinct_id {v id params : Value} {method : String}
    (hv : v.hasDistinctKeys = true) (h : classify? v = some (.request id method params)) :
    id.hasDistinctKeys = true := by
  cases v with
  | object members =>
      rw [classify?] at h
      split at h
      · split at h
        · cases h
        · cases h
          exact Value.distinct_of_member hv "id"
      · split at h
        · split at h <;> cases h
        · cases h
  | _ => cases h

end LspClient
