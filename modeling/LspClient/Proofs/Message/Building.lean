import LspClient.Json.Event
import LspClient.Proofs.Message.DistinctKeys

/-!
# Whatever is built has distinct keys

A program gets at values by reading them, by being told them in another format, by
collecting parts, by looking into values that it has and by changing these in place,
at any depth. In all of them the keys of every object are distinct.

A program is taken to hold the values that it has made, all of them, since values can
be copied. One operation makes one more value from those that are held (`Makes`), and
what a program may come to hold is what a row of operations leads to (`Built`). The
invariant is that all held values have distinct keys, and it is kept because no
operation does anything to an object but to store and to remove members one by one.

A change in place is a change of one part and nothing else, so it is enough to know
what it does to that part (`distinct_of_changeAt`). Telling is a row of steps itself,
and there the containers that are still unfinished have distinct keys too. Whatever
format a value comes from, a configuration document for one, it is told.
-/

namespace LspClient

open Json (Value Members)

namespace Json

namespace Members

variable {α : Type}

theorem mem_replace {m : Members α} {key : String} {v : α} {x : String × α}
    (h : x ∈ m.replace key v) : x ∈ m ∨ x.2 = v := by
  induction m with
  | nil => cases h
  | cons member rest ih =>
      rw [replace] at h
      split at h
      · rcases List.mem_cons.1 h with rfl | hrest
        · exact .inr rfl
        · exact .inl (List.mem_cons_of_mem member hrest)
      · rcases List.mem_cons.1 h with rfl | hrest
        · exact .inl List.mem_cons_self
        · exact (ih hrest).imp_left (List.mem_cons_of_mem member)

end Members

namespace Value

/-! ## Changes of one value -/

theorem distinct_of_set {v part : Value} (hv : v.hasDistinctKeys = true) (key : String)
    (hpart : part.hasDistinctKeys = true) : (v.set key part).hasDistinctKeys = true := by
  cases v with
  | object members => exact Members.distinct_set hv key hpart
  | _ => exact hv

theorem distinct_of_remove {v : Value} (hv : v.hasDistinctKeys = true) (key : String) :
    (v.remove key).hasDistinctKeys = true := by
  cases v with
  | object members => exact Members.distinct_remove hv key
  | _ => exact hv

theorem distinct_of_push {v part : Value} (hv : v.hasDistinctKeys = true)
    (hpart : part.hasDistinctKeys = true) : (v.push part).hasDistinctKeys = true := by
  cases v with
  | array items =>
      rw [hasDistinctKeys_array] at hv
      rw [push, hasDistinctKeys_array]
      exact List.forall_mem_append.2 ⟨hv, List.forall_mem_singleton.2 hpart⟩
  | _ => exact hv

theorem distinct_of_replaceMember {v part : Value} (hv : v.hasDistinctKeys = true)
    (key : String) (hpart : part.hasDistinctKeys = true) :
    (v.replaceMember key part).hasDistinctKeys = true := by
  cases v with
  | object members =>
      rw [hasDistinctKeys_object] at hv
      rw [replaceMember, hasDistinctKeys_object, Members.keys_replace]
      refine ⟨hv.1, fun member hmember => ?_⟩
      rcases Members.mem_replace hmember with hold | hnew
      · exact hv.2 member hold
      · rwa [hnew]
  | _ => exact hv

theorem distinct_of_replaceItem {v part : Value} (hv : v.hasDistinctKeys = true) (index : Nat)
    (hpart : part.hasDistinctKeys = true) :
    (v.replaceItem index part).hasDistinctKeys = true := by
  cases v with
  | array items =>
      rw [hasDistinctKeys_array] at hv
      rw [replaceItem, hasDistinctKeys_array]
      intro w hw
      rcases List.mem_or_eq_of_mem_set hw with hold | rfl
      · exact hv w hold
      · exact hpart
  | _ => exact hv

theorem distinct_of_item? {v part : Value} {index : Nat} (hv : v.hasDistinctKeys = true)
    (hpart : v.item? index = some part) : part.hasDistinctKeys = true := by
  obtain ⟨items, hitems, hget⟩ := Option.bind_eq_some_iff.1 hpart
  cases v with
  | array all =>
      cases hitems
      rw [hasDistinctKeys_array] at hv
      exact hv part (List.mem_of_getElem? hget)
  | _ => cases hitems

end Value

/-! ## Changes in place -/

/-- A place in a container. -/
inductive Place where
  | member (key : String)
  | item (index : Nat)

namespace Value

/-- The part at a place. -/
def part? (v : Value) : Place → Option Value
  | .member key => v.member? key
  | .item index => v.item? index

/-- Overwrites the part at a place. -/
def replacePart (v : Value) (place : Place) (part : Value) : Value :=
  match place with
  | .member key => v.replaceMember key part
  | .item index => v.replaceItem index part

/-- The part that is reached through some places, from the outside in. -/
def at? (v : Value) : List Place → Option Value
  | [] => some v
  | place :: path => (v.part? place).bind fun part => part.at? path

/-- Changes the part that is reached through some places. If there is none,
nothing is changed. -/
def changeAt (change : Value → Value) (v : Value) : List Place → Value
  | [] => change v
  | place :: path =>
    match v.part? place with
    | some part => v.replacePart place (changeAt change part path)
    | none => v

theorem distinct_of_part? {v part : Value} {place : Place} (hv : v.hasDistinctKeys = true)
    (hpart : v.part? place = some part) : part.hasDistinctKeys = true := by
  cases place with
  | member key => exact distinct_of_member? hv hpart
  | item index => exact distinct_of_item? hv hpart

theorem distinct_of_replacePart {v part : Value} (hv : v.hasDistinctKeys = true) (place : Place)
    (hpart : part.hasDistinctKeys = true) :
    (v.replacePart place part).hasDistinctKeys = true := by
  cases place with
  | member key => exact distinct_of_replaceMember hv key hpart
  | item index => exact distinct_of_replaceItem hv index hpart

theorem distinct_of_at? {path : List Place} : ∀ {v part : Value}, v.hasDistinctKeys = true →
    v.at? path = some part → part.hasDistinctKeys = true := by
  induction path with
  | nil =>
      intro v part hv h
      rwa [← Option.some.inj h]
  | cons place path ih =>
      intro v part hv h
      obtain ⟨w, hw, hpart⟩ := Option.bind_eq_some_iff.1 h
      exact ih (distinct_of_part? hv hw) hpart

/-- A change that is harmless where it is made is harmless for the whole. -/
theorem distinct_of_changeAt {change : Value → Value}
    (hchange : ∀ w, w.hasDistinctKeys = true → (change w).hasDistinctKeys = true)
    {path : List Place} : ∀ {v : Value}, v.hasDistinctKeys = true →
    (v.changeAt change path).hasDistinctKeys = true := by
  induction path with
  | nil => exact fun hv => hchange _ hv
  | cons place path ih =>
      intro v hv
      rw [changeAt]
      cases hpart : v.part? place with
      | none => exact hv
      | some part => exact distinct_of_replacePart hv place (ih (distinct_of_part? hv hpart))

end Value

/-! ## Values that are told -/

/-- The keys in what has been built of a container are distinct. -/
def Unfinished.IsDistinct : Unfinished → Prop
  | .array items => ∀ v ∈ items, v.hasDistinctKeys = true
  | .object members => (Value.object members).hasDistinctKeys = true
  | .member members _ => (Value.object members).hasDistinctKeys = true

/-- The keys in all that has been heard are distinct. -/
def Heard.IsDistinct : Heard → Prop
  | .open containers => ∀ c ∈ containers, c.IsDistinct
  | .done v => v.hasDistinctKeys = true

namespace Heard

theorem distinct_of_complete {v : Value} {containers : List Unfinished} {heard : Heard}
    (hv : v.hasDistinctKeys = true) (hcontainers : ∀ c ∈ containers, c.IsDistinct)
    (h : complete v containers = some heard) : heard.IsDistinct := by
  cases containers with
  | nil =>
      cases h
      exact hv
  | cons container outer =>
      obtain ⟨hcontainer, houter⟩ := List.forall_mem_cons.1 hcontainers
      cases container with
      | array items =>
          cases h
          exact List.forall_mem_cons.2 ⟨List.forall_mem_cons.2 ⟨hv, hcontainer⟩, houter⟩
      | member members key =>
          cases h
          exact List.forall_mem_cons.2 ⟨Members.distinct_set hcontainer key hv, houter⟩
      | object members => cases h

theorem distinct_of_hear {containers : List Unfinished} {e : Event} {heard : Heard}
    (hcontainers : ∀ c ∈ containers, c.IsDistinct) (h : hear containers e = some heard) :
    heard.IsDistinct := by
  cases e with
  | null | bool | signed | float | text => exact distinct_of_complete rfl hcontainers h
  | unsigned n =>
      refine distinct_of_complete ?_ hcontainers h
      rw [Value.ofUnsigned]
      split <;> rfl
  | beginArray =>
      cases h
      exact List.forall_mem_cons.2 ⟨List.forall_mem_nil _, hcontainers⟩
  | beginObject =>
      cases h
      exact List.forall_mem_cons.2 ⟨rfl, hcontainers⟩
  | key key =>
      simp only [hear] at h
      split at h
      · obtain ⟨hmembers, houter⟩ := List.forall_mem_cons.1 hcontainers
        cases h
        exact List.forall_mem_cons.2 ⟨hmembers, houter⟩
      · cases h
  | endArray =>
      simp only [hear] at h
      split at h
      · obtain ⟨hitems, houter⟩ := List.forall_mem_cons.1 hcontainers
        refine distinct_of_complete ?_ houter h
        rw [Value.hasDistinctKeys_array]
        exact fun v hv => hitems v (List.mem_reverse.1 hv)
      · cases h
  | endObject =>
      simp only [hear] at h
      split at h
      · obtain ⟨hmembers, houter⟩ := List.forall_mem_cons.1 hcontainers
        exact distinct_of_complete hmembers houter h
      · cases h

theorem distinct_of_run {es : List Event} : ∀ {heard : Heard} {v : Value}, heard.IsDistinct →
    heard.run es = some v → v.hasDistinctKeys = true := by
  induction es with
  | nil =>
      intro heard v hheard h
      cases heard with
      | «open» containers => cases h
      | done w =>
          cases h
          exact hheard
  | cons e es ih =>
      intro heard v hheard h
      cases heard with
      | done w => cases h
      | «open» containers =>
          rw [run] at h
          split at h
          · next heard' hhear => exact ih (distinct_of_hear hheard hhear) h
          · cases h

end Heard

/-- However a value is told, its keys are distinct. -/
theorem Value.distinct_of_ofEvents? {es : List Event} {v : Value}
    (h : Value.ofEvents? es = some v) : v.hasDistinctKeys = true := by
  have hnothing : (Heard.open []).IsDistinct := List.forall_mem_nil _
  exact Heard.distinct_of_run hnothing h

end Json

/-! ## Operations -/

theorem distinct_of_decodeSoft (text : String) :
    (Json.decodeSoft text).hasDistinctKeys = true := by
  rw [Json.decodeSoft]
  cases h : Json.decode text with
  | ok v => exact Json.distinct_of_decode h
  | error e => rfl

/-- What is done to a value in place, with values that are held. -/
inductive Change (held : List Value) : (Value → Value) → Prop
  | overwrite {part : Value} (hpart : part ∈ held) : Change held fun _ => part
  | set (key : String) {part : Value} (hpart : part ∈ held) : Change held fun v => v.set key part
  | remove (key : String) : Change held fun v => v.remove key
  | push {part : Value} (hpart : part ∈ held) : Change held fun v => v.push part

/-- What one operation makes of values that are held. -/
inductive Makes (held : List Value) : Value → Prop
  | null : Makes held .null
  | bool (b : Bool) : Makes held (.bool b)
  | integer (n : Int64) : Makes held (.integer n)
  | float (x : Binary64) : Makes held (.float x)
  | string (s : String) : Makes held (.string s)
  /-- a value is read -/
  | decode {text : String} {v : Value} (h : Json.decode text = .ok v) : Makes held v
  | decodeSoft (text : String) : Makes held (Json.decodeSoft text)
  /-- a value is told in another format -/
  | told {es : List Json.Event} {v : Value} (h : Value.ofEvents? es = some v) : Makes held v
  /-- an object collects pairs, perhaps none -/
  | collect {pairs : List (String × Value)} (h : ∀ pair ∈ pairs, pair.2 ∈ held) :
      Makes held (.object (Members.ofList pairs))
  /-- an array collects elements, perhaps none -/
  | gather {items : List Value} (h : ∀ v ∈ items, v ∈ held) : Makes held (.array items)
  /-- a part is copied or taken out -/
  | part {v : Value} (hv : v ∈ held) {path : List Json.Place} {part : Value}
      (hpart : v.at? path = some part) : Makes held part
  /-- a value is changed at some place in it -/
  | change {v : Value} (hv : v ∈ held) (path : List Json.Place) {change : Value → Value}
      (hchange : Change held change) : Makes held (v.changeAt change path)
  | notification (method : String) {params : Value} (hparams : params ∈ held) :
      Makes held (Envelope.notification method params)
  | request (id : RequestId) (method : String) {params : Value} (hparams : params ∈ held) :
      Makes held (Envelope.request id method params)
  | response {id result : Value} (hid : id ∈ held) (hresult : result ∈ held) :
      Makes held (Envelope.response id result)
  | failure {id : Value} (hid : id ∈ held) (code : Int64) (message : String) :
      Makes held (Envelope.failure id code message)
  /-- capabilities are written as an object -/
  | capabilities {c : ClientCapabilities} (h : ∀ category, .object (c.get category) ∈ held) :
      Makes held c.toJson
  /-- a folder is written as an object -/
  | folder (f : WorkspaceFolder) : Makes held f.toJson
  /-- the parameters of a handshake are written as an object -/
  | handshake (processId : Nat) {s : Settings} {connection : Connection}
      (hcapabilities : ∀ category, .object (s.capabilities.get category) ∈ held)
      (hoptions : ∀ options ∈ connection.options, options ∈ held) :
      Makes held (handshakeParameters processId s connection)

/-- What a program holds after a row of operations. -/
inductive Built : List Value → Prop
  | nothing : Built []
  | operation {held : List Value} {v : Value} (h : Built held) (hv : Makes held v) :
      Built (v :: held)

theorem Change.distinct {held : List Value} {change : Value → Value}
    (hheld : ∀ v ∈ held, v.hasDistinctKeys = true) (h : Change held change) {v : Value}
    (hv : v.hasDistinctKeys = true) : (change v).hasDistinctKeys = true := by
  cases h with
  | overwrite hpart => exact hheld _ hpart
  | set key hpart => exact Value.distinct_of_set hv key (hheld _ hpart)
  | remove key => exact Value.distinct_of_remove hv key
  | push hpart => exact Value.distinct_of_push hv (hheld _ hpart)

/-- One operation keeps keys distinct. -/
theorem Makes.distinct {held : List Value} (hheld : ∀ v ∈ held, v.hasDistinctKeys = true)
    {v : Value} (h : Makes held v) : v.hasDistinctKeys = true := by
  cases h with
  | null | bool | integer | float | string | folder => rfl
  | decode h => exact Json.distinct_of_decode h
  | decodeSoft text => exact distinct_of_decodeSoft text
  | told h => exact Value.distinct_of_ofEvents? h
  | collect h => exact Members.distinct_ofList fun pair hpair => hheld _ (h pair hpair)
  | gather h => exact Value.hasDistinctKeys_array.2 fun w hw => hheld w (h w hw)
  | part hv hpart => exact Value.distinct_of_at? (hheld _ hv) hpart
  | change hv path hchange =>
      exact Value.distinct_of_changeAt (fun w => hchange.distinct hheld) (hheld _ hv)
  | notification method hparams =>
      exact Envelope.distinct_notification (hheld _ hparams) method
  | request id method hparams => exact Envelope.distinct_request (hheld _ hparams) id method
  | response hid hresult => exact Envelope.distinct_response (hheld _ hid) (hheld _ hresult)
  | failure hid code message => exact Envelope.distinct_failure (hheld _ hid) code message
  | capabilities h => exact ClientCapabilities.IsDistinct.toJson fun category => hheld _ (h category)
  | handshake processId hcapabilities hoptions =>
      exact distinct_handshakeParameters (fun category => hheld _ (hcapabilities category))
        (fun options ho => hheld _ (hoptions options ho)) processId

/-- Whatever operations a program performs, the keys of every object in every value
that it holds are distinct. -/
theorem distinct_of_built {held : List Value} (h : Built held) :
    ∀ v ∈ held, v.hasDistinctKeys = true := by
  induction h with
  | nothing => exact List.forall_mem_nil _
  | operation _ hv ih => exact List.forall_mem_cons.2 ⟨hv.distinct ih, ih⟩

/-- An object that is collected from two pairs of one key is put in an array, and in
there it is given the key a third time, with the array as the value. -/
theorem distinct_of_nestedChange :
    ((Value.array [.object (Members.ofList [("a", .null), ("a", .null)])]).changeAt
      (fun v => v.set "a" (.array [.object (Members.ofList [("a", .null), ("a", .null)])]))
      [.item 0]).hasDistinctKeys = true := by
  have hnull : Built [.null] := .operation .nothing .null
  have hobject : Built [.object (Members.ofList [("a", .null), ("a", .null)]), .null] :=
    .operation hnull (.collect (by simp))
  have harray := hobject.operation (.gather (List.forall_mem_singleton.2 List.mem_cons_self))
  have hchanged := harray.operation (.change List.mem_cons_self [.item 0]
    (.set "a" List.mem_cons_self))
  exact distinct_of_built hchanged _ List.mem_cons_self

end LspClient
