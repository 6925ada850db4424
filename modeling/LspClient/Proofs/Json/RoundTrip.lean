import LspClient.Proofs.Json.Words

/-!
# JSON values read back

Reading what was written for a value gives the value, with the floats that have
no spelling gone, as long as its containers do not nest too deep; and if they
do, that is what the reader says. Objects are meant to have distinct keys: of
two members with one key, reading keeps the place of the first and the value of
the second.

The induction is over the value, and what it says of a value is what the
machine does with the text of the value wherever it stands: with any containers
open around it and any text behind it. From a stage where a value may start the
machine gets to the stage that the complete value leads to, and what is left to
read is the text behind it. The open containers and the depth of the value
share the limit between them, which is what makes a sibling start with the same
room as the one before it.
-/

namespace LspClient.Json

namespace Value

mutual

/-- What is left of a value when it is written. A float that is no finite
number has no spelling and becomes null. -/
def inJson : Value → Value
  | .null => .null
  | .bool b => .bool b
  | .integer n => .integer n
  | .float x => if x.isFinite then .float x else .null
  | .string s => .string s
  | .array items => .array (itemsInJson items)
  | .object members => .object (membersInJson members)

def itemsInJson : List Value → List Value
  | [] => []
  | v :: items => inJson v :: itemsInJson items

def membersInJson : List (String × Value) → List (String × Value)
  | [] => []
  | (key, v) :: members => (key, inJson v) :: membersInJson members

end

mutual

/-- How deep the containers of a value nest. -/
def depth : Value → Nat
  | .null | .bool _ | .integer _ | .float _ | .string _ => 0
  | .array items => depthOfItems items + 1
  | .object members => depthOfMembers members + 1

def depthOfItems : List Value → Nat
  | [] => 0
  | v :: items => max (depth v) (depthOfItems items)

def depthOfMembers : List (String × Value) → Nat
  | [] => 0
  | (_, v) :: members => max (depth v) (depthOfMembers members)

end

mutual

/-- Whether the keys of every object in a value are distinct. -/
def hasDistinctKeys : Value → Bool
  | .null | .bool _ | .integer _ | .float _ | .string _ => true
  | .array items => distinctInItems items
  | .object members => distinctInMembers members

def distinctInItems : List Value → Bool
  | [] => true
  | v :: items => hasDistinctKeys v && distinctInItems items

def distinctInMembers : List (String × Value) → Bool
  | [] => true
  | (key, v) :: members =>
    !(Members.keys members).contains key && hasDistinctKeys v && distinctInMembers members

end

theorem distinctInItems_cons {v : Value} {items : List Value} :
    distinctInItems (v :: items) = true ↔
      v.hasDistinctKeys = true ∧ distinctInItems items = true := by
  rw [distinctInItems, Bool.and_eq_true]

theorem distinctInMembers_cons {key : String} {v : Value} {members : List (String × Value)} :
    distinctInMembers ((key, v) :: members) = true ↔
      key ∉ Members.keys members ∧ v.hasDistinctKeys = true ∧
        distinctInMembers members = true := by
  rw [distinctInMembers, Bool.and_eq_true, Bool.and_eq_true, and_assoc, Bool.not_eq_true',
    List.contains_eq_mem, decide_eq_false_iff_not]

mutual

/-- Whether every float in a value is a finite number. -/
def hasFiniteFloats : Value → Bool
  | .null | .bool _ | .integer _ | .string _ => true
  | .float x => x.isFinite
  | .array items => finiteInItems items
  | .object members => finiteInMembers members

def finiteInItems : List Value → Bool
  | [] => true
  | v :: items => hasFiniteFloats v && finiteInItems items

def finiteInMembers : List (String × Value) → Bool
  | [] => true
  | (_, v) :: members => hasFiniteFloats v && finiteInMembers members

end

mutual

/-- Where all floats are finite, nothing is lost. -/
theorem inJson_of_finite (v : Value) (h : v.hasFiniteFloats = true) : v.inJson = v := by
  match v with
  | .null | .bool _ | .integer _ | .string _ => rfl
  | .float x =>
      rw [hasFiniteFloats] at h
      rw [inJson, if_pos h]
  | .array items =>
      rw [hasFiniteFloats] at h
      rw [inJson, itemsInJson_of_finite items h]
  | .object members =>
      rw [hasFiniteFloats] at h
      rw [inJson, membersInJson_of_finite members h]

theorem itemsInJson_of_finite (items : List Value) (h : finiteInItems items = true) :
    itemsInJson items = items := by
  match items with
  | [] => rfl
  | v :: items =>
      rw [finiteInItems, Bool.and_eq_true] at h
      rw [itemsInJson, inJson_of_finite v h.1, itemsInJson_of_finite items h.2]

theorem membersInJson_of_finite (members : List (String × Value))
    (h : finiteInMembers members = true) : membersInJson members = members := by
  match members with
  | [] => rfl
  | (key, v) :: members =>
      rw [finiteInMembers, Bool.and_eq_true] at h
      rw [membersInJson, inJson_of_finite v h.1, membersInJson_of_finite members h.2]

end

mutual

/-- Only then. -/
theorem finite_of_inJson (v : Value) (h : v.inJson = v) : v.hasFiniteFloats = true := by
  match v with
  | .null | .bool _ | .integer _ | .string _ => rfl
  | .float x =>
      rw [hasFiniteFloats]
      refine Decidable.byContradiction fun hfinite => ?_
      rw [inJson, if_neg hfinite] at h
      cases h
  | .array items =>
      rw [inJson] at h
      rw [hasFiniteFloats]
      exact finite_of_itemsInJson items (Value.array.inj h)
  | .object members =>
      rw [inJson] at h
      rw [hasFiniteFloats]
      exact finite_of_membersInJson members (Value.object.inj h)

theorem finite_of_itemsInJson (items : List Value) (h : itemsInJson items = items) :
    finiteInItems items = true := by
  match items with
  | [] => rfl
  | v :: items =>
      rw [itemsInJson] at h
      obtain ⟨hv, hitems⟩ := List.cons.inj h
      rw [finiteInItems, finite_of_inJson v hv, finite_of_itemsInJson items hitems]
      rfl

theorem finite_of_membersInJson (members : List (String × Value))
    (h : membersInJson members = members) : finiteInMembers members = true := by
  match members with
  | [] => rfl
  | (key, v) :: members =>
      rw [membersInJson] at h
      obtain ⟨hmember, hmembers⟩ := List.cons.inj h
      rw [finiteInMembers, finite_of_inJson v (Prod.mk.inj hmember).2,
        finite_of_membersInJson members hmembers]
      rfl

end

end Value

/-! ## Steps of the machine -/

theorem Members.set_of_notMem {m : Members Value} {key : String} (h : key ∉ m.keys) (v : Value) :
    m.set key v = m ++ [(key, v)] := by
  induction m with
  | nil => rfl
  | cons member rest ih =>
      rw [Members.keys, List.map_cons, List.mem_cons, not_or] at h
      rw [Members.set, if_neg (by simpa using Ne.symm h.1), ih h.2, List.cons_append]

theorem Members.notMem_keys_concat {m : Members Value} {k key : String} (h : k ∉ m.keys)
    (hne : k ≠ key) (v : Value) : k ∉ Members.keys (m ++ [(key, v)]) := by
  rw [Members.keys, List.map_append, List.mem_append, not_or]
  exact ⟨h, fun hk => hne (List.mem_singleton.1 hk)⟩

namespace Stage

/-- What the machine makes of a text, from a stage on. The text is the end of
one that is `length` octets long. -/
def read (length : Nat) (s : Stage) (offset : Nat) (text : List Char) :
    Except DecodeError Value :=
  s.run length (Cursor.items ⟨offset, text⟩)

/-- From a stage the machine gets to the next one by reading a text up to its
rest. On the way `deepest` containers are open at once, and if that is too many
the machine stops there. -/
def Leads (length deepest : Nat) (s : Stage) (text : List Char) (next : Stage)
    (rest : List Char) : Prop :=
  ∀ offset,
    (deepest ≤ maxDepth →
      ∃ offset', s.read length offset text = next.read length offset' rest) ∧
    (maxDepth < deepest →
      ∃ offset', s.read length offset text = .error (.tooDeep maxDepth offset'))

variable {length : Nat} {s next : Stage} {text rest : List Char}

theorem leads_of_read (h : ∀ offset, ∃ offset',
    s.read length offset text = next.read length offset' rest) {deepest : Nat}
    (hdeepest : deepest ≤ maxDepth) : Leads length deepest s text next rest :=
  fun offset => ⟨fun _ => h offset, fun hdeep => absurd hdeepest (Nat.not_le_of_lt hdeep)⟩

/-- The second way is gone only if the first was not too deep. -/
theorem Leads.trans {between : Stage} {middle : List Char} {d e : Nat}
    (first : Leads length d s text between middle)
    (second : d ≤ maxDepth → Leads length e between middle next rest) :
    Leads length (max d e) s text next rest := by
  intro offset
  by_cases hd : d ≤ maxDepth
  · obtain ⟨offset', hfirst⟩ := (first offset).1 hd
    rw [hfirst]
    refine ⟨fun h => (second hd offset').1 ?_, fun h => (second hd offset').2 ?_⟩ <;> omega
  · obtain ⟨offset', hfirst⟩ := (first offset).2 (by omega)
    exact ⟨fun h => by omega, fun _ => ⟨offset', hfirst⟩⟩

theorem Leads.of_eq {d e : Nat} (h : Leads length d s text next rest) (hde : d = e) :
    Leads length e s text next rest :=
  hde ▸ h

/-! ### Tokens -/

theorem read_token {t : Located} {offset offset' : Nat}
    (hitems : Cursor.items ⟨offset, text⟩ = .ok t :: Cursor.items ⟨offset', rest⟩)
    (h : s.step t = .ok next) :
    s.read length offset text = next.read length offset' rest := by
  rw [read, hitems, run, h, read]

theorem leads_blank {deepest : Nat} (h : deepest ≤ maxDepth) :
    Leads length deepest s (' ' :: text) s text :=
  leads_of_read (fun offset => ⟨offset + 1, by rw [read, Cursor.items_blank rfl, read]⟩) h

theorem leads_structural {c : Char} {token : Token} (hc : Token.structural? c = some token)
    (hblank : Token.isBlank c = false) (h : ∀ offset, s.step ⟨offset, token⟩ = .ok next)
    {deepest : Nat} (hdeepest : deepest ≤ maxDepth) :
    Leads length deepest s (c :: text) next text :=
  leads_of_read (fun offset =>
    ⟨offset + 1, read_token (Cursor.items_structural hc hblank offset text) (h offset)⟩) hdeepest

theorem leads_quoted {content : String}
    (h : ∀ offset, s.step ⟨offset, .string content⟩ = .ok next) {deepest : Nat}
    (hdeepest : deepest ≤ maxDepth) :
    Leads length deepest s (Quoted.write content ++ text) next text := by
  refine leads_of_read (fun offset => ?_) hdeepest
  obtain ⟨offset', hitems⟩ := Cursor.items_quoted content offset text
  exact ⟨offset', read_token hitems (h offset)⟩

theorem leads_word {cs : List Char} {v : Value} (hcs : IsWord cs v) (htext : EndsWord text)
    (h : ∀ offset, s.step ⟨offset, .atom (String.ofList cs)⟩ = .ok next) {deepest : Nat}
    (hdeepest : deepest ≤ maxDepth) : Leads length deepest s (cs ++ text) next text := by
  refine leads_of_read (fun offset => ?_) hdeepest
  cases cs with
  | nil => exact absurd rfl hcs.nonempty
  | cons c cs =>
      obtain ⟨offset', hitems⟩ := Cursor.items_word hcs.chars htext offset
      exact ⟨offset', read_token hitems (h offset)⟩

/-- The bracket that opens a container. It is the one token that may be too
deep. -/
theorem leads_opening {c : Char} {token : Token} {waiting : List Pending} {inside : Stage}
    (hc : Token.structural? c = some token) (hblank : Token.isBlank c = false)
    (h : ∀ offset, s.step ⟨offset, token⟩ = enter waiting offset inside) :
    Leads length (waiting.length + 1) s (c :: text) inside text := by
  intro offset
  have hitems := Cursor.items_structural hc hblank offset text
  constructor
  · intro hroom
    refine ⟨offset + 1, read_token hitems ?_⟩
    rw [h, enter, if_pos (Nat.lt_of_succ_le hroom)]
  · intro hdeep
    refine ⟨offset, ?_⟩
    rw [read, hitems, run, h, enter, if_neg (by omega)]

theorem leads_comma (h : ∀ offset, s.step ⟨offset, .comma⟩ = .ok next) {deepest : Nat}
    (hdeepest : deepest ≤ maxDepth) :
    Leads length deepest s (',' :: ' ' :: text) next text := by
  have hcomma : Leads length deepest s (',' :: ' ' :: text) next (' ' :: text) :=
    leads_structural rfl rfl h hdeepest
  exact (hcomma.trans fun _ => leads_blank hdeepest).of_eq (Nat.max_self deepest)

theorem leads_key {done : Members Value} {outer : List Pending} {key : String}
    (h : ∀ offset, s.step ⟨offset, .string key⟩ = .ok (.colon done key outer))
    {deepest : Nat} (hdeepest : deepest ≤ maxDepth) :
    Leads length deepest s (Quoted.write key ++ ':' :: ' ' :: text)
      (.value (.member done key :: outer)) text := by
  have hkey : Leads length deepest s (Quoted.write key ++ ':' :: ' ' :: text)
      (.colon done key outer) (':' :: ' ' :: text) := leads_quoted h hdeepest
  have hcolon : Leads length deepest (.colon done key outer) (':' :: ' ' :: text)
      (.value (.member done key :: outer)) (' ' :: text) :=
    leads_structural rfl rfl (fun _ => rfl) hdeepest
  simpa only [Nat.max_self] using
    hkey.trans fun _ => hcolon.trans fun _ => leads_blank hdeepest

/-! ## Values -/

/-- A stage where a value may start, with containers that wait for it. The end
of an array is no start of a value, but may come as well. -/
def Awaits (s : Stage) (waiting : List Pending) : Prop :=
  ∀ offset token, token ≠ .endArray →
    s.step ⟨offset, token⟩ = startValue waiting ⟨offset, token⟩

theorem awaits_value (waiting : List Pending) : (value waiting).Awaits waiting :=
  fun _ _ _ => rfl

theorem awaits_firstElement (outer : List Pending) :
    (firstElement outer).Awaits (.element [] :: outer) :=
  fun _ _ h => if_neg h

theorem Awaits.leads_word {waiting : List Pending} (hs : s.Awaits waiting) {cs : List Char}
    {v : Value} (hcs : IsWord cs v) (hrest : EndsWord rest) (hwaiting : waiting.length ≤ maxDepth) :
    Leads length waiting.length s (cs ++ rest) (complete v waiting) rest := by
  refine Stage.leads_word hcs hrest (fun offset => ?_) hwaiting
  rw [hs offset (.atom _) nofun, startValue]
  dsimp only
  rw [hcs.reads]

theorem Awaits.leads_array {waiting : List Pending} (hs : s.Awaits waiting) :
    Leads length (waiting.length + 1) s ('[' :: text) (.firstElement waiting) text :=
  leads_opening rfl rfl fun offset => hs offset .beginArray nofun

theorem Awaits.leads_object {waiting : List Pending} (hs : s.Awaits waiting) :
    Leads length (waiting.length + 1) s ('{' :: text) (.firstKey waiting) text :=
  leads_opening rfl rfl fun offset => hs offset .beginObject nofun

theorem endsWord_writeElements (items : List Value) (rest : List Char) :
    EndsWord (writeElements items ++ rest) := by
  cases items with
  | nil =>
      rw [writeElements]
      exact endsWord_cons rfl _
  | cons v items =>
      rw [writeElements]
      exact endsWord_cons rfl _

theorem endsWord_writeMembers (members : List (String × Value)) (rest : List Char) :
    EndsWord (writeMembers members ++ rest) := by
  cases members with
  | nil =>
      rw [writeMembers]
      exact endsWord_cons rfl _
  | cons member members =>
      rw [writeMembers]
      exact endsWord_cons rfl _

mutual

/-- What the machine does with the text of a value, wherever the value stands. -/
theorem leads_write (v : Value) (hkeys : v.hasDistinctKeys = true) {s : Stage}
    {waiting : List Pending} (hs : s.Awaits waiting) (hwaiting : waiting.length ≤ maxDepth)
    {rest : List Char} (hrest : EndsWord rest) :
    Leads length (waiting.length + v.depth) s (write v ++ rest) (complete v.inJson waiting)
      rest := by
  match v with
  | .null =>
      rw [write, Value.inJson, Value.depth]
      exact hs.leads_word isWord_null hrest hwaiting
  | .bool b =>
      rw [Value.inJson, Value.depth]
      exact hs.leads_word (isWord_bool b) hrest hwaiting
  | .integer n =>
      rw [Value.inJson, Value.depth]
      exact hs.leads_word (isWord_integer n) hrest hwaiting
  | .float x =>
      rw [write, Value.inJson, Value.depth]
      cases hx : x.isFinite with
      | true => exact hs.leads_word (isWord_float hx) hrest hwaiting
      | false =>
          rw [writeFloat, hx]
          exact hs.leads_word isWord_null hrest hwaiting
  | .string text =>
      rw [write, Value.inJson, Value.depth]
      exact leads_quoted (fun offset => hs offset (.string text) nofun) hwaiting
  | .array [] =>
      rw [write, Value.inJson, Value.itemsInJson, Value.depth, Value.depthOfItems]
      have hclose (hroom : waiting.length + 1 ≤ maxDepth) :
          Leads length (waiting.length + 1) (.firstElement waiting) (']' :: rest)
            (complete (.array []) waiting) rest :=
        leads_structural rfl rfl (fun _ => by rw [step, if_pos rfl]) hroom
      -- an empty array is as deep as one with a scalar in it
      exact (hs.leads_array.trans hclose).of_eq (by omega)
  | .array (v :: items) =>
      rw [Value.hasDistinctKeys] at hkeys
      obtain ⟨hv, hitems⟩ := Value.distinctInItems_cons.1 hkeys
      rw [write, Value.inJson, Value.itemsInJson, Value.depth, Value.depthOfItems]
      simp only [List.cons_append, List.append_assoc]
      have hfirst (hroom : waiting.length + 1 ≤ maxDepth) :=
        leads_write v hv (awaits_firstElement waiting) hroom
          (endsWord_writeElements items rest)
      have hothers (hroom : waiting.length + 1 ≤ maxDepth) :=
        leads_writeElements items hitems [v.inJson] hroom rest
      -- the first element and the others start with the same containers open
      refine Leads.of_eq (hs.leads_array.trans fun hroom =>
        (hfirst hroom).trans fun _ => hothers hroom) ?_
      rw [List.length_cons]
      omega
  | .object [] =>
      rw [write, Value.inJson, Value.membersInJson, Value.depth, Value.depthOfMembers]
      have hclose (hroom : waiting.length + 1 ≤ maxDepth) :
          Leads length (waiting.length + 1) (.firstKey waiting) ('}' :: rest)
            (complete (.object []) waiting) rest :=
        leads_structural rfl rfl (fun _ => by rw [step, if_pos rfl]) hroom
      exact (hs.leads_object.trans hclose).of_eq (by omega)
  | .object ((key, v) :: members) =>
      rw [Value.hasDistinctKeys] at hkeys
      obtain ⟨hkey, hv, hmembers⟩ := Value.distinctInMembers_cons.1 hkeys
      have hnew : ∀ k ∈ Members.keys members, k ∉ Members.keys ([] ++ [(key, v.inJson)]) :=
        fun k hk => Members.notMem_keys_concat List.not_mem_nil (ne_of_mem_of_not_mem hk hkey)
          v.inJson
      rw [write, Value.inJson, Value.membersInJson, Value.depth, Value.depthOfMembers]
      simp only [List.cons_append, List.append_assoc]
      have hfirst (hroom : waiting.length + 1 ≤ maxDepth) :=
        leads_write v hv (awaits_value (.member [] key :: waiting)) hroom
          (endsWord_writeMembers members rest)
      have hothers (hroom : waiting.length + 1 ≤ maxDepth) :=
        leads_writeMembers members hmembers [(key, v.inJson)] hnew hroom rest
      refine Leads.of_eq (hs.leads_object.trans fun hroom => (leads_key (fun _ => rfl) hroom).trans
        fun _ => (hfirst hroom).trans fun _ => hothers hroom) ?_
      rw [List.length_cons]
      omega

/-- The same for the elements after the first. -/
theorem leads_writeElements (items : List Value) (hkeys : Value.distinctInItems items = true)
    (done : List Value) {outer : List Pending} (houter : outer.length + 1 ≤ maxDepth)
    (rest : List Char) :
    Leads length (outer.length + 1 + Value.depthOfItems items) (.elementEnd done outer)
      (writeElements items ++ rest)
      (complete (.array (done.reverse ++ Value.itemsInJson items)) outer) rest := by
  match items with
  | [] =>
      rw [writeElements, Value.itemsInJson, Value.depthOfItems, List.append_nil]
      exact leads_structural rfl rfl (fun _ => rfl) houter
  | v :: items =>
      obtain ⟨hv, hitems⟩ := Value.distinctInItems_cons.1 hkeys
      rw [writeElements, Value.itemsInJson, Value.depthOfItems]
      simp only [List.cons_append, List.append_assoc]
      have hcomma : Leads length (outer.length + 1) (.elementEnd done outer)
          (',' :: ' ' :: (write v ++ (writeElements items ++ rest)))
          (.value (.element done :: outer)) (write v ++ (writeElements items ++ rest)) :=
        leads_comma (fun _ => rfl) houter
      have hnext := leads_write v hv (awaits_value (.element done :: outer)) houter
        (endsWord_writeElements items rest)
      have hothers := leads_writeElements items hitems (v.inJson :: done) houter rest
      rw [List.reverse_cons, List.append_assoc] at hothers
      refine Leads.of_eq (hcomma.trans fun _ => hnext.trans fun _ => hothers) ?_
      rw [List.length_cons]
      omega

/-- The same for the members after the first, whose keys must be new. -/
theorem leads_writeMembers (members : List (String × Value))
    (hkeys : Value.distinctInMembers members = true) (done : Members Value)
    (hnew : ∀ key ∈ Members.keys members, key ∉ done.keys) {outer : List Pending}
    (houter : outer.length + 1 ≤ maxDepth) (rest : List Char) :
    Leads length (outer.length + 1 + Value.depthOfMembers members) (.memberEnd done outer)
      (writeMembers members ++ rest)
      (complete (.object (done ++ Value.membersInJson members)) outer) rest := by
  match members with
  | [] =>
      rw [writeMembers, Value.membersInJson, Value.depthOfMembers, List.append_nil]
      exact leads_structural rfl rfl (fun _ => rfl) houter
  | (key, v) :: members =>
      obtain ⟨hkey, hv, hmembers⟩ := Value.distinctInMembers_cons.1 hkeys
      -- only a key that is not there yet is stored at the end
      have hset : done.set key v.inJson = done ++ [(key, v.inJson)] :=
        Members.set_of_notMem (hnew key List.mem_cons_self) v.inJson
      have hstillNew : ∀ k ∈ Members.keys members, k ∉ Members.keys (done ++ [(key, v.inJson)]) :=
        fun k hk => Members.notMem_keys_concat (hnew k (List.mem_cons_of_mem key hk))
          (ne_of_mem_of_not_mem hk hkey) v.inJson
      rw [writeMembers, Value.membersInJson, Value.depthOfMembers]
      simp only [List.cons_append, List.append_assoc]
      have hcomma : Leads length (outer.length + 1) (.memberEnd done outer)
          (',' :: ' ' :: (Quoted.write key ++ ':' :: ' ' :: (write v ++
            (writeMembers members ++ rest))))
          (.anotherKey done outer)
          (Quoted.write key ++ ':' :: ' ' :: (write v ++ (writeMembers members ++ rest))) :=
        leads_comma (fun _ => rfl) houter
      have hnext := leads_write v hv (awaits_value (.member done key :: outer)) houter
        (endsWord_writeMembers members rest)
      rw [complete, hset] at hnext
      have hothers := leads_writeMembers members hmembers (done ++ [(key, v.inJson)]) hstillNew
        houter rest
      rw [List.append_assoc] at hothers
      refine Leads.of_eq (hcomma.trans fun _ => (leads_key (fun _ => rfl) houter).trans
        fun _ => hnext.trans fun _ => hothers) ?_
      rw [List.length_cons]
      omega

end

end Stage

/-! ## Documents -/

theorem Stage.read_end (v : Value) (length offset : Nat) :
    (finished v).read length offset [] = .ok v := by
  rw [read, Cursor.items_nil, run, finish]

/-- What the machine does with the text of a value that stands alone. -/
theorem Stage.leads_encode (v : Value) (hkeys : v.hasDistinctKeys = true) :
    Leads (encode v).utf8ByteSize v.depth (.value []) (encode v).toList (.finished v.inJson)
      [] := by
  have hleads : Leads (encode v).utf8ByteSize (0 + v.depth) (.value []) (write v ++ [])
      (.finished v.inJson) [] :=
    leads_write v hkeys (awaits_value []) (Nat.zero_le maxDepth) nofun
  rw [List.append_nil] at hleads
  rw [encode, String.toList_ofList] at *
  exact hleads.of_eq (Nat.zero_add v.depth)

/-- A value that does not nest too deep is read back from its text, as far as it has
a spelling. -/
theorem decode_of_shallow {v : Value} (hkeys : v.hasDistinctKeys = true)
    (hdepth : v.depth ≤ maxDepth) : decode (encode v) = .ok v.inJson := by
  obtain ⟨offset, hread⟩ := (Stage.leads_encode v hkeys 0).1 hdepth
  rw [Stage.read_end] at hread
  exact hread

/-- A value that holds nothing without a spelling is read back from its text. -/
theorem decode_of_finite {v : Value} (hkeys : v.hasDistinctKeys = true)
    (hfloats : v.hasFiniteFloats = true) (hdepth : v.depth ≤ maxDepth) :
    decode (encode v) = .ok v := by
  rw [decode_of_shallow hkeys hdepth, v.inJson_of_finite hfloats]

/-- A value whose objects have distinct keys is read back from its text, all of
it but for the floats that have no spelling. If its containers nest deeper than
the limit, it is for this that its text is refused. -/
theorem decode_encode (v : Value) (hkeys : v.hasDistinctKeys = true) :
    (v.depth ≤ maxDepth → decode (encode v) = .ok v.inJson) ∧
    (maxDepth < v.depth → ∃ offset, decode (encode v) = .error (.tooDeep maxDepth offset)) := by
  have hread : decode (encode v) =
      (Stage.value []).read (encode v).utf8ByteSize 0 (write v ++ []) := by
    rw [decode, encode, String.toList_ofList, List.append_nil]
    rfl
  have hleads : Stage.Leads (encode v).utf8ByteSize (0 + v.depth) (.value []) (write v ++ [])
      (.finished v.inJson) [] :=
    Stage.leads_write v hkeys (Stage.awaits_value []) (Nat.zero_le maxDepth) nofun
  obtain ⟨hshallow, hdeep⟩ := hleads.of_eq (Nat.zero_add v.depth) 0
  rw [hread]
  refine ⟨fun h => ?_, hdeep⟩
  obtain ⟨offset, hfinished⟩ := hshallow h
  rw [hfinished, Stage.read_end]

/-- A negative zero keeps its sign, and what is not a number is gone. -/
def mixedDocument : Value :=
  .object [("z", .array [.integer 1, .float ⟨0x8000000000000000⟩, .float ⟨0x7FF8000000000000⟩]),
    ("a", .object [("quo\"te", .string "\n"), ("", .bool true)])]

theorem decode_encode_mixedDocument :
    mixedDocument.hasDistinctKeys = true ∧ mixedDocument.depth ≤ maxDepth ∧
    decode (encode mixedDocument) = .ok
      (.object [("z", .array [.integer 1, .float ⟨0x8000000000000000⟩, .null]),
        ("a", .object [("quo\"te", .string "\n"), ("", .bool true)])]) :=
  ⟨by decide, by decide, (decode_encode mixedDocument (by decide)).1 (by decide)⟩

end LspClient.Json
