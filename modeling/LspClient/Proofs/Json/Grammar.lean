import Mathlib.Data.List.Basic
import Mathlib.Data.List.Induction
import LspClient.Json.Decode

/-!
# The language that is read

A text is read as a value exactly if its tokens derive from the grammar of JSON
and no more containers than the limit are open anywhere, and the value is the
one that the derivation denotes. The grammar is stated over tokens and knows
nothing of the machine: what a derivation denotes is built from its parts, and
how many containers are open is counted in the tokens.

The machine is compared with the grammar stage by stage. `Stage.Accepts` says,
in terms of the grammar, which tokens a stage may still be followed by and which
value the whole then denotes. That is the invariant: a stage accepts a token and
the tokens behind it exactly if the stage that the token leads to accepts the
latter, and a token is refused only if nothing would be accepted behind it, or
if it opens one container too many (`Stage.step_agrees`). One induction over the
tokens then gives both directions at once.

The containers that are open need no derivation. Every token changes their
number by a fixed amount, and a stage holds as many as there are.
-/

namespace LspClient.Json

/-! ## Members that repeat a key -/

namespace Members

variable {α : Type}

/-- Members in the order in which their keys first occur, each with the value
that its key is given last. -/
def settled (pairs : List (String × α)) : Members α :=
  (keys pairs).eraseDups.filterMap fun key => (get? pairs.reverse key).map fun v => (key, v)

/-- Stores pairs one after another among the members that are there. -/
def storeAll (m : Members α) (pairs : List (String × α)) : Members α :=
  pairs.foldl (fun m pair => m.set pair.1 pair.2) m

theorem get?_cons (member : String × α) (m : Members α) (key : String) :
    get? (member :: m) key = if member.1 = key then some member.2 else m.get? key := by
  rw [get?, List.find?_cons]
  by_cases h : member.1 = key
  · simp [h]
  · rw [if_neg h, beq_false_of_ne h, get?]

theorem get?_set (m : Members α) (key k : String) (v : α) :
    (m.set key v).get? k = if key = k then some v else m.get? k := by
  induction m with
  | nil => exact get?_cons (key, v) [] k
  | cons member rest ih =>
      rw [set]
      by_cases hkey : member.1 = key
      · rw [if_pos (beq_iff_eq.2 hkey), get?_cons, get?_cons, hkey]
        split <;> rfl
      · rw [if_neg (mt beq_iff_eq.1 hkey), get?_cons, get?_cons, ih]
        by_cases hk : member.1 = k
        · have hne : key ≠ k := fun h => hkey (hk.trans h.symm)
          rw [if_pos hk, if_neg hne, if_pos hk]
        · rw [if_neg hk, if_neg hk]

theorem ofList_concat (pairs : List (String × α)) (pair : String × α) :
    ofList (pairs ++ [pair]) = (ofList pairs).set pair.1 pair.2 := by
  rw [ofList, List.foldl_append]
  rfl

theorem nodup_keys_ofList (pairs : List (String × α)) : (ofList pairs).keys.Nodup := by
  induction pairs using List.reverseRecOn with
  | nil => exact List.nodup_nil
  | append_singleton pairs pair ih =>
      rw [ofList_concat]
      exact nodup_keys_set ih pair.1 pair.2

theorem keys_ofList (pairs : List (String × α)) :
    (ofList pairs).keys = (keys pairs).eraseDups := by
  induction pairs using List.reverseRecOn with
  | nil => rfl
  | append_singleton pairs pair ih =>
      have hkeys : keys (pairs ++ [pair]) = keys pairs ++ [pair.1] := List.map_append
      rw [ofList_concat, keys_set, ih, hkeys, List.eraseDups_append]
      by_cases h : pair.1 ∈ keys pairs <;> simp [h, List.removeAll, List.eraseDups_cons]

theorem get?_ofList (pairs : List (String × α)) (key : String) :
    (ofList pairs).get? key = get? pairs.reverse key := by
  induction pairs using List.reverseRecOn with
  | nil => rfl
  | append_singleton pairs pair ih =>
      rw [ofList_concat, get?_set, ih, List.reverse_concat, get?_cons]

theorem eq_of_nodup {m : Members α} (h : m.keys.Nodup) :
    m = m.keys.filterMap fun key => (m.get? key).map fun v => (key, v) := by
  induction m with
  | nil => rfl
  | cons member m ih =>
      obtain ⟨hnew, hrest⟩ := List.nodup_cons.1 h
      rw [keys, List.map_cons, ← keys, List.filterMap_cons, get?_cons, if_pos rfl]
      refine congrArg (member :: ·) ((ih hrest).trans (List.filterMap_congr fun key hkey => ?_))
      rw [get?_cons, if_neg fun heq : member.1 = key => hnew (heq ▸ hkey)]

theorem ofList_eq_settled (pairs : List (String × α)) : ofList pairs = settled pairs := by
  rw [eq_of_nodup (nodup_keys_ofList pairs), keys_ofList, settled]
  simp only [get?_ofList]

end Members

/-! ## The grammar -/

mutual

/-- The tokens of a value, and the value that they denote. -/
inductive Denotes : List Token → Value → Prop
  | string (text : String) : Denotes [.string text] (.string text)
  | true : Denotes [.atom "true"] (.bool true)
  | false : Denotes [.atom "false"] (.bool false)
  | null : Denotes [.atom "null"] .null
  | number {word : String} {v : Value} (h : number? word.toList = some v) :
      Denotes [.atom word] v
  | emptyObject : Denotes [.beginObject, .endObject] (.object [])
  | object (key : String) {first others : List Token} {v : Value}
      {pairs : List (String × Value)} (hfirst : Denotes first v)
      (hothers : OtherMembers others pairs) :
      Denotes (.beginObject :: .string key :: .colon :: first ++ others ++ [.endObject])
        (.object (Members.settled ((key, v) :: pairs)))
  | emptyArray : Denotes [.beginArray, .endArray] (.array [])
  | array {first others : List Token} {v : Value} {items : List Value}
      (hfirst : Denotes first v) (hothers : OtherElements others items) :
      Denotes (.beginArray :: first ++ others ++ [.endArray]) (.array (v :: items))

/-- The members of an object after the first. -/
inductive OtherMembers : List Token → List (String × Value) → Prop
  | nil : OtherMembers [] []
  | cons (key : String) {next others : List Token} {v : Value}
      {pairs : List (String × Value)} (hnext : Denotes next v)
      (hothers : OtherMembers others pairs) :
      OtherMembers (.comma :: .string key :: .colon :: next ++ others) ((key, v) :: pairs)

/-- The elements of an array after the first. -/
inductive OtherElements : List Token → List Value → Prop
  | nil : OtherElements [] []
  | cons {next others : List Token} {v : Value} {items : List Value}
      (hnext : Denotes next v) (hothers : OtherElements others items) :
      OtherElements (.comma :: next ++ others) (v :: items)

end

/-- What a token does to the number of open containers. -/
def Token.change : Token → Int
  | .beginObject | .beginArray => 1
  | .endObject | .endArray => -1
  | .comma | .colon | .string _ | .atom _ => 0

/-- How many containers are open behind some tokens. -/
def level : List Token → Int
  | [] => 0
  | t :: ts => t.change + level ts

/-- Behind no token more containers are open than there may be, when some are
open in front. -/
def NestsWithin (limit : Nat) (outside : Int) (ts : List Token) : Prop :=
  ∀ before, before <+: ts → outside + level before ≤ limit

theorem NestsWithin.outside_le {limit : Nat} {outside : Int} {ts : List Token}
    (h : NestsWithin limit outside ts) : outside ≤ limit := by
  simpa [level] using h [] List.nil_prefix

theorem nestsWithin_nil {limit : Nat} {outside : Int} (h : outside ≤ limit) :
    NestsWithin limit outside [] := by
  intro before hbefore
  rw [List.prefix_nil.1 hbefore]
  simpa [level] using h

theorem nestsWithin_cons {limit : Nat} {outside : Int} {t : Token} {ts : List Token} :
    NestsWithin limit outside (t :: ts) ↔
      outside ≤ limit ∧ NestsWithin limit (outside + t.change) ts := by
  constructor
  · intro h
    refine ⟨h.outside_le, fun before hbefore => ?_⟩
    have hlevel := h (t :: before) ((List.prefix_cons_inj t).2 hbefore)
    rw [level] at hlevel
    omega
  · rintro ⟨houtside, h⟩ before hbefore
    cases before with
    | nil => simpa [level] using houtside
    | cons t' before =>
        obtain ⟨rfl, hrest⟩ := List.cons_prefix_cons.1 hbefore
        have hlevel := h before hrest
        rw [level]
        omega

theorem level_append (ts us : List Token) : level (ts ++ us) = level ts + level us := by
  induction ts with
  | nil => simp [level]
  | cons t ts ih =>
      rw [List.cons_append, level, level, ih]
      omega

mutual

/-- What a value opens it closes again, so what comes next starts with the same
room. -/
theorem level_of_denotes {ts : List Token} {v : Value} (h : Denotes ts v) : level ts = 0 := by
  match h with
  | .string _ | .true | .false | .null | .number _ | .emptyObject | .emptyArray => rfl
  | .object key hfirst hothers =>
      simp [level, level_append, Token.change, level_of_denotes hfirst, level_of_members hothers]
  | .array hfirst hothers =>
      simp [level, level_append, Token.change, level_of_denotes hfirst, level_of_elements hothers]

theorem level_of_members {ts : List Token} {pairs : List (String × Value)}
    (h : OtherMembers ts pairs) : level ts = 0 := by
  match h with
  | .nil => rfl
  | .cons key hnext hothers =>
      simp [level, level_append, Token.change, level_of_denotes hnext, level_of_members hothers]

theorem level_of_elements {ts : List Token} {items : List Value}
    (h : OtherElements ts items) : level ts = 0 := by
  match h with
  | .nil => rfl
  | .cons hnext hothers =>
      simp [level, level_append, Token.change, level_of_denotes hnext, level_of_elements hothers]

end

theorem ofAtom?_of_number? {word : String} {v : Value} (h : number? word.toList = some v) :
    ofAtom? word = some v := by
  have hname : ∀ name ∈ ["true", "false", "null"], word ≠ name := by
    rintro name hname rfl
    have hnone : ∀ name ∈ ["true", "false", "null"], (number? name.toList).isNone = true := by
      decide
    rw [Option.isNone_iff_eq_none.1 (hnone word hname)] at h
    cases h
  rw [ofAtom?, if_neg (hname _ (by simp)), if_neg (hname _ (by simp)),
    if_neg (hname _ (by simp)), h]

theorem denotes_of_ofAtom? {word : String} {v : Value} (h : ofAtom? word = some v) :
    Denotes [.atom word] v := by
  rw [ofAtom?] at h
  split at h
  · next hword =>
      cases h
      exact hword ▸ .true
  split at h
  · next hword =>
      cases h
      exact hword ▸ .false
  split at h
  · next hword =>
      cases h
      exact hword ▸ .null
  · exact .number h

/-! ## What may follow a stage -/

namespace Stage

/-- How many containers are open. -/
def nesting : Stage → Nat
  | .value waiting => waiting.length
  | .firstElement outer => outer.length + 1
  | .firstKey outer => outer.length + 1
  | .anotherKey _ outer => outer.length + 1
  | .colon _ _ outer => outer.length + 1
  | .elementEnd _ outer => outer.length + 1
  | .memberEnd _ outer => outer.length + 1
  | .finished _ => 0

/-- Behind a complete value the rest of the open containers follows, from the
inside out. -/
def Closes : List Pending → Value → List Token → Value → Prop
  | [], x, ts, v => ts = [] ∧ x = v
  | .element items :: outer, x, ts, v =>
    ∃ others more rest, OtherElements others more ∧ ts = others ++ .endArray :: rest ∧
      Closes outer (.array ((x :: items).reverse ++ more)) rest v
  | .member members key :: outer, x, ts, v =>
    ∃ others more rest, OtherMembers others more ∧ ts = others ++ .endObject :: rest ∧
      Closes outer (.object ((members.set key x).storeAll more)) rest v

/-- A value follows, and then the rest of what waits for it. -/
def Expects (waiting : List Pending) (ts : List Token) (v : Value) : Prop :=
  ∃ first x rest, Denotes first x ∧ ts = first ++ rest ∧ Closes waiting x rest v

/-- A member follows, and then the rest of its object and of what is open
around it. -/
def ExpectsMember (members : Members Value) (outer : List Pending) (ts : List Token)
    (v : Value) : Prop :=
  ∃ key rest, ts = .string key :: .colon :: rest ∧ Expects (.member members key :: outer) rest v

/-- The tokens that may follow a stage, with the value that the whole
denotes. -/
def Accepts : Stage → List Token → Value → Prop
  | .value waiting, ts, v => Expects waiting ts v
  | .firstElement outer, ts, v =>
    (∃ rest, ts = .endArray :: rest ∧ Closes outer (.array []) rest v) ∨
      Expects (.element [] :: outer) ts v
  | .firstKey outer, ts, v =>
    (∃ rest, ts = .endObject :: rest ∧ Closes outer (.object []) rest v) ∨
      ExpectsMember [] outer ts v
  | .anotherKey members outer, ts, v => ExpectsMember members outer ts v
  | .colon members key outer, ts, v =>
    ∃ rest, ts = .colon :: rest ∧ Expects (.member members key :: outer) rest v
  | .elementEnd items outer, ts, v =>
    ∃ others more rest, OtherElements others more ∧ ts = others ++ .endArray :: rest ∧
      Closes outer (.array (items.reverse ++ more)) rest v
  | .memberEnd members outer, ts, v =>
    ∃ others more rest, OtherMembers others more ∧ ts = others ++ .endObject :: rest ∧
      Closes outer (.object (members.storeAll more)) rest v
  | .finished x, ts, v => ts = [] ∧ x = v

theorem accepts_complete {x v : Value} {waiting : List Pending} {ts : List Token} :
    (complete x waiting).Accepts ts v ↔ Closes waiting x ts v := by
  match waiting with
  | [] => rfl
  | .element _ :: _ => rfl
  | .member _ _ :: _ => rfl

theorem nesting_complete (x : Value) (waiting : List Pending) :
    (complete x waiting).nesting = waiting.length := by
  match waiting with
  | [] => rfl
  | .element _ :: _ => rfl
  | .member _ _ :: _ => rfl

/-! ### The start of a value -/

theorem expects_string {waiting : List Pending} {text : String} {ts : List Token} {v : Value} :
    Expects waiting (.string text :: ts) v ↔ Closes waiting (.string text) ts v := by
  constructor
  · rintro ⟨first, x, rest, hfirst, heq, hcloses⟩
    cases hfirst <;> simp at heq
    obtain ⟨rfl, rfl⟩ := heq
    exact hcloses
  · exact fun h => ⟨_, _, _, .string text, rfl, h⟩

theorem expects_atom {waiting : List Pending} {word : String} {ts : List Token} {v : Value} :
    Expects waiting (.atom word :: ts) v ↔
      ∃ x, ofAtom? word = some x ∧ Closes waiting x ts v := by
  constructor
  · rintro ⟨first, x, rest, hfirst, heq, hcloses⟩
    refine ⟨x, ?_⟩
    cases hfirst <;> simp at heq
    all_goals obtain ⟨rfl, rfl⟩ := heq
    case number h => exact ⟨ofAtom?_of_number? h, hcloses⟩
    all_goals exact ⟨rfl, hcloses⟩
  · rintro ⟨x, hword, hcloses⟩
    exact ⟨_, x, _, denotes_of_ofAtom? hword, rfl, hcloses⟩

theorem expects_beginArray {waiting : List Pending} {ts : List Token} {v : Value} :
    Expects waiting (.beginArray :: ts) v ↔ (firstElement waiting).Accepts ts v := by
  constructor
  · rintro ⟨tokens, x, rest, hdenotes, heq, hcloses⟩
    cases hdenotes <;> simp at heq
    case emptyArray => exact .inl ⟨rest, heq, hcloses⟩
    case array hfirst hothers =>
      exact .inr ⟨_, _, _, hfirst, heq, _, _, rest, hothers, rfl, hcloses⟩
  · rintro (⟨rest, rfl, hcloses⟩ | ⟨first, x, _, hfirst, rfl, others, more, rest, hothers, rfl, hcloses⟩)
    · exact ⟨_, _, rest, .emptyArray, rfl, hcloses⟩
    · exact ⟨_, _, rest, .array hfirst hothers, by simp, hcloses⟩

theorem expects_beginObject {waiting : List Pending} {ts : List Token} {v : Value} :
    Expects waiting (.beginObject :: ts) v ↔ (firstKey waiting).Accepts ts v := by
  constructor
  · rintro ⟨tokens, x, rest, hdenotes, heq, hcloses⟩
    cases hdenotes <;> simp at heq
    case emptyObject => exact .inl ⟨rest, heq, hcloses⟩
    case object key first others y pairs hfirst hothers =>
      rw [← Members.ofList_eq_settled] at hcloses
      exact .inr ⟨key, _, heq, _, _, _, hfirst, rfl, _, _, rest, hothers, rfl, hcloses⟩
  · rintro (⟨rest, rfl, hcloses⟩ |
      ⟨key, _, rfl, first, x, _, hfirst, rfl, others, more, rest, hothers, rfl, hcloses⟩)
    · exact ⟨_, _, rest, .emptyObject, rfl, hcloses⟩
    · refine ⟨_, _, rest, .object key hfirst hothers, by simp, ?_⟩
      rw [← Members.ofList_eq_settled]
      exact hcloses

theorem not_expects {waiting : List Pending} {t : Token} {ts : List Token} {v : Value}
    (h : t = .endObject ∨ t = .endArray ∨ t = .comma ∨ t = .colon) :
    ¬ Expects waiting (t :: ts) v := by
  rintro ⟨first, x, rest, hfirst, heq, -⟩
  rcases h with rfl | rfl | rfl | rfl <;> cases hfirst <;> simp at heq

/-! ### Between elements and between members -/

theorem elementEnd_comma {items : List Value} {outer : List Pending} {ts : List Token}
    {v : Value} : (elementEnd items outer).Accepts (.comma :: ts) v ↔
      Expects (.element items :: outer) ts v := by
  constructor
  · rintro ⟨others, more, rest, hothers, heq, hcloses⟩
    cases hothers <;> simp at heq
    case cons next others x more hnext hothers =>
      refine ⟨next, x, _, hnext, heq, others, more, rest, hothers, rfl, ?_⟩
      rw [List.reverse_cons, List.append_assoc]
      exact hcloses
  · rintro ⟨next, x, _, hnext, rfl, others, more, rest, hothers, rfl, hcloses⟩
    rw [List.reverse_cons, List.append_assoc] at hcloses
    exact ⟨_, x :: more, rest, .cons hnext hothers, by simp, hcloses⟩

theorem elementEnd_endArray {items : List Value} {outer : List Pending} {ts : List Token}
    {v : Value} : (elementEnd items outer).Accepts (.endArray :: ts) v ↔
      Closes outer (.array items.reverse) ts v := by
  constructor
  · rintro ⟨others, more, rest, hothers, heq, hcloses⟩
    cases hothers <;> simp at heq
    rw [List.append_nil] at hcloses
    exact heq ▸ hcloses
  · intro h
    exact ⟨[], [], ts, .nil, rfl, by rwa [List.append_nil]⟩

theorem not_elementEnd {items : List Value} {outer : List Pending} {t : Token}
    {ts : List Token} {v : Value} (hcomma : t ≠ .comma) (hend : t ≠ .endArray) :
    ¬ (elementEnd items outer).Accepts (t :: ts) v := by
  rintro ⟨others, more, rest, hothers, heq, -⟩
  cases hothers with
  | nil => exact hend (List.cons.inj heq).1
  | cons => exact hcomma (List.cons.inj heq).1

theorem memberEnd_comma {members : Members Value} {outer : List Pending} {ts : List Token}
    {v : Value} : (memberEnd members outer).Accepts (.comma :: ts) v ↔
      ExpectsMember members outer ts v := by
  constructor
  · rintro ⟨others, more, rest, hothers, heq, hcloses⟩
    cases hothers <;> simp at heq
    case cons key next others x more hnext hothers =>
      exact ⟨key, _, heq, next, x, _, hnext, rfl, others, more, rest, hothers, rfl, hcloses⟩
  · rintro ⟨key, _, rfl, next, x, _, hnext, rfl, others, more, rest, hothers, rfl, hcloses⟩
    exact ⟨_, (key, x) :: more, rest, .cons key hnext hothers, by simp, hcloses⟩

theorem memberEnd_endObject {members : Members Value} {outer : List Pending}
    {ts : List Token} {v : Value} : (memberEnd members outer).Accepts (.endObject :: ts) v ↔
      Closes outer (.object members) ts v := by
  constructor
  · rintro ⟨others, more, rest, hothers, heq, hcloses⟩
    cases hothers <;> simp at heq
    exact heq ▸ hcloses
  · intro h
    exact ⟨[], [], ts, .nil, rfl, h⟩

theorem not_memberEnd {members : Members Value} {outer : List Pending} {t : Token}
    {ts : List Token} {v : Value} (hcomma : t ≠ .comma) (hend : t ≠ .endObject) :
    ¬ (memberEnd members outer).Accepts (t :: ts) v := by
  rintro ⟨others, more, rest, hothers, heq, -⟩
  cases hothers with
  | nil => exact hend (List.cons.inj heq).1
  | cons => exact hcomma (List.cons.inj heq).1

/-! ### One token -/

/-- What is made of a token is right: the next stage accepts what was accepted
behind the token, and a token is refused only if nothing was, or if it opens
one container too many. -/
def Agrees (nesting : Nat) (accepts : List Token → Value → Prop) (t : Token) :
    Except DecodeError Stage → Prop
  | .ok next =>
    (∀ ts v, accepts (t :: ts) v ↔ next.Accepts ts v) ∧
      (next.nesting : Int) = nesting + t.change ∧
      (nesting ≤ maxDepth → next.nesting ≤ maxDepth)
  | .error _ => ∀ ts v, accepts (t :: ts) v → (maxDepth : Int) < nesting + t.change

theorem Agrees.of_iff {nesting : Nat} {accepts accepts' : List Token → Value → Prop}
    {token : Token} {result : Except DecodeError Stage} (h : Agrees nesting accepts' token result)
    (hiff : ∀ ts v, accepts (token :: ts) v ↔ accepts' (token :: ts) v) :
    Agrees nesting accepts token result := by
  cases result with
  | ok next => exact ⟨fun ts v => (hiff ts v).trans (h.1 ts v), h.2⟩
  | error e => exact fun ts v haccepts => h ts v ((hiff ts v).1 haccepts)

/-- A value is complete, which closes no container or one. -/
theorem agrees_complete {nesting : Nat} {accepts : List Token → Value → Prop} {token : Token}
    {x : Value} {waiting : List Pending} (closed : Nat) (hchange : token.change = -closed)
    (hnesting : nesting = waiting.length + closed)
    (hiff : ∀ ts v, accepts (token :: ts) v ↔ Closes waiting x ts v) :
    Agrees nesting accepts token (.ok (complete x waiting)) := by
  refine ⟨fun ts v => (hiff ts v).trans accepts_complete.symm, ?_, ?_⟩
  · rw [nesting_complete]
    omega
  · intro hroom
    rw [nesting_complete]
    omega

theorem agrees_enter {accepts : List Token → Value → Prop} {token : Token}
    {waiting : List Pending} {inside : Stage} (offset : Nat) (hchange : token.change = 1)
    (hiff : ∀ ts v, accepts (token :: ts) v ↔ inside.Accepts ts v)
    (hnesting : inside.nesting = waiting.length + 1) :
    Agrees waiting.length accepts token (enter waiting offset inside) := by
  rw [enter]
  split
  · next hroom =>
      refine ⟨hiff, ?_, fun _ => ?_⟩ <;> omega
  · next hroom =>
      intro ts v _
      rw [hchange]
      omega

theorem startValue_agrees (waiting : List Pending) (t : Located) :
    Agrees waiting.length (Expects waiting) t.token (startValue waiting t) := by
  obtain ⟨offset, token⟩ := t
  cases token with
  | beginObject => exact agrees_enter offset rfl (fun _ _ => expects_beginObject) rfl
  | beginArray => exact agrees_enter offset rfl (fun _ _ => expects_beginArray) rfl
  | string text =>
      exact agrees_complete 0 rfl rfl fun _ _ => expects_string
  | atom word =>
      rw [startValue]
      dsimp only
      cases hword : ofAtom? word with
      | none =>
          intro ts v h
          obtain ⟨x, hx, -⟩ := expects_atom.1 h
          rw [hword] at hx
          cases hx
      | some x =>
          refine agrees_complete 0 rfl rfl fun ts v => ?_
          simp only [expects_atom, hword, Option.some.injEq, exists_eq_left']
  | endObject => exact fun _ _ h => absurd h (not_expects (by simp))
  | endArray => exact fun _ _ h => absurd h (not_expects (by simp))
  | comma => exact fun _ _ h => absurd h (not_expects (by simp))
  | colon => exact fun _ _ h => absurd h (not_expects (by simp))

theorem startMember_agrees (members : Members Value) (outer : List Pending) (t : Located) :
    Agrees (outer.length + 1) (ExpectsMember members outer) t.token
      (startMember members outer t) := by
  rw [startMember]
  split
  · next key htoken =>
      rw [htoken]
      refine ⟨fun ts v => ?_, (Int.add_zero _).symm, fun h => h⟩
      constructor
      · rintro ⟨key', rest, heq, hexpects⟩
        cases heq
        exact ⟨rest, rfl, hexpects⟩
      · rintro ⟨rest, rfl, hexpects⟩
        exact ⟨key, rest, rfl, hexpects⟩
  · next hnot =>
      rintro ts v ⟨key, rest, heq, -⟩
      exact absurd (List.cons.inj heq).1 (hnot key)

theorem step_agrees (s : Stage) (t : Located) : Agrees s.nesting s.Accepts t.token (s.step t) := by
  cases s with
  | value waiting => exact startValue_agrees waiting t
  | firstElement outer =>
      rw [step]
      split
      · next hend =>
          rw [hend]
          refine agrees_complete 1 rfl rfl fun ts v => ?_
          simp [Accepts, not_expects]
      · next hend =>
          exact (startValue_agrees (.element [] :: outer) t).of_iff fun ts v => by
            simp [Accepts, hend]
  | firstKey outer =>
      rw [step]
      split
      · next hend =>
          rw [hend]
          refine agrees_complete 1 rfl rfl fun ts v => ?_
          simp [Accepts, ExpectsMember]
      · next hend =>
          exact (startMember_agrees [] outer t).of_iff fun ts v => by simp [Accepts, hend]
  | anotherKey members outer => exact startMember_agrees members outer t
  | colon members key outer =>
      rw [step]
      split
      · next htoken =>
          rw [htoken]
          refine ⟨fun ts v => ?_, (Int.add_zero _).symm, fun h => h⟩
          simp [Accepts]
      · next hnot =>
          rintro ts v ⟨rest, heq, -⟩
          exact absurd (List.cons.inj heq).1 hnot
  | elementEnd items outer =>
      rw [step]
      split
      · next htoken =>
          rw [htoken]
          exact ⟨fun _ _ => elementEnd_comma, (Int.add_zero _).symm, fun h => h⟩
      · next htoken =>
          rw [htoken]
          exact agrees_complete 1 rfl rfl fun _ _ => elementEnd_endArray
      · next hcomma hend => exact fun _ _ h => absurd h (not_elementEnd hcomma hend)
  | memberEnd members outer =>
      rw [step]
      split
      · next htoken =>
          rw [htoken]
          exact ⟨fun _ _ => memberEnd_comma, (Int.add_zero _).symm, fun h => h⟩
      · next htoken =>
          rw [htoken]
          exact agrees_complete 1 rfl rfl fun _ _ => memberEnd_endObject
      · next hcomma hend => exact fun _ _ h => absurd h (not_memberEnd hcomma hend)
  | finished x => exact fun _ _ h => absurd h.1 (List.cons_ne_nil _ _)

/-! ### All tokens -/

theorem finish_eq_ok {s : Stage} {length : Nat} {v : Value} :
    s.finish length = .ok v ↔ s.Accepts [] v := by
  have hvalue {waiting : List Pending} : ¬ Expects waiting [] v := by
    rintro ⟨first, x, rest, hfirst, heq, -⟩
    cases hfirst <;> cases heq
  cases s with
  | value waiting => exact iff_of_false nofun hvalue
  | firstElement outer => exact iff_of_false nofun (by simp [Accepts, hvalue])
  | firstKey outer => exact iff_of_false nofun (by simp [Accepts, ExpectsMember])
  | anotherKey members outer => exact iff_of_false nofun (by simp [Accepts, ExpectsMember])
  | colon members key outer => exact iff_of_false nofun (by simp [Accepts])
  | elementEnd items outer => exact iff_of_false nofun (by simp [Accepts])
  | memberEnd members outer => exact iff_of_false nofun (by simp [Accepts])
  | finished x => simp [finish, Accepts]

theorem run_eq_ok {length : Nat} {v : Value} {items : List (Except DecodeError Located)} :
    ∀ {s : Stage}, s.nesting ≤ maxDepth →
      (s.run length items = .ok v ↔ ∃ located : List Located, items = located.map .ok ∧
        s.Accepts (located.map Located.token) v ∧
          NestsWithin maxDepth s.nesting (located.map Located.token)) := by
  induction items with
  | nil =>
      intro s hroom
      rw [run, finish_eq_ok]
      constructor
      · exact fun h => ⟨[], rfl, h, nestsWithin_nil (by omega)⟩
      · rintro ⟨located, hlocated, h, -⟩
        rw [List.map_eq_nil_iff.1 hlocated.symm] at h
        exact h
  | cons item items ih =>
      intro s hroom
      cases item with
      | error e =>
          rw [run]
          refine iff_of_false nofun ?_
          rintro ⟨_ | ⟨t, located⟩, heq, -⟩ <;> cases heq
      | ok t =>
          have hagrees := step_agrees s t
          have hsplit : (∃ located : List Located, Except.ok t :: items = located.map .ok ∧
              s.Accepts (located.map Located.token) v ∧
                NestsWithin maxDepth s.nesting (located.map Located.token)) ↔
              ∃ located : List Located, items = located.map .ok ∧
                s.Accepts (t.token :: located.map Located.token) v ∧
                  NestsWithin maxDepth s.nesting (t.token :: located.map Located.token) := by
            constructor
            · rintro ⟨_ | ⟨t', located⟩, heq, h⟩ <;> cases heq
              exact ⟨located, rfl, h⟩
            · rintro ⟨located, rfl, h⟩
              exact ⟨t :: located, rfl, h⟩
          rw [run, hsplit]
          cases hstep : s.step t with
          | error e =>
              rw [hstep] at hagrees
              refine iff_of_false nofun ?_
              rintro ⟨located, -, haccepts, hnests⟩
              have hdeep := hagrees _ _ haccepts
              have hle := (nestsWithin_cons.1 hnests).2.outside_le
              omega
          | ok next =>
              rw [hstep] at hagrees
              obtain ⟨haccepts, hnesting, hnext⟩ := hagrees
              rw [ih (hnext hroom)]
              have houtside : (s.nesting : Int) ≤ maxDepth := by omega
              simp only [haccepts, nestsWithin_cons, ← hnesting, houtside, true_and]

end Stage

/-- A text is read as a value exactly if it is cut into tokens without an
error, these derive from the grammar and denote the value, and nowhere too many
containers are open. -/
theorem decode_eq_ok (text : String) (v : Value) :
    decode text = .ok v ↔ ∃ located : List Located, tokens text.toList = located.map .ok ∧
      Denotes (located.map Located.token) v ∧
        NestsWithin maxDepth 0 (located.map Located.token) := by
  have hvalue (ts : List Token) : (Stage.value []).Accepts ts v ↔ Denotes ts v := by
    constructor
    · rintro ⟨first, x, rest, hfirst, rfl, rfl, rfl⟩
      rwa [List.append_nil]
    · exact fun h => ⟨ts, v, [], h, (List.append_nil ts).symm, rfl, rfl⟩
  rw [decode, Stage.run_eq_ok (Nat.zero_le _)]
  simp only [hvalue]
  rfl

end LspClient.Json
