import LspClient.Wire.Header

/-!
# Reassembly

Reads are not aligned with frames: one read may end inside a header line, or
carry several frames. A frame buffer holds the octets that are not handed out
yet, and hands out one body or one error at a time, as soon as it has arrived
in full.

After a bad header block the stream is not lost. An oversized body is skipped
octet for octet, since its length is known. In all other cases the buffer
drops octets up to the next `Content-Length`, keeping only as many as could be
the start of that name, and reads a header block from there.

No call loops: skipping leads to a header block, a header block leads to a
body, and a body ends the call.
-/

namespace LspClient.Wire

/-- What the next octets are. -/
inductive Phase where
  /-- a header block -/
  | head
  /-- a body of this length -/
  | body (length : Nat)
  /-- the rest of a refused body, of this length -/
  | discard (length : Nat)
  /-- unknown, until the next `Content-Length` -/
  | resync
  deriving DecidableEq, Repr

/-- The octets that are not handed out yet. -/
structure FrameBuffer where
  held : List UInt8
  phase : Phase
  deriving DecidableEq

/-- A body, or why there is none. -/
abbrev FrameResult := Except FrameError (List UInt8)

namespace FrameBuffer

/-- Nothing held, a header block comes first. -/
def empty : FrameBuffer := ⟨[], .head⟩

instance : Inhabited FrameBuffer := ⟨empty⟩

/-- More octets have arrived. -/
def extend (b : FrameBuffer) (bytes : List UInt8) : FrameBuffer :=
  { b with held := b.held ++ bytes }

/-- How many octets are held. -/
def size (b : FrameBuffer) : Nat :=
  b.held.length

/-- A body of known length. -/
def takeBody (length : Nat) (held : List UInt8) : Option FrameResult × FrameBuffer :=
  if held.length < length then (none, ⟨held, .body length⟩)
  else (some (.ok (held.take length)), ⟨held.drop length, .head⟩)

/-- A header block, and the body behind it. -/
def takeHead (held : List UInt8) : Option FrameResult × FrameBuffer :=
  match splitHeader [] held with
  | none =>
    if maxHeaderSize < held.length then (some (.error .headerTooLarge), ⟨[], .resync⟩)
    else (none, ⟨held, .head⟩)
  | some (block, rest) =>
    match declaredLength block with
    | .error e => (some (.error e), ⟨rest, .resync⟩)
    | .ok length =>
      if maxMessageSize < length then
        (some (.error (.messageTooLarge length)), ⟨rest, .discard length⟩)
      else takeBody length rest

/-- Whether the field name comes next, in any letter case. -/
def startsField (bytes : List UInt8) : Bool :=
  (bytes.take fieldOctets.length).map lowerOctet == fieldOctets

/-- The octets from the first field name on. -/
def seekField : List UInt8 → Option (List UInt8)
  | [] => none
  | b :: rest => if startsField (b :: rest) then some (b :: rest) else seekField rest

/-- How many octets could be the start of a field name that is still to be
completed. -/
def keptTail : Nat := fieldOctets.length - 1

/-- The next body or error, if it has arrived in full. -/
def next (b : FrameBuffer) : Option FrameResult × FrameBuffer :=
  match b.phase with
  | .head => takeHead b.held
  | .body length => takeBody length b.held
  | .discard length =>
    if b.held.length < length then (none, ⟨[], .discard (length - b.held.length)⟩)
    else takeHead (b.held.drop length)
  | .resync =>
    match seekField b.held with
    | some found => takeHead found
    | none => (none, ⟨b.held.drop (b.held.length - keptTail), .resync⟩)

/-! ## Every result is progress -/

/-- What a result uses up: an octet, or else the wait for an empty body. -/
def weight (b : FrameBuffer) : Nat :=
  b.held.length + match b.phase with
    | .body _ => 1
    | _ => 0

theorem takeBody_weight {length : Nat} {held : List UInt8} {result : FrameResult}
    {after : FrameBuffer} (h : takeBody length held = (some result, after)) :
    after.weight ≤ held.length := by
  rw [takeBody] at h
  split at h
  · simp at h
  · simp only [Prod.mk.injEq] at h
    simp [← h.2, weight]

theorem takeHead_weight {held : List UInt8} {result : FrameResult} {after : FrameBuffer}
    (h : takeHead held = (some result, after)) : after.weight < held.length := by
  rw [takeHead] at h
  split at h
  · split at h
    · simp only [Prod.mk.injEq] at h
      simp only [← h.2, weight, List.length_nil]
      omega
    · simp at h
  next block rest hsplit =>
    have hlen := splitHeader_length hsplit
    split at h
    · simp only [Prod.mk.injEq] at h
      simp only [← h.2, weight]
      omega
    split at h
    · simp only [Prod.mk.injEq] at h
      simp only [← h.2, weight]
      omega
    · have := takeBody_weight h
      omega

theorem seekField_length {bytes found : List UInt8} (h : seekField bytes = some found) :
    found.length ≤ bytes.length := by
  induction bytes with
  | nil => simp [seekField] at h
  | cons b rest ih =>
    rw [seekField] at h
    split at h
    · simp only [Option.some.injEq] at h
      simp [← h]
    · exact Nat.le_succ_of_le (ih h)

theorem next_weight {b after : FrameBuffer} {result : FrameResult}
    (h : b.next = (some result, after)) : after.weight < b.weight := by
  rw [next] at h
  split at h
  next hphase => simpa [weight, hphase] using takeHead_weight h
  next length hphase =>
    have := takeBody_weight h
    simp only [weight, hphase] at this ⊢
    omega
  next length hphase =>
    split at h
    · simp at h
    · have := takeHead_weight h
      simp only [List.length_drop] at this
      simp only [weight, hphase] at this ⊢
      omega
  next hphase =>
    split at h
    next found hfound =>
      have := takeHead_weight h
      have := seekField_length hfound
      simp only [weight, hphase] at *
      omega
    · simp at h

/-- All results that have arrived, in order, and the buffer that waits for
more. -/
def drain (b : FrameBuffer) : List FrameResult × FrameBuffer :=
  match _h : b.next with
  | (none, after) => ([], after)
  | (some result, after) =>
    let (results, last) := drain after
    (result :: results, last)
termination_by b.weight
decreasing_by exact next_weight _h

end FrameBuffer

end LspClient.Wire
