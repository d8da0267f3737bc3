import Mathlib.Algebra.Group.Int.Defs
import Telegram.Frame.Decoder

/-!
# The decoder in machine words

`Layout.next` counts in numbers without bounds. A machine counts in words: positions and lengths have 64
bits, the adjusted length of a frame has 128, and an operation whose result does not fit, or that reaches
beyond the buffer, stops the program. Here is one call of the decoder, operation by operation, where each
of them can end in such a `Fault`.

* `Machine.word` and `Machine.wide` admit the numbers that fit; every operation on numbers goes through
  them.
* `Machine.slice`, `Machine.advance` and `Machine.splitTo` admit the positions that are buffered.
* `Memory` is what the decoder stores: the end of the length field, computed once, and three fields for
  the frame that is being skipped, where `Layout.next` has a `State`.
* `Machine.next` is one call.
-/

namespace Telegram.Frame

/-- Why an operation has no result. Every operation is checked, so that no fault can go unseen in a number
that looks like a result. -/
inductive Fault where
  /-- A number does not fit its type. -/
  | overflow
  /-- A position lies beyond the end of the buffer. -/
  | bounds
  /-- A loop does not end. -/
  | endless
  deriving DecidableEq, Repr

/-- What the decoder stores between calls. A flag and three numbers can say more than the two cases of
`State`, for instance that a frame is being skipped of which nothing is left. Such memories are not
excluded by the type; that no call comes to one is to be shown. -/
structure Memory where
  fieldEnd : UInt64
  skipping : Bool := false
  /-- The length of the frame that is being skipped. -/
  length : UInt64 := 0
  /-- How many bytes of it are still to come. -/
  left : UInt64 := 0
  deriving DecidableEq

/-- The answer of one call, what is stored after it and what is left in the buffer. -/
structure Reply where
  outcome : Outcome
  memory : Memory
  buffer : Bytes
  deriving DecidableEq

namespace Machine

/-! ## Operations

An operation is admitted or it is a fault. Nothing wraps around here, and nothing is cut off where that
was not asked for. -/

/-- The word of 64 bits for a number. -/
def word (n : Int) : Except Fault UInt64 :=
  if 0 ≤ n ∧ n < 2 ^ 64 then .ok (UInt64.ofNat n.toNat) else .error .overflow

/-- A number that fits in 128 bits, one of them for the sign. -/
def wide (n : Int) : Except Fault Int :=
  if -2 ^ 127 ≤ n ∧ n < 2 ^ 127 then .ok n else .error .overflow

def add (a b : UInt64) : Except Fault UInt64 :=
  word (a.toNat + b.toNat)

def sub (a b : UInt64) : Except Fault UInt64 :=
  word (a.toNat - b.toNat)

/-- The number of buffered bytes. -/
def count (buffer : Bytes) : Except Fault UInt64 :=
  word buffer.length

/-- The bytes from `start` up to `stop`. -/
def slice (buffer : Bytes) (start stop : UInt64) : Except Fault Bytes :=
  if start ≤ stop ∧ stop.toNat ≤ buffer.length then .ok ((buffer.take stop.toNat).drop start.toNat)
  else .error .bounds

/-- The bytes after the first `count`. -/
def advance (buffer : Bytes) (count : UInt64) : Except Fault Bytes :=
  if count.toNat ≤ buffer.length then .ok (buffer.drop count.toNat) else .error .bounds

/-- The first `count` bytes and those after them. -/
def splitTo (buffer : Bytes) (count : UInt64) : Except Fault (Bytes × Bytes) :=
  if count.toNat ≤ buffer.length then .ok (buffer.take count.toNat, buffer.drop count.toNat)
  else .error .bounds

/-- The unsigned number in the first `width` bytes. -/
def getUint (order : ByteOrder) (buffer : Bytes) (width : UInt64) : Except Fault UInt64 := do
  let (front, _) ← splitTo buffer width
  word (order.decode front)

/-! ## One call

These follow `Layout.next` part by part. Where that compares numbers, this compares words, and everything
that is counted is first shown to be in the buffer. -/

/-- Reads a length field. Its highest bit is the sign of the number, if it has eight bytes. -/
def readLength (order : ByteOrder) (width : UInt64) (buffer : Bytes) :
    Except Fault (Except Error Int64) := do
  if isFieldWidth width.toNat then
    let available ← count buffer
    if available < width then
      .ok (.error (.corrupted (.truncatedField width.toNat available.toNat)))
    else
      let raw ← getUint order buffer width
      .ok (.ok raw.toInt64)
  else .ok (.error (.unsupportedWidth width.toNat))

/-- Reports the frame that is being skipped, if it is time to, and forgets it with its last byte. -/
def settle (layout : Layout) (first : Bool) (memory : Memory) : Option Error × Memory :=
  if memory.left = 0 then
    (if !layout.failFast || first then some (.tooLong memory.length.toNat layout.max false) else none,
      { memory with skipping := false, length := 0 })
  else
    (if layout.failFast && first then some (.tooLong memory.length.toNat layout.max true) else none, memory)

/-- Starts to skip an oversized frame. -/
def exceed (layout : Layout) (memory : Memory) (length : UInt64) (buffer : Bytes) :
    Except Fault Reply := do
  let buffered ← count buffer
  let memory := { memory with length }
  let (memory, buffer) ←
    if length ≤ buffered then
      let buffer ← advance buffer length
      .ok (memory, buffer)
    else
      let left ← sub length buffered
      .ok ({ memory with skipping := true, left }, [])
  match settle layout true memory with
  | (some e, memory) => .ok ⟨.error e, memory, buffer⟩
  | (none, memory) => .ok ⟨.needMore, memory, buffer⟩

/-- Takes a frame whose length is known. -/
def take (layout : Layout) (memory : Memory) (length : UInt64) (buffer : Bytes) : Except Fault Reply := do
  let buffered ← count buffer
  if buffered < length then .ok ⟨.needMore, memory, buffer⟩
  else if length < layout.strip then
    let buffer ← advance buffer length
    .ok ⟨.error (.corrupted (.shorterThanStrip length.toNat layout.strip.toNat)), memory, buffer⟩
  else
    let buffer ← advance buffer layout.strip
    let length ← sub length layout.strip
    let (frame, buffer) ← splitTo buffer length
    .ok ⟨.frame frame, memory, buffer⟩

/-- Judges the frame at the front of the buffer by the number in its length field. -/
def judge (layout : Layout) (memory : Memory) (raw : Int64) (buffer : Bytes) : Except Fault Reply := do
  if raw < 0 then
    let buffer ← advance buffer memory.fieldEnd
    .ok ⟨.error (.corrupted (.negativeLength raw.toInt)), memory, buffer⟩
  else
    let adjusted ← wide (raw.toInt + layout.adjustment.toInt)
    let length ← wide (adjusted + memory.fieldEnd.toNat)
    if length < memory.fieldEnd.toNat then
      let buffer ← advance buffer memory.fieldEnd
      .ok ⟨.error (.corrupted (.endsBeforeBody length memory.fieldEnd.toNat)), memory, buffer⟩
    else if layout.max < length then
      -- the one conversion that may fail, and what is taken instead
      let length := if length < 2 ^ 64 then UInt64.ofNat length.toNat else .ofNat countLimit
      exceed layout memory length buffer
    else
      let length ← word length
      take layout memory length buffer

/-- Takes the frame at the front of the buffer, where its header has been found. -/
def cut (layout : Layout) (memory : Memory) (buffer : Bytes) : Except Fault Reply := do
  let buffered ← count buffer
  if buffered < memory.fieldEnd then .ok ⟨.needMore, memory, buffer⟩
  else
    let field ← slice buffer layout.offset memory.fieldEnd
    match ← readLength layout.order layout.width field with
    | .error e => .ok ⟨.error e, memory, buffer⟩
    | .ok raw => judge layout memory raw buffer

/-- The header is what the window shows. -/
def isHeader (header : Header) (window : Bytes) : Except Fault Bool :=
  match header with
  | .none => .ok true
  | .one byte => .ok (window.head? == some byte)
  | .two value => do
    let available ← count window
    if available < 2 then .ok false
    else
      let front ← slice window 0 2
      .ok (front == ByteOrder.big.encode 2 value.toNat)

/-- Whether the header stands in the buffer, from the `skipped` bytes on that have been looked at, and how
many bytes stand in front of it. -/
def seek (header : Header) (buffer : Bytes) : Nat → UInt64 → Except Fault (Bool × UInt64)
  | 0, _ => .error .endless
  | fuel + 1, skipped => do
    let width ← word header.width
    let buffered ← count buffer
    let remaining ← sub buffered skipped
    if remaining < width then .ok (false, skipped)
    else
      let stop ← add skipped width
      let window ← slice buffer skipped stop
      let found ← isHeader header window
      if found then .ok (true, skipped)
      else
        let skipped ← add skipped 1
        seek header buffer fuel skipped

/-- Looks for the next header and takes the frame that it starts. -/
def scan (layout : Layout) (memory : Memory) (buffer : Bytes) : Except Fault Reply := do
  if layout.header = .none then cut layout memory buffer
  else
    let (found, skipped) ← seek layout.header buffer (buffer.length + 1) 0
    let buffer ← advance buffer skipped
    if found then cut layout memory buffer else .ok ⟨.needMore, memory, buffer⟩

/-- Takes the next frame. -/
def next (layout : Layout) (memory : Memory) (buffer : Bytes) : Except Fault Reply := do
  if memory.skipping then
    let buffered ← count buffer
    let here := min memory.left buffered
    let buffer ← advance buffer here
    let left ← sub memory.left here
    match settle layout false { memory with left } with
    | (some e, memory) => .ok ⟨.error e, memory, buffer⟩
    | (none, memory) =>
      if memory.skipping then .ok ⟨.needMore, memory, buffer⟩ else scan layout memory buffer
  else scan layout memory buffer

/-- What a new decoder stores. -/
def start (layout : Layout) : Except Fault Memory := do
  let fieldEnd ← add layout.offset layout.width
  .ok { fieldEnd }

end Machine

end Telegram.Frame
