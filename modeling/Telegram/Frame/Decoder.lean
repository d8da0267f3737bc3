import Telegram.Frame.Layout

/-!
# Cutting a stream into frames

A decoder works on the bytes that are buffered and on what it remembers of an oversized frame. Each
call takes the front of the buffer as far as one outcome goes:

* `next` answers a frame, an error, or that more bytes are needed;
* `nextKept` is the form for streams that end at their first error: oversized frames are passed over;
* `nextAtEnd` is asked when no more bytes will come;
* `drain` collects every frame that is buffered.

Every outcome but `needMore` shortens the buffer, so a loop over `next` needs no more rounds than
there are bytes, and one more; the loops below are given exactly that many.
-/

namespace Telegram.Frame

/-- What a decoder remembers between calls. -/
inductive State where
  /-- The buffer starts outside any frame that has to be skipped. -/
  | framing
  /-- An oversized frame of `length` bytes is being skipped, `left` of which are still to come. -/
  | skipping (length left : Nat)
  deriving DecidableEq, Repr

/-- An oversized frame is being skipped. -/
def State.isSkipping : State → Bool
  | .framing => false
  | .skipping .. => true

/-- How many bytes of an oversized frame are still to come. -/
def State.left : State → Nat
  | .framing => 0
  | .skipping _ left => left

/-- The answer of one call. -/
inductive Outcome where
  | needMore
  | frame (bytes : Bytes)
  | error (error : Error)
  deriving DecidableEq, Repr

/-- The answer of one call, what is remembered after it and what is left in the buffer. -/
structure Step where
  outcome : Outcome
  state : State
  buffer : Bytes
  deriving DecidableEq, Repr

/-- The largest count of bytes there is. An adjusted length beyond it is taken to be this long. -/
def countLimit : Nat :=
  UInt64.size - 1

namespace Layout

/-- Skips an oversized frame of `length` bytes, as much of it as is buffered. It is reported at once
if all of it is there or if the layout says so. -/
def skip (layout : Layout) (length : Nat) (buffer : Bytes) : Step :=
  if buffer.isShorter length then
    let state := State.skipping length (length - buffer.length)
    if layout.failFast then ⟨.error (.tooLong length layout.max true), state, []⟩
    else ⟨.needMore, state, []⟩
  else ⟨.error (.tooLong length layout.max false), .framing, buffer.drop length⟩

/-- Takes a frame whose length is known. -/
def take (layout : Layout) (length : Nat) (buffer : Bytes) : Step :=
  let strip := layout.strip.toNat
  if buffer.isShorter length then ⟨.needMore, .framing, buffer⟩
  else if length < strip then
    ⟨.error (.corrupted (.shorterThanStrip length strip)), .framing, buffer.drop length⟩
  else ⟨.frame ((buffer.take length).drop strip), .framing, buffer.drop length⟩

/-- Judges the frame at the front of the buffer by the number in its length field. -/
def judge (layout : Layout) (raw : Int) (buffer : Bytes) : Step :=
  let fieldEnd := layout.fieldEnd
  let length := raw + layout.adjustment.toInt + fieldEnd
  if raw < 0 then ⟨.error (.corrupted (.negativeLength raw)), .framing, buffer.drop fieldEnd⟩
  else if length < fieldEnd then
    ⟨.error (.corrupted (.endsBeforeBody length fieldEnd)), .framing, buffer.drop fieldEnd⟩
  else if layout.max < length then layout.skip (min length.toNat countLimit) buffer
  else layout.take length.toNat buffer

/-- The bytes of the length field of the frame at the front of the buffer. -/
def field (layout : Layout) (buffer : Bytes) : Bytes :=
  (buffer.take layout.fieldEnd).drop layout.offset.toNat

/-- Takes the frame at the front of the buffer, where its header has been found. -/
def cut (layout : Layout) (buffer : Bytes) : Step :=
  if buffer.isShorter layout.fieldEnd then ⟨.needMore, .framing, buffer⟩
  else match readLength layout.order layout.width.toNat (layout.field buffer) with
    | .error e => ⟨.error e, .framing, buffer⟩
    | .ok raw => layout.judge raw buffer

/-- Looks for the next header and takes the frame that it starts. -/
def scan (layout : Layout) (buffer : Bytes) : Step :=
  let found := layout.header.seek buffer
  if layout.header.isAt found then layout.cut found else ⟨.needMore, .framing, found⟩

/-- Takes the next frame. -/
def next (layout : Layout) : State → Bytes → Step
  | .framing, buffer => layout.scan buffer
  | .skipping length left, buffer =>
    if buffer.isShorter left then ⟨.needMore, .skipping length (left - buffer.length), []⟩
    else if layout.failFast then layout.scan (buffer.drop left)
    else ⟨.error (.tooLong length layout.max false), .framing, buffer.drop left⟩

/-- Takes the next frame that is not oversized, in at most `fuel` calls. -/
def nextKeptIn (layout : Layout) : Nat → State → Bytes → Step
  | 0, state, buffer => ⟨.needMore, state, buffer⟩
  | fuel + 1, state, buffer =>
    let step := layout.next state buffer
    match step.outcome with
    | .error (.tooLong ..) => layout.nextKeptIn fuel step.state step.buffer
    | _ => step

/-- Takes the next frame that is not oversized. -/
def nextKept (layout : Layout) (state : State) (buffer : Bytes) : Step :=
  layout.nextKeptIn (buffer.length + 1) state buffer

/-- Takes the next frame when no more bytes will come. Bytes that are left over and belong to no
oversized frame are an incomplete frame. -/
def nextAtEnd (layout : Layout) (state : State) (buffer : Bytes) : Step :=
  let step := layout.nextKept state buffer
  match step.outcome with
  | .needMore =>
    if step.buffer.isEmpty || step.state.isSkipping then step
    else { step with outcome := .error .closed }
  | _ => step

/-- The frames that are buffered, in at most `fuel` calls, or the first error. Frames taken before
the error are lost with it. -/
def drainIn (layout : Layout) : Nat → State → Bytes → Except Error (List Bytes) × State × Bytes
  | 0, state, buffer => (.ok [], state, buffer)
  | fuel + 1, state, buffer =>
    let step := layout.next state buffer
    match step.outcome with
    | .needMore => (.ok [], step.state, step.buffer)
    | .error e => (.error e, step.state, step.buffer)
    | .frame bytes =>
      let (frames, state, buffer) := layout.drainIn fuel step.state step.buffer
      (frames.map (bytes :: ·), state, buffer)

/-- The frames that are buffered, or the first error. -/
def drain (layout : Layout) (state : State) (buffer : Bytes) :
    Except Error (List Bytes) × State × Bytes :=
  layout.drainIn (buffer.length + 1) state buffer

end Layout

end Telegram.Frame
