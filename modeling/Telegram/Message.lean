import Telegram.Codec.Read
import Telegram.Frame.Decoder

/-!
# Messages

A receiver takes each frame of a stream to hold one value. The frame is cut off the stream before its
bytes are looked at, so a frame that holds no such value costs the stream nothing else. Bytes of a frame
that follow the value are ignored.

* `Receiver.next` answers the next value, an error, or that more bytes are needed;
* `Receiver.nextKept` passes over oversized frames;
* `Receiver.nextAtEnd` is asked when no more bytes will come.
-/

namespace Telegram

/-- What can go wrong with a message. -/
inductive MessageError where
  | frame (error : Frame.Error)
  | codec (error : Codec.Error)
  /-- The frame holds no value. -/
  | empty
  deriving DecidableEq, Repr

/-- The wording of an error. -/
def MessageError.message : MessageError → String
  | .frame error => error.message
  | .codec error => error.message
  | .empty => "frame carried no message body"

/-- What the frames of a stream hold. -/
structure Receiver where
  layout : Frame.Layout
  registry : Registry
  type : TypeExpr
  version : UInt32
  /-- How deep adapters may call each other while a frame is read. -/
  fuel : Nat := registry.callFuel type.weight

/-- The answer of one call. -/
inductive MessageOutcome where
  | needMore
  | value (value : Value)
  | error (error : MessageError)

/-- The answer of one call, what is remembered of oversized frames, and what is left in the buffer. -/
structure MessageStep where
  outcome : MessageOutcome
  state : Frame.State
  buffer : Bytes

namespace Receiver

/-- A receiver over a layout that can describe a frame. Without a version it is the registry's default
one. -/
def start (layout : Frame.Layout) (registry : Registry) (type : TypeExpr) (version : Option UInt32) :
    Except MessageError Receiver :=
  match layout.check with
  | .error e => .error (.frame e)
  | .ok () => .ok { layout, registry, type, version := version.getD registry.limits.defaultVersion }

/-- The value that the bytes of a frame hold. With the fuel that a receiver is started with, this is what
`Registry.decode` reads. -/
def unpack (receiver : Receiver) (frame : Bytes) : Run MessageOutcome :=
  if frame.isEmpty then pure (.error .empty)
  else do
    let reading ← receiver.registry.decodeIn receiver.fuel receiver.type receiver.version frame
    match reading.result with
    | .ok (some value) => pure (.value value)
    | .ok none => pure (.error .empty)
    | .error e => pure (.error (.codec e))

/-- The message that the outcome of framing amounts to. -/
def interpret (receiver : Receiver) : Frame.Outcome → Run MessageOutcome
  | .needMore => pure .needMore
  | .error e => pure (.error (.frame e))
  | .frame bytes => receiver.unpack bytes

/-- Takes the next message. -/
def next (receiver : Receiver) (state : Frame.State) (buffer : Bytes) : Run MessageStep := do
  let step := receiver.layout.next state buffer
  let outcome ← receiver.interpret step.outcome
  pure ⟨outcome, step.state, step.buffer⟩

/-- Takes the next message that is not in an oversized frame, in at most `fuel` calls. -/
def nextKeptIn (receiver : Receiver) : Nat → Frame.State → Bytes → Run MessageStep
  | 0, state, buffer => pure ⟨.needMore, state, buffer⟩
  | fuel + 1, state, buffer => do
    let step ← receiver.next state buffer
    match step.outcome with
    | .error (.frame (.tooLong ..)) => receiver.nextKeptIn fuel step.state step.buffer
    | _ => pure step

/-- Takes the next message that is not in an oversized frame. -/
def nextKept (receiver : Receiver) (state : Frame.State) (buffer : Bytes) : Run MessageStep :=
  receiver.nextKeptIn (buffer.length + 1) state buffer

/-- Takes the next message when no more bytes will come. -/
def nextAtEnd (receiver : Receiver) (state : Frame.State) (buffer : Bytes) : Run MessageStep := do
  let step ← receiver.nextKept state buffer
  match step.outcome with
  | .needMore =>
    if step.buffer.isEmpty || step.state.isSkipping then pure step
    else pure { step with outcome := .error (.frame .closed) }
  | _ => pure step

end Receiver

end Telegram
