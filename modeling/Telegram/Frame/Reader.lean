import Telegram.Frame.Decoder

/-!
# Reading frames from a source

A source delivers bytes in pieces of any size, and now and then a fault. `Reader.read` asks it for
more until the decoder has an outcome.

A source is a list of items. Asking for bytes yields at most `chunkSize` of the first item; what is
left of it comes next time. An empty piece, or no item at all, is the end of the stream, which need
not be final. An interruption is not reported: the reader asks again. `Source.weight` bounds how often
a source can be asked before it has nothing left to say.
-/

namespace Telegram.Frame

/-- The most bytes that are asked for at once. -/
def chunkSize : Nat :=
  8192

/-- What a source has to say when it is asked for bytes. -/
inductive Item where
  | data (bytes : Bytes)
  | fault (fault : SourceFault)
  deriving DecidableEq, Repr

/-- The items that a source has not delivered yet. -/
abbrev Source := List Item

namespace Source

/-- Asks for bytes: the answer, and the source after it. -/
def pull : Source → Except SourceFault Bytes × Source
  | [] => (.ok [], [])
  | .fault fault :: rest => (.error fault, rest)
  | .data bytes :: rest =>
    if bytes.length ≤ chunkSize then (.ok bytes, rest)
    else (.ok (bytes.take chunkSize), .data (bytes.drop chunkSize) :: rest)

/-- How often a source can be asked at most: once for each item and for each byte. -/
def weight : Source → Nat
  | [] => 0
  | .data bytes :: rest => bytes.length + 1 + weight rest
  | .fault _ :: rest => 1 + weight rest

end Source

/-- A decoder, the bytes it has not used yet, and the source of more. -/
structure Reader where
  layout : Layout
  state : State := .framing
  buffer : Bytes := []
  source : Source

namespace Reader

/-- Reads the next frame, asking the source fewer than `fuel` times. A call that would ask more often gives up with
an interruption, which no call reports otherwise. -/
def readIn : Nat → Reader → Except Error Bytes × Reader
  | 0, reader => (.error (.source .interrupted), reader)
  | fuel + 1, reader =>
    let step := reader.layout.next reader.state reader.buffer
    let reader := { reader with state := step.state, buffer := step.buffer }
    match step.outcome with
    | .frame bytes => (.ok bytes, reader)
    | .error e => (.error e, reader)
    | .needMore =>
      let (answer, source) := reader.source.pull
      let reader := { reader with source }
      match answer with
      | .error .interrupted => readIn fuel reader
      | .error fault => (.error (.source fault), reader)
      | .ok [] => (.error .closed, reader)
      | .ok chunk => readIn fuel { reader with buffer := reader.buffer ++ chunk }

/-- Reads the next frame. The source has less to say than `weight`, so that a call never gives up. -/
def read (reader : Reader) : Except Error Bytes × Reader :=
  reader.readIn (reader.source.weight + 1)

/-- A reader that has read nothing yet, over a layout that can describe a frame. -/
def start (layout : Layout) (source : Source) : Except Error Reader := do
  layout.check
  return { layout, source }

end Reader

end Telegram.Frame
