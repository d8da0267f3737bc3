/-!
# What can go wrong while framing

One constructor for each cause, with the numbers that explain it. The wording is in
`Error.message`, and nowhere else.
-/

namespace Telegram.Frame

/-- Why a layout can never describe a frame. -/
inductive LayoutFault where
  /-- No frame may have any length. -/
  | zeroMax
  /-- The length field alone is longer than the longest frame. -/
  | widthExceedsMax (width max : Nat)
  /-- The length field ends after the end of the longest frame. -/
  | offsetExceedsMax (offset width max : Nat)
  /-- The header value needs more than the one byte it is given. -/
  | headerValueTooLarge (value : Nat)
  /-- A header has at most two bytes. -/
  | headerWidth (width : Nat)
  deriving DecidableEq, Repr

/-- What a source of bytes may answer instead of bytes. -/
inductive SourceFault where
  | interrupted
  | wouldBlock
  | timedOut
  | unexpectedEnd
  | connectionReset
  deriving DecidableEq, Repr

/-- Why a length field contradicts the layout. -/
inductive Corruption where
  /-- The field holds a negative number. -/
  | negativeLength (raw : Int)
  /-- The frame would end before its own length field does. -/
  | endsBeforeBody (length fieldEnd : Int)
  /-- More bytes are to be stripped than the frame has. -/
  | shorterThanStrip (length strip : Nat)
  /-- There are not enough bytes for the field. -/
  | truncatedField (width available : Nat)
  deriving DecidableEq, Repr

/-- An error of the framing layer. -/
inductive Error where
  /-- The layout can never describe a frame. -/
  | invalidLayout (fault : LayoutFault)
  /-- A length field contradicts the layout. -/
  | corrupted (cause : Corruption)
  /-- A frame of `length` bytes is longer than the layout allows. Its bytes are skipped; `skipping`
  says that some of them are still to come. -/
  | tooLong (length max : Nat) (skipping : Bool)
  /-- A length field has 1, 2, 3, 4 or 8 bytes. -/
  | unsupportedWidth (width : Nat)
  /-- The source failed. -/
  | source (fault : SourceFault)
  /-- The stream ended before a frame was complete. -/
  | closed
  deriving DecidableEq, Repr

def LayoutFault.message : LayoutFault → String
  | .zeroMax => "max_frame_length must be positive"
  | .widthExceedsMax width max =>
    s!"length_field_length ({width}) exceeds max_frame_length ({max})"
  | .offsetExceedsMax offset width max =>
    s!"max_frame_length ({max}) must be at least length_field_offset ({offset})" ++
      s!" + length_field_length ({width})"
  | .headerValueTooLarge value =>
    let digits := String.ofList (Nat.toDigits 16 value)
    s!"header value 0x{digits} does not fit in 1 byte"
  | .headerWidth width => s!"header width must be 0, 1 or 2 (got {width})"

def SourceFault.message : SourceFault → String
  | .interrupted => "operation interrupted"
  | .wouldBlock => "operation would block"
  | .timedOut => "timed out"
  | .unexpectedEnd => "unexpected end of file"
  | .connectionReset => "connection reset"

def Corruption.message : Corruption → String
  | .negativeLength raw => s!"negative pre-adjustment length field: {raw}"
  | .endsBeforeBody length fieldEnd =>
    s!"adjusted frame length ({length}) is less than length field end offset: {fieldEnd}"
  | .shorterThanStrip length strip =>
    s!"adjusted frame length ({length}) is less than initial bytes to strip: {strip}"
  | .truncatedField width available =>
    s!"length field needs {width} bytes, only {available} available"

/-- The wording of an error. -/
def Error.message : Error → String
  | .invalidLayout fault => "invalid frame configuration: " ++ fault.message
  | .corrupted cause => "corrupted frame: " ++ cause.message
  | .tooLong length max skipping =>
    let progress := if skipping then "discarding" else "discarded"
    s!"adjusted frame length exceeds {max}: {length} - {progress}"
  | .unsupportedWidth width =>
    s!"unsupported length field width: {width} (expected: 1, 2, 3, 4, or 8)"
  | .source fault => "frame I/O error: " ++ fault.message
  | .closed => "connection closed (incomplete frame)"

end Telegram.Frame
