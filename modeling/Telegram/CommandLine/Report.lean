import Telegram.Checksum.Crc16
import Telegram.Checksum.Sums
import Telegram.CommandLine.Command
import Telegram.CommandLine.Table
import Telegram.Hex

/-!
# Reports

How results are written, in each of the formats.

* `reportFrames` writes the frames of a capture;
* `reportChecksums` writes the checksums of a payload, each with as many digits as it has room for.
-/

namespace Telegram.CommandLine

/-- The UTF-8 bytes of a text. -/
def textBytes (text : String) : Bytes :=
  Text.utf8 text.toList

/-- A line of text. -/
def line (text : String) : String :=
  text ++ "\n"

/-- One member of a JSON object: a name and a value that is already written. -/
def jsonMember (name value : String) : String :=
  "\"" ++ name ++ "\":" ++ value

/-- A JSON string whose characters need no escape. -/
def jsonString (text : String) : String :=
  "\"" ++ text ++ "\""

/-- A JSON object. -/
def jsonObject (members : List String) : String :=
  "\x7b" ++ ",".intercalate members ++ "\x7d"

/-- One frame as JSON. -/
def frameJson (index : Nat) (frame : Bytes) : String :=
  jsonObject [jsonMember "index" (toString index), jsonMember "size" (toString frame.length),
    jsonMember "hex" (jsonString (Hex.encode frame))]

/-- One frame as a line of text. -/
def framePretty (index : Nat) (frame : Bytes) : String :=
  s!"frame={index} size={frame.length} bytes=" ++ Hex.spaced frame

/-- The frames as a table. -/
def frameTable (frames : List (Nat × Bytes)) : Table where
  heading := ["#", "SIZE", "BYTES"]
  rows := frames.map fun (index, frame) =>
    [toString index, toString frame.length, Hex.spaced frame]

/-- Writes the frames of a capture. -/
def reportFrames (format : Format) (frames : List Bytes) : Bytes :=
  let numbered := frames.zipIdx.map Prod.swap
  match format with
  | .json => textBytes (String.join (numbered.map fun (i, frame) => line (frameJson i frame)))
  | .table => textBytes (line (frameTable numbered).render)
  | .pretty => textBytes (String.join (numbered.map fun (i, frame) => line (framePretty i frame)))
  | .raw => frames.flatten

/-- A checksum that has been computed. -/
structure ChecksumResult where
  algorithm : Algorithm
  value : Nat
  /-- The bytes that the checksum has. -/
  width : Nat

/-- Computes a checksum. There is none where the sum of signed bytes leaves its register on the way. -/
def Algorithm.compute? (algorithm : Algorithm) (payload : Bytes) : Option ChecksumResult :=
  match algorithm with
  | .crc16 => some ⟨algorithm, (Checksum.crc16 payload).toNat, 2⟩
  | .sum => some ⟨algorithm, (Checksum.sum payload).toNat, 1⟩
  | .xor => some ⟨algorithm, (Checksum.xor payload).toNat, 1⟩
  | .checksum8 => (Checksum.signedSum? payload).map fun value => ⟨algorithm, value.toNat, 1⟩
  | .checksum32Little => some ⟨algorithm, (Checksum.words .little payload).toNat, 4⟩
  | .checksum32Big => some ⟨algorithm, (Checksum.words .big payload).toNat, 4⟩

/-- The checksum in hexadecimal, high byte first. -/
def ChecksumResult.hex (result : ChecksumResult) : String :=
  Hex.encode (ByteOrder.big.encode result.width result.value)

/-- One checksum as JSON. -/
def checksumJson (result : ChecksumResult) : String :=
  jsonObject [jsonMember "algorithm" (jsonString result.algorithm.name),
    jsonMember "value" (toString result.value), jsonMember "hex" (jsonString result.hex)]

/-- The checksums as a table. -/
def checksumTable (results : List ChecksumResult) : Table where
  heading := ["ALGORITHM", "HEX", "DECIMAL"]
  rows := results.map fun result => [result.algorithm.name, result.hex, toString result.value]

/-- Writes the checksums of a payload of `size` bytes. -/
def reportChecksums (format : Format) (size : Nat) (results : List ChecksumResult) : Bytes :=
  textBytes <| match format with
  | .json =>
    let checksums := "[" ++ ",".intercalate (results.map checksumJson) ++ "]"
    line (jsonObject [jsonMember "input_size" (toString size), jsonMember "checksums" checksums])
  | .table => line (checksumTable results).render
  | .pretty | .raw =>
    String.join (results.map fun result => line (result.algorithm.name ++ "=" ++ result.hex))

end Telegram.CommandLine
