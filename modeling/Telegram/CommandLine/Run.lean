import Telegram.CommandLine.Report
import Telegram.Frame.Reader

/-!
# Running a command

A command sees the standard input and the files it names, and its outcome is an exit code, a message
if it failed, and what goes to the standard output. Nothing is written before all of the input has been
read, so a failure leaves no output.

* `split` reads frames until it has as many as it was asked for or the capture ends. Oversized frames
  are counted and passed over; a corrupted one is a failure. It exits with `dataInvalid` if there was an
  oversized frame, or if bytes are left over that no limit explains.
* `checksum` computes checksums of a payload. An addition that overflows aborts it.
* `version` names the program, and `help` shows a page.
-/

namespace Telegram.CommandLine

/-- What the exit codes mean. -/
inductive ExitCode where
  | success
  | failure
  | misuse
  | permissionDenied
  | dataInvalid
  | badOptions
  | notFound
  | aborted
  | internal
  deriving DecidableEq, Repr

def ExitCode.toNat : ExitCode → Nat
  | .success => 0
  | .failure => 1
  | .misuse => 2
  | .permissionDenied => 50
  | .dataInvalid => 60
  | .badOptions => 64
  | .notFound => 66
  | .aborted => 101
  | .internal => 125

/-- Why a file can not be read. -/
inductive FileFault where
  | notFound
  | permissionDenied
  /-- The path leads through something that is no directory. -/
  | notADirectory
  | isDirectory
  | nameTooLong
  deriving DecidableEq, Repr

def FileFault.message : FileFault → String
  | .notFound => "No such file or directory (os error 2)"
  | .permissionDenied => "Permission denied (os error 13)"
  | .notADirectory => "Not a directory (os error 20)"
  | .isDirectory => "Is a directory (os error 21)"
  | .nameTooLong => "File name too long (os error 36)"

def FileFault.exitCode : FileFault → ExitCode
  | .notFound => .notFound
  | .permissionDenied => .permissionDenied
  | .notADirectory | .isDirectory | .nameTooLong => .internal

/-- What a command can read. -/
structure Inputs where
  stdin : Bytes
  file : String → Except FileFault Bytes

/-- Why a command failed. -/
structure Failure where
  code : ExitCode
  message : String

/-- What a command leaves behind. The errors are its own messages: a command that is aborted has none. -/
structure Outcome where
  code : ExitCode
  errors : List String := []
  output : Bytes := []

/-- A fault of a file, said of what was being done to it. -/
def fileFailure (context : String) (fault : FileFault) : Failure :=
  ⟨fault.exitCode, context ++ ": " ++ fault.message⟩

/-- A fault of a source, said of what was being done to it. -/
def sourceFailure (context : String) (fault : Frame.SourceFault) : Failure :=
  ⟨if fault = .unexpectedEnd then .dataInvalid else .internal, context ++ ": " ++ fault.message⟩

/-- An error of the framing layer, said of what was being done. -/
def frameFailure (context : String) (error : Frame.Error) : Failure :=
  let failure (code : ExitCode) : Failure := ⟨code, context ++ ": " ++ error.message⟩
  match error with
  | .invalidLayout _ | .unsupportedWidth _ => failure .badOptions
  | .corrupted _ | .tooLong .. => failure .dataInvalid
  | .source fault => sourceFailure context fault
  | .closed => failure .failure

/-- Reads hexadecimal text typed by hand. -/
def parseHex (text : String) : Except Failure Bytes :=
  (Hex.decodeLoose text).mapError fun fault =>
    ⟨.dataInvalid, "invalid hex input: " ++ fault.message⟩

/-- The header that the options ask for. -/
def headerOf (text : Option String) : Except Failure Frame.Header :=
  match text with
  | none => .ok .none
  | some text => do
    match ← parseHex text with
    | [byte] => .ok (.one byte)
    | [high, low] => .ok (.two (UInt16.ofNat (ByteOrder.big.decode [high, low])))
    | bytes => .error ⟨.badOptions, s!"header must be 1 or 2 bytes (got {bytes.length})"⟩

/-- The bytes of a capture. A directory can be opened and fails when it is read. -/
def openCapture (inputs : Inputs) (options : SplitOptions) : Except Failure (Except FileFault Bytes) :=
  if options.input == "-" then .ok (.ok inputs.stdin)
  else match inputs.file options.input with
    | .error .isDirectory => .ok (.error .isDirectory)
    | .error fault => .error (fileFailure ("open " ++ options.input) fault)
    | .ok bytes => .ok (.ok bytes)

/-- The bytes that hexadecimal text stands for. -/
def readHexCapture (capture : Except FileFault Bytes) : Except Failure Bytes :=
  match capture with
  | .error fault => .error (fileFailure "read hex input" fault)
  | .ok bytes =>
    match Text.fromUtf8? bytes with
    | none => .error ⟨.dataInvalid, "read hex input: stream did not contain valid UTF-8"⟩
    | some text => parseHex (String.ofList text)

/-- The frames of a capture, how many oversized ones were passed over, and what is left over. -/
structure Capture where
  frames : List Bytes := []
  oversized : Nat := 0
  trailing : Bytes := []

/-- Reads frames in at most `fuel` rounds, and no more than `limit`. -/
def collect : Nat → Option Nat → Frame.Reader → Except Frame.Error Capture
  | _, some 0, reader => .ok { trailing := reader.buffer }
  | 0, _, reader => .ok { trailing := reader.buffer }
  | fuel + 1, limit, reader =>
    match reader.read with
    | (.ok frame, reader) => do
      let rest ← collect fuel (limit.map (· - 1)) reader
      return { rest with frames := frame :: rest.frames }
    | (.error (.tooLong ..), reader) => do
      let rest ← collect fuel limit reader
      return { rest with oversized := rest.oversized + 1 }
    | (.error .closed, reader) => .ok { trailing := reader.buffer }
    | (.error error, _) => .error error

/-- Splits a capture into frames. Where none are asked for, the capture is not read. -/
def split (inputs : Inputs) (format : Format) (options : SplitOptions) : Except Failure Outcome := do
  let header ← headerOf options.header
  let opened ← openCapture inputs options
  let capture ← if options.hex then (readHexCapture opened).map .ok else .ok opened
  let layout := { options.layout with header }
  let _ ← layout.check.mapError (frameFailure "invalid framing options")
  let bytes ← if options.limit = some 0 then .ok []
    else capture.mapError (fileFailure "read frames")
  let found ← (collect (bytes.length + 1) options.limit { layout, source := [.data bytes] }).mapError
    (frameFailure "read frames")
  let incomplete := !found.trailing.isEmpty && options.limit.isNone
  let code := if 0 < found.oversized || incomplete then .dataInvalid else .success
  return { code, output := reportFrames format found.frames }

/-- The payload of a checksum. -/
def payloadBytes (inputs : Inputs) : Payload → Except Failure Bytes
  | .digits text => parseHex text
  | .file path => (inputs.file path).mapError (fileFailure ("read " ++ path))

/-- Computes checksums. An addition that overflows aborts the program before anything is written. -/
def checksum (inputs : Inputs) (format : Format) (payload : Payload) (algorithms : List Algorithm) :
    Except Failure Outcome := do
  let bytes ← payloadBytes inputs payload
  let algorithms := if algorithms.isEmpty then Algorithm.all else algorithms
  match algorithms.mapM fun algorithm => algorithm.compute? bytes with
  | none => return { code := .aborted }
  | some results => return { code := .success, output := reportChecksums format bytes.length results }

/-- The program's version. -/
def programVersion : String :=
  "0.1.0"

/-- The program's name and version, and if `extended` what it was built for and with. -/
def versionText (extended : Bool) : String :=
  if extended then
    String.join <| [("name", programName), ("version", programVersion),
      ("target", "x86_64-unknown-linux-gnu"), ("target_os", "linux"), ("target_arch", "x86_64"),
      ("features", "async=true, cli=true")].map fun (key, value) => line (key ++ ": " ++ value)
  else line (programName ++ " " ++ programVersion)

/-- The file that a request reads, if it reads one. -/
def Request.file? (request : Request) : Option String :=
  match request.command with
  | .split options => if options.input == "-" then none else some options.input
  | .checksum (.file path) _ => some path
  | _ => none

/-- The request reads the standard input. -/
def Request.readsStdin (request : Request) : Bool :=
  match request.command with
  | .split options => options.input == "-"
  | _ => false

/-- Carries out a request. -/
def Request.run (inputs : Inputs) (request : Request) : Except Failure Outcome :=
  match request.command with
  | .split options => split inputs request.format options
  | .checksum payload algorithms => checksum inputs request.format payload algorithms
  | .version extended => .ok { code := .success, output := textBytes (versionText extended) }
  | .help page => .ok { code := .success, output := textBytes page.render }

/-- Runs a command line whose results are written in `default` unless it says otherwise. -/
def run (default : Format) (inputs : Inputs) (words : List String) : Outcome :=
  match Request.ofArguments default words with
  | none => { code := .misuse }
  | some request =>
    match request.run inputs with
    | .ok outcome => outcome
    | .error failure => { code := failure.code, errors := [failure.message] }

end Telegram.CommandLine
