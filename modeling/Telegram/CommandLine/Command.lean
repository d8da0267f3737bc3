import Telegram.CommandLine.Arguments
import Telegram.CommandLine.Help
import Telegram.Frame.Layout

/-!
# Commands

What a command line asks for. `Request.ofArguments` reads one:

* the options of every command stand before or after the command's name, and what stands after wins;
* the words after the name are the command's own;
* a page of help is shown as soon as it is asked for, whatever is missing or comes later;
* anything else is a misuse.
-/

namespace Telegram.CommandLine

/-- How results are written. -/
inductive Format where
  | json
  | table
  | pretty
  | raw
  deriving DecidableEq, Repr

/-- The checksums that can be asked for. -/
inductive Algorithm where
  | crc16
  | sum
  | xor
  | checksum8
  | checksum32Little
  | checksum32Big
  deriving DecidableEq, Repr

namespace Algorithm

/-- All checksums, in the order they are reported. -/
def all : List Algorithm :=
  [.crc16, .sum, .xor, .checksum8, .checksum32Little, .checksum32Big]

def name : Algorithm → String
  | .crc16 => "crc16"
  | .sum => "sum"
  | .xor => "xor"
  | .checksum8 => "checksum8"
  | .checksum32Little => "checksum32-le"
  | .checksum32Big => "checksum32-be"

/-- What the checksum is. -/
def description : Algorithm → String
  | .crc16 => "Modbus CRC-16 (poly 0xA001, init 0xFFFF)"
  | .sum => "Low byte of the byte sum"
  | .xor => "XOR of all bytes"
  | .checksum8 => "Two's-complement signed byte sum"
  | .checksum32Little => "XOR of little-endian 32-bit words"
  | .checksum32Big => "XOR of big-endian 32-bit words"

/-- The checksum of that name. -/
def ofName? (name : String) : Option Algorithm :=
  all.find? fun algorithm => algorithm.name == name

end Algorithm

/-- What the splitting of a capture is told. -/
structure SplitOptions where
  /-- A path, or `-` for the standard input. -/
  input : String
  /-- The input is hexadecimal text. -/
  hex : Bool
  /-- The header, in hexadecimal. -/
  header : Option String
  /-- All of the layout but its header. -/
  layout : Frame.Layout
  /-- Stop after that many frames. -/
  limit : Option Nat

/-- Where the payload of a checksum comes from. -/
inductive Payload where
  /-- From the command line, in hexadecimal. -/
  | digits (text : String)
  | file (path : String)

/-- What a command line asks for. -/
inductive Command where
  | split (options : SplitOptions)
  | checksum (payload : Payload) (algorithms : List Algorithm)
  /-- The version, and if `extended` what was built too. -/
  | version (extended : Bool)
  | help (page : Page)

/-- A command, and how its results are to be written. -/
structure Request where
  format : Format
  command : Command

/-- The formats by name. -/
def formatNames : List (String × Format) :=
  [("json", .json), ("table", .table), ("pretty", .pretty), ("raw", .raw)]

/-- Choices that need no description. -/
def choicesOf (names : List String) : List Choice :=
  names.map fun name => { name }

/-- The options that every command understands. -/
def sharedOptions : List OptionSpec :=
  [{ name := "format", help := "Output format", choices := choicesOf (formatNames.map Prod.fst) },
    { name := "log-format", valueName := "FORMAT", help := "Log output format (stderr)",
      choices := choicesOf ["text", "json"], fallback := some "text" },
    { name := "log-level", valueName := "LEVEL", help := "Minimum log level (stderr)",
      choices := choicesOf ["error", "warn", "info", "debug", "trace"], fallback := some "warn" }]

/-- The option takes a whole number without a sign. -/
def acceptsCount (value : String) : Bool :=
  (count? value).isSome

/-- The option or operand takes a path, which is never empty. -/
def acceptsPath (value : String) : Bool :=
  value != ""

/-- The layout that is meant where the options say nothing. -/
def plainLayout : Frame.Layout := {}

def splitSpec : CommandSpec where
  name := "split"
  about := "Split a captured byte stream into length-delimited frames"
  operands :=
    [{ name := "INPUT", help := "Capture file, or `-` for stdin", accepts := acceptsPath }]
  options :=
    [{ name := "hex", arity := .flag,
       help := "Input is hex text (whitespace ignored) instead of raw bytes" },
      { name := "header", valueName := "HEX",
        help := "Header bytes marking a frame start, in hex (e.g. 68 or aa55)" },
      { name := "length-offset", help := "Offset of the length field from the frame start",
        fallback := some (toString plainLayout.offset), accepts := acceptsCount },
      { name := "length-width", help := "Width of the length field in bytes (1, 2, 3, 4 or 8)",
        fallback := some (toString plainLayout.width), accepts := acceptsCount },
      { name := "adjust", arity := .hyphenValue,
        help := "Added to the length value to get the bytes after the length field",
        fallback := some (toString plainLayout.adjustment),
        accepts := fun value => (signed? value).isSome },
      { name := "strip", help := "Leading bytes removed from each printed frame",
        fallback := some (toString plainLayout.strip), accepts := acceptsCount },
      { name := "max", help := "Maximum adjusted frame length",
        fallback := some (toString plainLayout.maxLength), accepts := acceptsCount },
      { name := "little-endian", arity := .flag, help := "Length field is little-endian" },
      { name := "count", help := "Stop after N frames", accepts := acceptsCount }]

def checksumSpec : CommandSpec where
  name := "checksum"
  about := "Compute protocol checksums over a payload"
  operands := [{ name := "DATA", help := "Payload in hex", required := false }]
  options :=
    [{ name := "file", help := "Read the payload from a file", accepts := acceptsPath },
      { name := "algorithm", letter := some 'a', arity := .list,
        help := "Algorithms to run (comma-separated). Default: all",
        choices := Algorithm.all.map fun algorithm => ⟨algorithm.name, algorithm.description⟩ }]

def versionSpec : CommandSpec where
  name := "version"
  about := "Show version information"
  options := [{ name := "extended", arity := .flag, help := "Show extended build provenance" }]

/-- The command that shows pages of help. All words after it are names of commands. -/
def helpSpec : CommandSpec where
  name := "help"
  about := "Print this message or the help of the given subcommand(s)"
  operands :=
    [{ name := "COMMAND", help := "Print help for the subcommand(s)", required := false,
       repeated := true }]

/-- What `split` is told by its words. -/
def split? (words : Sorted) : Option Command :=
  let count (name : String) (default : UInt64) : UInt64 :=
    ((words.value? name).bind count?).getD default
  match words.operands with
  | [input] => some (.split {
      input
      hex := words.has "hex"
      header := words.value? "header"
      layout := { plainLayout with
        order := if words.has "little-endian" then .little else .big
        maxLength := count "max" plainLayout.maxLength
        offset := count "length-offset" plainLayout.offset
        width := count "length-width" plainLayout.width
        adjustment := ((words.value? "adjust").bind signed?).getD plainLayout.adjustment
        strip := count "strip" plainLayout.strip }
      limit := ((words.value? "count").bind count?).map UInt64.toNat })
  | _ => none

/-- What `checksum` is told by its words: digits or a file, but not both. -/
def checksum? (words : Sorted) : Option Command :=
  let names := (words.values "algorithm").flatMap fun value => value.splitOn ","
  let algorithms := names.filterMap Algorithm.ofName?
  match words.operands, words.value? "file" with
  | [text], none => some (.checksum (.digits text) algorithms)
  | [], some path => some (.checksum (.file path) algorithms)
  | _, _ => none

/-- What `version` is told by its words. -/
def version? (words : Sorted) : Option Command :=
  some (.version (words.has "extended"))

/-- The commands, each with what its words make of it. -/
def commands : List (CommandSpec × (Sorted → Option Command)) :=
  [(splitSpec, split?), (checksumSpec, checksum?), (versionSpec, version?)]

/-- The options of the program itself. -/
def programOptions : List OptionSpec :=
  sharedOptions ++ [helpOption false .brief,
    { name := "version", letter := some 'V', arity := .stop, help := "Print version" }]

/-- The page of the program. -/
def mainPage : Page :=
  programPage "Frame and checksum tools for binary device protocols"
    (commands.map Prod.fst ++ [helpSpec]) programOptions

/-- The page of a command. -/
def CommandSpec.helpPage (spec : CommandSpec) (detail : Detail) : Page :=
  spec.page (spec.allOptions sharedOptions detail) detail

/-- The page for the words after `help`. Commands have no commands of their own. -/
def helpPage? : List String → Option Page
  | [] => some mainPage
  | [name] =>
    if name == helpSpec.name then some (helpSpec.page [] .full)
    else (commands.find? (·.1.name == name)).map fun (spec, _) => spec.helpPage .full
  | _ => none

/-- What a command's name and the words after it ask for. The options before the name are in `shared`,
which is `none` if the last of their values is not taken; that is a misuse if no help is asked for. -/
def Request.ofCommand (default : Format) (shared : Option Sorted) (name : String)
    (own : List String) : Option Request := do
  if name == helpSpec.name then return ⟨default, .help (← helpPage? own)⟩
  let (spec, read) ← commands.find? (·.1.name == name)
  match takeApart (spec.allOptions sharedOptions .brief) (.each spec.operands) (.done {}) own with
  | .stopped _ byLetter => return ⟨default, .help (spec.helpPage (if byLetter then .brief else .full))⟩
  | .sorted words _ =>
    let shared ← shared
    let format := (words.value? "format").orElse fun _ => shared.value? "format"
    return ⟨(format.bind fun name => formatNames.lookup name).getD default, ← read words⟩
  | _ => none

/-- What a list of words asks for; `none` is a misuse. Without a format, `default` is meant. -/
def Request.ofArguments (default : Format) (words : List String) : Option Request :=
  match takeApart programOptions .command (.done {}) words with
  | .stopped name _ => some ⟨default, if name == "help" then .help mainPage else .version false⟩
  | .sorted shared (name :: own) => Request.ofCommand default (some shared) name own
  | .refused (name :: own) => Request.ofCommand default none name own
  | _ => none

end Telegram.CommandLine
