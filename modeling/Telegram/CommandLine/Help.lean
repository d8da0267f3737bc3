import Telegram.CommandLine.Spec

/-!
# Pages of help

A page says what a command does, how it is written, and what may be given to it, in groups of entries.
It has one of two forms:

* a brief page has one line for each entry, with what it is for in a column of its own;
* a full page has a paragraph for each entry, and has a line for each choice that is described.

`CommandSpec.page` is the page of a command, and `programPage` is that of the program.
-/

namespace Telegram.CommandLine

/-- How much a page says. -/
inductive Detail where
  | brief
  | full
  deriving DecidableEq, Repr

/-- Something that can be given, and what it is for. -/
structure Entry where
  label : String
  help : String
  /-- The value that is meant if none is given. -/
  fallback : Option String := none
  choices : List Choice := []

/-- Entries of one kind. -/
structure EntryGroup where
  title : String
  entries : List Entry

/-- A page of help. -/
structure Page where
  detail : Detail
  about : String
  usage : String
  groups : List EntryGroup

/-- The text, followed by as many spaces as make it that wide. -/
def padded (width : Nat) (text : String) : String :=
  String.ofList (text.toList.rightpad width ' ')

/-- The length of the longest text. -/
def widest (texts : List String) : Nat :=
  (texts.map String.length).foldl max 0

/-- A line of a paragraph. -/
def indented (text : String) : String :=
  "          " ++ text

namespace Entry

/-- The choices have lines of their own on a full page. -/
def isDetailed (entry : Entry) : Bool :=
  entry.choices.any Choice.isDescribed

/-- The choices in one line. -/
def choiceNote (entry : Entry) : List String :=
  if entry.choices.isEmpty then []
  else ["[possible values: " ++ ", ".intercalate (entry.choices.map Choice.name) ++ "]"]

/-- The value that is meant if none is given, in brackets. -/
def fallbackNote (entry : Entry) : List String :=
  entry.fallback.toList.map fun value => "[default: " ++ value ++ "]"

/-- The line of a brief page, its label in a column of that width. -/
def brief (width : Nat) (entry : Entry) : String :=
  "  " ++ padded width entry.label ++ "  " ++
    " ".intercalate (entry.help :: entry.fallbackNote ++ entry.choiceNote)

/-- One line for each choice. -/
def choiceLines (entry : Entry) : List String :=
  let width := widest (entry.choices.map Choice.name)
  entry.choices.map fun choice =>
    if choice.isDescribed then "- " ++ padded (width + 2) (choice.name ++ ":") ++ choice.help
    else "- " ++ choice.name

/-- The lines of a full page. The notes belong to what the entry is for, so that the empty line between
them is indented as they are; the choices are apart. -/
def full (entry : Entry) : List String :=
  let notes := entry.fallbackNote ++ if entry.isDetailed then [] else entry.choiceNote
  let told := entry.help :: if notes.isEmpty then [] else "" :: notes
  let listed := if entry.isDetailed then "" :: ("Possible values:" :: entry.choiceLines).map indented
    else []
  ("  " ++ entry.label) :: told.map indented ++ listed

end Entry

/-- The lines of a group. -/
def EntryGroup.lines (detail : Detail) (group : EntryGroup) : List String :=
  (group.title ++ ":") :: match detail with
  | .brief => group.entries.map (Entry.brief (widest (group.entries.map Entry.label)))
  | .full => [""].intercalate (group.entries.map Entry.full)

/-- The text of a page. -/
def Page.render (page : Page) : String :=
  let lines := [page.about, "", "Usage: " ++ page.usage] ++
    page.groups.flatMap fun group => "" :: group.lines page.detail
  String.join (lines.map (· ++ "\n"))

namespace OptionSpec

/-- The option with its value, as a page shows it. -/
def label (spec : OptionSpec) : String :=
  let letter := spec.letter.elim "    " fun letter => s!"-{letter}, "
  letter ++ "--" ++ spec.name ++ if spec.arity.takesValue then " <" ++ spec.valueName ++ ">" else ""

def entry (spec : OptionSpec) : Entry where
  label := spec.label
  help := spec.help
  fallback := spec.fallback
  choices := spec.choices

/-- What the option is sorted by: its letter if it has one. -/
def sortKey (spec : OptionSpec) : String :=
  spec.letter.elim spec.name fun letter => s!"{letter}0"

end OptionSpec

namespace OperandSpec

/-- The operand as a page shows it. -/
def label (spec : OperandSpec) : String :=
  (if spec.required then "<" ++ spec.name ++ ">" else "[" ++ spec.name ++ "]") ++
    if spec.repeated then "..." else ""

def entry (spec : OperandSpec) : Entry where
  label := spec.label
  help := spec.help

end OperandSpec

/-- Two lists of options as one. Those of the same place in their lists stand together, sorted. -/
def interleave : List OptionSpec → List OptionSpec → List OptionSpec
  | [], others => others
  | options, [] => options
  | option :: options, other :: others =>
    (if option.sortKey < other.sortKey then [option, other] else [other, option]) ++
      interleave options others

/-- A group with something in it. -/
def groupOf (title : String) (entries : List Entry) : List EntryGroup :=
  if entries.isEmpty then [] else [⟨title, entries⟩]

/-- The option that asks for a page of help. If pages have a full form, each form tells of the other. -/
def helpOption (hasFull : Bool) (detail : Detail) : OptionSpec where
  name := "help"
  letter := some 'h'
  arity := .stop
  help := "Print help" ++ match hasFull, detail with
    | false, _ => ""
    | true, .brief => " (see more with '--help')"
    | true, .full => " (see a summary with '-h')"

/-- The name by which the program is called. -/
def programName : String :=
  "wirebind"

namespace CommandSpec

/-- There is more to say than fits a brief page. -/
def hasFull (spec : CommandSpec) : Bool :=
  spec.options.any fun option => option.entry.isDetailed

/-- All options that may be given to a command, if `shared` may be given to every command. -/
def allOptions (spec : CommandSpec) (shared : List OptionSpec) (detail : Detail) : List OptionSpec :=
  interleave spec.options shared ++ [helpOption spec.hasFull detail]

def entry (spec : CommandSpec) : Entry where
  label := spec.name
  help := spec.about

/-- The page of a command that takes these options. -/
def page (spec : CommandSpec) (options : List OptionSpec) (detail : Detail) : Page where
  detail := if spec.hasFull then detail else .brief
  about := spec.about
  usage := " ".intercalate ([programName, spec.name] ++
    (if options.isEmpty then [] else ["[OPTIONS]"]) ++ spec.operands.map OperandSpec.label)
  groups := groupOf "Arguments" (spec.operands.map OperandSpec.entry) ++
    groupOf "Options" (options.map OptionSpec.entry)

end CommandSpec

/-- The page of the program. -/
def programPage (about : String) (commands : List CommandSpec) (options : List OptionSpec) : Page where
  detail := .brief
  about
  usage := programName ++ " [OPTIONS] <COMMAND>"
  groups := groupOf "Commands" (commands.map CommandSpec.entry) ++
    groupOf "Options" (options.map OptionSpec.entry)

end Telegram.CommandLine
