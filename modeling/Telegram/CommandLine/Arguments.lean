import Telegram.CommandLine.Spec
import Telegram.Decimal.Basic
import Telegram.Text.Numeral

/-!
# Command line arguments

A command line is a list of words. Words that start with a hyphen name options, and all others are
operands; `--` makes every word after it an operand.

`takeApart` sorts the words into options and operands. It ends at the first word that fits nothing: one
misuse is like another. An option may be given once, unless it collects a list.

A value may be joined to its option by `=` or, for a one-letter option, directly. As a word of its own
it must not look like an option, except where the option says so. A joined value is judged at once, and
a word of its own when the next word is met. If that is the name of a command, `Sorting.refused` leaves
the verdict to the command, which may have a page of help to show first.
-/

namespace Telegram.CommandLine

/-- An option as it was given; a flag has the empty value. -/
structure Given where
  name : String
  value : String

/-- Words sorted into options and operands. -/
structure Sorted where
  options : List Given := []
  operands : List String := []

/-- How the sorting of words ended. -/
inductive Sorting where
  /-- Every word was sorted, up to those in `rest`. -/
  | sorted (words : Sorted) (rest : List String)
  /-- The value just before `rest` is not taken, and all before it was sorted. -/
  | refused (rest : List String)
  /-- The option of that name, or its letter, asked for the reading to stop. -/
  | stopped (name : String) (byLetter : Bool)
  /-- A word fits nothing. -/
  | misuse

/-- What the operands of a command line are. -/
inductive Operands where
  /-- The first one names a command, and all words after it are the command's. -/
  | command
  /-- At most one for each of these, in their order. -/
  | each (specs : List OperandSpec)

/-- The word looks like an option. -/
def looksLikeOption (word : String) : Bool :=
  match word.toList with
  | '-' :: _ :: _ => true
  | _ => false

/-- What a word says where no value is expected. -/
inductive Word where
  /-- A long name, and the value joined to it. -/
  | long (name : String) (value : Option String)
  /-- A letter, and what follows it. -/
  | short (letter : Char) (rest : String)
  /-- All words after it are operands. -/
  | endOfOptions
  | operand (word : String)

/-- Splits a word at its first equals sign. -/
def splitEquals (word : List Char) : String × Option String :=
  match word.span (· != '=') with
  | (name, []) => (String.ofList name, none)
  | (name, _ :: value) => (String.ofList name, some (String.ofList value))

/-- Tells what kind of word it is. -/
def Word.of (word : String) : Word :=
  match word.toList with
  | ['-', '-'] => .endOfOptions
  | '-' :: '-' :: rest => .long (splitEquals rest).1 (splitEquals rest).2
  | '-' :: letter :: rest => .short letter (String.ofList rest)
  | _ => .operand word

/-- The value joined to a one-letter option, with or without an equals sign. A letter that stops the
reading leaves the rest of its word unread. -/
def joinedValue (spec : Option OptionSpec) (rest : String) : Option String :=
  if spec.any fun spec => spec.arity == .stop then none
  else match rest.toList with
    | [] => none
    | '=' :: value => some (String.ofList value)
    | _ => some rest

namespace Sorted

/-- The option has already been given and may not be given again. -/
def repeats (words : Sorted) (spec : OptionSpec) : Bool :=
  spec.arity != .list && words.options.any fun given => given.name == spec.name

/-- Notes an option with its value, if it is taken. -/
def note (words : Sorted) (spec : OptionSpec) (value : String) : Option Sorted :=
  if spec.admits value && !words.repeats spec then
    some { words with options := words.options ++ [⟨spec.name, value⟩] }
  else none

/-- Notes an operand, if there is a place left for it and it is taken. -/
def noteOperand (specs : List OperandSpec) (words : Sorted) (word : String) : Option Sorted := do
  let spec ← specs[words.operands.length]?
  if spec.accepts word then some { words with operands := words.operands ++ [word] } else none

end Sorted

/-- What is left to do after one word. -/
inductive Pending where
  | done (words : Sorted)
  /-- The value of this option comes in the next word. -/
  | expects (spec : OptionSpec) (words : Sorted)
  /-- The last word is a value that is not taken. -/
  | refused
  | stopped (name : String) (byLetter : Bool)
  | misuse

/-- Notes an option, with the value that was joined to it if there was one. -/
def giveOption (spec : Option OptionSpec) (byLetter : Bool) (joined : Option String)
    (words : Sorted) : Pending :=
  match spec with
  | none => .misuse
  | some spec =>
    match spec.arity.takesValue, joined with
    | true, some value => (words.note spec value).elim .misuse .done
    | true, none => .expects spec words
    | false, some _ => .misuse
    | false, none =>
      if spec.arity = .stop then .stopped spec.name byLetter
      else (words.note spec "").elim .misuse .done

/-- The word may stand as the value of the option. -/
def mayBeValue (spec : OptionSpec) (word : String) : Bool :=
  spec.arity = .hyphenValue || !looksLikeOption word

/-- Sorts words into options and operands. Where operands are commands, it leaves the first one and all
that follows it. -/
def takeApart (specs : List OptionSpec) (operands : Operands) : Pending → List String → Sorting
  | .misuse, _ => .misuse
  | .stopped name byLetter, _ => .stopped name byLetter
  | .done words, [] => .sorted words []
  | .refused, [] => .misuse
  | .expects .., [] => .misuse
  | .refused, word :: rest =>
    match operands, Word.of word with
    | .command, .operand _ => .refused (word :: rest)
    | _, _ => .misuse
  | .expects spec words, word :: rest =>
    if mayBeValue spec word then
      takeApart specs operands ((words.note spec word).elim .refused .done) rest
    else .misuse
  | .done words, word :: rest =>
    match Word.of word with
    | .long name value =>
      let spec := specs.find? (·.name == name)
      takeApart specs operands (giveOption spec false value words) rest
    | .short letter more =>
      let spec := specs.find? (·.letter == some letter)
      takeApart specs operands (giveOption spec true (joinedValue spec more) words) rest
    | .endOfOptions =>
      match operands with
      | .command => .misuse
      | .each kinds =>
        (rest.foldlM (Sorted.noteOperand kinds) words).elim .misuse fun words => .sorted words []
    | .operand word =>
      match operands with
      | .command => .sorted words (word :: rest)
      | .each kinds =>
        takeApart specs operands ((words.noteOperand kinds word).elim .misuse .done) rest

namespace Sorted

/-- The option was given. -/
def has (words : Sorted) (name : String) : Bool :=
  words.options.any fun given => given.name == name

/-- The values of an option, in the order given. -/
def values (words : Sorted) (name : String) : List String :=
  (words.options.filter fun given => given.name == name).map Given.value

/-- The value of an option that is given at most once. -/
def value? (words : Sorted) (name : String) : Option String :=
  (words.values name).getLast?

end Sorted

/-- A whole number of 64 bits without a sign. -/
def count? (text : String) : Option UInt64 := do
  let n ← Text.unsigned? text.toList
  if n < UInt64.size then some (UInt64.ofNat n) else none

/-- A whole number of 64 bits with a sign. -/
def signed? (text : String) : Option Int64 := do
  let n ← Text.signed? text.toList
  if fitsInt64 n then some (Int64.ofInt n) else none

end Telegram.CommandLine
