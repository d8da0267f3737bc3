import Telegram.CommandLine.Run

/-!
# The program

Reads what the request needs, runs it, and hands its outcome to the system. A misuse exits without a
word.
-/

namespace Telegram.CommandLine

/-- What an error of the file system amounts to. One that names the path arose when it was opened, and a
directory can be opened. -/
def fileFault : IO.Error → FileFault
  | .permissionDenied .. => .permissionDenied
  | .noFileOrDirectory .. => .notFound
  | .inappropriateType (some _) .. => .notADirectory
  | .invalidArgument .. => .nameTooLong
  | _ => .isDirectory

/-- All bytes of a file. -/
def readFileBytes (path : String) : IO (Except FileFault Bytes) := do
  try
    return .ok (← IO.FS.readBinFile path).toList
  catch e =>
    return .error (fileFault e)

/-- All bytes of a stream. -/
partial def readAll (stream : IO.FS.Stream) (bytes : ByteArray) : IO ByteArray := do
  let chunk ← stream.read 65536
  if chunk.isEmpty then return bytes else readAll stream (bytes ++ chunk)

/-- What a request can read. -/
def inputsOf (request : Option Request) : IO Inputs := do
  let stdin ← if request.any Request.readsStdin then
      pure (← readAll (← IO.getStdin) .empty).toList
    else pure []
  let file ← match request.bind Request.file? with
    | some path => readFileBytes path
    | none => pure (.error .notFound)
  return { stdin, file := fun _ => file }

/-- Runs a command line and hands over its outcome. -/
def execute (words : List String) : IO UInt32 := do
  let stdout ← IO.getStdout
  let format := if ← stdout.isTty then Format.table else Format.json
  let inputs ← inputsOf (Request.ofArguments format words)
  let outcome := run format inputs words
  stdout.write (ByteArray.mk outcome.output.toArray)
  stdout.flush
  for message in outcome.errors do
    IO.eprintln ("error: " ++ message)
  return UInt32.ofNat outcome.code.toNat

end Telegram.CommandLine

def main (words : List String) : IO UInt32 :=
  Telegram.CommandLine.execute words
