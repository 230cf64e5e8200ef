import StackQuery.CommandLine

/-!
The program: reads statements from standard input and prints what comes of them.
-/

namespace StackQuery.CommandLine

def openFile (file : String) : IO Config.Opened := do
  try
    return .contents (← IO.FS.readFile file)
  catch
    | .noFileOrDirectory .. => return .missing
    | error => return .failed (toString error)

/-- All that is left on a stream, after what has been read. -/
partial def readAll (stream : IO.FS.Stream) (read : String) : IO String := do
  let line ← stream.getLine
  if line.isEmpty then return read else readAll stream (read ++ line)

def Outcome.print (outcome : Outcome) : IO UInt32 := do
  outcome.output.forM IO.println
  outcome.errors.forM IO.eprintln
  return outcome.code.toUInt32

end StackQuery.CommandLine

open StackQuery.CommandLine

def main (arguments : List String) : IO UInt32 := do
  match Options.read? arguments with
  | none => Outcome.print ⟨2, [], usage⟩
  | some options =>
      let opened ← openFile options.file
      let input ← readAll (← IO.getStdin) ""
      (run options.file opened 1000000000000000 input).print
