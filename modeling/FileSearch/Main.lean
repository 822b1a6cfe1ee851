import FileSearch.CommandLine.Run
import FileSearch.Listing

/-!
The program: it searches the tree that a listing on the standard input describes, as its arguments
ask.
-/

open FileSearch

/-- All lines of a stream. -/
partial def readAll (input : IO.FS.Stream) (text : String) : IO String := do
  let line ← input.getLine
  if line.isEmpty then return text else readAll input (text ++ line)

def main (args : List String) : IO UInt32 := do
  let listing := Listing.ofText (← readAll (← IO.getStdin) "").toList
  let report :=
    CommandLine.execute listing.setting (args.map String.toList) { files := listing.files }
  (← IO.getStdout).putStr (String.ofList report.world.written.flatten)
  (← IO.getStderr).putStr (String.ofList report.errors)
  match report.ending with
  | .finished status | .stopped status => return status.toUInt32
  | .escaped fault => throw (IO.userError (String.ofList fault.message))
