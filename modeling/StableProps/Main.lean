import StableProps.Command.Run

/-!
# The program

Reads the files below the current directory, runs the command line on them, writes the files that
it changed and prints its report. Files that are not text are left out.
-/

namespace StableProps.CommandLine

/-- The text of a file, unless it cannot be read. -/
def textOf? (path : String) : IO (Option String) :=
  try
    return some (← IO.FS.readFile path)
  catch _ =>
    return none

/-- The files below the current directory with their relative paths. -/
def readFiles : IO (List (String × String)) := do
  let here ← IO.currentDir
  let found ← here.walkDir
  found.toList.filterMapM fun path => do
    let text ← textOf? path.toString
    return text.map fun text =>
      (String.ofList (path.toString.toList.drop (here.toString.length + 1)), text)

/-- Writes the files that differ from what they were. -/
def writeFiles (before after : FileTree) : IO Unit :=
  after.entries.forM fun (path, text) =>
    if before.entries.lookup path = some text then pure () else IO.FS.writeFile path text

end StableProps.CommandLine

open StableProps in
/-- The entry of the program. -/
def main (words : List String) : IO UInt32 := do
  let tree := FileTree.ofEntries (← CommandLine.readFiles)
  let outcome := Command.run tree (← IO.getEnv Failure.optionsVariable) words
  CommandLine.writeFiles tree outcome.tree
  match outcome.result with
  | .ok completion =>
    IO.print completion.report.text
    return UInt32.ofNat completion.exitCode
  | .error failure =>
    IO.eprintln (failure.message?.getD "The command failed.")
    return 1
