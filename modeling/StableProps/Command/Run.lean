import StableProps.Command.Arguments
import StableProps.Command.Collect
import StableProps.Command.Console
import StableProps.Diff.Unified
import StableProps.Json.Write
import StableProps.Lift.Fix
import StableProps.Lift.Report
import StableProps.Options.Read
import StableProps.Text.Lines

/-!
# Running a command line

A command reads its options, collects its sources and works on one after the other. Files are only
written by a fix that is not merely shown. A command that fails leaves the files as far as it has
come.
-/

namespace StableProps

/-- What a command tells. -/
inductive Report where
  /-- Findings in full. -/
  | document (findings : List Finding)
  /-- How many findings there are. -/
  | summary (count : Nat)
  /-- What was changed or would be. -/
  | changes (text : String)
  /-- Why the command could not start. -/
  | refused (message : String)
  /-- How the program is used. -/
  | usage

namespace Report

/-- The line that counts findings. -/
def countLine (count : Nat) : String := s!"({count} findings)"

/-- The line for a command that could not start. -/
def errorLine (message : String) : String := "Error: " ++ message

/-- How the program is used. -/
def usageText : String :=
  "Usage: check [-c FILE] [-f text|json] PATH...\n       fix [-c FILE] [--diff] PATH...\n"

/-- The text that is printed. -/
def text : Report → String
  | .document findings => (Json.array (findings.map Finding.json)).written ++ "\n"
  | .summary count => countLine count ++ "\n"
  | .changes text => text
  | .refused message => errorLine message ++ "\n"
  | .usage => usageText

end Report

/-- How a command ended. -/
structure Completion where
  exitCode : Nat
  report : Report

/-- The files after a command, and how it ended if it did not fail. -/
structure Outcome where
  tree : FileTree
  result : Except Failure Completion

namespace Command

/-- The words for a failure before the first source is read. -/
def startFailure (f : Failure) : String := f.message?.getD "Invalid configuration"

/-- The options and sources of a command. -/
def prepare (t : FileTree) (environment options : Option String) (paths : List Path) :
    Except Failure (Options × List Path) := do
  let o ← Options.load t options environment
  return (o, ← t.sources paths)

/-- The findings of several files. -/
def findingsOf (t : FileTree) (o : Options) (paths : List Path) :
    Except Failure (List Finding) := do
  return (← paths.mapM fun p => do analyze t o (← Source.atPath t p)).flatten

/-- Reports findings. There is a code of its own for having found something. -/
def check (t : FileTree) (o : Options) (paths : List Path) (format : Format) :
    Except Failure Completion := do
  let found ← findingsOf t o paths
  return {
    exitCode := if found.isEmpty then 0 else 1
    report := match format with
      | .json => .document found
      | .text => .summary found.length }

/-- A file with its text before a fix and what came of it. -/
structure Fixed where
  path : Path
  before : String
  result : FixResult

/-- Fixes one file of a tree. -/
def fixOne (t : FileTree) (o : Options) (path : Path) : Except Failure Fixed := do
  let s ← Source.atPath t path
  return ⟨path, s.text, ← fix t o s⟩

/-- The tree with the outcome of a fix written, if there is something to write. -/
def Fixed.writeTo (f : Fixed) (t : FileTree) : FileTree :=
  if f.result.isChanged then t.write f.path f.result.output else t

/-- Fixes files one after the other, so that each sees those before it as they are written. -/
def fixAll (o : Options) (showOnly : Bool) :
    FileTree → List Path → FileTree × Except Failure (List Fixed)
  | t, [] => (t, .ok [])
  | t, path :: rest =>
    match fixOne t o path with
    | .error f => (t, .error f)
    | .ok fixed =>
      let (t, more) := fixAll o showOnly (if showOnly then t else fixed.writeTo t) rest
      (t, more.map (fixed :: ·))

/-- The differences that a fix makes to a file. -/
def Fixed.difference (f : Fixed) : String :=
  Diff.unified f.path.text (Text.lines (Text.withLineFeeds f.before)) (Text.lines f.result.output)

/-- The line about a file that was fixed. -/
def Fixed.line (f : Fixed) : String :=
  let counts := s!"({f.result.applied} fixes, {f.result.passes} passes)"
  Console.shown s!"[green]Fixed[/green] {f.path.text} {counts}\n"

/-- What is told about a fix. -/
def fixText (showOnly : Bool) (fixed : List Fixed) : String :=
  let changed := fixed.filter (·.result.isChanged)
  let verb := if showOnly then "Would fix" else "Fixed"
  String.join (changed.map fun f => if showOnly then f.difference else f.line) ++
    s!"{verb} {changed.length} file(s)\n"

/-- Serves a request, with the options file that the environment names. -/
def serve (t : FileTree) (environment : Option String) : Request → Outcome
  | .help => ⟨t, .ok ⟨0, .usage⟩⟩
  | .check paths options format =>
    match prepare t environment options paths with
    | .error f => ⟨t, .ok ⟨2, .refused (startFailure f)⟩⟩
    | .ok (o, sources) => ⟨t, check t o sources format⟩
  | .fix paths options showOnly =>
    match prepare t environment options paths with
    | .error f => ⟨t, .ok ⟨2, .refused (startFailure f)⟩⟩
    | .ok (o, sources) =>
      let (t, fixed) := fixAll o showOnly t sources
      ⟨t, fixed.map fun fixed => ⟨0, .changes (fixText showOnly fixed)⟩⟩

/-- Runs a command line. One that cannot be read changes nothing. -/
def run (t : FileTree) (environment : Option String) (words : List String) : Outcome :=
  match Request.ofArguments? words with
  | some request => serve t environment request
  | none => ⟨t, .ok ⟨2, .usage⟩⟩

end Command

end StableProps
