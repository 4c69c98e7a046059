import StableProps.Command.Run

/-!
# Watching files

Changes come in batches. Those that concern sources are passed on, and each source is analysed or
fixed. Files that were deleted and files that only declare types are passed over. A failure ends
its batch and nothing else.
-/

namespace StableProps

/-- What happened to a file. -/
inductive ChangeKind where
  | added
  | modified
  | deleted
  deriving DecidableEq, Repr

/-- A change of a file, whose path is given as text. -/
structure Change where
  kind : ChangeKind
  path : String
  deriving DecidableEq, Repr

/-- Whether a change is passed on. -/
def Change.isForwarded (c : Change) : Bool :=
  c.kind != .deleted && (Path.ofText c.path).isSource && !".d.ts".toList.isSuffixOf c.path.toList

namespace Watch

/-- The files that a batch of changes is about, each once. -/
def forwarded (changes : List Change) : List Path :=
  distinct ((changes.filter Change.isForwarded).map fun c => Path.ofText c.path)

/-- Whether a watcher is at work. Starting one that is at work already changes nothing. -/
structure Watcher where
  isRunning : Bool := false
  deriving DecidableEq, Repr

/-- Starts a watcher. -/
def Watcher.start (_ : Watcher) : Watcher := ⟨true⟩

/-- Stops a watcher. -/
def Watcher.stop (_ : Watcher) : Watcher := ⟨false⟩

/-- Fixes a file and tells so if it was changed. -/
def fixFile (o : Options) (t : FileTree) (p : Path) : Except Failure (FileTree × List String) := do
  let fixed ← Command.fixOne t o p
  let line := Console.shown s!"[green]Fixed[/green] {p.text} ({fixed.result.applied} fixes)"
  return (fixed.writeTo t, if fixed.result.isChanged then [line] else [])

/-- Analyses a file and tells how many findings there are. -/
def checkFile (o : Options) (t : FileTree) (p : Path) :
    Except Failure (FileTree × List String) := do
  let found ← Command.findingsOf t o [p]
  let line := if found.isEmpty then Console.shown s!"[green]Clean[/green] {p.text}"
    else Report.countLine found.length
  return (t, [line])

/-- Handles a file; one that is not there is passed over. -/
def handleFile (o : Options) (applyFixes : Bool) (t : FileTree) (p : Path) :
    Except Failure (FileTree × List String) :=
  if !t.isFile p then .ok (t, [])
  else if applyFixes then fixFile o t p
  else checkFile o t p

/-- Handles files one after the other up to the first failure. -/
def handle (o : Options) (applyFixes : Bool) :
    FileTree → List Path → FileTree × List String
  | t, [] => (t, [])
  | t, p :: rest =>
    match handleFile o applyFixes t p with
    | .error _ => (t, [])
    | .ok (t, lines) =>
      let (t, more) := handle o applyFixes t rest
      (t, lines ++ more)

/-- Handles a batch of changes, files being taken in the order of their paths. -/
def batch (o : Options) (applyFixes : Bool) (t : FileTree) (changes : List Change) :
    FileTree × List String :=
  handle o applyFixes t ((forwarded changes).mergeSort Path.le)

end Watch

end StableProps
