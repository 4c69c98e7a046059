import StableProps.Lift.Fix

/-!
# Sessions

Steps that read and change the files of a tree one after the other. A session can hold a project
that several steps share: it keeps its settings and the modules it has read, whatever happens to
their files. Without it each step starts afresh. A step that fails changes no file.
-/

namespace StableProps

/-- A project that several steps share. -/
structure SharedProject where
  config : Option Config
  cache : ModuleCache := []

/-- The files of a session and the project that its steps share. -/
structure Session where
  tree : FileTree
  shared : Option SharedProject := none

namespace Session

/-- A step of a session. -/
inductive Step where
  | write (path : Path) (text : String)
  | delete (path : Path)
  | read (path : Path)
  /-- Starts a shared project. -/
  | project (path : Path)
  | analyze (path : Path) (options : Options) (shared : Bool)
  /-- Fixes a source, which is written unless the project is shared. -/
  | fix (path : Path) (options : Options) (shared write : Bool)
  /-- Applies a suggestion of a finding and writes the source. -/
  | apply (path : Path) (options : Options) (shared : Bool) (finding suggestion : Nat)

/-- What a step answers. -/
inductive Answer where
  | done
  | text (s : String)
  | config (path : Option Path)
  | findings (found : List Finding)
  | fixed (result : FixResult)

/-- The text of a file. -/
def readText (s : Session) (p : Path) : Except Failure String :=
  match s.tree.readOr p with
  | .ok text => .ok text
  | .error fault => .error (.unreadable fault)

/-- The session with a file written. -/
def writeText (s : Session) (p : Path) (text : String) : Session :=
  { s with tree := s.tree.write p text }

/-- Works on a source, in the shared project if there is one and it is wanted. -/
def work (s : Session) (p : Path) (shared : Bool)
    (inShared : Workspace Cached → Source → Cached α)
    (afresh : FileTree → Source → Except Failure α) :
    Except Failure (Source × α) × Session :=
  match Source.atPath s.tree p with
  | .error f => (.error f, s)
  | .ok source =>
    match if shared then s.shared else none with
    | none => ((afresh s.tree source).map (source, ·), s)
    | some project =>
      let w := Workspace.cached s.tree project.config project.cache
      let (answer, cache) := (inShared w source).run project.cache
      (answer.map (source, ·), { s with shared := some { project with cache } })

/-- The findings of a source. -/
def findings (s : Session) (p : Path) (o : Options) (shared : Bool) :
    Except Failure (Source × List Finding) × Session :=
  s.work p shared (fun w => w.analyze o) (fun t => StableProps.analyze t o)

/-- A source with one suggestion applied. -/
def applied? (source : Source) (found : List Finding) (finding suggestion : Nat) :
    Option String := do
  let s ← (← found[finding]?).suggestions[suggestion]?
  return (Edit.applyAll s.edits source.bytes).text

/-- Takes one step. -/
def step (s : Session) : Step → Except Failure Answer × Session
  | .write p text => (.ok .done, s.writeText p text)
  | .delete p => match s.readText p with
    | .error f => (.error f, s)
    | .ok _ => (.ok .done, { s with tree := s.tree.erase p })
  | .read p => ((s.readText p).map .text, s)
  | .project p => match Config.forFile s.tree (FileTree.resolve p) with
    | .error f => (.error f, s)
    | .ok config => (.ok (.config (config.map (·.path))), { s with shared := some { config } })
  | .analyze p o shared =>
    let (found, s) := s.findings p o shared
    (found.map fun f => .findings f.2, s)
  | .fix p o shared write =>
    let isShared := shared && s.shared.isSome
    match s.work p shared (fun w => w.fix o) (fun t => StableProps.fix t o) with
    | (.error f, s) => (.error f, s)
    | (.ok (_, result), s) =>
      (.ok (.fixed result),
        if write && !isShared && result.isChanged then s.writeText p result.output else s)
  | .apply p o shared finding suggestion =>
    match s.findings p o shared with
    | (.error f, s) => (.error f, s)
    | (.ok (source, found), s) =>
      match applied? source found finding suggestion with
      | none => (.error .noSuchSuggestion, s)
      | some text => (.ok (.text text), s.writeText p text)

/-- Takes steps one after the other. -/
def run (s : Session) : List Step → List (Except Failure Answer) × Session
  | [] => ([], s)
  | step :: steps =>
    let (answer, s) := s.step step
    let (answers, s) := s.run steps
    (answer :: answers, s)

end Session

end StableProps
