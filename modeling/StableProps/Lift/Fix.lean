import StableProps.Lift.Analysis
import StableProps.Module.Store

/-!
# Analysing and fixing sources

A workspace holds the files around a source. Fixing applies the first suggestions of all findings
that do not get into each other's way, and starts again with the changed source until there is
nothing left to apply or a number of passes is reached.
-/

namespace StableProps

/-- The files around a source and how modules among them are read. -/
structure Workspace (m : Type → Type) where
  resolver : Resolver
  project : Project m
  /-- Makes a module known to the project. -/
  remember : ModuleIndex → m Unit

namespace Workspace

/-- The workspace that reads all files afresh. -/
def fresh (resolver : Resolver) : Workspace (Except Failure) :=
  { resolver, project := resolver.project, remember := fun _ => return () }

/-- The workspace of the project that a file belongs to. -/
def forFile (t : FileTree) (path : Path) : Except Failure (Workspace (Except Failure)) := do
  return fresh (← Resolver.forFile t path)

/-- A workspace with the settings of an earlier project and a cache of modules. -/
def cached (t : FileTree) (config : Option Config) (cache : ModuleCache) : Workspace Cached :=
  let resolver : Resolver := ⟨t, config⟩
  { resolver, project := resolver.cachedProject cache
    remember := fun i => modify ((i.path, some i) :: ·) }

variable {m : Type → Type} [Monad m] [MonadExceptOf Failure m]

/-- The planner for a source. -/
def planner (w : Workspace m) (s : Source) : m (Planner m) := do
  let main ← Analysis.lift (ModuleIndex.ofSource w.resolver.resolve s)
  w.remember main
  return { project := w.project.withModule main, main }

/-- The findings of a source. -/
def findings (w : Workspace m) (o : Options) (s : Source) : m (List Finding) := do
  Analysis.findings { planner := ← w.planner s, options := o }

end Workspace

namespace Fix

/-- The parts of the first suggestion of a finding. -/
def firstParts? (f : Finding) : Option FixParts := f.suggestions.head?.map (·.parts)

/-- Takes a fix if it can be assembled with those taken before. -/
def take (s : Source) (taken : List FixParts) (parts : FixParts) : List FixParts :=
  match Patch.assemble s (taken ++ [parts]) with
  | .ok _ => taken ++ [parts]
  | .error _ => taken

/-- Chooses fixes one after the other, leaving out those that overlap with a chosen one. -/
def select (s : Source) (findings : List Finding) : List FixParts :=
  (findings.filterMap firstParts?).foldl (take s) []

/-- Passes a fix makes at most. -/
def maxPasses : Nat := 10

/-- A source after some passes. -/
structure Progress where
  source : Source
  passes : Nat := 0
  applied : Nat := 0

/-- What is reached by another pass that applies the edits of chosen fixes. -/
def Progress.after (p : Progress) (chosen : List FixParts) (edits : List Edit) : Progress where
  source := .parsed p.source.path p.source.language (Edit.applyAll edits p.source.bytes).text
  passes := p.passes + 1
  applied := p.applied + chosen.length

variable {m : Type → Type} [Monad m] [MonadExceptOf Failure m]

/-- Applies fixes for at most a number of passes. -/
def advance (w : Workspace m) (o : Options) : Nat → Progress → m Progress
  | 0, p => return p
  | passes + 1, p => do
    let chosen := select p.source (← w.findings o p.source)
    if chosen.isEmpty then return p
    advance w o passes (p.after chosen (← Analysis.lift (Patch.assemble p.source chosen)))

end Fix

/-- The outcome of fixing a source. -/
structure FixResult where
  path : Path
  output : String
  passes : Nat
  applied : Nat

/-- Whether anything was changed. -/
def FixResult.isChanged (r : FixResult) : Bool := 0 < r.applied

namespace Workspace

variable {m : Type → Type} [Monad m] [MonadExceptOf Failure m]

/-- The findings of a source; without markup there are none. -/
def analyze (w : Workspace m) (o : Options) (s : Source) : m (List Finding) :=
  if s.language.hasMarkup then w.findings o s else return []

/-- A source with its fixes applied. -/
def fix (w : Workspace m) (o : Options) (s : Source) : m FixResult := do
  let p ← if s.language.hasMarkup then Fix.advance w o Fix.maxPasses { source := s }
    else pure { source := s }
  return { path := s.path, output := p.source.text, passes := p.passes, applied := p.applied }

end Workspace

/-- The findings of a source among the files of its project. -/
def analyze (t : FileTree) (o : Options) (s : Source) : Except Failure (List Finding) :=
  if s.language.hasMarkup then do (← Workspace.forFile t s.path).analyze o s else .ok []

/-- A source with its fixes applied, among the files of its project. -/
def fix (t : FileTree) (o : Options) (s : Source) : Except Failure FixResult := do
  (← Workspace.forFile t s.path).fix o s

/-- The source at a path, which is read whatever its extension. -/
def Source.atPath (t : FileTree) (path : Path) : Except Failure Source :=
  let p := FileTree.resolve path
  match t.readOr p with
  | .ok text => Source.ofText text p none
  | .error fault => .error (.unreadable fault)

end StableProps
