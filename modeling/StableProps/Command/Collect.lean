import StableProps.Source

/-!
# Collecting sources

A directory stands for all sources below it, except for declarations of types and for what lies in
directories of dependencies. A file stands for itself.
-/

namespace StableProps

/-- Directories that are not searched. -/
def skippedFolders : List String := ["node_modules", ".git"]

/-- Whether a file only declares types. -/
def Path.declaresTypes (p : Path) : Bool := ".d.ts".toList.isSuffixOf p.name.toList

/-- Whether a file is collected that lies somewhere below a searched directory. -/
def Path.isCollected (inside : Path) : Bool :=
  inside.isSource && !inside.declaresTypes && !inside.parts.any skippedFolders.contains

namespace FileTree

/-- The ways from a directory to the files below it, in order. -/
def filesBelow (t : FileTree) (folder : Path) : List Path :=
  ((t.files.filterMap fun f => f.1.below? folder).map fun parts => ⟨false, parts⟩).mergeSort Path.le

/-- The sources that a path stands for. -/
def sourcesAt (t : FileTree) (p : Path) : Except Failure (List Path) :=
  match t.find? p with
  | some (.folder folder) => .ok (((t.filesBelow folder).filter Path.isCollected).map p.join)
  | some (.file ..) => .ok [p]
  | none => .error (.missingSource p.text)

/-- The sources that several paths stand for. -/
def sources (t : FileTree) (paths : List Path) : Except Failure (List Path) := do
  return (← paths.mapM t.sourcesAt).flatten

end FileTree

end StableProps
