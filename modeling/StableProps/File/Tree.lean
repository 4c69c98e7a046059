import StableProps.File.Path

/-!
# File trees

The files and directories a project is made of, as a value. All paths in a tree start at the root
and hold no double dots. Looking a path up walks over its parts, so a double dot only works behind
a directory that exists.
-/

namespace StableProps

/-- Files with their texts, and directories. -/
structure FileTree where
  /-- Files in order of creation. -/
  files : List (Path × String)
  /-- Directories besides the root. -/
  folders : List Path

/-- What a path leads to. -/
inductive Entry where
  | file (path : Path) (text : String)
  | folder (path : Path)

namespace FileTree

/-- The directory all relative paths start from. -/
def workingFolder : Path := ⟨true, ["proj"]⟩

/-- A tree with nothing but the working directory. -/
def empty : FileTree := ⟨[], [workingFolder]⟩

/-- The path from the root without double dots. -/
def resolve (p : Path) : Path := (workingFolder.join p).normalized

/-- What stands at a path from the root without double dots. -/
def entry? (t : FileTree) (p : Path) : Option Entry :=
  match t.files.lookup p with
  | some text => some (.file p text)
  | none => if p.parts.isEmpty || t.folders.contains p then some (.folder p) else none

/-- Walks from a directory along parts. -/
def walk (t : FileTree) : Path → List String → Option Entry
  | here, [] => t.entry? here
  | here, part :: rest =>
    match t.entry? here with
    | some (.folder _) =>
      walk t (if part = ".." then here.parent else ⟨here.rooted, here.parts ++ [part]⟩) rest
    | _ => none

/-- What a path leads to. -/
def find? (t : FileTree) (p : Path) : Option Entry :=
  t.walk ⟨true, []⟩ (workingFolder.join p).parts

/-- Whether a path leads to a file. -/
def isFile (t : FileTree) (p : Path) : Bool :=
  match t.find? p with
  | some (.file ..) => true
  | _ => false

/-- Whether a path leads to a directory. -/
def isFolder (t : FileTree) (p : Path) : Bool :=
  match t.find? p with
  | some (.folder _) => true
  | _ => false

/-- The text of the file a path leads to. -/
def read? (t : FileTree) (p : Path) : Option String :=
  match t.find? p with
  | some (.file _ text) => some text
  | _ => none

/-- Makes a directory and those around it. -/
def addFolder (t : FileTree) (p : Path) : FileTree :=
  let missing := (resolve p).upward.filter fun q => !q.parts.isEmpty && !t.folders.contains q
  { t with folders := t.folders ++ missing }

/-- Writes a file, making the directories around it. -/
def write (t : FileTree) (p : Path) (text : String) : FileTree :=
  let p := resolve p
  let t := t.addFolder p.parent
  if (t.files.lookup p).isSome then
    { t with files := t.files.map fun f => if f.1 = p then (f.1, text) else f }
  else { t with files := t.files ++ [(p, text)] }

/-- Removes a file; its directory stays. -/
def erase (t : FileTree) (p : Path) : FileTree :=
  let p := resolve p
  { t with files := t.files.filter fun f => f.1 ≠ p }

/-- The tree of files given by relative paths; a path that ends in a slash is a directory. -/
def ofEntries (entries : List (String × String)) : FileTree :=
  entries.foldl (fun t (key, text) =>
    if key.endsWith "/" then t.addFolder (Path.ofText key) else t.write (Path.ofText key) text)
    empty

/-- The files below the working directory, by their relative paths. -/
def entries (t : FileTree) : List (String × String) :=
  t.files.filterMap fun (p, text) =>
    (p.below? workingFolder).map fun parts => (Path.text ⟨false, parts⟩, text)

end FileTree

end StableProps
