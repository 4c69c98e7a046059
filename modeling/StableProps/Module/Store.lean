import StableProps.Module.Project

/-!
# Projects of a file tree

The modules of a project are the sources of a file tree. A fresh project reads each file when it is
first needed. A shared project keeps what it has read in a cache, so that files that change later
are not read again.
-/

namespace StableProps

namespace Resolver

/-- The resolver for the project that a file belongs to. -/
def forFile (t : FileTree) (path : Path) : Except Failure Resolver := do
  return ⟨t, ← Config.forFile t path⟩

/-- Reads the module at a path. What cannot be read is no module, unless looking for the modules
it imports fails. -/
def loadModule (r : Resolver) (path : Path) : Except Failure (Option ModuleIndex) :=
  if path.isSource then
    match Source.ofFile r.tree path none with
    | .ok s =>
      match ModuleIndex.ofSource r.resolve s with
      | .ok i => .ok (some i)
      | .error .malformedSetting => .error .malformedSetting
      | .error _ => .ok none
    | .error _ => .ok none
  else .ok none

/-- The bytes of all texts. -/
def textSize : List (Path × String) → Nat
  | [] => 0
  | (_, text) :: rest => text.utf8ByteSize + textSize rest

/-- More than the pairs of a file and a name in it, counting a name for each byte. -/
def stepBound (files : List (Path × String)) : Nat :=
  (files.length + 2) * (textSize files + 2)

/-- The project of all files. What is read of a file is kept. -/
def project (r : Resolver) : Project (Except Failure) :=
  let modules := r.tree.files.map fun (p, _) => (p, Thunk.mk fun _ => r.loadModule p)
  { index := fun path =>
      match modules.lookup path with
      | some known => known.get
      | none => r.loadModule path
    resolve := r.resolve
    specifier := r.specifier
    bound := stepBound r.tree.files }

end Resolver

/-- Modules that were read, with their paths. -/
abbrev ModuleCache := List (Path × Option ModuleIndex)

/-- Answers that can fail and that use a cache. -/
abbrev Cached := ExceptT Failure (StateM ModuleCache)

namespace Resolver

/-- The texts that cached modules were read from and that no file holds any more. -/
def outdatedTexts (t : FileTree) (cache : ModuleCache) : List (Path × String) :=
  (cache.filterMap fun known => known.2.map fun i => (i.path, i.source.text)).filter (· ∉ t.files)

/-- The project of all files, except that cached modules stay as they were read. -/
def cachedProject (r : Resolver) (cache : ModuleCache) : Project Cached :=
  { index := fun path => do answer path ((← get).lookup path)
    resolve := fun specifier file => liftExcept (r.resolve specifier file)
    specifier := fun target file => liftExcept (r.specifier target file)
    bound := stepBound (r.tree.files ++ outdatedTexts r.tree cache) }
where
  /-- An answer that uses no cache. -/
  liftExcept {α : Type} : Except Failure α → Cached α
    | .ok a => pure a
    | .error f => throw f
  /-- The module at a path, by what the cache has for it. What is read is kept. -/
  answer (path : Path) : Option (Option ModuleIndex) → Cached (Option ModuleIndex)
    | some known => return known
    | none => do
      let loaded ← liftExcept (r.loadModule path)
      modify ((path, loaded) :: ·)
      return loaded

end Resolver

end StableProps
