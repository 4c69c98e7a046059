import Mathlib.Data.Option.Basic
import StableProps.Proofs.Module.Cache
import StableProps.Proofs.Patch.Imports

/-!
# Modules and their files

A module is read from one of the files, and its path is the one from the root, whatever path it was
asked for by. Specifiers are resolved to such paths only, so that a module that is found for one is
found under its own path.
-/

namespace StableProps

namespace Path

/-- Parts without double dots are taken over as they are. -/
theorem foldl_step_of_not_mem {parts : List String} (h : ".." ∉ parts) (before : List String) :
    parts.foldl normalized.step before = parts.reverse ++ before := by
  induction parts generalizing before with
  | nil => rfl
  | cons part parts ih =>
    rw [List.mem_cons, not_or] at h
    rw [List.foldl_cons, normalized.step, if_neg (Ne.symm h.1), ih h.2]
    simp

theorem not_mem_foldl_step (parts : List String) {before : List String} (h : ".." ∉ before) :
    ".." ∉ parts.foldl normalized.step before := by
  induction parts generalizing before with
  | nil => exact h
  | cons part parts ih =>
    refine ih ?_
    rw [normalized.step]
    split
    · exact fun hmem => h (List.drop_subset _ _ hmem)
    next hne => simpa using ⟨Ne.symm hne, h⟩

/-- A normalized path stays as it is. -/
private theorem normalized_normalized (p : Path) : p.normalized.normalized = p.normalized := by
  have hparts : ".." ∉ (p.parts.foldl normalized.step []).reverse := by
    rw [List.mem_reverse]
    exact not_mem_foldl_step p.parts List.not_mem_nil
  rw [normalized, normalized, foldl_step_of_not_mem hparts]
  simp

end Path

namespace FileTree

/-- A path is resolved from the root. -/
theorem rooted_resolve (p : Path) : (resolve p).rooted = true := by
  rw [resolve, Path.normalized, Path.join]
  split <;> simp_all [workingFolder]

/-- The path from the root of a path from the root is the path itself. -/
theorem resolve_resolve (p : Path) : resolve (resolve p) = resolve p := by
  rw [resolve, Path.join, if_pos (rooted_resolve p), resolve, Path.normalized_normalized]

/-- What is found by walking stands at the end of the way, double dots being taken back. -/
theorem of_walk {t : FileTree} {here : Path} {parts : List String} {q : Path} {text : String}
    (h : t.walk here parts = some (.file q text)) :
    q = ⟨here.rooted, (parts.foldl Path.normalized.step here.parts.reverse).reverse⟩ ∧
      (q, text) ∈ t.files := by
  induction parts generalizing here with
  | nil =>
    rw [walk, entry?] at h
    split at h
    next found hfound =>
      cases h
      obtain ⟨before, after, hfiles, -⟩ := List.lookup_eq_some_iff.1 hfound
      exact ⟨by simp, by simp [hfiles]⟩
    · split at h <;> cases h
  | cons part parts ih =>
    rw [walk] at h
    split at h
    · obtain ⟨hq, hmem⟩ := ih h
      refine ⟨?_, hmem⟩
      rw [hq, List.foldl_cons, Path.normalized.step]
      split
      · rw [Path.parent, List.drop_one, List.tail_reverse]
      · simp
    · cases h

/-- A file that is found is at the resolved path. -/
theorem of_find? {t : FileTree} {p q : Path} {text : String}
    (h : t.find? p = some (.file q text)) : q = resolve p ∧ (q, text) ∈ t.files := by
  obtain ⟨hq, hmem⟩ := of_walk h
  refine ⟨?_, hmem⟩
  rw [hq, resolve, Path.normalized, Path.join]
  split <;> simp_all [workingFolder]

/-- A text that is read at a path is that of a file. -/
theorem mem_files_of_readOr {t : FileTree} {p : Path} {text : String}
    (h : t.readOr p = .ok text) : (resolve p, text) ∈ t.files := by
  rw [readOr] at h
  split at h
  next q text' hfound =>
    obtain rfl := Except.ok.inj h
    obtain ⟨rfl, hmem⟩ := of_find? hfound
    exact hmem
  · cases h
  · split at h <;> cases h

/-- A path that stands for a module has a name, and one of its files exists. -/
theorem of_moduleAt? {t : FileTree} {base path : Path} (h : t.moduleAt? base = .ok (some path)) :
    ∃ p, base.moduleFiles.find? t.isFile = some p ∧ resolve p = path := by
  rw [moduleAt?] at h
  split at h
  · cases h
  · exact Option.map_eq_some_iff.1 (Except.ok.inj h)

/-- Paths stand for paths from the root. -/
theorem resolve_of_moduleAt? {t : FileTree} {base path : Path}
    (h : t.moduleAt? base = .ok (some path)) : resolve path = path := by
  obtain ⟨q, -, rfl⟩ := of_moduleAt? h
  exact resolve_resolve q

/-- The module that one of several paths stands for comes from one of them. -/
theorem exists_of_firstModule? {t : FileTree} {bases : List Path} {path : Path}
    (h : t.firstModule? bases = .ok (some path)) :
    ∃ base ∈ bases, t.moduleAt? base = .ok (some path) := by
  induction bases with
  | nil => cases h
  | cons base bases ih =>
    rw [firstModule?, List.findSomeM?_cons] at h
    obtain ⟨found, hfound, h⟩ := bind_eq_ok.1 h
    cases found with
    | none =>
      obtain ⟨later, hlater, hpath⟩ := ih h
      exact ⟨later, List.mem_cons_of_mem base hlater, hpath⟩
    | some p =>
      obtain rfl := Option.some.inj (Except.ok.inj h)
      exact ⟨base, List.mem_cons_self, hfound⟩

end FileTree

namespace Resolver

/-- Specifiers lead to paths from the root. -/
theorem resolve_of_packageRoot {t : FileTree} {root : Path} {inside : String} {path : Path}
    (h : packageRoot t root inside = .ok (some path)) : FileTree.resolve path = path := by
  rw [packageRoot] at h
  split at h
  · exact FileTree.resolve_of_moduleAt? h
  · dsimp only at h
    split at h
    · exact FileTree.resolve_of_moduleAt? h
    · split at h
      · exact FileTree.resolve_of_moduleAt? h
      · obtain ⟨base, -, hbase⟩ := FileTree.exists_of_firstModule? h
        exact FileTree.resolve_of_moduleAt? hbase
      · cases h

/-- A module that is found in a package is at a resolved path. -/
private theorem resolve_of_firstPackage {t : FileTree} {inside : String} {roots : List Path}
    {path : Path}
    (h : firstPackage t inside roots = .ok (some path)) : FileTree.resolve path = path := by
  induction roots with
  | nil => cases h
  | cons root roots ih =>
    obtain ⟨found, hfound, h⟩ := bind_eq_ok.1 h
    cases found with
    | none => exact ih h
    | some p =>
      obtain rfl := Option.some.inj (Except.ok.inj h)
      exact resolve_of_packageRoot hfound

/-- A module that is found is at a resolved path. -/
theorem resolve_of_resolve {r : Resolver} {specifier : String} {file path : Path}
    (h : r.resolve specifier file = .ok (some path)) : FileTree.resolve path = path := by
  rw [resolve] at h
  split at h
  · exact FileTree.resolve_of_moduleAt? h
  · obtain ⟨found, hfound, h⟩ := bind_eq_ok.1 h
    cases found with
    | none => exact resolve_of_firstPackage h
    | some p =>
      obtain rfl := Option.some.inj (Except.ok.inj h)
      obtain ⟨base, -, hbase⟩ := FileTree.exists_of_firstModule? hfound
      exact FileTree.resolve_of_moduleAt? hbase

/-- How the module at a path is read: from the text of the file that the path leads to. -/
structure Loads (r : Resolver) (path : Path) (i : ModuleIndex) : Prop where
  isSource : path.isSource = true
  ofFile : Source.ofFile r.tree path none = .ok i.source
  ofSource : ModuleIndex.ofSource r.resolve i.source = .ok i

/-- A module that is read is loaded from a file. -/
theorem loads_of_loadModule {r : Resolver} {path : Path} {i : ModuleIndex}
    (h : r.loadModule path = .ok (some i)) : Loads r path i := by
  rw [loadModule] at h
  split at h
  next hsource =>
    split at h
    next s hfile =>
      split at h
      next k hread =>
        obtain rfl := Option.some.inj (Except.ok.inj h)
        have hk : k.source = s := (ModuleIndex.isOf_ofSource hread).source
        exact ⟨hsource, hk ▸ hfile, hk ▸ hread⟩
      all_goals cases h
    · cases h
  · cases h

namespace Loads

variable {r : Resolver} {path : Path} {i : ModuleIndex}

/-- The text of a module is that of its file. -/
theorem readOr (h : Loads r path i) : r.tree.readOr path = .ok i.source.text := by
  have hfile := h.ofFile
  rw [Source.ofFile] at hfile
  split at hfile
  next text htext =>
    obtain ⟨language, -, hsource⟩ := bind_eq_ok.1 hfile
    rw [← Except.ok.inj hsource]
    exact htext
  all_goals cases hfile

/-- A module is at the resolved path. -/
theorem path_eq (h : Loads r path i) : i.path = FileTree.resolve path := by
  have hfile := h.ofFile
  rw [Source.ofFile] at hfile
  split at hfile
  next text htext =>
    obtain ⟨language, -, hsource⟩ := bind_eq_ok.1 hfile
    rw [ModuleIndex.path, ← Except.ok.inj hsource]
    rfl
  all_goals cases hfile

/-- The text of a module is that of a file. -/
theorem mem_files (h : Loads r path i) : (i.path, i.source.text) ∈ r.tree.files :=
  h.path_eq ▸ FileTree.mem_files_of_readOr h.readOr

end Loads

end Resolver

/-- A cache that tells what the files hold has no outdated texts. -/
theorem ModuleCache.Faithful.outdatedTexts_eq_nil {r : Resolver} {cache : ModuleCache}
    (h : cache.Faithful r fun _ => False) : Resolver.outdatedTexts r.tree cache = [] := by
  rw [Resolver.outdatedTexts, List.filter_eq_nil_iff]
  intro x hx
  obtain ⟨⟨path, known⟩, hmem, hknown⟩ := List.mem_filterMap.1 hx
  obtain ⟨i, rfl, rfl⟩ := Option.map_eq_some_iff.1 hknown
  have hload := Resolver.loads_of_loadModule (h path (some i) not_false hmem)
  simpa using hload.mem_files

end StableProps
