import StableProps.Command.Session
import StableProps.Proofs.Lift.CachedFix
import StableProps.Proofs.Module.Files

/-!
# Analyses that share a project

As long as no file changes, a shared project knows of each module what its file holds: a source
under analysis is made known as it is read, and so is every module that is looked up on the way.
Each analysis in such a project answers as if it was started afresh, whatever was analysed before.
-/

namespace StableProps

/-- A source at a path is what is read of the file there. -/
theorem Source.ofFile_of_atPath {t : FileTree} {p : Path} {s : Source}
    (h : atPath t p = .ok s) : s.path = FileTree.resolve p ∧ ofFile t s.path none = .ok s := by
  rw [atPath] at h
  split at h
  next text htext =>
    have hpath : s.path = FileTree.resolve p := by
      obtain ⟨language, -, hsource⟩ := bind_eq_ok.1 h
      rw [← Except.ok.inj hsource]
      rfl
    refine ⟨hpath, ?_⟩
    rw [hpath, ofFile, htext, FileTree.resolve_resolve]
    exact h
  · cases h

/-- What is read without being asked for a language has an extension of a known one. -/
theorem Source.isSource_of_ofText {text : String} {p : Path} {s : Source}
    (h : ofText text p none = .ok s) : p.isSource = true := by
  obtain ⟨language, hlanguage, -⟩ := bind_eq_ok.1 h
  change Language.ofPath p = .ok language at hlanguage
  unfold Language.ofPath at hlanguage
  split at hlanguage
  next known => rw [Path.isSource, known, Option.isSome_some]
  · cases hlanguage

/-- A source under analysis gives the module that is loaded when its path is looked up. -/
theorem Source.loadModule_of_atPath {t : FileTree} {p : Path} {s : Source}
    (h : atPath t p = .ok s) {config : Option Config} {main : ModuleIndex}
    (hread : ModuleIndex.ofSource (Resolver.resolve ⟨t, config⟩) s = .ok main) :
    Resolver.loadModule ⟨t, config⟩ s.path = .ok (some main) := by
  have hfile := (ofFile_of_atPath h).2
  have hsupported : s.path.isSource = true := by
    rw [(ofFile_of_atPath h).1]
    rw [atPath] at h
    split at h
    · exact isSource_of_ofText h
    · cases h
  rw [Resolver.loadModule, if_pos hsupported, hfile]
  dsimp only
  rw [hread]

/-- An analysis in a project that tells what the files hold is one that starts afresh. -/
theorem simulates_analyze {t : FileTree} {config : Option Config} {cache : ModuleCache}
    (hcache : cache.Faithful ⟨t, config⟩ fun _ => False) {p : Path} {s : Source}
    (hs : Source.atPath t p = .ok s) (hconfig : Config.forFile t s.path = .ok config)
    (o : Options) :
    Simulates ⟨t, config⟩ (fun _ => False) ((Workspace.cached t config cache).analyze o s)
      (analyze t o s) := by
  have hfresh : Workspace.forFile t s.path = .ok (Workspace.fresh ⟨t, config⟩) := by
    rw [Workspace.forFile, Resolver.forFile, hconfig]
    rfl
  rw [Workspace.analyze, analyze, hfresh]
  split
  next hmarkup =>
    have hafresh : (Workspace.fresh ⟨t, config⟩).analyze o s =
        (Workspace.fresh ⟨t, config⟩).findings o s := if_pos hmarkup
    change Simulates _ _ _ ((Workspace.fresh ⟨t, config⟩).analyze o s)
    rw [hafresh]
    exact Workspace.simulates_findings t config hcache.outdatedTexts_eq_nil o s
      (fun _ => False.elim) fun main hmain => .inr (Source.loadModule_of_atPath hs hmain)
  · exact .ret []

/-- Files with the same nearest configuration belong to the same project. -/
theorem Config.forFile_eq_of_find?_eq {t : FileTree} {p q : Path} (h : find? t p = find? t q) :
    forFile t p = forFile t q := by
  rw [forFile, forFile, h]

namespace Session

private theorem step_analyze_eq (s : Session) (p : Path) (o : Options) (shared : Bool) :
    s.step (.analyze p o shared) =
      ((s.findings p o shared).1.map fun found => .findings found.2, (s.findings p o shared).2) :=
  rfl

private theorem step_project_eq {s : Session} {p : Path} {config : Option Config}
    (h : Config.forFile s.tree (FileTree.resolve p) = .ok config) :
    s.step (.project p) =
      (.ok (.config (config.map (·.path))), { s with shared := some { config } }) := by
  rw [step, h]

/-- A session whose shared project tells what the files hold. -/
structure Shares (s : Session) (config : Option Config) (cache : ModuleCache) : Prop where
  shared_eq : s.shared = some ⟨config, cache⟩
  faithful : cache.Faithful ⟨s.tree, config⟩ fun _ => False

/-- An analysis in the shared project answers as if it was started afresh. It changes no file, and
the project goes on to tell what the files hold. -/
theorem step_analyze {s : Session} {config : Option Config} {cache : ModuleCache}
    (h : s.Shares config cache) (p : Path) (o : Options)
    (hconfig : Config.forFile s.tree (FileTree.resolve p) = .ok config) :
    (s.step (.analyze p o true)).1 = (s.step (.analyze p o false)).1 ∧
      (s.step (.analyze p o true)).2.tree = s.tree ∧
      ∃ cache', (s.step (.analyze p o true)).2.Shares config cache' := by
  rw [step_analyze_eq, step_analyze_eq, findings, findings, work, work]
  cases hsource : Source.atPath s.tree p with
  | error f => exact ⟨rfl, rfl, cache, h⟩
  | ok source =>
    have hpath : source.path = FileTree.resolve p := (Source.ofFile_of_atPath hsource).1
    obtain ⟨cache', hrun, hcache'⟩ :=
      simulates_analyze h.faithful hsource (hpath ▸ hconfig) o cache h.faithful
    simp only [h.shared_eq, if_true, Bool.false_eq_true, if_false]
    rw [hrun]
    exact ⟨rfl, rfl, cache', rfl, hcache'⟩

/-- An analysis that is started afresh depends on the files only. -/
theorem step_afresh_eq_of_tree_eq {s s' : Session} (h : s.tree = s'.tree) (p : Path) (o : Options) :
    (s.step (.analyze p o false)).1 = (s'.step (.analyze p o false)).1 := by
  rw [step_analyze_eq, step_analyze_eq, findings, findings, work, work, h]
  cases Source.atPath s'.tree p <;> rfl

/-- Any number of analyses in the shared project answer as if each was started afresh. -/
theorem run_analyze {s : Session} {config : Option Config} {cache : ModuleCache}
    (h : s.Shares config cache) (calls : List (Path × Options))
    (hconfig : ∀ call ∈ calls, Config.forFile s.tree (FileTree.resolve call.1) = .ok config) :
    (s.run (calls.map fun call => .analyze call.1 call.2 true)).1 =
      calls.map fun call => (s.step (.analyze call.1 call.2 false)).1 := by
  induction calls generalizing s cache with
  | nil => rfl
  | cons call calls ih =>
    obtain ⟨hanswer, htree, cache', hshares⟩ :=
      step_analyze h call.1 call.2 (hconfig call List.mem_cons_self)
    have hrest := ih hshares fun c hc => htree ▸ hconfig c (List.mem_cons_of_mem _ hc)
    rw [List.map_cons, List.map_cons, run]
    dsimp only
    rw [hanswer, hrest]
    exact congrArg _ (List.map_congr_left fun c _ => step_afresh_eq_of_tree_eq htree c.1 c.2)

/-- Analyses that share the project of a path, of files with the same nearest configuration as that
path, answer each as if it was started afresh: the same findings, or the same failure, whatever was
analysed before. -/
theorem answers_sharing_eq_afresh (s : Session) {base : Path} {config : Option Config}
    (hproject : Config.forFile s.tree (FileTree.resolve base) = .ok config)
    (calls : List (Path × Options))
    (hnearest : ∀ call ∈ calls, Config.find? s.tree (FileTree.resolve call.1) =
      Config.find? s.tree (FileTree.resolve base)) :
    ((s.step (.project base)).2.run (calls.map fun call => .analyze call.1 call.2 true)).1 =
      calls.map fun call => (s.step (.analyze call.1 call.2 false)).1 := by
  have hshares : Shares { s with shared := some { config } } config [] :=
    ⟨rfl, fun _ _ _ hknown => absurd hknown List.not_mem_nil⟩
  have hconfig : ∀ call ∈ calls,
      Config.forFile s.tree (FileTree.resolve call.1) = .ok config := fun call hcall =>
    (Config.forFile_eq_of_find?_eq (hnearest call hcall)).trans hproject
  rw [step_project_eq hproject, run_analyze hshares calls hconfig]
  refine List.map_congr_left fun call _ => step_afresh_eq_of_tree_eq ?_ call.1 call.2
  rfl

/-- Two components that take the types of their properties from each other's modules. -/
def mutualFiles : FileTree := .ofEntries [
  ("tsconfig.json", "\x7b\x7d"),
  ("a.tsx",
    "import type \x7b Inner \x7d from './b';\nexport type Outer = \x7b value: Inner \x7d;\n"),
  ("b.tsx",
    "import type \x7b Outer \x7d from './a';\nexport type Inner = \x7b value: Outer \x7d;\n" ++
    "export const C = () => <div style=\x7b\x7b a: 1 \x7d\x7d />;\n")]

set_option maxRecDepth 100000 in
theorem answers_sharing_mutualFiles :
    ∃ config, Config.forFile mutualFiles (FileTree.resolve (.ofText "tsconfig.json")) = .ok config ∧
      config.isSome ∧ ((step ⟨mutualFiles, none⟩ (.project (.ofText "tsconfig.json"))).2.run
        [.analyze (.ofText "b.tsx") {} true, .analyze (.ofText "a.tsx") {} true,
          .analyze (.ofText "b.tsx") {} true]).1 =
      [(step ⟨mutualFiles, none⟩ (.analyze (.ofText "b.tsx") {} false)).1,
        (step ⟨mutualFiles, none⟩ (.analyze (.ofText "a.tsx") {} false)).1,
        (step ⟨mutualFiles, none⟩ (.analyze (.ofText "b.tsx") {} false)).1] := by
  have hproject : ∃ config, Config.forFile mutualFiles
      (FileTree.resolve (.ofText "tsconfig.json")) = .ok config ∧ config.isSome := by decide +kernel
  obtain ⟨config, hconfig, hsome⟩ := hproject
  refine ⟨config, hconfig, hsome, ?_⟩
  exact answers_sharing_eq_afresh ⟨mutualFiles, none⟩ hconfig
    [(.ofText "b.tsx", {}), (.ofText "a.tsx", {}), (.ofText "b.tsx", {})] (by decide +kernel)

end Session

end StableProps
