import Mathlib.Data.Finset.Prod
import Mathlib.Tactic.Ring
import StableProps.Proofs.Module.PassedNames
import StableProps.Proofs.Module.Resolution

/-!
# Exports of projects with cycles

The modules of a project pass names on to each other in any way, also in circles. Only finitely many
names can come up, so following an export takes a bounded number of steps. It finds something
exactly if some chain leads to an end; a circle that is cut hides nothing. What keeps it from an
answer comes up on the way: a malformed manifest of a package, or a path without a name.
-/

namespace StableProps

namespace Source

private theorem text_of_ofText {text : String} {path : Path} {language : Option String} {s : Source}
    (h : ofText text path language = .ok s) : s.text = text := by
  rw [ofText] at h
  split at h
  all_goals
    obtain ⟨l, -, hs⟩ := bind_eq_ok.1 h
    rw [← Except.ok.inj hs]
    rfl

/-- What is found in a text at a path. -/
def foundIn (find : Source → List String) (file : Path × String) : List String :=
  ((ofText file.2 file.1 none).toOption.map find).getD []

/-- What is found in a file is found in its source. -/
theorem foundIn_eq (find : Source → List String) {file : Path × String} {s : Source}
    (h : ofText file.2 file.1 none = .ok s) : foundIn find file = find s := by
  unfold foundIn
  rw [h]
  rfl

section

variable {find : Source → List String} {factor : Nat}

/-- What is found in a file grows with its size. -/
private theorem length_foundIn_le (hfind : ∀ s, (find s).length ≤ factor * s.text.utf8ByteSize)
    (file : Path × String) : (foundIn find file).length ≤ factor * file.2.utf8ByteSize := by
  cases hs : ofText file.2 file.1 none with
  | ok s =>
    rw [foundIn_eq find hs, ← text_of_ofText hs]
    exact hfind s
  | error f =>
    unfold foundIn
    rw [hs]
    exact Nat.zero_le _

/-- What is found in files is bounded by their size, if it is so for each text. -/
theorem length_flatMap_foundIn_le (hfind : ∀ s, (find s).length ≤ factor * s.text.utf8ByteSize)
    (files : List (Path × String)) :
    (files.flatMap (foundIn find)).length ≤ factor * Resolver.textSize files := by
  induction files with
  | nil => exact Nat.zero_le _
  | cons file files ih =>
    have hfile := length_foundIn_le hfind file
    rw [List.flatMap_cons, List.length_append, Resolver.textSize, Nat.mul_add]
    omega

end

/-- The names that are listed in a text at a path. -/
def listedNamesOf (file : Path × String) : List String := foundIn listedNames file

end Source

namespace Resolver

variable {r : Resolver} {main i : ModuleIndex}

/-- The source of a loaded module is that of a file. -/
theorem Loads.exists_file {path : Path} (h : Loads r path i) :
    ∃ file ∈ r.tree.files, file.1 = i.path ∧ Source.ofText file.2 file.1 none = .ok i.source := by
  have hfile := h.ofFile
  rw [Source.ofFile, h.readOr, ← h.path_eq] at hfile
  exact ⟨(i.path, i.source.text), h.mem_files, rfl, hfile⟩

/-- A known module is the one under analysis, or its source is that of a file. -/
theorem eq_main_or_exists_file (h : (r.project.withModule main).Knows r i) :
    i = main ∨
      ∃ file ∈ r.tree.files, file.1 = i.path ∧ Source.ofText file.2 file.1 none = .ok i.source := by
  by_cases hmain : i.path = main.path
  · have hindex : (r.project.withModule main).index i.path = .ok (some main) := if_pos hmain
    rw [h.index] at hindex
    exact .inl (Option.some.inj (Except.ok.inj hindex))
  · have hload : r.loadModule i.path = .ok (some i) := by
      rw [← r.index_project, ← h.index]
      exact (if_neg hmain).symm
    exact .inr (loads_of_loadModule hload).exists_file

/-- Known modules are told apart by their paths. -/
theorem separates_knows (h : ModuleIndex.ofSource r.resolve main.source = .ok main) :
    (r.project.withModule main).Separates ((r.project.withModule main).Knows r) where
  closed := closed_knows h
  unique i j hi hj hpath := by
    have hindex := hi.index
    rw [hpath, hj.index] at hindex
    exact (Option.some.inj (Except.ok.inj hindex)).symm

/-! ## Finitely many demands -/

/-- The names that can come up when a name is asked for. -/
def askedNames (r : Resolver) (main : ModuleIndex) (name : String) : List String :=
  name :: "default" :: (main.source.listedNames ++ r.tree.files.flatMap Source.listedNamesOf)

/-- The paths of known modules. -/
def knownPaths (r : Resolver) (main : ModuleIndex) : List Path :=
  main.path :: r.tree.files.map Prod.fst

/-- The path of a known module is known. -/
theorem path_mem_knownPaths (h : (r.project.withModule main).Knows r i) :
    i.path ∈ r.knownPaths main := by
  rcases eq_main_or_exists_file h with rfl | ⟨file, hfile, hpath, -⟩
  · exact List.mem_cons_self
  · exact List.mem_cons_of_mem _ (List.mem_map.2 ⟨file, hfile, hpath⟩)

/-- The names that a known module lists can be asked for. -/
private theorem listedNames_subset_askedNames (h : (r.project.withModule main).Knows r i)
    (name : String) : i.source.listedNames ⊆ r.askedNames main name := by
  intro listed hlisted
  refine List.mem_cons_of_mem _ (List.mem_cons_of_mem _ ?_)
  rcases eq_main_or_exists_file h with rfl | ⟨file, hfile, -, hread⟩
  · exact List.mem_append_left _ hlisted
  · refine List.mem_append_right _ (List.mem_flatMap.2 ⟨file, hfile, ?_⟩)
    rw [Source.listedNamesOf, Source.foundIn_eq _ hread]
    exact hlisted

/-- A search asks known modules for the names that can come up. -/
theorem encloses (h : ModuleIndex.ofSource r.resolve main.source = .ok main) (name : String) :
    (r.project.withModule main).Encloses
      (fun x => (r.project.withModule main).Knows r x.module ∧ x.name ∈ r.askedNames main name)
      ((r.knownPaths main).toFinset ×ˢ (r.askedNames main name).toFinset) where
  mem x hx := Finset.mem_product.2
    ⟨List.mem_toFinset.2 (path_mem_knownPaths hx.1), List.mem_toFinset.2 hx.2⟩
  goes x y hx hgoes := by
    refine ⟨(closed_knows h).of_goes hx.1 hgoes, ?_⟩
    rcases hgoes.name_eq_or hx.1.ofSource with hname | hname | hname
    · rw [hname]
      exact hx.2
    · rw [hname]
      exact List.mem_cons_of_mem _ List.mem_cons_self
    · exact listedNames_subset_askedNames hx.1 name hname

/-- There is one path for each file, and one for the main module. -/
theorem length_knownPaths (r : Resolver) (main : ModuleIndex) :
    (r.knownPaths main).length = r.tree.files.length + 1 := by
  rw [knownPaths, List.length_cons, List.length_map]

/-- The project allows for more steps than there are pairs of a module and a name, if there are at
most two names for each byte and two more. -/
theorem mul_lt_bound (r : Resolver) (main : ModuleIndex) {paths names : Nat}
    (hpaths : paths ≤ r.tree.files.length + 1)
    (hnames : names ≤ 2 * (textSize r.tree.files + main.source.text.utf8ByteSize + 1)) :
    paths * names < (r.project.withModule main).bound := by
  obtain ⟨count, hcount⟩ : ∃ n, n = r.tree.files.length := ⟨_, rfl⟩
  obtain ⟨size, hsize⟩ : ∃ n, n = textSize r.tree.files := ⟨_, rfl⟩
  obtain ⟨own, hown⟩ : ∃ n, n = main.source.text.utf8ByteSize := ⟨_, rfl⟩
  have hbound : (r.project.withModule main).bound =
      ((count + 2) * (size + 2) + 1) * ((count + 2) * (size + 2) + own + 1) := by
    rw [hcount, hsize, hown]
    rfl
  rw [← hcount] at hpaths
  rw [← hsize, ← hown] at hnames
  have hstep : 2 * (count + 2) ≤ (count + 2) * (size + 2) := by
    rw [Nat.mul_comm]
    exact Nat.mul_le_mul_left _ (Nat.le_add_left 2 size)
  have hsizes : size ≤ (count + 2) * (size + 2) := by
    have hle : 1 * (size + 2) ≤ (count + 2) * (size + 2) :=
      Nat.mul_le_mul_right _ (Nat.succ_le_succ (Nat.zero_le _))
    omega
  rw [hbound]
  calc paths * names
      ≤ (count + 1) * (2 * (size + own + 1)) := Nat.mul_le_mul hpaths hnames
    _ = 2 * (count + 1) * (size + own + 1) := by ring
    _ < ((count + 2) * (size + 2) + 1) * (size + own + 1) :=
      Nat.mul_lt_mul_of_pos_right (by omega) (Nat.succ_pos _)
    _ ≤ _ := Nat.mul_le_mul_left _ (by omega)

/-- The project allows for more steps than there are demands. -/
theorem card_demands_lt_bound (r : Resolver) (main : ModuleIndex) (name : String) :
    ((r.knownPaths main).toFinset ×ˢ (r.askedNames main name).toFinset).card <
      (r.project.withModule main).bound := by
  rw [Finset.card_product]
  refine r.mul_lt_bound main ?_ ?_
  · exact (List.toFinset_card_le _).trans (r.length_knownPaths main).le
  · refine (List.toFinset_card_le _).trans ?_
    have hfiles := Source.length_flatMap_foundIn_le Source.length_listedNames_le r.tree.files
    have hmain := main.source.length_listedNames_le
    change (r.tree.files.flatMap Source.listedNamesOf).length ≤ _ at hfiles
    simp only [askedNames, List.length_cons, List.length_append]
    omega

end Resolver

/-- What fails on a way fails as a look-up. -/
theorem Project.FailsByLookups.isOfLookup_of_stops {p : Project (Except Failure)}
    (h : p.FailsByLookups) {x : Demand} {f : Failure} (hstops : p.Stops x f) : f.IsOfLookup := by
  obtain ⟨y, -, hfails⟩ := hstops
  cases hfails with
  | renamed _ _ target => exact h.target? _ _ f target
  | star _ _ _ target => exact h.target? _ _ f target
  | imported _ _ index => exact h.index? _ f index

/-- Following an export of a module ends, after a bounded number of steps. Unless it fails it finds
something exactly if some finite chain of steps leads to an end, and what it finds is where such a
chain leads, with the imports that follow. It fails only by a malformed manifest or a path without a
name, where a question that is asked on a way fails. -/
theorem Workspace.resolveExport_follows_chains {r : Resolver} {source : Source}
    {p : Planner (Except Failure)} (h : (fresh r).planner source = .ok p) {i : ModuleIndex}
    (hi : p.project.index i.path = .ok (some i)) (name : String) :
    (∀ fuel, p.project.bound ≤ fuel →
      p.project.resolveExportFrom fuel [] i name = p.project.resolveExport i name) ∧
    (∀ found, p.project.resolveExport i name = .ok found →
      (found.isSome = true ↔ p.project.Leads ⟨i, name⟩) ∧
      ∀ d, found = some d → p.project.LeadsTo [] ⟨i, name⟩ d) ∧
    ∀ f, p.project.resolveExport i name = .error f →
      f.IsOfLookup ∧ p.project.Stops ⟨i, name⟩ f := by
  have hknows := knows_of_index_self h hi
  have hmain := (knows_main h).ofSource
  rw [(of_planner h).1] at hknows ⊢
  have hencloses := Resolver.encloses hmain name
  have hmet : (r.project.withModule p.main).Knows r i ∧ name ∈ r.askedNames p.main name :=
    ⟨hknows, List.mem_cons_self⟩
  have hcard := Resolver.card_demands_lt_bound r p.main name
  have hanswers := hencloses.answers _ [] ⟨i, name⟩ hmet (by simpa using hcard)
  have hchains := (Resolver.separates_knows hmain).leadsAround_nil_iff (x := ⟨i, name⟩) hknows
  refine ⟨fun fuel hfuel => ?_, fun found hfound => ?_, fun f hf => ?_⟩
  · exact hencloses.resolveExportFrom_eq fuel _ [] ⟨i, name⟩ hmet
      (by simpa using hcard.trans_le hfuel) (by simpa using hcard)
  · cases found with
    | none =>
      have hmissing := hanswers.missing hfound
      rw [hchains] at hmissing
      exact ⟨by simpa using hmissing, nofun⟩
    | some d =>
      obtain ⟨haround, hleads⟩ := hanswers.found d hfound
      refine ⟨by simpa using haround.leads, ?_⟩
      rintro d' ⟨⟩
      exact hleads
  · have hstops := hanswers.failed f hf
    have hlookups := Project.FailsByLookups.withModule (.project r) p.main
    exact ⟨hlookups.isOfLookup_of_stops hstops, hstops⟩

/-- Modules that pass on all names to each other. One of them gets a name from a module that imports
it from the first one again. -/
def circularFiles : FileTree := .ofEntries [
  ("b.ts", "export * from './a';\nexport \x7b T as U \x7d from './c';\n"),
  ("c.ts", "import type \x7b U as T \x7d from './a';\nexport \x7b T \x7d;\n")]

/-- The module that the circles come back to. -/
def circularSource : Source :=
  .parsed (FileTree.resolve (.ofText "a.ts")) .typescript "export * from './b';\n"

set_option maxRecDepth 100000 in
private theorem planner_circularSource :
    ∃ p, (Workspace.fresh ⟨circularFiles, none⟩).planner circularSource = .ok p ∧
      ∃ found, p.project.resolveExport p.main "U" = .ok found ∧
        ∃ d, found = some d ∧ d.module.path = FileTree.resolve (.ofText "c.ts") ∧
          d.localName = "T" := by
  decide +kernel

/-- The import at the end of the chain comes back to where it started, so the chain ends there. -/
theorem Workspace.resolveExport_circularSource :
    ∃ p, (fresh ⟨circularFiles, none⟩).planner circularSource = .ok p ∧
      p.project.index p.main.path = .ok (some p.main) ∧ p.project.Leads ⟨p.main, "U"⟩ ∧
      ∃ d, d.module.path = FileTree.resolve (.ofText "c.ts") ∧ d.localName = "T" ∧
        p.project.LeadsTo [] ⟨p.main, "U"⟩ d := by
  obtain ⟨p, hp, found, hfound, d, rfl, hpath, hname⟩ := planner_circularSource
  have hmain := (knows_main hp).index
  obtain ⟨hleads, hway⟩ := (resolveExport_follows_chains hp hmain "U").2.1 (some d) hfound
  exact ⟨p, hp, hmain, hleads.1 rfl, d, hpath, hname, hway d rfl⟩

/-- A module that passes on the names of a package with a malformed manifest, and those of a module
that exports a type. -/
def malformedPackageFiles : FileTree := .ofEntries [
  ("b.ts", "export type T = number;\n"), ("node_modules/p/package.json", "[]")]

/-- The package comes first. -/
def packageSource : Source :=
  .parsed (FileTree.resolve (.ofText "a.ts")) .typescript
    "export * from 'p';\nexport * from './b';\n"

set_option maxRecDepth 100000 in
private theorem planner_packageSource :
    ∃ p, (Workspace.fresh ⟨malformedPackageFiles, none⟩).planner packageSource = .ok p ∧
      p.main.export? "T" = none ∧ "./b" ∈ p.main.starExports ∧
      (∃ found, p.project.target? p.main "./b" = .ok found ∧ ∃ j, found = some j ∧
        ∃ entry, j.export? "T" = some entry ∧ entry.source = none ∧
          entry.localName = some "T") ∧
      ¬∃ found, p.project.resolveExport p.main "T" = .ok found ∧ found.isSome = true := by
  decide +kernel

/-- A chain leads to the type, but the manifest keeps the project from an answer. -/
theorem Workspace.not_forall_resolveExport_iff_leads :
    ¬∀ (r : Resolver) (source : Source) (p : Planner (Except Failure)),
      (fresh r).planner source = .ok p → ∀ i, p.project.index i.path = .ok (some i) → ∀ name,
        ((∃ d, p.project.resolveExport i name = .ok (some d)) ↔ p.project.Leads ⟨i, name⟩) := by
  intro h
  obtain ⟨p, hp, hunlisted, hmem, ⟨found, htarget, j, rfl, entry, hentry, hown, hlocal⟩, hnone⟩ :=
    planner_packageSource
  have hmain := (knows_main hp).index
  have hleads : p.project.Leads ⟨p.main, "T"⟩ :=
    ⟨⟨j, "T"⟩, "T", .single (.star hunlisted (by decide) hmem htarget),
      ⟨entry, hentry, hown, hlocal⟩⟩
  obtain ⟨d, hd⟩ := (h _ _ p hp p.main hmain "T").2 hleads
  exact hnone ⟨some d, hd, rfl⟩

end StableProps
