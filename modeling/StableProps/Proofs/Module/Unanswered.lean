import StableProps.Module.Store
import StableProps.Proofs.Module.Query

/-!
# Why a project does not answer

Modules that cannot be read are no modules, and configurations that cannot be read are ignored. Two
things keep a project from an answer: a setting that should hold others and does not, as the
manifest of a package, and a path without a name where a module is looked for, as the root.
-/

namespace StableProps

/-- The failures that keep a project from an answer. -/
inductive Failure.IsOfLookup : Failure → Prop
  /-- A setting that should hold others holds something else. -/
  | malformedSetting : IsOfLookup .malformedSetting
  /-- A module is looked for by a path without a name. -/
  | nameless (path : Path) (h : path.name = "") : IsOfLookup (.nameless path)

/-- A step that fails for one of these reasons at most. -/
def FailsByLookup {α : Type} (x : Except Failure α) : Prop :=
  ∀ f, x = .error f → f.IsOfLookup

/-- A step that does not fail. -/
theorem FailsByLookup.ok {α : Type} (a : α) : FailsByLookup (.ok a) := nofun

/-- A step that finds something else where settings should be. -/
theorem FailsByLookup.malformedSetting {α : Type} :
    FailsByLookup (.error .malformedSetting : Except Failure α) := by
  rintro f ⟨⟩
  exact .malformedSetting

/-- Steps one after the other fail for the reasons that each of them has. -/
theorem FailsByLookup.bind {α β : Type} {x : Except Failure α} {f : α → Except Failure β}
    (hx : FailsByLookup x) (hf : ∀ a, FailsByLookup (f a)) : FailsByLookup (x >>= f) := by
  intro e he
  rcases bind_eq_error.1 he with he | ⟨a, -, he⟩
  · exact hx e he
  · exact hf a e he

/-- The steps of a list fail for the reasons that each of them has. -/
theorem FailsByLookup.mapM {α β : Type} {f : α → Except Failure β} (hf : ∀ a, FailsByLookup (f a))
    (as : List α) : FailsByLookup (as.mapM f) := by
  intro e he
  obtain ⟨a, -, ha⟩ := exists_of_mapM_eq_error he
  exact hf a e ha

/-- Looking for the first of several things fails for the reasons that each look has. -/
theorem FailsByLookup.findSomeM? {α β : Type} {f : α → Except Failure (Option β)}
    (hf : ∀ a, FailsByLookup (f a)) (as : List α) : FailsByLookup (as.findSomeM? f) := by
  induction as with
  | nil => exact .ok none
  | cons a as ih =>
    refine (hf a).bind fun found => ?_
    cases found with
    | none => exact ih
    | some b => exact .ok _

/-- Steps for each element of a list fail for the reasons that each of them has. -/
theorem FailsByLookup.forM {α : Type} {f : α → Except Failure Unit}
    (hf : ∀ a, FailsByLookup (f a)) (as : List α) : FailsByLookup (as.forM f) := by
  induction as with
  | nil => exact .ok ()
  | cons a as ih => exact (hf a).bind fun _ => ih

/-- A step that returns only what has a property, and fails as a look-up at most. -/
structure Returns {α : Type} (P : α → Prop) (x : Except Failure α) : Prop where
  holds : ∀ a, x = .ok a → P a
  fails : FailsByLookup x

namespace Returns

variable {α β : Type} {P : α → Prop} {Q : β → Prop}

/-- Returning something that has the property. -/
theorem pure {a : α} (h : P a) : Returns P (.ok a) where
  holds := by
    rintro b ⟨⟩
    exact h
  fails := .ok a

/-- In a sequence of two steps the second one starts with something that has the first property. -/
theorem bind {x : Except Failure α} {f : α → Except Failure β} (hx : Returns P x)
    (hf : ∀ a, P a → Returns Q (f a)) : Returns Q (x >>= f) where
  holds b hb := by
    obtain ⟨a, ha, hb⟩ := bind_eq_ok.1 hb
    exact (hf a (hx.holds a ha)).holds b hb
  fails e he := by
    rcases bind_eq_error.1 he with he | ⟨a, ha, he⟩
    · exact hx.fails e he
    · exact (hf a (hx.holds a ha)).fails e he

end Returns

/-- A step returns only what has a property, and fails as a look-up at most. -/
def OutcomeLogic.returns : OutcomeLogic (Except Failure) where
  Ensures := Returns
  pure := Returns.pure
  bind := Returns.bind
  imp h himp := ⟨fun a ha => himp a (h.holds a ha), h.fails⟩

/-- A path stands for a module or none, unless it has no name. -/
theorem FileTree.failsByLookup_moduleAt? (t : FileTree) (base : Path) :
    FailsByLookup (t.moduleAt? base) := by
  rw [moduleAt?]
  split
  next hname =>
    rintro f ⟨⟩
    exact .nameless base hname
  · exact .ok _

/-- The first module of several bases is found or a look-up fails. -/
private theorem FileTree.failsByLookup_firstModule? (t : FileTree) (bases : List Path) :
    FailsByLookup (t.firstModule? bases) :=
  .findSomeM? t.failsByLookup_moduleAt? bases

namespace Resolver

/-- A package is found or not, unless its manifest is malformed or names a path without a name. -/
theorem failsByLookup_packageRoot (t : FileTree) (root : Path) (inside : String) :
    FailsByLookup (packageRoot t root inside) := by
  rw [packageRoot]
  split
  · exact t.failsByLookup_moduleAt? _
  · dsimp only
    split
    · exact t.failsByLookup_moduleAt? _
    · split
      · exact t.failsByLookup_moduleAt? _
      · exact t.failsByLookup_firstModule? _
      · exact .malformedSetting

/-- The first package of several roots is found or a look-up fails. -/
private theorem failsByLookup_firstPackage (t : FileTree) (inside : String) (roots : List Path) :
    FailsByLookup (firstPackage t inside roots) := by
  induction roots with
  | nil => exact .ok _
  | cons root roots ih =>
    refine (failsByLookup_packageRoot t root inside).bind ?_
    intro found
    cases found with
    | none => exact ih
    | some p => exact .ok _

/-- Specifiers are resolved, unless a look-up on the way fails. -/
theorem failsByLookup_resolve (r : Resolver) (specifier : String) (file : Path) :
    FailsByLookup (r.resolve specifier file) := by
  rw [resolve]
  split
  · exact r.tree.failsByLookup_moduleAt? _
  · refine (r.tree.failsByLookup_firstModule? _).bind fun found => ?_
    cases found with
    | none => exact failsByLookup_firstPackage _ _ _
    | some p => exact .ok _

/-- A module has a specifier, unless a pattern is mapped to a path without a name. -/
theorem failsByLookup_specifier (r : Resolver) (target file : Path) :
    FailsByLookup (r.specifier target file) := by
  have htry : FailsByLookup r.tryPatterns :=
    .forM (fun base => (r.tree.failsByLookup_moduleAt? base).bind fun _ => .ok ()) _
  rw [specifier]
  split
  · exact htry.bind fun _ => .ok _
  · exact .ok _

end Resolver

/-- An import statement is read or a look-up fails. -/
private theorem ExistingImport.failsByLookup_ofStatement
    {resolve : String → Except Failure (Option Path)} (h : ∀ s, FailsByLookup (resolve s))
    (n : Node) : FailsByLookup (ofStatement resolve n) := by
  rw [ofStatement]
  split
  · exact .ok _
  · exact (h _).bind fun _ => .ok _

/-- A source is indexed or a look-up fails. -/
theorem ModuleIndex.failsByLookup_ofSource (r : Resolver) (s : Source) :
    FailsByLookup (ofSource r.resolve s) := by
  rw [ofSource]
  refine FailsByLookup.bind ?_ fun _ => .ok _
  exact .mapM (ExistingImport.failsByLookup_ofStatement fun _ => r.failsByLookup_resolve _ _) _

/-- The settings for a file are found or a look-up fails. -/
theorem Config.failsByLookup_forFile (t : FileTree) (path : Path) :
    FailsByLookup (forFile t path) := by
  rw [forFile]
  split
  · exact .ok _
  · split
    · exact .ok _
    · exact .malformedSetting
    · exact .ok _

namespace Resolver

/-- A module is loaded or a look-up fails. -/
private theorem failsByLookup_loadModule (r : Resolver) (path : Path) :
    FailsByLookup (r.loadModule path) := by
  rw [loadModule]
  split
  · split
    · split
      · exact .ok _
      · exact .malformedSetting
      · exact .ok _
    · exact .ok _
  · exact .ok _

private theorem lookup_map_thunk {κ α : Type} [BEq κ] [LawfulBEq κ] {files : List (κ × String)}
    {key : κ} {read : κ → α} {known : Thunk α}
    (h : (files.map fun x => (x.1, Thunk.mk fun _ => read x.1)).lookup key = some known) :
    known.get = read key := by
  obtain ⟨l₁, l₂, heq, -⟩ := List.lookup_eq_some_iff.1 h
  have hmem : (key, known) ∈ files.map fun x => (x.1, Thunk.mk fun _ => read x.1) := by
    rw [heq]
    exact List.mem_append_right _ List.mem_cons_self
  obtain ⟨x, -, hx⟩ := List.mem_map.1 hmem
  obtain ⟨rfl, rfl⟩ := Prod.mk.inj hx
  rfl

/-- What is kept of a file is what is read from it. -/
theorem index_project (r : Resolver) (path : Path) : r.project.index path = r.loadModule path := by
  rw [project]
  dsimp only
  split
  next known hknown => exact lookup_map_thunk hknown
  · rfl

end Resolver

/-- A project that does not answer only where a look-up fails. -/
structure Project.FailsByLookups (p : Project (Except Failure)) : Prop where
  index : ∀ path, FailsByLookup (p.index path)
  resolve : ∀ specifier file, FailsByLookup (p.resolve specifier file)
  specifier : ∀ target file, FailsByLookup (p.specifier target file)

namespace Project.FailsByLookups

/-- The project of the files fails only by look-ups. -/
theorem project (r : Resolver) : r.project.FailsByLookups where
  index path := by
    rw [r.index_project]
    exact r.failsByLookup_loadModule path
  resolve := r.failsByLookup_resolve
  specifier := r.failsByLookup_specifier

/-- So does a project with one more module. -/
theorem withModule {p : Project (Except Failure)} (h : p.FailsByLookups) (i : ModuleIndex) :
    (p.withModule i).FailsByLookups where
  index path := by
    rw [Project.withModule]
    dsimp only
    split
    · exact .ok _
    · exact h.index path
  resolve := h.resolve
  specifier := h.specifier

/-- Look-ups fail for no other reason. -/
theorem run {p : Project (Except Failure)} (h : p.FailsByLookups) {α : Type} (q : Query α) :
    FailsByLookup (q.run p) := by
  intro f hf
  rcases Query.unanswered_of_run hf with ⟨path, hindex⟩ | ⟨specifier, file, hresolve⟩ |
    ⟨target, file, hspecifier⟩
  · exact h.index path f hindex
  · exact h.resolve specifier file f hresolve
  · exact h.specifier target file f hspecifier

section

variable {p : Project (Except Failure)}

theorem index? (h : p.FailsByLookups) (path : Option Path) : FailsByLookup (p.index? path) := by
  cases path with
  | none => exact .ok none
  | some path => exact h.index path

theorem target? (h : p.FailsByLookups) (i : ModuleIndex) (specifier : String) :
    FailsByLookup (p.target? i specifier) :=
  (h.resolve specifier i.path).bind h.index?

/-- The first answer of several modules is found or a look-up fails. -/
theorem firstAnswer (h : p.FailsByLookups) {α : Type} (i : ModuleIndex)
    {ask : ModuleIndex → Except Failure (Option α)} (hask : ∀ j, FailsByLookup (ask j))
    (specifiers : List String) : FailsByLookup (p.firstAnswer i ask specifiers) := by
  induction specifiers with
  | nil => exact .ok none
  | cons specifier rest ih =>
    rw [Project.firstAnswer]
    refine (h.target? i specifier).bind fun target => ?_
    cases target with
    | none => exact ih
    | some j =>
      refine (hask j).bind fun answer => ?_
      cases answer with
      | none => exact ih
      | some a => exact .ok _

/-- An export is followed further or a look-up fails. -/
theorem followVia (h : p.FailsByLookups)
    {onward : ModuleIndex → String → Except Failure (Option Declared)}
    (honward : ∀ j name, FailsByLookup (onward j name)) (i : ModuleIndex) (name : String) :
    FailsByLookup (p.followVia onward i name) := by
  rw [Project.followVia]
  split
  · refine (h.index? _).bind fun target => ?_
    cases target with
    | none => exact .ok none
    | some j => exact honward j _
  · exact .ok none

/-- Following an export fails as a look-up at most. -/
theorem resolveExportFrom (h : p.FailsByLookups) (fuel : Nat) (passed : List (Path × String))
    (i : ModuleIndex) (name : String) :
    FailsByLookup (p.resolveExportFrom fuel passed i name) := by
  induction fuel generalizing passed i name with
  | zero => exact .ok none
  | succ fuel ih =>
    rw [Project.resolveExportFrom]
    split
    · exact .ok none
    · dsimp only
      split
      · split
        · refine (h.target? _ _).bind fun target => ?_
          cases target with
          | none => exact .ok none
          | some j => exact ih _ _ _
        · exact .ok none
        · refine (h.followVia (ih _) _ _).bind fun found => ?_
          cases found <;> exact .ok _
      · split
        · exact .ok none
        · exact h.firstAnswer i (ih _ · name) _

theorem exportedType? (h : p.FailsByLookups) (i : ModuleIndex) (exported : String) :
    FailsByLookup (p.exportedType? i exported) := by
  refine FailsByLookup.bind (h.resolveExportFrom _ _ _ _) fun found => ?_
  cases found <;> exact .ok _

theorem importedType? (h : p.FailsByLookups) (i : ModuleIndex) (name : String) :
    FailsByLookup (p.importedType? i name) := by
  rw [Project.importedType?]
  split
  · refine (h.index? _).bind fun target => ?_
    cases target with
    | none => exact .ok _
    | some j =>
      refine (h.exportedType? j _).bind fun found => ?_
      cases found <;> exact .ok _
  · exact .ok none

/-- A declaration is found or a look-up fails. -/
theorem declareType (h : p.FailsByLookups) (i : ModuleIndex) (name : String)
    (context : Option Focus) : FailsByLookup (p.declareType i name context) := by
  rw [Project.declareType]
  split
  · exact .ok _
  · split
    · exact .ok _
    · exact h.importedType? i name

/-- So is one with a qualified name. -/
theorem declareQualified (h : p.FailsByLookups) (i : ModuleIndex) (qualifier name : String) :
    FailsByLookup (p.declareQualified i qualifier name) := by
  rw [Project.declareQualified]
  split
  · split <;> exact .ok _
  · split
    · exact .ok none
    · refine (h.index? _).bind fun target => ?_
      cases target with
      | none => exact .ok _
      | some j =>
        refine (h.exportedType? j name).bind fun found => ?_
        cases found with
        | some d => exact .ok _
        | none =>
          dsimp only
          split <;> exact .ok _

/-- Binding a name fails as a look-up at most. -/
theorem binder (h : p.FailsByLookups) (i : ModuleIndex) (context : Focus) (name : String)
    (qualifier : Option String) : FailsByLookup (p.binder i context name qualifier) := by
  cases qualifier with
  | none => exact h.declareType i name context
  | some q => exact h.declareQualified i q name

end

end Project.FailsByLookups

end StableProps
