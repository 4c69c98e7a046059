import StableProps.Lift.Fix
import StableProps.Proofs.Module.Unanswered
import StableProps.Proofs.Outcome

/-!
# Where exports lead

Following an export goes from a module to modules of the project, and so a property that all of
them have holds of the module it ends in. One such property is that types are found under the names
that their statements declare: it holds of every module that is read from a source.
-/

namespace StableProps

open MonadAttach (CanReturn)

namespace Project

/-- All modules of a project have a property. -/
def All {m : Type → Type} [MonadAttach m] (p : Project m) (P : ModuleIndex → Prop) : Prop :=
  ∀ path i, CanReturn (p.index path) (some i) → P i

variable {m : Type → Type} [Monad m] [LawfulMonad m] [MonadAttach m] [LawfulMonadAttach m]
variable {p : Project m} {P : ModuleIndex → Prop} {i j : ModuleIndex} {d : Declared}

/-- A module that is put into a project may be one of those with the property. -/
theorem All.withModule (h : p.All P) (hi : P i) : (p.withModule i).All P := by
  intro path j hj
  rw [Project.withModule] at hj
  dsimp only at hj
  split at hj
  · rw [Option.some.inj (eq_of_canReturn_pure hj)]
    exact hi
  · exact h path j hj

/-- A module at a path, if there is one, has the property. -/
theorem All.index? (h : p.All P) {path : Option Path} (hj : CanReturn (p.index? path) (some j)) :
    P j := by
  cases path with
  | none => cases eq_of_canReturn_pure hj
  | some path => exact h path j hj

/-- A module behind a specifier has the property. -/
theorem All.target? (h : p.All P) {specifier : String}
    (hj : CanReturn (p.target? i specifier) (some j)) : P j := by
  obtain ⟨path, -, hj⟩ := canReturn_bind hj
  exact h.index? hj

/-- Each step from a module with a property leads to modules with it. -/
structure Closed (p : Project m) (P : ModuleIndex → Prop) : Prop where
  target : ∀ {i j specifier}, P i → CanReturn (p.target? i specifier) (some j) → P j
  imported : ∀ {i j name existing binding}, P i →
    i.importOf? name = some (existing, binding) →
      CanReturn (p.index? existing.resolved) (some j) → P j

/-- A property of all modules is kept on all ways from one module to another. -/
theorem All.closed (h : p.All P) : p.Closed P where
  target _ := h.target?
  imported _ _ := h.index?

/-- A way that starts in a module with a property ends in one. -/
def StaysIn (P : ModuleIndex → Prop) (onward : ModuleIndex → String → m (Option Declared)) : Prop :=
  ∀ i name d, P i → CanReturn (onward i name) (some d) → P d.module

namespace Closed

/-- The way over an import or a re-export stays among the modules with the property. -/
theorem followVia (h : p.Closed P) {onward : ModuleIndex → String → m (Option Declared)}
    (honward : StaysIn P onward) (hi : P i) {name : String}
    (hd : CanReturn (p.followVia onward i name) (some d)) : P d.module := by
  rw [Project.followVia] at hd
  split at hd
  next himport =>
    obtain ⟨target, htarget, hd⟩ := canReturn_bind hd
    split at hd
    · exact honward _ _ _ (h.imported hi himport htarget) hd
    · cases eq_of_canReturn_pure hd
  · cases eq_of_canReturn_pure hd

/-- The first answer of several modules comes from one with the property. -/
theorem firstAnswer (h : p.Closed P) {onward : ModuleIndex → String → m (Option Declared)}
    (honward : StaysIn P onward) (hi : P i) {name : String} {specifiers : List String}
    (hd : CanReturn (p.firstAnswer i (onward · name) specifiers) (some d)) : P d.module := by
  induction specifiers with
  | nil => cases eq_of_canReturn_pure hd
  | cons specifier rest ih =>
    rw [Project.firstAnswer] at hd
    obtain ⟨target, htarget, hd⟩ := canReturn_bind hd
    split at hd
    · exact ih hd
    · obtain ⟨answer, hanswer, hd⟩ := canReturn_bind hd
      split at hd
      · obtain rfl := Option.some.inj (eq_of_canReturn_pure hd)
        exact honward _ _ _ (h.target hi htarget) hanswer
      · exact ih hd

/-- Following an export keeps to modules with the property. -/
theorem resolveExportFrom (h : p.Closed P) (fuel : Nat) (passed : List (Path × String)) :
    StaysIn P (p.resolveExportFrom fuel passed) := by
  induction fuel generalizing passed with
  | zero =>
    intro i name d _ hd
    cases eq_of_canReturn_pure hd
  | succ fuel ih =>
    intro i name d hi hd
    rw [Project.resolveExportFrom] at hd
    split at hd
    · cases eq_of_canReturn_pure hd
    · split at hd
      · split at hd
        · obtain ⟨target, htarget, hd⟩ := canReturn_bind hd
          split at hd
          · exact ih _ _ _ _ (h.target hi htarget) hd
          · cases eq_of_canReturn_pure hd
        · cases eq_of_canReturn_pure hd
        · obtain ⟨declared, hdeclared, hd⟩ := canReturn_bind hd
          split at hd
          · obtain rfl := Option.some.inj (eq_of_canReturn_pure hd)
            exact h.followVia (ih _) hi hdeclared
          · obtain rfl := Option.some.inj (eq_of_canReturn_pure hd)
            exact hi
      · split at hd
        · cases eq_of_canReturn_pure hd
        · exact h.firstAnswer (ih _) hi hd

/-- Exports are followed among the modules with the property. -/
theorem resolveExport (h : p.Closed P) : StaysIn P p.resolveExport := h.resolveExportFrom _ _

end Closed

/-- Exports lead to modules with the property, if all have it. -/
theorem All.resolveExport (h : p.All P) : StaysIn P p.resolveExport := h.closed.resolveExport

/-! ## Types behind exports -/

omit [LawfulMonad m] [MonadAttach m] [LawfulMonadAttach m]

/-- The type that the export behind an import can be followed to. -/
def followed? (p : Project m) (i : ExistingImport) (exported : String) :
    m (Option TypeDeclaration) := do
  match ← p.index? i.resolved with
  | none => return none
  | some target => p.exportedType? target exported

/-- A name that no type is declared under refers to what it is imported as. -/
theorem declareType_eq_importedType? {name : String} {context : Option Focus}
    (hparameter : ¬context.any (·.isTypeParameter name) = true)
    (hnone : (i.declaration? name <|> context.bind (i.innerDeclaration? name)) = none) :
    p.declareType i name context = p.importedType? i name := by
  rw [declareType, if_neg hparameter, hnone]

variable [LawfulMonad m]

/-- What an imported name refers to: the type that its export is followed to, or else a declaration
that is not read. -/
theorem importedType?_eq {name exported : String} {existing : ExistingImport} {typeOnly : Bool}
    (h : i.importOf? name = some (existing, ⟨.name exported, typeOnly⟩)) :
    p.importedType? i name = (fun found =>
      some (found.getD (existing.externalDeclaration exported name))) <$>
        p.followed? existing exported := by
  rw [importedType?, h, followed?, map_bind]
  refine bind_congr fun target => ?_
  cases target with
  | none => simp
  | some target =>
    rw [map_eq_pure_bind]
    refine bind_congr fun found => ?_
    cases found <;> rfl

/-- How a name refers to a declaration at a place in a module. -/
inductive Names (p : Project (Except Failure)) (i : ModuleIndex) (name : String)
    (context : Option Focus) : TypeDeclaration → Prop where
  /-- It is a type parameter there. -/
  | parameter : Names p i name context { name, kind := .typeParameter, modulePath := i.path }
  /-- A type at the top of the module has the name. -/
  | top {d : TypeDeclaration} (declared : i.declaration? name = some d) : Names p i name context d
  /-- So has a type of a function around the place. -/
  | inner {d : TypeDeclaration} {f : Focus} (place : context = some f)
      (declared : i.innerDeclaration? name f = some d) : Names p i name context d
  /-- It is imported, and the export behind it is followed to a type. -/
  | imported {existing : ExistingImport} {exported : String} {typeOnly : Bool}
      {d : TypeDeclaration}
      (binding : i.importOf? name = some (existing, ⟨.name exported, typeOnly⟩))
      (followed : p.followed? existing exported = .ok (some d)) : Names p i name context d
  /-- It is imported, and no type is found behind it. -/
  | unread {existing : ExistingImport} {exported : String} {typeOnly : Bool}
      (binding : i.importOf? name = some (existing, ⟨.name exported, typeOnly⟩))
      (followed : p.followed? existing exported = .ok none) :
      Names p i name context (existing.externalDeclaration exported name)

/-- An imported type is one that the name stands for. -/
private theorem names_of_importedType? {p : Project (Except Failure)} {name : String}
    {context : Option Focus} {d : TypeDeclaration} (h : p.importedType? i name = .ok (some d)) :
    p.Names i name context d := by
  cases himport : i.importOf? name with
  | none =>
    rw [importedType?, himport] at h
    cases h
  | some found =>
    obtain ⟨existing, ⟨imported, typeOnly⟩⟩ := found
    cases imported with
    | whole =>
      rw [importedType?, himport] at h
      cases h
    | name exported =>
      rw [importedType?_eq himport, map_eq_pure_bind] at h
      obtain ⟨followed, hfollowed, hd⟩ := bind_eq_ok.1 h
      obtain rfl := Option.some.inj (Except.ok.inj hd)
      cases followed with
      | none => exact .unread himport hfollowed
      | some d => exact .imported himport hfollowed

/-- A declaration that is found for a name is one that the name stands for. -/
theorem names_of_declareType {p : Project (Except Failure)} {name : String}
    {context : Option Focus} {d : TypeDeclaration}
    (h : p.declareType i name context = .ok (some d)) : p.Names i name context d := by
  rw [declareType] at h
  split at h
  · obtain rfl := Option.some.inj (Except.ok.inj h)
    exact .parameter
  · split at h
    next found hfound =>
      obtain rfl := Option.some.inj (Except.ok.inj h)
      cases htop : i.declaration? name with
      | some own =>
        rw [htop] at hfound
        exact .top (htop.trans hfound)
      | none =>
        rw [htop] at hfound
        obtain ⟨f, hf, hinner⟩ := Option.bind_eq_some_iff.1 hfound
        exact .inner hf hinner
    · exact names_of_importedType? h

/-- A type that a module exports is declared in a module to which the export is followed. -/
theorem exists_of_exportedType? {p : Project (Except Failure)} {exported : String}
    {d : TypeDeclaration} (h : p.exportedType? j exported = .ok (some d)) :
    ∃ e, p.resolveExport j exported = .ok (some e) ∧
      e.module.declaration? e.localName = some d := by
  obtain ⟨e, he, hd⟩ := bind_eq_ok.1 h
  cases e with
  | none => cases hd
  | some e => exact ⟨e, he, Except.ok.inj hd⟩

/-- An import that is followed leads to a type that another module exports. -/
theorem exists_of_followed? {p : Project (Except Failure)} {existing : ExistingImport}
    {exported : String} {d : TypeDeclaration} (h : p.followed? existing exported = .ok (some d)) :
    ∃ j, p.index? existing.resolved = .ok (some j) ∧ p.exportedType? j exported = .ok (some d) := by
  obtain ⟨target, htarget, hd⟩ := bind_eq_ok.1 h
  cases target with
  | none => cases hd
  | some j => exact ⟨j, htarget, hd⟩

end Project

namespace ModuleIndex

/-- Every type of a module is found under the name that its statement declares. -/
def NamesTypes (i : ModuleIndex) : Prop :=
  ∀ name f, i.type? name = some f → (f.node.child? .name).map Node.text = some name

end ModuleIndex

namespace ModuleItem

/-- An item for a type has the name that the statement declares. -/
def NamesType (item : ModuleItem) : Prop :=
  ∀ name f, item = .type name f → (f.node.child? .name).map Node.text = some name

/-- How a statement adds an item to the index of its module. -/
inductive Stems (statement : Node) : ModuleItem → Prop where
  /-- A type has the name that its declaration gives. -/
  | type {name : String} {f : Focus}
      (declares : (f.node.child? .name).map Node.text = some name) : Stems statement (.type name f)
  /-- An export of a declaration, or of a value, is one of the module's own. -/
  | own {entry : ExportEntry} (source : entry.source = none) (imported : entry.imported = none) :
      Stems statement (.exported entry)
  | star {specifier : String} : Stems statement (.star specifier)
  /-- Other exports are listed between braces. -/
  | between {source : Option String} {entry : ExportEntry} {clause n : Node}
      (clause_mem : clause ∈ statement.children) (mem : n ∈ clause.children)
      (read : ofSpecifier? source n = some (.exported entry)) : Stems statement (.exported entry)

/-- Types stem from the statement that declares them. -/
private theorem stems_of_typesOf {statement : Node} {f : Focus} :
    ∀ item ∈ typesOf f, Stems statement item := by
  intro item hitem
  rw [typesOf] at hitem
  split at hitem
  · obtain ⟨n, hn, rfl⟩ := List.mem_map.1 hitem
    exact .type (by rw [Option.mem_toList.1 hn, Option.map_some])
  · cases hitem

/-- What a declaration adds to a module stems from its statement. -/
private theorem stems_of_ofDeclaration {statement : Node} {isDefault : Bool} {f : Focus} :
    ∀ item ∈ ofDeclaration isDefault f, Stems statement item := by
  intro item hitem
  rcases List.mem_append.1 hitem with hitem | hitem
  · exact stems_of_typesOf item hitem
  · obtain ⟨e, he, rfl⟩ := List.mem_map.1 hitem
    rcases List.mem_append.1 he with he | he
    · obtain ⟨name, -, rfl⟩ := List.mem_map.1 he
      exact .own rfl rfl
    · split at he
      · rw [List.mem_singleton.1 he]
        exact .own rfl rfl
      · cases he

/-- What a specifier between braces exports: a name of another module or one of its own. -/
theorem of_ofSpecifier? {source : Option String} {n : Node} {item : ModuleItem}
    (h : ofSpecifier? source n = some item) : ∃ entry name, item = .exported entry ∧
      n.child? .name = some name ∧
        (entry.source = none ∧ entry.imported = none ∨
          entry.localName = none ∧ entry.imported = some name.text) := by
  rw [ofSpecifier?] at h
  split at h
  · obtain ⟨name, hname, h⟩ := Option.bind_eq_some_iff.1 h
    split at h
    · obtain rfl := Option.some.inj h
      exact ⟨_, name, rfl, hname, .inr ⟨rfl, rfl⟩⟩
    · obtain rfl := Option.some.inj h
      exact ⟨_, name, rfl, hname, .inl ⟨rfl, rfl⟩⟩
  · cases h

/-- What an export adds to a module stems from its statement. -/
private theorem stems_of_ofExport {f : Focus} : ∀ item ∈ ofExport f, Stems f.node item := by
  intro item hitem
  rw [ofExport] at hitem
  split at hitem
  · exact stems_of_ofDeclaration item hitem
  · split at hitem
    · rw [List.mem_singleton.1 hitem]
      exact .own rfl rfl
    · split at hitem
      · obtain ⟨source, -, rfl⟩ := List.mem_map.1 hitem
        exact .star
      next clause hclause =>
        obtain ⟨n, hn, hread⟩ := List.mem_filterMap.1 hitem
        obtain ⟨entry, -, rfl, -⟩ := of_ofSpecifier? hread
        exact .between (Node.mem_of_childOf? hclause) (Node.mem_of_mem_namedChildren hn) hread

/-- What a statement adds to a module stems from it. -/
private theorem stems_of_ofStatement {f : Focus} : ∀ item ∈ ofStatement f, Stems f.node item := by
  intro item hitem
  rw [ofStatement] at hitem
  split at hitem
  · exact stems_of_ofExport item hitem
  · obtain ⟨g, -, hitem⟩ := List.mem_flatMap.1 hitem
    exact stems_of_typesOf item hitem
  · exact stems_of_typesOf item hitem

/-- A statement adds types under the names of their declarations. -/
private theorem namesType_of_ofStatement {f : Focus} : ∀ item ∈ ofStatement f, item.NamesType := by
  intro item hitem name g heq
  rw [heq] at hitem
  cases stems_of_ofStatement _ hitem with
  | type declares => exact declares

end ModuleItem

/-- What is read of a source finds types under the names they are declared by. -/
theorem ModuleIndex.namesTypes_ofSource {resolve : String → Path → Except Failure (Option Path)}
    {s : Source} {i : ModuleIndex} (h : ofSource resolve s = .ok i) : i.NamesTypes := by
  obtain ⟨imports, -, h⟩ := bind_eq_ok.1 h
  obtain rfl := Except.ok.inj h
  intro name f hf
  obtain ⟨before, after, htypes, -⟩ := List.lookup_eq_some_iff.1 hf
  have hmem : (name, f) ∈ before ++ (name, f) :: after :=
    List.mem_append_right _ List.mem_cons_self
  rw [← htypes] at hmem
  obtain ⟨item, hitem, htype⟩ := List.mem_filterMap.1 (mem_of_mem_distinctBy hmem)
  obtain ⟨statement, -, hitem⟩ := List.mem_flatMap.1 hitem
  refine ModuleItem.namesType_of_ofStatement item hitem name f ?_
  cases item with
  | exported entry => cases htype
  | star specifier => cases htype
  | type n g =>
    obtain ⟨rfl, rfl⟩ := Prod.mk.inj (Option.some.inj htype)
    rfl

/-- Each export of a module stems from one of its statements. -/
theorem ModuleIndex.stems_of_mem_exports
    {resolve : String → Path → Except Failure (Option Path)} {s : Source} {i : ModuleIndex}
    (h : ofSource resolve s = .ok i) {entry : ExportEntry} (hentry : entry ∈ i.exports) :
    ∃ statement ∈ s.root.children, ModuleItem.Stems statement (.exported entry) := by
  obtain ⟨imports, -, h⟩ := bind_eq_ok.1 h
  obtain rfl := Except.ok.inj h
  obtain ⟨item, hitem, hexported⟩ := List.mem_filterMap.1 (mem_of_mem_distinctBy hentry)
  obtain ⟨f, hf, hitem⟩ := List.mem_flatMap.1 hitem
  obtain ⟨statement, hstatement, rfl⟩ := List.mem_map.1 hf
  refine ⟨statement, Node.mem_of_mem_namedChildren hstatement, ?_⟩
  have hstems := ModuleItem.stems_of_ofStatement item hitem
  cases item with
  | exported e => exact Option.some.inj hexported ▸ hstems
  | star specifier => cases hexported
  | type name g => cases hexported

/-- All modules of the files name types by their declarations. -/
private theorem Resolver.all_namesTypes (r : Resolver) : r.project.All ModuleIndex.NamesTypes := by
  intro path i hi
  replace hi : r.project.index path = .ok (some i) := hi
  rw [r.index_project, loadModule] at hi
  split at hi
  · split at hi
    · split at hi
      next hread =>
        obtain rfl := Option.some.inj (Except.ok.inj hi)
        exact ModuleIndex.namesTypes_ofSource hread
      · cases hi
      · cases hi
    · cases hi
  · cases hi

theorem Analysis.lift_eq {α : Type} (x : Except Failure α) : (lift x : Except Failure α) = x := by
  cases x <;> rfl

namespace Workspace

variable {r : Resolver} {source : Source} {p : Planner (Except Failure)}

/-- The planner for a source works on what is read of it, in the project of all files. -/
theorem of_planner (h : (fresh r).planner source = .ok p) :
    p.project = r.project.withModule p.main ∧
      ModuleIndex.ofSource r.resolve source = .ok p.main := by
  obtain ⟨main, hmain, h⟩ := bind_eq_ok.1 h
  obtain ⟨-, -, h⟩ := bind_eq_ok.1 h
  obtain rfl := Except.ok.inj h
  rw [Analysis.lift_eq] at hmain
  exact ⟨rfl, hmain⟩

/-- All modules that a planner knows find types under the names they are declared by. -/
theorem namesTypes_of_planner (h : (fresh r).planner source = .ok p) :
    p.main.NamesTypes ∧ p.project.All ModuleIndex.NamesTypes := by
  obtain ⟨hproject, hread⟩ := of_planner h
  have hnames := ModuleIndex.namesTypes_ofSource hread
  rw [hproject]
  exact ⟨hnames, r.all_namesTypes.withModule hnames⟩

end Workspace

end StableProps
