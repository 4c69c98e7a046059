import StableProps.Proofs.Import.Plan
import StableProps.Proofs.Module.Export

/-!
# Names that are there already

A declaration of another module needs no new import if the module binds its name already. What the
binding has to be depends on the import. A name that is imported as a type has to denote the
declaration: the same name in the same module. Of a name that is imported as a value only the export
is looked at. If it can be followed to a type, that type has to have the name of the declaration,
whatever module it is declared in; if not, the import has to ask the module of the declaration for
its export.
-/

namespace StableProps

/-- The name of the export that an import asks for; a star stands for the module as a whole. -/
def Imported.exportName : Imported → String
  | .whole => "*"
  | .name exported => exported

namespace Planner

/-- A name of the module denotes a declaration: what the name refers to has the same name and is
declared in the same module. -/
def Denotes (p : Planner (Except Failure)) (name : String) (d : TypeDeclaration) : Prop :=
  ∃ bound key, p.project.declareType p.main name none = .ok (some bound) ∧
    p.declarationKey bound = .ok key ∧ p.declarationKey d = .ok key

/-- The type that the export behind an import can be followed to. -/
def followedType? (p : Planner (Except Failure)) (i : ExistingImport) (imported : Imported) :
    Except Failure (Option TypeDeclaration) := do
  match ← p.project.index? i.resolved with
  | none => return none
  | some target => p.project.exportedType? target imported.exportName

/-- How a name that the module binds is enough for a declaration with a given origin. -/
inductive Suffices (p : Planner (Except Failure)) (d : TypeDeclaration) (o : Origin)
    (name : String) : Prop where
  /-- It is imported as a type and denotes the declaration. -/
  | denotes {i : ExistingImport} {imported : Imported}
      (binds : p.main.importOf? name = some (i, ⟨imported, true⟩))
      (denotes : p.Denotes name d)
  /-- It is imported as a value, and its export is followed to a type of the same name. That type is
  what the name refers to, unless the module declares a type under it. -/
  | sameName {i : ExistingImport} {imported : Imported} {t : TypeDeclaration}
      (binds : p.main.importOf? name = some (i, ⟨imported, false⟩))
      (followed : p.followedType? i imported = .ok (some t))
      (same : t.name = d.name)
      (refers : imported ≠ .whole → p.main.type? name = none →
        p.project.declareType p.main name none = .ok (some t))
  /-- It is imported as a value whose export cannot be followed, from the origin and under the name
  that the declaration is exported by there. The name refers to that export, unless the module
  declares a type under it. -/
  | sameExport {i : ExistingImport} {imported : Imported}
      (binds : p.main.importOf? name = some (i, ⟨imported, false⟩))
      (unfollowed : p.followedType? i imported = .ok none)
      (module : i.moduleKey = o.moduleKey)
      (exported : imported.exportName = o.exportName)
      (refers : imported ≠ .whole → p.main.type? name = none →
        p.project.declareType p.main name none =
          .ok (some (i.externalDeclaration o.exportName name)))

variable {p : Planner (Except Failure)} {d : TypeDeclaration} {o : Origin} {name : String}
variable {i : ExistingImport} {imported : Imported}

/-- What a name of the module refers to, if an import binds it and no type is declared under it. -/
theorem declareType_of_importOf? {exported : String} {typeOnly : Bool}
    (hbinds : p.main.importOf? name = some (i, ⟨.name exported, typeOnly⟩))
    (hnone : p.main.type? name = none) {found : Option TypeDeclaration}
    (h : p.followedType? i (.name exported) = .ok found) :
    p.project.declareType p.main name none =
      .ok (some (found.getD (i.externalDeclaration exported name))) := by
  have hdeclaration : p.main.declaration? name = none := by
    rw [ModuleIndex.declaration?, hnone, Option.map_none]
  have hfollowed : p.project.followed? i exported = .ok found := h
  rw [Project.declareType_eq_importedType? (by simp) (by rw [hdeclaration]; rfl),
    Project.importedType?_eq hbinds, hfollowed]
  rfl

/-- The statement that declares a type has its name. -/
theorem name_declaration? {j : ModuleIndex} (h : j.NamesTypes) (localName : String) :
    (j.type? localName).bind (fun (f : Focus) => (f.node.child? .name).map Node.text) =
      (j.declaration? localName).map (·.name) := by
  rw [ModuleIndex.declaration?, Option.map_map]
  cases htype : j.type? localName with
  | none => rfl
  | some f => exact h localName f htype

/-- The name of the type behind an import is that of the type that it is followed to. -/
theorem exportedTypeName?_eq (hall : p.project.All ModuleIndex.NamesTypes) {path : Path}
    (hresolved : i.resolved = some path) :
    p.exportedTypeName? path imported.exportName =
      (p.followedType? i imported).map (Option.map (·.name)) := by
  rw [exportedTypeName?, followedType?, hresolved, Project.index?]
  cases hindex : p.project.index path with
  | error f => rfl
  | ok target =>
    cases target with
    | none => rfl
    | some target =>
      change (p.project.resolveExport target imported.exportName >>= _) = Except.map _
        (p.project.exportedType? target imported.exportName)
      rw [Project.exportedType?]
      cases hexport : p.project.resolveExport target imported.exportName with
      | error f => rfl
      | ok declared =>
        cases declared with
        | none => rfl
        | some declared =>
          have hnames := hall.resolveExport _ _ _ (hall _ _ hindex) hexport
          exact congrArg Except.ok (name_declaration? hnames declared.localName)

private theorem bringsIn_eq_bind : p.bringsIn i imported d o = do
    let declared ← match i.resolved with
      | some path => p.exportedTypeName? path imported.exportName
      | none => pure none
    match declared with
    | some name => return name == d.name
    | none => return i.moduleKey == o.moduleKey && imported.exportName == o.exportName := by
  cases imported <;> rfl

/-- An import of a value brings in a declaration if the type that its export is followed to has the
name of the declaration, or, if there is none, if it asks for the same export of the same module. -/
theorem bringsIn_eq (hall : p.project.All ModuleIndex.NamesTypes) :
    p.bringsIn i imported d o = (p.followedType? i imported).map fun
      | some t => t.name == d.name
      | none => i.moduleKey == o.moduleKey && imported.exportName == o.exportName := by
  rw [bringsIn_eq_bind]
  cases hresolved : i.resolved with
  | none =>
    rw [followedType?, hresolved]
    rfl
  | some path =>
    dsimp only
    rw [exportedTypeName?_eq hall hresolved]
    cases p.followedType? i imported with
    | error f => rfl
    | ok found => cases found <;> rfl

/-- What a name that is imported as a type refers to is compared with the declaration. -/
def comparesTypes (p : Planner (Except Failure)) (name : String) (d : TypeDeclaration) :
    Except Failure Bool := do
  match ← p.project.declareType p.main name none with
  | some bound => return (← p.declarationKey bound) == (← p.declarationKey d)
  | none => return false

private theorem comparesTypes_eq_true_iff :
    p.comparesTypes name d = .ok true ↔ p.Denotes name d := by
  rw [comparesTypes, bind_eq_ok]
  constructor
  · rintro ⟨found, hfound, h⟩
    cases found with
    | none => cases h
    | some bound =>
      obtain ⟨key, hkey, h⟩ := bind_eq_ok.1 h
      obtain ⟨key', hkey', h⟩ := bind_eq_ok.1 h
      obtain rfl : key = key' := eq_of_beq (Except.ok.inj h)
      exact ⟨bound, key, hfound, hkey, hkey'⟩
  · rintro ⟨bound, key, hbound, hkey, hkey'⟩
    refine ⟨some bound, hbound, bind_eq_ok.2 ⟨key, hkey, bind_eq_ok.2 ⟨key, hkey', ?_⟩⟩⟩
    rw [beq_self_eq_true]
    rfl

/-- What is enough of a name that is imported as a value depends on whether its export is followed
to a type. -/
theorem suffices_value_iff (hbinds : p.main.importOf? name = some (i, ⟨imported, false⟩)) :
    ((p.followedType? i imported).map fun
      | some t => t.name == d.name
      | none => i.moduleKey == o.moduleKey && imported.exportName == o.exportName) = .ok true ↔
      p.Suffices d o name := by
  have hsame {j : ExistingImport} {b : Imported}
      (h : p.main.importOf? name = some (j, ⟨b, false⟩)) : i = j ∧ imported = b := by
    cases hbinds.symm.trans h
    exact ⟨rfl, rfl⟩
  constructor
  · intro h
    cases hfollowed : p.followedType? i imported with
    | error f =>
      rw [hfollowed] at h
      cases h
    | ok found =>
      rw [hfollowed] at h
      replace h := Except.ok.inj h
      cases found with
      | some t =>
        refine .sameName hbinds hfollowed (eq_of_beq h) fun hwhole hnone => ?_
        cases imported with
        | whole => exact absurd rfl hwhole
        | name exported => exact declareType_of_importOf? hbinds hnone hfollowed
      | none =>
        obtain ⟨hmodule, hexported⟩ := Bool.and_eq_true_iff.1 h
        refine .sameExport hbinds hfollowed (eq_of_beq hmodule) (eq_of_beq hexported)
          fun hwhole hnone => ?_
        cases imported with
        | whole => exact absurd rfl hwhole
        | name exported =>
          rw [← eq_of_beq hexported]
          exact declareType_of_importOf? hbinds hnone hfollowed
  · rintro (⟨hbound, -⟩ | ⟨hbound, hfollowed, hname, -⟩ |
      ⟨hbound, hfollowed, hmodule, hexported, -⟩)
    · cases hbinds.symm.trans hbound
    · obtain ⟨rfl, rfl⟩ := hsame hbound
      rw [hfollowed]
      exact congrArg Except.ok (beq_iff_eq.2 hname)
    · obtain ⟨rfl, rfl⟩ := hsame hbound
      rw [hfollowed]
      exact congrArg Except.ok
        (Bool.and_eq_true_iff.2 ⟨beq_iff_eq.2 hmodule, beq_iff_eq.2 hexported⟩)

/-- A name is satisfied exactly if its import is enough for the declaration. -/
theorem stateOf_eq_satisfied_iff (hall : p.project.All ModuleIndex.NamesTypes) :
    p.stateOf d o name = .ok .satisfied ↔ p.Suffices d o name := by
  have hsatisfied (x : Except Failure Bool) :
      (x >>= fun same => pure (if same = true then NameState.satisfied else .clash)) =
        .ok .satisfied ↔ x = .ok true := by
    cases x with
    | error f => simp [bind, Except.bind]
    | ok same => cases same <;> simp [bind, Except.bind, pure, Except.pure]
  cases hbinds : p.main.importOf? name with
  | none =>
    have hstate : p.stateOf d o name =
        pure (if p.main.names.contains name then .clash else .free) := by
      rw [stateOf, hbinds]
    rw [hstate]
    constructor
    · intro h
      split at h <;> cases h
    · rintro (⟨hbound, -⟩ | ⟨hbound, -, -, -⟩ | ⟨hbound, -, -, -, -⟩) <;>
        cases hbinds.symm.trans hbound
  | some found =>
    obtain ⟨i, imported, typeOnly⟩ := found
    cases typeOnly with
    | true =>
      have hstate : p.stateOf d o name = p.comparesTypes name d >>= fun same =>
          pure (if same = true then .satisfied else .clash) := by
        rw [stateOf, hbinds, comparesTypes, bind_assoc]
        refine bind_congr (m := Except Failure) fun found => ?_
        cases found with
        | none => rfl
        | some bound =>
          rw [bind_assoc]
          exact bind_congr (m := Except Failure) fun key => (bind_assoc _ _ _).symm
      rw [hstate, hsatisfied, comparesTypes_eq_true_iff]
      constructor
      · exact .denotes hbinds
      · rintro (⟨-, hdenotes⟩ | ⟨hbound, -, -, -⟩ | ⟨hbound, -, -, -, -⟩)
        · exact hdenotes
        · cases hbinds.symm.trans hbound
        · cases hbinds.symm.trans hbound
    | false =>
      have hstate : p.stateOf d o name = p.bringsIn i imported d o >>= fun same =>
          pure (if same = true then .satisfied else .clash) := by
        rw [stateOf, hbinds]
        rfl
      rw [hstate, hsatisfied, bringsIn_eq hall, suffices_value_iff hbinds]

/-- A name becomes satisfied only if it is the one for the declaration and its import is enough. -/
theorem mem_satisfied_planDeclaration_iff (hall : p.project.All ModuleIndex.NamesTypes)
    (hother : d.modulePath ≠ some p.main.path) {plan plan' : ImportPlan}
    (h : p.planDeclaration plan d = .ok plan') :
    name ∈ plan'.satisfied ↔ name ∈ plan.satisfied ∨
      ∃ o, p.originOf? d = .ok (some o) ∧ name = p.main.localName d ∧ p.Suffices d o name := by
  rw [planDeclaration, if_neg hother] at h
  split at h
  next hkind =>
    obtain rfl := Except.ok.inj h
    refine (or_iff_left ?_).symm
    rintro ⟨o, ho, -⟩
    rw [originOf?, hkind] at ho
    cases ho
  · obtain ⟨origin, horigin, h⟩ := bind_eq_ok.1 h
    cases origin with
    | none =>
      obtain rfl := Except.ok.inj h
      refine (or_iff_left ?_).symm
      rintro ⟨o, ho, -⟩
      cases horigin.symm.trans ho
    | some o =>
      have hexport := (of_originOf? (m := Except Failure) horigin).1
      dsimp only at h
      rw [ModuleIndex.name_eq_localName hother hexport] at h
      obtain ⟨state, hstate, h⟩ := bind_eq_ok.1 h
      have hunsatisfied (hne : state ≠ .satisfied) :
          ¬∃ o, p.originOf? d = .ok (some o) ∧ name = p.main.localName d ∧ p.Suffices d o name := by
        rintro ⟨o', ho', rfl, hsuffices⟩
        obtain rfl : o = o' := Option.some.inj (Except.ok.inj (horigin.symm.trans ho'))
        exact hne (Except.ok.inj (hstate.symm.trans ((stateOf_eq_satisfied_iff hall).2 hsuffices)))
      cases state with
      | satisfied =>
        obtain rfl := Except.ok.inj h
        rw [ImportPlan.satisfy, mem_distinct, List.mem_append, List.mem_singleton]
        refine or_congr_right ⟨?_, ?_⟩
        · rintro rfl
          exact ⟨o, horigin, rfl, (stateOf_eq_satisfied_iff hall).1 hstate⟩
        · rintro ⟨-, -, hname, -⟩
          exact hname
      | clash =>
        obtain rfl := Except.ok.inj h
        exact (or_iff_left (hunsatisfied (by simp))).symm
      | free =>
        obtain rfl := Except.ok.inj h
        rw [ImportPlan.satisfied_add]
        exact (or_iff_left (hunsatisfied (by simp))).symm

end Planner

/-- A declaration of another module is satisfied by a name exactly if it can be imported under that
name, and the import that binds the name is enough for it: an import of a type by denoting the
declaration, an import of a value by its export. -/
theorem Workspace.mem_satisfied_iff_suffices (r : Resolver) (source : Source)
    (p : Planner (Except Failure)) (hp : (fresh r).planner source = .ok p) (d : TypeDeclaration)
    (hother : d.modulePath ≠ some p.main.path) (plan plan' : ImportPlan)
    (h : p.planDeclaration plan d = .ok plan') (name : String) :
    name ∈ plan'.satisfied ↔ name ∈ plan.satisfied ∨
      ∃ o, p.originOf? d = .ok (some o) ∧ name = p.main.localName d ∧ p.Suffices d o name :=
  Planner.mem_satisfied_planDeclaration_iff (namesTypes_of_planner hp).2 hother h

/-- A module that imports a type as a value. -/
def importingValue : Source :=
  .parsed (FileTree.resolve (.ofText "a.tsx")) .tsx "import \x7b T \x7d from './c';\n"

/-- Two modules that declare types of one name. -/
def homonymFiles : FileTree :=
  (FileTree.empty.write (.ofText "b.ts") "export type T = number[];\n").write (.ofText "c.ts")
    "export type T = string;\n"

set_option maxRecDepth 100000 in
private theorem plan_importingValue :
    ∃ p, (Workspace.fresh ⟨homonymFiles, none⟩).planner importingValue = .ok p ∧
      ∃ found, p.project.index (FileTree.resolve (.ofText "b.ts")) = .ok found ∧
        ∃ i, found = some i ∧ ∃ d, i.declaration? "T" = some d ∧
          d.modulePath ≠ some p.main.path ∧
            (∃ plan, p.planDeclaration {} d = .ok plan ∧ "T" ∈ plan.satisfied) ∧
              ∃ answer, p.project.declareType p.main "T" none = .ok answer ∧
                ∃ bound, answer = some bound ∧ ∃ key, p.declarationKey bound = .ok key ∧
                  ∃ wanted, p.declarationKey d = .ok wanted ∧ key ≠ wanted := by
  decide +kernel

/-- The name is satisfied, and stands for the type of the other module. -/
theorem Planner.not_denotes_importingValue :
    ∃ p, (Workspace.fresh ⟨homonymFiles, none⟩).planner importingValue = .ok p ∧
      ∃ d : TypeDeclaration, d.modulePath ≠ some p.main.path ∧
        (∃ plan, p.planDeclaration {} d = .ok plan ∧ "T" ∈ plan.satisfied) ∧
          ¬p.Denotes "T" d := by
  obtain ⟨p, hp, _, -, i, rfl, d, -, hother, hplan, answer, hanswer, bound, rfl, key, hkey, wanted,
    hwanted, hne⟩ := plan_importingValue
  refine ⟨p, hp, d, hother, hplan, ?_⟩
  rintro ⟨bound', key', hbound', hkey', hwanted'⟩
  obtain rfl : bound = bound' := Option.some.inj (Except.ok.inj (hanswer.symm.trans hbound'))
  obtain rfl := Except.ok.inj (hkey.symm.trans hkey')
  exact hne (Except.ok.inj (hwanted'.symm.trans hwanted))

/-- The name is enough for a declaration that it does not denote. -/
theorem Workspace.suffices_importingValue :
    ∃ p, (fresh ⟨homonymFiles, none⟩).planner importingValue = .ok p ∧
      ∃ d : TypeDeclaration, d.modulePath ≠ some p.main.path ∧ ¬p.Denotes "T" d ∧
        ∃ o, p.originOf? d = .ok (some o) ∧ "T" = p.main.localName d ∧ p.Suffices d o "T" := by
  obtain ⟨p, hp, d, hother, ⟨plan, hplan, hname⟩, hnot⟩ := Planner.not_denotes_importingValue
  refine ⟨p, hp, d, hother, hnot, ?_⟩
  have hiff := mem_satisfied_iff_suffices ⟨homonymFiles, none⟩ importingValue p hp d hother {} plan
    hplan "T"
  exact (hiff.1 hname).resolve_left List.not_mem_nil

/-- A name that is satisfied does not always denote the declaration that is planned. -/
theorem Workspace.not_forall_denotes :
    ¬∀ (tree : FileTree) (source : Source) (p : Planner (Except Failure)),
      (fresh ⟨tree, none⟩).planner source = .ok p → ∀ d : TypeDeclaration,
        d.modulePath ≠ some p.main.path → ∀ plan, p.planDeclaration {} d = .ok plan →
          ∀ name ∈ plan.satisfied, p.Denotes name d := by
  intro hall
  obtain ⟨p, hp, d, hother, ⟨plan, hplan, hname⟩, hnot⟩ := Planner.not_denotes_importingValue
  exact hnot (hall homonymFiles importingValue p hp d hother plan hplan "T" hname)

end StableProps
