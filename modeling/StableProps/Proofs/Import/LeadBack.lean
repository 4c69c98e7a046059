import StableProps.Proofs.Distinct
import StableProps.Proofs.Import.Plan
import StableProps.Proofs.Module.Known

/-!
# Export names lead back

The name under which a module exports a type of its own is looked up in its list of exports, by the
type. Following the export of that name leads back to the type, and so does every import of it in
another module. An import that is asked for a declaration therefore brings in that declaration.
-/

namespace StableProps

namespace ModuleIndex

variable {resolve : String → Path → Except Failure (Option Path)} {s : Source} {i : ModuleIndex}

/-- An export is passed on from another module or has a name in the module itself, but not both. -/
theorem isOwnOrPassed_ofSource (h : ofSource resolve s = .ok i) {entry : ExportEntry}
    (hentry : entry ∈ i.exports) : entry.source = none ∨ entry.localName = none := by
  obtain ⟨statement, -, hstems⟩ := stems_of_mem_exports h hentry
  cases hstems with
  | own source => exact .inl source
  | between _ _ read =>
    obtain ⟨e, -, ⟨⟩, -, ⟨hsource, -⟩ | ⟨hlocal, -⟩⟩ := ModuleItem.of_ofSpecifier? read
    · exact .inl hsource
    · exact .inr hlocal

private theorem nodup_exports (h : ofSource resolve s = .ok i) :
    (i.exports.map ExportEntry.name).Nodup := by
  obtain ⟨imports, -, h⟩ := bind_eq_ok.1 h
  obtain rfl := Except.ok.inj h
  exact nodup_map_distinctBy _ _

/-- An export is found by its name. -/
theorem export?_eq_some_of_mem (h : ofSource resolve s = .ok i) {entry : ExportEntry}
    (hentry : entry ∈ i.exports) : i.export? entry.name = some entry := by
  cases hfound : i.export? entry.name with
  | none => simpa using List.find?_eq_none.1 hfound entry hentry
  | some x =>
    have hname : x.name = entry.name := by simpa using List.find?_some hfound
    have hmem : x ∈ i.exports := List.mem_of_find?_eq_some hfound
    rw [List.inj_on_of_nodup_map (nodup_exports h) hmem hentry hname]

/-- An export name that is found for a local name is that of an export of this local name. -/
theorem exists_of_exportNameOf? {localName e : String} (h : i.exportNameOf? localName = some e) :
    ∃ entry ∈ i.exports, entry.localName = some localName ∧ entry.name = e := by
  have hmem : e ∈ (i.exports.filter (·.localName == some localName)).map (·.name) := by
    rw [exportNameOf?] at h
    rcases (Option.orElse_eq_some _ _ _).1 h with hown | ⟨-, hfirst⟩
    · exact List.mem_of_find?_eq_some hown
    · exact List.mem_of_head? hfirst
  obtain ⟨entry, hentry, hname⟩ := List.mem_map.1 hmem
  obtain ⟨hentry, hlocal⟩ := List.mem_filter.1 hentry
  exact ⟨entry, hentry, by simpa using hlocal, hname⟩

/-- Looking for the export by that name finds it. -/
theorem export?_of_exportNameOf? (hread : ofSource resolve s = .ok i) {localName e : String}
    (h : i.exportNameOf? localName = some e) :
    ∃ entry, i.export? e = some entry ∧ entry.source = none ∧ entry.localName = some localName := by
  obtain ⟨entry, hentry, hlocal, rfl⟩ := exists_of_exportNameOf? h
  refine ⟨entry, export?_eq_some_of_mem hread hentry, ?_, hlocal⟩
  rcases isOwnOrPassed_ofSource hread hentry with hsource | hnone
  · exact hsource
  · rw [hlocal] at hnone
    cases hnone

end ModuleIndex

namespace ModuleIndex

/-- A name is that of a type that the module declares at a place, or of a type parameter there. -/
def DeclaresAt (i : ModuleIndex) (name : String) (context : Option Focus) : Prop :=
  context.any (·.isTypeParameter name) = true ∨
    (i.declaration? name <|> context.bind (i.innerDeclaration? name)).isSome = true

instance (i : ModuleIndex) (name : String) (context : Option Focus) :
    Decidable (i.DeclaresAt name context) :=
  inferInstanceAs (Decidable (_ ∨ _))

/-- A name is imported from the module at a path, where it is exported under another one. -/
def ImportsFrom (i : ModuleIndex) (name exported : String) (path : Path) : Prop :=
  ∃ existing typeOnly, i.importOf? name = some (existing, ⟨.name exported, typeOnly⟩) ∧
    existing.resolved = some path

end ModuleIndex

namespace ExistingImport

/-- A declaration that is not read has the module that the import is resolved to, if it has one. -/
theorem externalDeclaration_cases (x : ExistingImport) (exported name : String) :
    (∃ path, x.resolved = some path ∧ x.externalDeclaration exported name =
      { name := if exported = "default" then name else exported, kind := .external
        modulePath := path, exportName := exported }) ∨
    x.resolved = none ∧ (x.externalDeclaration exported name).modulePath = none := by
  rw [externalDeclaration]
  cases hresolved : x.resolved with
  | some path => exact .inl ⟨path, rfl, rfl⟩
  | none =>
    refine .inr ⟨rfl, ?_⟩
    dsimp only
    split <;> rfl

end ExistingImport

/-! ## From a name to its module -/

namespace Project

/-- The export name of something that a module does not import leads back to it. -/
theorem resolveExport_of_exportNameOf? {m : Type → Type} [Monad m] [LawfulMonad m] {p : Project m}
    (hbound : 0 < p.bound) {resolve : String → Path → Except Failure (Option Path)} {s : Source}
    {i : ModuleIndex} (hread : ModuleIndex.ofSource resolve s = .ok i) {localName e : String}
    (hown : i.importOf? localName = none) (h : i.exportNameOf? localName = some e) :
    p.resolveExport i e = pure (some ⟨i, localName⟩) := by
  obtain ⟨entry, hentry, hsource, hlocal⟩ := ModuleIndex.export?_of_exportNameOf? hread h
  obtain ⟨fuel, hfuel⟩ : ∃ fuel, p.bound = fuel + 1 := ⟨p.bound - 1, by omega⟩
  rw [resolveExport, hfuel, resolveExportFrom]
  simp only [List.contains_nil, Bool.false_eq_true, if_false, hentry, hsource, hlocal]
  rw [followVia, hown]
  simp

variable {p : Project (Except Failure)} {r : Resolver} {i j k : ModuleIndex} {d : TypeDeclaration}
variable {name exported : String} {path : Path} {context : Option Focus}

private theorem exportedType?_of_exportNameOf? (hbound : 0 < p.bound) (hi : p.Knows r i)
    (hown : i.importOf? name = none) (h : i.exportNameOf? name = some exported) :
    p.exportedType? i exported = .ok (i.declaration? name) := by
  rw [exportedType?, resolveExport_of_exportNameOf? hbound hi.ofSource hown h]
  rfl

/-- What the import of a name in a module refers to. -/
theorem declareType_of_importsFrom (himport : k.ImportsFrom name exported path)
    (hnone : ¬k.DeclaresAt name context) {target : Option ModuleIndex}
    (hindex : p.index path = .ok target) {found : Option TypeDeclaration}
    (hfound : ∀ j, target = some j → p.exportedType? j exported = .ok found)
    (hmissing : target = none → found = none) :
    ∃ existing : ExistingImport, existing.resolved = some path ∧
      p.declareType k name context =
        .ok (some (found.getD (existing.externalDeclaration exported name))) := by
  obtain ⟨existing, typeOnly, hbinding, hresolved⟩ := himport
  refine ⟨existing, hresolved, ?_⟩
  rw [ModuleIndex.DeclaresAt, not_or, Option.not_isSome_iff_eq_none] at hnone
  have hfollowed : p.followed? existing exported = .ok found := by
    rw [followed?, hresolved]
    refine bind_eq_ok.2 ⟨target, hindex, ?_⟩
    cases target with
    | none =>
      rw [hmissing rfl]
      rfl
    | some j => exact hfound j rfl
  rw [declareType_eq_importedType? hnone.1 hnone.2, importedType?_eq hbinding, hfollowed]
  rfl

/-- How a declaration is found: it is not exported, it is that of a type at the top of a known
module, or it stands for an export that cannot be followed to a type. -/
inductive Finds (p : Project (Except Failure)) (r : Resolver) (name : String) :
    TypeDeclaration → Prop where
  | unexported {d : TypeDeclaration} (none : d.exportName = none) : Finds p r name d
  | declared {j : ModuleIndex} {localName : String} {d : TypeDeclaration} (knows : p.Knows r j)
      (declared : j.declaration? localName = some d) : Finds p r name d
  | external {existing : ExistingImport} {exported : String}
      (followed : p.followed? existing exported = .ok none) :
      Finds p r name (existing.externalDeclaration exported name)

/-- A declaration is found in one of these ways. -/
theorem finds_of_declareType (hclosed : p.Closed (p.Knows r)) (hi : p.Knows r i)
    (h : p.declareType i name context = .ok (some d)) : p.Finds r name d := by
  cases names_of_declareType h with
  | parameter => exact .unexported rfl
  | top declared => exact .declared hi declared
  | inner place declared =>
    obtain ⟨symbol, -, declared⟩ := Option.bind_eq_some_iff.1 declared
    split at declared
    · cases declared
    · obtain rfl := Option.some.inj declared
      exact .unexported rfl
  | imported binding followed =>
    obtain ⟨j, hj, hexported⟩ := exists_of_followed? followed
    obtain ⟨e, he, hd⟩ := exists_of_exportedType? hexported
    exact .declared (hclosed.resolveExport j _ e (hclosed.imported hi binding hj) he) hd
  | unread binding followed => exact .external followed

private theorem declaration?_cases (h : j.declaration? name = some d) :
    (j.type? name).isSome = true ∧ d.name = name ∧ d.modulePath = some j.path ∧
      d.exportName = j.exportNameOf? name := by
  obtain ⟨f, hf, rfl⟩ := Option.map_eq_some_iff.1 h
  exact ⟨by rw [hf]; rfl, rfl, rfl, rfl⟩

/-- An import that is asked for a declaration, from the module of the declaration, brings in that
declaration. -/
theorem identity_of_asks (hbound : 0 < p.bound) (hd : p.Finds r name d) {main : ModuleIndex}
    {q : ImportRequest} (hasks : main.Asks d q) (hpath : d.modulePath = some path)
    (hown : ∀ j, p.Knows r j → d.modulePath = some j.path → (j.type? d.name).isSome = true →
      j.importOf? d.name = none)
    (himport : k.ImportsFrom q.localName q.imported path)
    (hnone : ¬k.DeclaresAt q.localName context) :
    ∃ d', p.declareType k q.localName context = .ok (some d') ∧ d'.identity = d.identity := by
  cases hd with
  | unexported none =>
    rw [hasks.imported] at none
    cases none
  | @declared j localName _ knows declared =>
    obtain ⟨htype, hname, hmodule, hexport⟩ := declaration?_cases declared
    obtain rfl : j.path = path := Option.some.inj (hmodule.symm.trans hpath)
    have hunimported : j.importOf? localName = none :=
      hname ▸ hown j knows hmodule (hname.symm ▸ htype)
    have hexported : p.exportedType? j q.imported = .ok (some d) := by
      rw [exportedType?_of_exportNameOf? hbound knows hunimported (hexport ▸ hasks.imported),
        declared]
    obtain ⟨existing, -, hdeclare⟩ := declareType_of_importsFrom himport hnone knows.index
      (fun j' hj => Option.some.inj hj ▸ hexported) nofun
    exact ⟨d, hdeclare, rfl⟩
  | @external x exported followed =>
    rcases x.externalDeclaration_cases exported name with ⟨path', hresolved, hx⟩ | ⟨-, hpathless⟩
    · rw [hx] at hpath hasks ⊢
      obtain rfl := Option.some.inj hpath
      obtain rfl : exported = q.imported := Option.some.inj hasks.imported
      -- The new import is followed no further than the one that the declaration was found by.
      rw [followed?, hresolved] at followed
      obtain ⟨target, htarget, followed⟩ := bind_eq_ok.1 followed
      obtain ⟨y, hy, hdeclare⟩ := declareType_of_importsFrom himport hnone htarget
        (fun j hj => by subst hj; exact followed) fun _ => rfl
      refine ⟨_, hdeclare, ?_⟩
      rcases y.externalDeclaration_cases q.imported q.localName with ⟨_, hy', hdeclared⟩ | ⟨hy', -⟩
      · obtain rfl := Option.some.inj (hy.symm.trans hy')
        rw [Option.getD_none, hdeclared]
        refine Prod.ext rfl ?_
        change (if q.imported = "default" then q.localName else q.imported) =
          if q.imported = "default" then name else q.imported
        split
        next hdefault =>
          -- A default is imported under the name of the declaration.
          rw [hasks.localName, ModuleIndex.localName, TypeDeclaration.spelling]
          simp [hdefault]
        · rfl
      · rw [hy] at hy'
        cases hy'
    · rw [hpathless] at hpath
      cases hpath

end Project

namespace Planner

variable {p : Planner (Except Failure)} {d : TypeDeclaration} {plan plan' : ImportPlan}

/-- What is new in a plan to which a declaration is added asks for that declaration. -/
theorem asks_of_planDeclaration (h : p.planDeclaration plan d = .ok plan') {q : ImportRequest}
    (hq : q ∈ plan'.requests) (hnew : q ∉ plan.requests) : p.main.Asks d q := by
  cases plans_of_planDeclaration (m := Except Failure) h with
  | blocked name => exact absurd hq hnew
  | satisfied _ => exact absurd hq hnew
  | asked _ asks =>
    rcases ImportPlan.mem_requests_add hq with hq | rfl
    · exact absurd hq hnew
    · exact asks

end Planner

/-- Export names lead back. In the project around a source, the export name of a type that a module
declares and does not import leads to that type, and so does any name that another module, which
declares no type under it, imports it by. What is asked for in order to name a declaration brings in
that declaration, if it is imported from the module of the declaration and no type that this module
declares is also imported there. -/
theorem Workspace.exportNames_lead_back {r : Resolver} {source : Source}
    {p : Planner (Except Failure)} (h : (fresh r).planner source = .ok p) :
    (∀ s i name e, ModuleIndex.ofSource r.resolve s = .ok i → (i.type? name).isSome = true →
      i.importOf? name = none → i.exportNameOf? name = some e →
        p.project.resolveExport i e = .ok (some ⟨i, name⟩) ∧
        (p.project.index i.path = .ok (some i) → ∀ k localName context,
          k.ImportsFrom localName e i.path → ¬k.DeclaresAt localName context →
            ∃ d, i.declaration? name = some d ∧ d.identity = (i.path.text, name) ∧
              p.project.declareType k localName context = .ok (some d))) ∧
    ∀ i name context d, p.project.index i.path = .ok (some i) →
      p.project.declareType i name context = .ok (some d) →
      (∀ j, p.project.index j.path = .ok (some j) → d.modulePath = some j.path →
        (j.type? d.name).isSome = true → j.importOf? d.name = none) →
      ∀ plan plan', p.planDeclaration plan d = .ok plan' →
        ∀ q ∈ plan'.requests, q ∉ plan.requests → ∀ path, d.modulePath = some path →
          q.resolved = some path ∧
          ∀ k place, k.ImportsFrom q.localName q.imported path →
            ¬k.DeclaresAt q.localName place →
              ∃ d', p.project.declareType k q.localName place = .ok (some d') ∧
                d'.identity = d.identity := by
  have hbound : 0 < p.project.bound := by
    rw [(of_planner h).1]
    exact Nat.mul_pos (Nat.succ_pos _) (Nat.succ_pos _)
  constructor
  · intro s i name e hi htype hown hexport
    have hresolve : p.project.resolveExport i e = .ok (some ⟨i, name⟩) :=
      Project.resolveExport_of_exportNameOf? hbound hi hown hexport
    refine ⟨hresolve, fun hindex k localName context himport hnone => ?_⟩
    obtain ⟨d, hd⟩ : ∃ d, i.declaration? name = some d := by
      rw [← Option.isSome_iff_exists, ModuleIndex.declaration?, Option.isSome_map]
      exact htype
    have hexported : p.project.exportedType? i e = .ok (some d) := by
      rw [Project.exportedType?, hresolve, ← hd]
      rfl
    obtain ⟨existing, -, hdeclare⟩ := Project.declareType_of_importsFrom himport hnone hindex
      (fun j hj => Option.some.inj hj ▸ hexported) nofun
    obtain ⟨-, hname, hmodule, -⟩ := Project.declaration?_cases hd
    exact ⟨d, hd, by rw [TypeDeclaration.identity, hname, hmodule]; rfl, hdeclare⟩
  · intro i name context d hi hd hown plan plan' hplan q hq hnew path hpath
    have hasks := Planner.asks_of_planDeclaration hplan hq hnew
    refine ⟨?_, fun k place himport hnone => ?_⟩
    · rcases hasks.module with ⟨-, hresolved⟩ | ⟨hpathless, -⟩
      · rw [hresolved, hpath]
      · rw [hpathless] at hpath
        cases hpath
    · have hfinds := Project.finds_of_declareType (closed_knows h) (knows_of_index_self h hi) hd
      exact Project.identity_of_asks hbound hfinds hasks hpath (fun j hj => hown j hj.index) himport
        hnone

/-- A module that exports a type under another name. -/
def renamingFiles : FileTree := .ofEntries [
  ("b.ts", "type T = number[];\nexport \x7b T as U \x7d;\n")]

/-- A module that imports the type under a third name. -/
def renamingImport : Source :=
  .parsed (FileTree.resolve (.ofText "a.tsx")) .tsx "import type \x7b U as V \x7d from './b';\n"

set_option maxRecDepth 100000 in
private theorem planner_renamingImport :
    ∃ p, (Workspace.fresh ⟨renamingFiles, none⟩).planner renamingImport = .ok p ∧
      ∃ found, p.project.index (FileTree.resolve (.ofText "b.ts")) = .ok found ∧
        ∃ i, found = some i ∧ i.path = FileTree.resolve (.ofText "b.ts") ∧
          (i.type? "T").isSome = true ∧ (i.importOf? "T").isNone = true ∧
          i.exportNameOf? "T" = some "U" ∧
          (p.main.importOf? "V").map (fun found => (found.1.resolved, found.2)) =
            some (some i.path, ⟨.name "U", true⟩) ∧
          ¬p.main.DeclaresAt "V" none := by
  decide +kernel

/-- The name of the export leads to the type, and so does the name of the import. -/
theorem Workspace.declareType_renamingImport :
    ∃ p, (fresh ⟨renamingFiles, none⟩).planner renamingImport = .ok p ∧
      ∃ i, i.exportNameOf? "T" = some "U" ∧ p.project.resolveExport i "U" = .ok (some ⟨i, "T"⟩) ∧
        ∃ d, i.declaration? "T" = some d ∧ d.identity = ("/proj/b.ts", "T") ∧
          p.project.declareType p.main "V" none = .ok (some d) := by
  obtain ⟨p, hp, found, hfound, i, rfl, hpath, htype, himport, hexport, hbinding, hnone⟩ :=
    planner_renamingImport
  obtain ⟨⟨existing, binding⟩, hexisting, heq⟩ := Option.map_eq_some_iff.1 hbinding
  obtain ⟨hresolved, rfl⟩ := Prod.mk.inj heq
  have hindex : p.project.index i.path = .ok (some i) := hpath ▸ hfound
  have hread := (knows_of_index_self hp hindex).ofSource
  obtain ⟨hresolve, hleads⟩ := (exportNames_lead_back hp).1 i.source i "T" "U" hread htype
    (Option.isNone_iff_eq_none.1 himport) hexport
  obtain ⟨d, hd, hidentity, hdeclare⟩ := hleads hindex p.main "V" none
    ⟨existing, true, hexisting, hresolved⟩ hnone
  refine ⟨p, hp, i, hexport, hresolve, d, hd, ?_, hdeclare⟩
  rw [hidentity, hpath]
  decide +kernel

end StableProps
