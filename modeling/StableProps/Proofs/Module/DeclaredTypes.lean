import StableProps.Proofs.Module.Cycles
import StableProps.Proofs.Module.TypeNames
import StableProps.Proofs.Types.Mentioned

/-!
# Declarations that types lead to

A type of a project mentions declarations that names in its modules refer to. Each of them stands in
a module that the project knows, or is not read at all, and the types written there mention only
such declarations again. As each alias and interface has one of finitely many names in one of
finitely many modules, the project allows for more steps than a way through them can take.
-/

namespace StableProps

open TypeExpr (FindsOnly MentionsOnly)

namespace Project

variable {p : Project (Except Failure)} {r : Resolver} {i j : ModuleIndex} {d : TypeDeclaration}

/-- A name somewhere in a known module refers to the declaration. -/
def Refers (p : Project (Except Failure)) (r : Resolver) (d : TypeDeclaration) : Prop :=
  ∃ i, p.Knows r i ∧ ∃ context, context.IsIn i.source.root ∧
    ∃ name qualifier, p.binder i context name qualifier = .ok (some d)

/-- Each name stands for one declaration in a module. -/
def NamesTypesOnce (p : Project (Except Failure)) (r : Resolver) : Prop :=
  ∀ d e, p.Refers r d → p.Refers r e → d.place.isSome = true → e.place.isSome = true →
    d.identity = e.identity → d = e

/-- A declaration stands in a known module. -/
def Stands (p : Project (Except Failure)) (r : Resolver) (d : TypeDeclaration) : Prop :=
  ∃ j, p.Knows r j ∧ j.DeclaresType d

/-- A type that a module exports stands in a known module. -/
private theorem stands_of_exportedType? (hclosed : p.Closed (p.Knows r)) (hj : p.Knows r j)
    {exported : String} (h : p.exportedType? j exported = .ok (some d)) : p.Stands r d := by
  obtain ⟨e, he, hd⟩ := exists_of_exportedType? h
  exact ⟨_, hclosed.resolveExport j exported e hj he, .top hd⟩

/-- A declaration that is not read has no place. -/
private theorem place_externalDeclaration (x : ExistingImport) (exported name : String) :
    (x.externalDeclaration exported name).place = none := by
  rw [ExistingImport.externalDeclaration]
  cases x.resolved with
  | some path => rfl
  | none =>
    dsimp only
    split <;> rfl

/-- What a name refers to stands in a known module, or is not read. -/
private theorem stands_of_declareType (hclosed : p.Closed (p.Knows r)) (hi : p.Knows r i)
    {name : String} {context : Focus} (hcontext : context.IsIn i.source.root)
    (h : p.declareType i name (some context) = .ok (some d)) :
    d.place = none ∨ p.Stands r d := by
  cases names_of_declareType h with
  | parameter => exact .inl rfl
  | top declared => exact .inr ⟨i, hi, .top declared⟩
  | inner place declared =>
    obtain rfl := Option.some.inj place
    exact .inr ⟨i, hi, .inner hcontext declared⟩
  | imported binding followed =>
    obtain ⟨j, hj, hexported⟩ := exists_of_followed? followed
    exact .inr (stands_of_exportedType? hclosed (hclosed.imported hi binding hj) hexported)
  | unread binding followed => exact .inl (place_externalDeclaration ..)

/-- So does what a qualified name refers to. -/
private theorem stands_of_declareQualified (hclosed : p.Closed (p.Knows r)) (hi : p.Knows r i)
    {qualifier name : String} (h : p.declareQualified i qualifier name = .ok (some d)) :
    d.place = none ∨ p.Stands r d := by
  rw [declareQualified] at h
  split at h
  · split at h
    · obtain rfl := Option.some.inj (Except.ok.inj h)
      exact .inl rfl
    · cases h
  next existing binding himport =>
    split at h
    · cases h
    · obtain ⟨target, htarget, h⟩ := bind_eq_ok.1 h
      cases target with
      | none =>
        obtain rfl := Option.some.inj (Except.ok.inj h)
        exact .inl rfl
      | some j =>
        obtain ⟨found, hfound, h⟩ := bind_eq_ok.1 h
        cases found with
        | some e =>
          obtain rfl := Option.some.inj (Except.ok.inj h)
          exact .inr (stands_of_exportedType? hclosed (hclosed.imported hi himport htarget) hfound)
        | none =>
          dsimp only at h
          split at h
          · obtain rfl := Option.some.inj (Except.ok.inj h)
            exact .inl rfl
          · cases h

/-- What a name refers to stands in a known module, or is not read. -/
theorem Refers.place_eq_none_or (h : p.Refers r d) (hclosed : p.Closed (p.Knows r)) :
    d.place = none ∨ p.Stands r d := by
  obtain ⟨i, hi, context, hcontext, name, qualifier, hd⟩ := h
  cases qualifier with
  | none => exact stands_of_declareType hclosed hi hcontext hd
  | some q => exact stands_of_declareQualified hclosed hi hd

/-- The project has the module of a declaration, and the declaration has a place. -/
def Places (p : Project (Except Failure)) (d : TypeDeclaration) (i : ModuleIndex) (f : Focus) :
    Prop :=
  d.place = some f ∧ ∃ path, d.modulePath = some path ∧ p.index path = .ok (some i)

/-- A declaration has one module and one place. -/
theorem Places.unique {f g : Focus} (h : p.Places d i f) (h' : p.Places d j g) :
    i = j ∧ f = g := by
  obtain ⟨hplace, path, hpath, hindex⟩ := h
  obtain ⟨hplace', path', hpath', hindex'⟩ := h'
  obtain rfl := Option.some.inj (hpath.symm.trans hpath')
  exact ⟨Option.some.inj (Except.ok.inj (hindex.symm.trans hindex')),
    Option.some.inj (hplace.symm.trans hplace')⟩

/-- A declaration that the project places has a place. -/
theorem Places.isSome_place {f : Focus} (h : p.Places d i f) : d.place.isSome = true := by
  rw [h.1]
  rfl

/-- A declaration that a name refers to and that has a place is in a known module. -/
theorem Refers.exists_places (h : p.Refers r d) (hclosed : p.Closed (p.Knows r))
    (hplace : d.place ≠ none) :
    ∃ i f, p.Places d i f ∧ p.Knows r i ∧ f.IsIn i.source.root := by
  obtain ⟨i, hi, hdeclares⟩ := (h.place_eq_none_or hclosed).resolve_left hplace
  have hholds := hdeclares.holds hi.ofSource
  obtain ⟨f, hf, hin⟩ := hholds.isIn
  exact ⟨i, f, ⟨hf, i.path, hholds.path, hi.index⟩, hi, hin⟩

/-- A declaration that a name refers to is placed in a known module. -/
theorem Refers.of_places (h : p.Refers r d) (hclosed : p.Closed (p.Knows r)) {f : Focus}
    (hf : p.Places d i f) : p.Knows r i ∧ f.IsIn i.source.root := by
  obtain ⟨j, g, hg, hj, hin⟩ := h.exists_places hclosed (by simp [hf.1])
  obtain ⟨rfl, rfl⟩ := hf.unique hg
  exact ⟨hj, hin⟩

/-- The names at a place of a known module refer to such declarations. -/
theorem findsOnly_binder (hi : p.Knows r i) (hlookups : p.FailsByLookups) {context : Focus}
    (hcontext : context.IsIn i.source.root) : FindsOnly (p.binder i context) (p.Refers r) := by
  refine fun name qualifier => ⟨?_, hlookups.binder i context name qualifier⟩
  rintro _ h d rfl
  exact ⟨i, hi, context, hcontext, name, qualifier, h⟩

/-- A type that is written at a place of a known module is built with such declarations. -/
theorem isBuilt_of_typeAt (hi : p.Knows r i) (hlookups : p.FailsByLookups) {f : Focus}
    (hf : f.IsIn i.source.root) {t : TypeExpr} (ht : p.typeAt i f = .ok t) :
    t.IsBuilt (p.Refers r) :=
  (TypeExpr.isBuilt_build .returns (findsOnly_binder hi hlookups hf) f.node).holds t ht

/-- So it mentions only them. -/
theorem mentionsOnly_of_typeAt (hi : p.Knows r i) (hlookups : p.FailsByLookups) {f : Focus}
    (hf : f.IsIn i.source.root) {t : TypeExpr} (ht : p.typeAt i f = .ok t) :
    t.MentionsOnly (p.Refers r) :=
  (isBuilt_of_typeAt hi hlookups hf ht).mentionsOnly

end Project

namespace Resolver

variable {r : Resolver} {main i : ModuleIndex} {d : TypeDeclaration}

/-- The names of all aliases and interfaces. -/
def declaredNames (r : Resolver) (main : ModuleIndex) : List String :=
  main.source.typeNames ++ r.tree.files.flatMap (Source.foundIn Source.typeNames)

/-- What tells aliases and interfaces apart. -/
def typeIdentities (r : Resolver) (main : ModuleIndex) : Finset (String × String) :=
  ((r.knownPaths main).map Path.text).toFinset ×ˢ (r.declaredNames main).toFinset

/-- The types of a known module are among all aliases and interfaces. -/
private theorem typeNames_subset_declaredNames (h : (r.project.withModule main).Knows r i) :
    i.source.typeNames ⊆ r.declaredNames main := by
  intro name hname
  rcases eq_main_or_exists_file h with rfl | ⟨file, hfile, -, hread⟩
  · exact List.mem_append_left _ hname
  · refine List.mem_append_right _ (List.mem_flatMap.2 ⟨file, hfile, ?_⟩)
    rw [Source.foundIn_eq _ hread]
    exact hname

/-- The project allows for more steps than there are aliases and interfaces. -/
theorem card_typeIdentities_lt_bound (r : Resolver) (main : ModuleIndex) :
    (r.typeIdentities main).card < (r.project.withModule main).bound := by
  rw [typeIdentities, Finset.card_product]
  refine r.mul_lt_bound main ?_ ?_
  · refine (List.toFinset_card_le _).trans ?_
    rw [List.length_map, length_knownPaths]
  · refine (List.toFinset_card_le _).trans ?_
    have hlength (s : Source) : s.typeNames.length ≤ 1 * s.text.utf8ByteSize := by
      rw [Nat.one_mul]
      exact s.length_typeNames_le
    have hfiles := Source.length_flatMap_foundIn_le hlength r.tree.files
    have hmain := main.source.length_typeNames_le
    rw [declaredNames, List.length_append]
    omega

/-- An alias or interface that stands in a known module is one of them. -/
theorem identity_mem_typeIdentities (h : ModuleIndex.ofSource r.resolve main.source = .ok main)
    (hd : (r.project.withModule main).Refers r d) (hplace : d.place.isSome = true)
    (hkind : d.kind = .alias ∨ d.kind = .interface) : d.identity ∈ r.typeIdentities main := by
  rcases hd.place_eq_none_or (closed_knows h) with hnone | ⟨j, hj, hdeclares⟩
  · rw [hnone] at hplace
    cases hplace
  · have hholds := hdeclares.holds hj.ofSource
    refine Finset.mem_product.2 ⟨List.mem_toFinset.2 (List.mem_map.2 ⟨j.path, ?_, ?_⟩),
      List.mem_toFinset.2 (typeNames_subset_declaredNames hj (hholds.named hkind))⟩
    · exact path_mem_knownPaths hj
    · rw [TypeDeclaration.identity, hholds.path]
      rfl

/-- Modules without scopes inside, whose paths are written differently, name types once. -/
theorem namesTypesOnce_of_isFlat (h : ModuleIndex.ofSource r.resolve main.source = .ok main)
    (hpaths : ((r.knownPaths main).map Path.text).Nodup) (hmain : main.source.IsFlat)
    (hfiles : ∀ file ∈ r.tree.files, ∀ s, Source.ofText file.2 file.1 none = .ok s → s.IsFlat) :
    (r.project.withModule main).NamesTypesOnce r := by
  have htop {d : TypeDeclaration} (hd : (r.project.withModule main).Refers r d)
      (hplace : d.place.isSome = true) : ∃ j, (r.project.withModule main).Knows r j ∧
        j.declaration? d.name = some d := by
    obtain ⟨j, hj, hdeclares⟩ := (hd.place_eq_none_or (closed_knows h)).resolve_left
      (Option.isSome_iff_ne_none.1 hplace)
    refine ⟨j, hj, hdeclares.of_isFlat hj.ofSource ?_⟩
    rcases eq_main_or_exists_file hj with rfl | ⟨file, hfile, -, hread⟩
    · exact hmain
    · exact hfiles file hfile _ hread
  intro d e hd he hdplace heplace heq
  obtain ⟨i, hi, hd⟩ := htop hd hdplace
  obtain ⟨j, hj, he⟩ := htop he heplace
  have hidentity {k : ModuleIndex} {x : TypeDeclaration} (hx : k.declaration? x.name = some x) :
      x.identity = (k.path.text, x.name) := by
    obtain ⟨f, -, hf⟩ := Option.map_eq_some_iff.1 hx
    rw [TypeDeclaration.identity, ← hf]
    rfl
  rw [hidentity hd, hidentity he] at heq
  obtain ⟨htext, hname⟩ := Prod.mk.inj heq
  have hpath := List.inj_on_of_nodup_map hpaths (path_mem_knownPaths hi) (path_mem_knownPaths hj)
    htext
  obtain rfl := (separates_knows h).unique i j hi hj hpath
  rw [hname, he] at hd
  exact (Option.some.inj hd).symm

end Resolver

namespace Workspace

variable {r : Resolver} {source : Source} {p : Planner (Except Failure)} {d : TypeDeclaration}

/-- The project of a planner fails only by look-ups. -/
theorem failsByLookups (h : (fresh r).planner source = .ok p) : p.project.FailsByLookups := by
  rw [(of_planner h).1]
  exact .withModule (.project r) p.main

theorem card_typeIdentities_lt_bound (h : (fresh r).planner source = .ok p) :
    (r.typeIdentities p.main).card < p.project.bound := by
  rw [(of_planner h).1]
  exact r.card_typeIdentities_lt_bound p.main

theorem identity_mem_typeIdentities (h : (fresh r).planner source = .ok p)
    (hd : p.project.Refers r d) (hplace : d.place.isSome = true)
    (hkind : d.kind = .alias ∨ d.kind = .interface) : d.identity ∈ r.typeIdentities p.main := by
  rw [(of_planner h).1] at hd
  exact Resolver.identity_mem_typeIdentities (knows_main h).ofSource hd hplace hkind

theorem namesTypesOnce_of_isFlat (h : (fresh r).planner source = .ok p)
    (hpaths : ((r.knownPaths p.main).map Path.text).Nodup) (hmain : p.main.source.IsFlat)
    (hfiles : ∀ file ∈ r.tree.files, ∀ s, Source.ofText file.2 file.1 none = .ok s → s.IsFlat) :
    p.project.NamesTypesOnce r := by
  have hread := (knows_main h).ofSource
  rw [(of_planner h).1]
  exact Resolver.namesTypesOnce_of_isFlat hread hpaths hmain hfiles

end Workspace

end StableProps
