import StableProps.Proofs.Props.Callable
import StableProps.Proofs.Props.MemberSearch
import StableProps.Proofs.Types.Union

/-!
# Members of unions

The type of a member of a union is the union of what is found in its members. The look-ups in them
share the declarations that were opened, so that one of them may find nothing in a declaration from
which another one already took the member. Where declarations that several look-ups open have no
such member, each look-up finds what it finds by itself, and the order of the union makes no
difference.
-/

namespace StableProps

open TypeExpr (MentionsOnly)

namespace TypeExpr

/-- The union of what was found, if anything was. -/
def unionOfFound (found : List (Option TypeExpr)) : Option TypeExpr :=
  if (found.filterMap id).isEmpty then none else some (unionOf (found.filterMap id))

/-- Two types are unions of members with the same renderings, no two of which are equal. -/
def SameMembers (t u : TypeExpr) : Prop :=
  ∃ ts us, t.IsUnionOf ts ∧ u.IsUnionOf us ∧ (ts.map render).Nodup ∧
    (ts.map render).Perm (us.map render)

private theorem nodup_map_render_membersOf (types : List TypeExpr) :
    ((membersOf types).map render).Nodup :=
  nodup_map_distinctBy render _

private theorem mem_map_render_membersOf {types : List TypeExpr} {s : String} :
    s ∈ (membersOf types).map render ↔ ∃ t ∈ types, ∃ u ∈ t.unionMembers, u.render = s := by
  simp only [List.mem_map]
  constructor
  · rintro ⟨u, hu, rfl⟩
    obtain ⟨t, ht, hu⟩ := List.mem_flatMap.1 (mem_of_mem_distinctBy hu)
    exact ⟨t, ht, u, hu, rfl⟩
  · rintro ⟨t, ht, u, hu, rfl⟩
    exact exists_mem_distinctBy render (List.mem_flatMap.2 ⟨t, ht, hu⟩)

/-- The order of several types makes no difference to the members of their union. -/
theorem sameMembers_unionOf {types types' : List TypeExpr} (h : types.Perm types') :
    (unionOf types).SameMembers (unionOf types') := by
  refine ⟨_, _, isUnionOf_unionOf types, isUnionOf_unionOf types',
    nodup_map_render_membersOf types, ?_⟩
  rw [List.perm_ext_iff_of_nodup (nodup_map_render_membersOf _) (nodup_map_render_membersOf _)]
  intro s
  rw [mem_map_render_membersOf, mem_map_render_membersOf]
  simp only [h.mem_iff]

private theorem unionOfFound_eq_none {found : List (Option TypeExpr)} :
    unionOfFound found = none ↔ ∀ x ∈ found, x = none := by
  have hempty : (found.filterMap id).isEmpty = true ↔ ∀ x ∈ found, x = none := by simp
  rw [unionOfFound, ite_eq_left_iff, ← hempty]
  simp

private theorem exists_unionOfFound_of_perm {found found' : List (Option TypeExpr)}
    (h : found.Perm found') {t : TypeExpr} (ht : unionOfFound found = some t) :
    ∃ t', unionOfFound found' = some t' ∧ t.SameMembers t' := by
  have hperm := h.filterMap id
  rw [unionOfFound] at ht
  split at ht
  · cases ht
  next hempty =>
    obtain rfl := Option.some.inj ht
    refine ⟨unionOf (found'.filterMap id), ?_, sameMembers_unionOf hperm⟩
    rw [unionOfFound, if_neg]
    rwa [← hperm.isEmpty_eq]

end TypeExpr

namespace Project

variable {p : Project (Except Failure)} {r : Resolver} {d : TypeDeclaration} {name : String}

/-- The look-up of a member of a type opens a declaration. -/
def Opens (p : Project (Except Failure)) (name : String) (t : TypeExpr) (d : TypeDeclaration) :
    Prop :=
  ∃ found opened, p.memberWithin name p.bound t [] = .ok (found, opened) ∧ d.identity ∈ opened

/-- The look-ups of a member in two types open the same declaration only where a look-up finds no
such member. -/
def LooksApart (p : Project (Except Failure)) (r : Resolver) (name : String) (t u : TypeExpr) :
    Prop :=
  ∀ d, p.Refers r d → p.Opens name t d → p.Opens name u d →
    p.memberType (.reference d.name d.name [] (some d)) name = .ok none

theorem LooksApart.symm {t u : TypeExpr} (h : p.LooksApart r name t u) :
    p.LooksApart r name u t :=
  fun d hd hu ht => h d hd ht hu

/-- The look-up of a member of a type by itself. -/
def lookUp (p : Project (Except Failure)) (name : String) (t : TypeExpr) :
    Except Failure Lookup :=
  (t.search name).run ((p.memberSpace name).look p.bound) []

private theorem memberType_eq_bind (t : TypeExpr) :
    p.memberType t name = p.lookUp name t >>= fun x => pure x.1 := by
  rw [memberType, memberWithin_eq_run]
  rfl

private theorem opens_of_lookUp {t : TypeExpr} {x : Lookup} (h : p.lookUp name t = .ok x)
    (hmem : d.identity ∈ x.2) : p.Opens name t d :=
  ⟨x.1, x.2, (memberWithin_eq_run ..).trans h, hmem⟩

/-- Nothing can be found in the declarations that two searches open. -/
abbrev SearchesApart (p : Project (Except Failure)) (r : Resolver) (name : String)
    (opened opened' : Opened) : Prop :=
  (p.memberSpace name).Apart (fun d => p.Refers r d ∧ d.isRead = true) opened opened'

end Project

namespace Workspace

variable {r : Resolver} {source : Source} {p : Planner (Except Failure)} {name : String}
variable {parts : List TypeExpr} {found : List (Option TypeExpr)}

/-- The project allows for as many steps as a look-up can take. -/
theorem memberWithin_eq_of_le (h : (fresh r).planner source = .ok p)
    (hnames : p.project.NamesTypesOnce r) {t : TypeExpr}
    (ht : t.MentionsOnly (p.project.Refers r)) {fuel : Nat} (hfuel : p.project.bound ≤ fuel) :
    p.project.memberWithin name fuel t [] = p.project.memberWithin name p.project.bound t [] := by
  have hcard := card_typeIdentities_lt_bound h
  rw [Project.memberWithin_eq_run, Project.memberWithin_eq_run]
  exact (encloses_memberSpace h hnames name).run_eq (TypeExpr.asksOnly_search name t ht)
    (hcard.trans_le hfuel) hcard

/-- If the look-up in the name of a declaration finds no member, there is none. -/
theorem not_finds_of_memberType (h : (fresh r).planner source = .ok p)
    (hnames : p.project.NamesTypesOnce r) {d : TypeDeclaration} (hd : p.project.Refers r d)
    (hread : d.isRead = true)
    (hnone : p.project.memberType (.reference d.name d.name [] (some d)) name = .ok none) :
    ¬(p.project.memberSpace name).Finds (p.project.searchInside name d) := by
  rw [Project.memberType_eq_bind] at hnone
  obtain ⟨⟨found, opened⟩, hrun, hfound⟩ := bind_eq_ok.1 hnone
  obtain rfl : found = none := Except.ok.inj hfound
  intro hfinds
  have hname : MentionsOnly (p.project.Refers r) (.reference d.name d.name [] (some d)) := by
    refine TypeExpr.mentionsOnly_reference.2 ⟨?_, nofun⟩
    rintro _ ⟨⟩
    exact hd
  have hsome := (encloses_memberSpace h hnames name).isSome_iff
    (TypeExpr.asksOnly_search name _ hname) (TypeExpr.keeps_search name _)
    (card_typeIdentities_lt_bound h) hrun
  rw [TypeExpr.search, if_pos hread] at hsome
  exact nomatch hsome.2 (.asked hfinds)

/-- The searches in the members of a union, each carried out by itself. -/
theorem exists_outcomes (hfound : parts.mapM (p.project.memberType · name) = .ok found) :
    ∃ outcomes, parts.mapM (p.project.lookUp name) = .ok outcomes ∧
      outcomes.map (·.1) = found := by
  simp only [Project.memberType_eq_bind] at hfound
  exact exists_mapM_of_mapM_bind hfound

variable {outcomes : List Lookup}

/-- Look-ups that open the same declarations only where no member is found are apart. -/
theorem pairwise_apart_of_looksApart (h : (fresh r).planner source = .ok p)
    (hnames : p.project.NamesTypesOnce r)
    (houtcomes : parts.mapM (p.project.lookUp name) = .ok outcomes)
    (hapart : parts.Pairwise (p.project.LooksApart r name)) :
    outcomes.Pairwise fun x y => p.project.SearchesApart r name x.2 y.2 := by
  refine pairwise_of_mapM (fun t u x y hx hy htu d hd hmem hmem' => ?_) hapart houtcomes
  exact not_finds_of_memberType h hnames hd.1 hd.2
    (htu d hd.1 (Project.opens_of_lookUp hx hmem) (Project.opens_of_lookUp hy hmem'))

/-- Look-ups that find nothing are apart. -/
theorem pairwise_apart_of_forall_eq_none (h : (fresh r).planner source = .ok p)
    (hnames : p.project.NamesTypesOnce r)
    (hparts : ∀ t ∈ parts, t.MentionsOnly (p.project.Refers r))
    (houtcomes : parts.mapM (p.project.lookUp name) = .ok outcomes)
    (hnone : ∀ x ∈ outcomes, x.1 = none) :
    outcomes.Pairwise fun x y => p.project.SearchesApart r name x.2 y.2 := by
  refine List.pairwise_of_forall_mem_list fun x hx y _ d hd hmem _ => ?_
  obtain ⟨t, ht, hrun⟩ := exists_of_mem_mapM (m := Except Failure) houtcomes hx
  obtain ⟨found, opened⟩ := x
  obtain rfl : found = none := hnone _ hx
  exact (encloses_memberSpace h hnames name).not_finds_inside
    (TypeExpr.asksOnly_search name t (hparts t ht)) (TypeExpr.keeps_search name t)
    (card_typeIdentities_lt_bound h) hrun hd hmem

/-- Searches that open the same declarations only in vain find what the union is made of. -/
theorem memberType_union_of_apart (h : (fresh r).planner source = .ok p)
    (hnames : p.project.NamesTypesOnce r)
    (hparts : ∀ t ∈ parts, t.MentionsOnly (p.project.Refers r))
    (houtcomes : parts.mapM (p.project.lookUp name) = .ok outcomes)
    (hapart : outcomes.Pairwise fun x y => p.project.SearchesApart r name x.2 y.2)
    (text : String) :
    p.project.memberType (.union text parts) name =
      .ok (TypeExpr.unionOfFound (outcomes.map (·.1))) := by
  have hall : (TypeExpr.searches name parts).mapM
      (·.run ((p.project.memberSpace name).look p.project.bound) []) = .ok outcomes := by
    rw [TypeExpr.searches_eq_map, List.mapM_map]
    exact houtcomes
  obtain ⟨opened, hrun⟩ := (encloses_memberSpace h hnames name).run_each
    (card_typeIdentities_lt_bound h) (TypeExpr.asksOnly_searches name parts hparts)
    (TypeExpr.keeps_searches name parts) hall hapart
    (fun d _ hmem => absurd hmem List.not_mem_nil) fun x _ d _ hmem => absurd hmem List.not_mem_nil
  have hflat : outcomes.flatMap (·.1.toList) = (outcomes.map (·.1)).filterMap id := by
    rw [List.filterMap_map, List.filterMap_eq_flatMap_toList]
    rfl
  rw [Project.memberType_eq_bind, Project.lookUp, TypeExpr.search, Search.run_bind, hrun, hflat]
  rfl

/-- If nothing is found in a union, nothing is found in its members. -/
theorem eq_none_of_memberType_union (h : (fresh r).planner source = .ok p)
    (hnames : p.project.NamesTypesOnce r)
    (hparts : ∀ t ∈ parts, t.MentionsOnly (p.project.Refers r))
    (houtcomes : parts.mapM (p.project.lookUp name) = .ok outcomes) {text : String}
    (hnone : p.project.memberType (.union text parts) name = .ok none) :
    ∀ x ∈ outcomes, x.1 = none := by
  have hencloses := encloses_memberSpace h hnames name
  rw [Project.memberType_eq_bind] at hnone
  obtain ⟨⟨result, opened⟩, hrun, hresult⟩ := bind_eq_ok.1 hnone
  obtain rfl : result = none := Except.ok.inj hresult
  obtain ⟨hsettled, hexhausted⟩ := hencloses.exhausted
    (TypeExpr.asksOnly_search name _ (TypeExpr.mentionsOnly_union.2 hparts))
    (TypeExpr.keeps_search name _) (card_typeIdentities_lt_bound h) hrun
  obtain ⟨all, hall, hempty⟩ := Search.exhausted_bind.1 hexhausted
  obtain rfl : all = [] := by
    rw [Search.Exhausted] at hempty
    split at hempty
    next hall => exact List.isEmpty_iff.1 hall
    next => cases hempty
  rintro ⟨found, opened'⟩ hx
  obtain ⟨t, ht, hrun'⟩ := exists_of_mem_mapM (m := Except Failure) houtcomes hx
  cases found with
  | none => rfl
  | some x =>
    have hmem : t.search name ∈ TypeExpr.searches name parts := by
      rw [TypeExpr.searches_eq_map]
      exact List.mem_map_of_mem ht
    exact (hencloses.not_finds hsettled (TypeExpr.asksOnly_search name t (hparts t ht))
      (Search.exhausted_of_each hall _ hmem) (Search.Space.finds_of_run hrun')).elim

/-- The type of a member of a union is found by looking it up in each member of the union: the
union of what is found, or nothing if nothing is. That nothing is found is so in any case. That
nothing found is left out needs look-ups that open the same declarations only where there is no such
member; then the members of the result do not depend on the order of the union either. The project
allows for as many steps as the look-up can take.

All this is so where each name of a module stands for one declaration. Two declarations of one name,
in a module and in a scope inside, are taken for the same one, and only the first is opened. -/
theorem memberType_union (h : (fresh r).planner source = .ok p)
    (hnames : p.project.NamesTypesOnce r)
    (hparts : ∀ t ∈ parts, t.MentionsOnly (p.project.Refers r))
    (hfound : parts.mapM (p.project.memberType · name) = .ok found) (text : String) :
    (∀ fuel, p.project.bound ≤ fuel →
      p.project.memberWithin name fuel (.union text parts) [] =
        p.project.memberWithin name p.project.bound (.union text parts) []) ∧
    (p.project.memberType (.union text parts) name = .ok none ↔ ∀ x ∈ found, x = none) ∧
    (parts.Pairwise (p.project.LooksApart r name) →
      p.project.memberType (.union text parts) name = .ok (TypeExpr.unionOfFound found) ∧
      ∀ text' parts', parts.Perm parts' → ∀ t, TypeExpr.unionOfFound found = some t →
        ∃ t', p.project.memberType (.union text' parts') name = .ok (some t') ∧
          t.SameMembers t') := by
  obtain ⟨outcomes, houtcomes, rfl⟩ := exists_outcomes hfound
  refine ⟨fun fuel hfuel => ?_, ⟨fun hnone => ?_, fun hnone => ?_⟩,
    fun hapart => ⟨?_, fun text' parts' hperm t ht => ?_⟩⟩
  · exact memberWithin_eq_of_le h hnames (TypeExpr.mentionsOnly_union.2 hparts) hfuel
  · exact List.forall_mem_map.2 (eq_none_of_memberType_union h hnames hparts houtcomes hnone)
  · rw [memberType_union_of_apart h hnames hparts houtcomes
      (pairwise_apart_of_forall_eq_none h hnames hparts houtcomes (List.forall_mem_map.1 hnone)),
      TypeExpr.unionOfFound_eq_none.2 hnone]
  · exact memberType_union_of_apart h hnames hparts houtcomes
      (pairwise_apart_of_looksApart h hnames houtcomes hapart) text
  · obtain ⟨outcomes', houtcomes', hperm'⟩ := exists_mapM_of_perm hperm houtcomes
    obtain ⟨t', ht', hsame⟩ := TypeExpr.exists_unionOfFound_of_perm (hperm'.map (·.1)) ht
    have hapart' := hapart.perm hperm fun hlook => hlook.symm
    refine ⟨t', ?_, hsame⟩
    rw [memberType_union_of_apart h hnames (fun u hu => hparts u (hperm.mem_iff.2 hu)) houtcomes'
      (pairwise_apart_of_looksApart h hnames houtcomes' hapart') text', ht']

end Workspace

namespace Project

variable {p : Project (Except Failure)} {r : Resolver} {d : TypeDeclaration} {name : String}
variable {t u : TypeExpr}

/-- The look-ups of a member in two types open no more than one declaration in common. -/
def SharesOnly (p : Project (Except Failure)) (name : String) (d : TypeDeclaration)
    (t u : TypeExpr) : Prop :=
  ∃ x, p.memberWithin name p.bound t [] = .ok x ∧ ∃ y, p.memberWithin name p.bound u [] = .ok y ∧
    ∀ k ∈ x.2, k ∈ y.2 → k = d.identity

instance (name : String) (d : TypeDeclaration) : DecidableRel (p.SharesOnly name d) := fun t u =>
  inferInstanceAs (Decidable (∃ x, p.memberWithin name p.bound t [] = .ok x ∧
    ∃ y, p.memberWithin name p.bound u [] = .ok y ∧ ∀ k ∈ x.2, k ∈ y.2 → k = d.identity))

private theorem memberType_of_place_eq_none (h : d.place = none) :
    p.memberType (.reference d.name d.name [] (some d)) name = .ok none := by
  have hread : ¬d.isRead = true := by simp [TypeDeclaration.isRead, h]
  rw [memberType_eq_bind, lookUp, TypeExpr.search, if_neg hread]
  rfl

/-- A declaration without the member may be opened by both look-ups. -/
theorem SharesOnly.looksApart (h : p.SharesOnly name d t u) (hnames : p.NamesTypesOnce r)
    (hd : p.Refers r d) (hplace : d.place.isSome = true)
    (hnone : p.memberType (.reference d.name d.name [] (some d)) name = .ok none) :
    p.LooksApart r name t u := by
  rintro e he ⟨found, opened, ht, hmem⟩ ⟨found', opened', hu, hmem'⟩
  obtain ⟨x, hx, y, hy, hshared⟩ := h
  obtain rfl := Except.ok.inj (hx.symm.trans ht)
  obtain rfl := Except.ok.inj (hy.symm.trans hu)
  have hidentity := hshared _ hmem hmem'
  by_cases heplace : e.place = none
  · exact memberType_of_place_eq_none heplace
  · obtain rfl := hnames e d he hd (Option.isSome_iff_ne_none.2 heplace) hplace hidentity
    exact hnone

end Project

/-- A module with an interface that has no members. -/
def emptyInterface : FileTree := .ofEntries [("c.ts", "export interface E { }\n")]

/-- Two aliases that both lead to the interface, and their union. -/
def sharedInterface : Source :=
  .parsed (FileTree.resolve (.ofText "a.ts")) .typescript
    ("import \x7b E \x7d from './c';\ntype A = E & \x7b f: () => void \x7d;\n" ++
      "type B = E & \x7b f: string \x7d;\ntype U = A | B;\n")

set_option synthInstance.maxSize 1000 in
set_option maxRecDepth 100000 in
private theorem planner_sharedInterface :
    ∃ p, (Workspace.fresh ⟨emptyInterface, none⟩).planner sharedInterface = .ok p ∧
      (((⟨emptyInterface, none⟩ : Resolver).knownPaths p.main).map Path.text).Nodup ∧
      p.main.source.IsFlat ∧
      (∀ file ∈ emptyInterface.files, ∀ s, Source.ofText file.2 file.1 none = .ok s → s.IsFlat) ∧
      ∃ f, p.main.valueOf? "U" = some f ∧ ∃ t, p.project.typeAt p.main f = .ok t ∧
        t.isUnion = true ∧
        (∃ found, t.unionMembers.mapM (p.project.memberType · "f") = .ok found ∧
          found.map Option.isSome = [true, true]) ∧
        ∃ o, p.project.binder p.main f "E" none = .ok o ∧ ∃ e, o = some e ∧
          e.place.isSome = true ∧
          (∃ x, p.project.memberType (.reference e.name e.name [] (some e)) "f" = .ok x ∧
            x.isNone = true) ∧
          (∀ u ∈ t.unionMembers, ∃ x, p.project.memberWithin "f" p.project.bound u [] = .ok x ∧
            e.identity ∈ x.2) ∧
          t.unionMembers.Pairwise (p.project.SharesOnly "f" e) := by
  decide +kernel

/-- Both aliases lead to the interface, which has no member. So the union has what is found in
both. -/
theorem Workspace.memberType_sharedInterface :
    ∃ p, (fresh ⟨emptyInterface, none⟩).planner sharedInterface = .ok p ∧
      p.project.NamesTypesOnce ⟨emptyInterface, none⟩ ∧
      ∃ text parts found, (∀ t ∈ parts, t.MentionsOnly (p.project.Refers ⟨emptyInterface, none⟩)) ∧
        parts.mapM (p.project.memberType · "f") = .ok found ∧
        found.map Option.isSome = [true, true] ∧
        (∃ e, ∀ t ∈ parts, p.project.Opens "f" t e) ∧
        parts.Pairwise (p.project.LooksApart ⟨emptyInterface, none⟩ "f") ∧
        p.project.memberType (.union text parts) "f" = .ok (TypeExpr.unionOfFound found) := by
  obtain ⟨p, hp, hpaths, hflat, hfiles, f, hf, t, ht, hunion, ⟨found, hfound, hsome⟩, o, ho, e, rfl,
    heplace, ⟨x, hx, hnone⟩, hopens, hshares⟩ := planner_sharedInterface
  have hmain := knows_main hp
  have hnames := namesTypesOnce_of_isFlat hp hpaths hflat hfiles
  have hin := ModuleIndex.isIn_of_valueOf? hmain.ofSource hf
  have hmentions := Project.mentionsOnly_of_typeAt hmain (failsByLookups hp) hin ht
  have he : p.project.Refers ⟨emptyInterface, none⟩ e := ⟨p.main, hmain, f, hin, "E", none, ho⟩
  obtain rfl := Option.isNone_iff_eq_none.1 hnone
  cases t with
  | union text parts =>
    have hparts := TypeExpr.mentionsOnly_union.1 hmentions
    have hapart := hshares.imp fun h => h.looksApart hnames he heplace hx
    have hopens : ∀ t ∈ parts, p.project.Opens "f" t e := fun t ht =>
      let ⟨x, hx, hmem⟩ := hopens t ht
      ⟨x.1, x.2, hx, hmem⟩
    exact ⟨p, hp, hnames, text, parts, found, hparts, hfound, hsome, ⟨e, hopens⟩, hapart,
      ((memberType_union hp hnames hparts hfound text).2.2 hapart).1⟩
  | _ => cases hunion

/-- A union of an interface and a type with the same members, all of them optional. -/
def partialBase : Source :=
  .parsed (FileTree.resolve (.ofText "a.ts")) .typescript
    "interface Base \x7b f: () => void \x7d\ntype U = Base | Partial<Base>;\n"

set_option synthInstance.maxSize 1000 in
set_option maxRecDepth 100000 in
private theorem planner_partialBase :
    ∃ p, (Workspace.fresh ⟨.ofEntries [], none⟩).planner partialBase = .ok p ∧
      (((⟨.ofEntries [], none⟩ : Resolver).knownPaths p.main).map Path.text).Nodup ∧
      p.main.source.IsFlat ∧
      ∃ f, p.main.valueOf? "U" = some f ∧ ∃ t, p.project.typeAt p.main f = .ok t ∧
        t.isUnion = true ∧
        ∃ found, t.unionMembers.mapM (p.project.memberType · "f") = .ok found ∧
          ∃ x, p.project.memberType t "f" = .ok x ∧
            (x.map TypeExpr.render, (TypeExpr.unionOfFound found).map TypeExpr.render) =
              (some "() => void", some "(() => void) | undefined") := by
  decide +kernel

/-- The look-up in the second part finds the interface opened, so that the member seems not to be
optional. -/
theorem Workspace.not_forall_memberType_union :
    ¬∀ (r : Resolver) (source : Source) (p : Planner (Except Failure)),
      (fresh r).planner source = .ok p → p.project.NamesTypesOnce r →
        ∀ text parts name found, (∀ t ∈ parts, t.MentionsOnly (p.project.Refers r)) →
          parts.mapM (p.project.memberType · name) = .ok found →
            p.project.memberType (.union text parts) name = .ok (TypeExpr.unionOfFound found) := by
  intro h
  obtain ⟨p, hp, hpaths, hflat, f, hf, t, ht, hunion, found, hfound, x, hx, htexts⟩ :=
    planner_partialBase
  have hmain := knows_main hp
  have hnames := namesTypesOnce_of_isFlat hp hpaths hflat nofun
  have hmentions := Project.mentionsOnly_of_typeAt hmain (failsByLookups hp)
    (ModuleIndex.isIn_of_valueOf? hmain.ofSource hf) ht
  obtain ⟨hone, hboth⟩ := Prod.mk.inj htexts
  cases t with
  | union text parts =>
    have hall := h _ _ p hp hnames text parts "f" found (TypeExpr.mentionsOnly_union.1 hmentions)
      hfound
    obtain rfl := Except.ok.inj (hx.symm.trans hall)
    exact absurd (hone.symm.trans hboth) (by decide)
  | _ => cases hunion

end StableProps
