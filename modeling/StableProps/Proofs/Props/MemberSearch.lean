import StableProps.Proofs.Module.DeclaredTypes
import StableProps.Proofs.Props.Search
import StableProps.Props.Member

/-!
# The look-up of a member as a search

The type of a member is looked up by a search that asks about declarations. Which ones it asks
about, and in which order, is read off the type. What is inside of a declaration is read off its
syntax: the value of an alias, the signatures of an interface and the interfaces it extends.
-/

namespace StableProps

open TypeExpr (MentionsOnly)

/-- Whether a declaration can be opened. -/
def TypeDeclaration.isRead (d : TypeDeclaration) : Bool := d.place.isSome && d.modulePath.isSome

namespace TypeExpr

mutual

/-- The search for the type of a member. -/
def search (name : String) : TypeExpr → Search TypeDeclaration TypeExpr (Option TypeExpr)
  | .object _ members _ => .done (TypeMember.find? members name)
  | .intersection _ parts => .first (searches name parts)
  | .union _ parts => (Search.each (searches name parts)).bind fun found =>
    .done (if found.isEmpty then none else some (unionOf found))
  | .reference _ outer arguments none =>
    if passThroughTypes.contains (lastPart '.' outer) then
      ((searches name arguments).head?.getD (.done none)).bind fun found =>
        .done (if lastPart '.' outer = "Partial" then found.map withOptional else found)
    else .done none
  | .reference _ _ _ (some d) => if d.isRead then .ask d .done else .done none
  | _ => .done none

/-- The searches for a member of several types. -/
def searches (name : String) :
    List TypeExpr → List (Search TypeDeclaration TypeExpr (Option TypeExpr))
  | [] => []
  | t :: ts => search name t :: searches name ts

end

theorem searches_eq_map (name : String) (ts : List TypeExpr) :
    searches name ts = ts.map (search name) := by
  induction ts with
  | nil => rfl
  | cons t ts ih => rw [searches, ih, List.map_cons]

section

variable {look : TypeDeclaration → Opened → Except Failure Lookup}

/-- Declarations that cannot be opened answer nothing. -/
def onRead (look : TypeDeclaration → Opened → Except Failure Lookup) (d : TypeDeclaration)
    (opened : Opened) : Except Failure Lookup :=
  if d.isRead then look d opened else .ok (none, opened)

mutual

/-- A look-up carries out the search for the member. -/
theorem memberVia_eq_run (name : String) (t : TypeExpr) (opened : Opened) :
    t.memberVia (onRead look) name opened = (t.search name).run look opened := by
  match t with
  | .intersection _ parts => exact memberOfFirst_eq_run name parts opened
  | .union _ parts =>
    rw [memberVia, search, Search.run_bind, memberOfEach_eq_run]
    rfl
  | .reference _ outer arguments none =>
    rw [memberVia, search]
    split
    · rw [Search.run_bind, memberOfArgument_eq_run]
      rfl
    · rfl
  | .reference _ _ _ (some d) =>
    rw [memberVia, search, onRead]
    split
    · cases h : look d opened <;> simp [Search.run, h, bind, Except.bind]
    · rfl
  | .object .. | .function .. | .array .. | .tuple .. | .keyword .. | .literal .. | .indexed ..
  | .query .. | .raw .. => rfl

/-- A member of the first argument is found by the search in it. -/
private theorem memberOfArgument_eq_run (name : String) (ts : List TypeExpr) (opened : Opened) :
    memberOfArgument (onRead look) name ts opened =
      ((searches name ts).head?.getD (.done none)).run look opened := by
  match ts with
  | [] => rfl
  | t :: _ => exact memberVia_eq_run name t opened

/-- A member of the first of several types is found by the first search. -/
private theorem memberOfFirst_eq_run (name : String) (ts : List TypeExpr) (opened : Opened) :
    memberOfFirst (onRead look) name ts opened =
      (Search.first (searches name ts)).run look opened := by
  match ts with
  | [] => rfl
  | t :: ts =>
    rw [memberOfFirst, searches, Search.first, Search.run_bind, memberVia_eq_run]
    refine bind_congr_of_ok fun x _ => ?_
    obtain ⟨found, opened⟩ := x
    cases found with
    | some x => rfl
    | none => exact memberOfFirst_eq_run name ts opened

/-- The members of several types are found by all searches. -/
private theorem memberOfEach_eq_run (name : String) (ts : List TypeExpr) (opened : Opened) :
    memberOfEach (onRead look) name ts opened =
      (Search.each (searches name ts)).run look opened := by
  match ts with
  | [] => rfl
  | t :: ts =>
    rw [memberOfEach, searches, Search.each, Search.run_bind, memberVia_eq_run]
    refine bind_congr_of_ok fun x _ => ?_
    obtain ⟨found, opened⟩ := x
    dsimp only
    rw [Search.run_bind, memberOfEach_eq_run]
    rfl

end

end

mutual

/-- The search asks only about declarations that the type mentions. -/
theorem asksOnly_search {P : TypeDeclaration → Prop} (name : String) (t : TypeExpr)
    (ht : t.MentionsOnly P) : (t.search name).AsksOnly fun d => P d ∧ d.isRead = true := by
  match t with
  | .intersection _ parts =>
    exact Search.asksOnly_first (asksOnly_searches name parts (mentionsOnly_intersection.1 ht))
  | .union _ parts =>
    exact Search.asksOnly_bind
      (Search.asksOnly_each (asksOnly_searches name parts (mentionsOnly_union.1 ht)))
      fun found => trivial
  | .reference _ outer arguments none =>
    have harguments := asksOnly_searches name arguments (mentionsOnly_reference.1 ht).2
    rw [search]
    split
    · refine Search.asksOnly_bind ?_ fun found => trivial
      cases hhead : (searches name arguments).head? with
      | none => trivial
      | some s => exact harguments s (List.mem_of_mem_head? hhead)
    · trivial
  | .reference _ _ _ (some d) =>
    rw [search]
    split
    next hread => exact ⟨⟨(mentionsOnly_reference.1 ht).1 d rfl, hread⟩, fun found => trivial⟩
    next => trivial
  | .object .. | .function .. | .array .. | .tuple .. | .keyword .. | .literal .. | .indexed ..
  | .query .. | .raw .. => trivial

/-- The searches in several types ask about what they mention. -/
theorem asksOnly_searches {P : TypeDeclaration → Prop} (name : String) (ts : List TypeExpr)
    (hts : ∀ t ∈ ts, t.MentionsOnly P) :
    ∀ s ∈ searches name ts, s.AsksOnly fun d => P d ∧ d.isRead = true := by
  match ts with
  | [] => exact nofun
  | t :: ts =>
    obtain ⟨ht, hts⟩ := List.forall_mem_cons.1 hts
    exact List.forall_mem_cons.2 ⟨asksOnly_search name t ht, asksOnly_searches name ts hts⟩

end

mutual

/-- What the search finds anywhere is not lost. -/
theorem keeps_search (name : String) (t : TypeExpr) : (t.search name).Keeps none := by
  match t with
  | .intersection _ parts => exact Search.keeps_first (keeps_searches name parts)
  | .union _ parts =>
    refine Search.keeps_bind (Search.keeps_each (keeps_searches name parts)) (fun _ => trivial)
      fun found hfound => ?_
    simp [Search.Avoids, hfound]
  | .reference _ outer arguments none =>
    rw [search]
    split
    · refine Search.keeps_bind (r := none) ?_ (fun found => trivial) fun found hfound => ?_
      · cases hhead : (searches name arguments).head? with
        | none => trivial
        | some s => exact keeps_searches name arguments s (List.mem_of_mem_head? hhead)
      · rw [Search.Avoids]
        split
        · simpa using hfound
        · exact hfound
    · trivial
  | .reference _ _ _ (some d) =>
    rw [search]
    split
    · exact ⟨nofun, trivial⟩
    · trivial
  | .object .. | .function .. | .array .. | .tuple .. | .keyword .. | .literal .. | .indexed ..
  | .query .. | .raw .. => trivial

/-- The searches in several types keep what they find. -/
theorem keeps_searches (name : String) (ts : List TypeExpr) :
    ∀ s ∈ searches name ts, s.Keeps none := by
  match ts with
  | [] => exact nofun
  | t :: ts => exact List.forall_mem_cons.2 ⟨keeps_search name t, keeps_searches name ts⟩

end

end TypeExpr

namespace Project

variable {p : Project (Except Failure)} {r : Resolver} {d : TypeDeclaration} {name : String}

/-- The search for a member of one of the types that an interface extends. -/
def searchBases (p : Project (Except Failure)) (name : String) (i : ModuleIndex) (context : Focus)
    (bases : List Node) : Search TypeDeclaration TypeExpr (Option TypeExpr) :=
  .first (bases.map fun base =>
    (Search.ofExcept (TypeExpr.build (p.binder i context) base)).bind (TypeExpr.search name))

/-- The search for a member inside of a declaration. -/
def searchInside (p : Project (Except Failure)) (name : String) (d : TypeDeclaration) :
    Search TypeDeclaration TypeExpr (Option TypeExpr) :=
  match d.place, d.modulePath with
  | some place, some path => (Search.ofExcept (p.index path)).bind fun found =>
    match found with
    | none => .done none
    | some i =>
      if d.kind = .interface then
        let signatures := ((place.node.child? .body).map Node.namedChildren).getD []
        (Search.ofExcept (p.ownMember i place name signatures)).bind fun own =>
          match own with
          | some t => .done (some t)
          | none => p.searchBases name i place (basesOf place.node)
      else if d.kind = .alias then
        match place.child? .value with
        | some value => (Search.ofExcept (p.typeAt i value)).bind (TypeExpr.search name)
        | none => .done none
      else .done none
  | _, _ => .done none

/-- The declarations of a project, with the searches for a member inside of them. -/
def memberSpace (p : Project (Except Failure)) (name : String) :
    Search.Space TypeDeclaration (String × String) TypeExpr where
  key := TypeDeclaration.identity
  inside := p.searchInside name

section

variable {look : TypeDeclaration → Opened → Except Failure Lookup}
variable {ask : TypeExpr → Opened → Except Failure Lookup}

/-- A member of the bases is found by the search in them. -/
private theorem baseMember_eq_run
    (hask : ∀ t opened, ask t opened = (t.search name).run look opened)
    (i : ModuleIndex) (context : Focus) (bases : List Node) (opened : Opened) :
    p.baseMember ask i context bases opened =
      (p.searchBases name i context bases).run look opened := by
  induction bases generalizing opened with
  | nil => rfl
  | cons base bases ih =>
    rw [baseMember, searchBases, List.map_cons, Search.first, Search.run_bind,
      Search.run_ofExcept_bind, bind_assoc]
    refine bind_congr_of_ok fun t _ => ?_
    rw [hask]
    refine bind_congr_of_ok fun x _ => ?_
    obtain ⟨found, opened⟩ := x
    cases found with
    | some x => rfl
    | none => exact ih opened

/-- Opening a declaration carries out the search inside of it. -/
theorem memberOfDeclaration_eq_look {fuel : Nat} (hask : ∀ t opened,
      ask t opened = (t.search name).run ((p.memberSpace name).look fuel) opened)
    (d : TypeDeclaration) (opened : Opened) :
    p.memberOfDeclaration ask name d opened =
      TypeExpr.onRead ((p.memberSpace name).look (fuel + 1)) d opened := by
  rw [memberOfDeclaration, TypeExpr.onRead, TypeDeclaration.isRead, Search.Space.look]
  simp only [memberSpace, searchInside]
  cases hplace : d.place with
  | none => rfl
  | some place =>
    cases hpath : d.modulePath with
    | none => rfl
    | some path =>
      dsimp only [Option.isSome_some, Bool.and_self, if_true]
      simp only [List.contains_iff_mem]
      split
      · rfl
      · rw [Search.run_ofExcept_bind]
        refine bind_congr_of_ok fun found _ => ?_
        cases found with
        | none => rfl
        | some i =>
          dsimp only
          split
          · rw [Search.run_ofExcept_bind]
            refine bind_congr_of_ok fun own _ => ?_
            cases own with
            | some t => rfl
            | none => exact baseMember_eq_run hask i place _ _
          · split
            · cases place.child? .value with
              | none => rfl
              | some value =>
                rw [Search.run_ofExcept_bind]
                exact bind_congr_of_ok fun t _ => hask t _
            · rfl

end

/-- The look-up of a member is a search among the declarations of the project. -/
theorem memberWithin_eq_run (name : String) (fuel : Nat) (t : TypeExpr) (opened : Opened) :
    p.memberWithin name fuel t opened =
      (t.search name).run ((p.memberSpace name).look fuel) opened := by
  induction fuel generalizing t opened with
  | zero =>
    rw [memberWithin, ← TypeExpr.memberVia_eq_run]
    congr 1
    funext d opened
    exact (ite_self _).symm
  | succ fuel ih =>
    rw [memberWithin, ← TypeExpr.memberVia_eq_run]
    congr 1
    funext d opened
    exact memberOfDeclaration_eq_look ih d opened

/-! ## What is inside of declarations -/

private theorem keeps_searchInside (d : TypeDeclaration) : (p.searchInside name d).Keeps none := by
  rw [searchInside]
  split
  · refine Search.keeps_ofExcept_bind fun found => ?_
    cases found with
    | none => trivial
    | some i =>
      dsimp only
      split
      · refine Search.keeps_ofExcept_bind fun own => ?_
        cases own with
        | some t => trivial
        | none =>
          refine Search.keeps_first fun s hs => ?_
          obtain ⟨base, -, rfl⟩ := List.mem_map.1 hs
          exact Search.keeps_ofExcept_bind fun t => TypeExpr.keeps_search name t
      · split
        · split
          · exact Search.keeps_ofExcept_bind fun t => TypeExpr.keeps_search name t
          · trivial
        · trivial
  · trivial

/-- Inside of a declaration, only declarations of the project are asked about. -/
theorem asksOnly_searchInside (hclosed : p.Closed (p.Knows r)) (hlookups : p.FailsByLookups)
    (hd : p.Refers r d) :
    (p.searchInside name d).AsksOnly fun e => p.Refers r e ∧ e.isRead = true := by
  rw [searchInside]
  split
  next place path hplace hpath =>
    refine Search.asksOnly_ofExcept_bind fun found hindex => ?_
    cases found with
    | none => trivial
    | some i =>
      obtain ⟨hi, hin⟩ := hd.of_places hclosed ⟨hplace, path, hpath, hindex⟩
      dsimp only
      split
      · refine Search.asksOnly_ofExcept_bind fun own _ => ?_
        cases own with
        | some t => trivial
        | none =>
          refine Search.asksOnly_first fun s hs => ?_
          obtain ⟨base, -, rfl⟩ := List.mem_map.1 hs
          refine Search.asksOnly_ofExcept_bind fun t ht => TypeExpr.asksOnly_search name t ?_
          exact (TypeExpr.mentionsOnly_build (findsOnly_binder hi hlookups hin) base).holds t ht
      · split
        · split
          next value hvalue =>
            refine Search.asksOnly_ofExcept_bind fun t ht => TypeExpr.asksOnly_search name t ?_
            obtain ⟨n, hn, -, rfl⟩ := Event.Visit.exists_of_child? hvalue
            exact mentionsOnly_of_typeAt hi hlookups (hin.down hn) ht
          · trivial
        · trivial
  · trivial

/-- Only aliases and interfaces lead to other declarations. -/
theorem asksOnly_searchInside_of_kind (hkind : ¬(d.kind = .alias ∨ d.kind = .interface)) :
    (p.searchInside name d).AsksOnly fun _ => False := by
  obtain ⟨halias, hinterface⟩ := not_or.1 hkind
  rw [searchInside]
  split
  · refine Search.asksOnly_ofExcept_bind fun found _ => ?_
    cases found with
    | none => trivial
    | some i =>
      dsimp only
      rw [if_neg hinterface, if_neg halias]
      trivial
  · trivial

end Project

namespace Workspace

variable {r : Resolver} {source : Source} {p : Planner (Except Failure)}

/-- A look-up of a member stays among the declarations of the project. -/
theorem encloses_memberSpace (h : (fresh r).planner source = .ok p)
    (hnames : p.project.NamesTypesOnce r) (name : String) :
    (p.project.memberSpace name).Encloses (fun d => p.project.Refers r d ∧ d.isRead = true)
      (r.typeIdentities p.main) where
  asksOnly d hd := Project.asksOnly_searchInside (closed_knows h) (failsByLookups h) hd.1
  keeps d _ := Project.keeps_searchInside d
  unique d e hd he heq :=
    hnames d e hd.1 he.1 (Bool.and_eq_true_iff.1 hd.2).1 (Bool.and_eq_true_iff.1 he.2).1 heq
  mem d hd := by
    by_cases hkind : d.kind = .alias ∨ d.kind = .interface
    · exact .inl (identity_mem_typeIdentities h hd.1 (Bool.and_eq_true_iff.1 hd.2).1 hkind)
    · exact .inr (Project.asksOnly_searchInside_of_kind hkind)

end Workspace

end StableProps
