import StableProps.Proofs.Distinct
import StableProps.Proofs.Types.Flat
import StableProps.Proofs.Types.Outline

/-!
# Unions of types

A union of types whose members are no unions has all of their members, each rendering once, and
again no union among its members. Types that are built from syntax are such types, so that unions of
them may be put together in any way: what is a member, and in which order, is only a matter of the
types that they are made of.
-/

namespace StableProps.TypeExpr

open MonadAttach (CanReturn)

variable {t u : TypeExpr} {ts : List TypeExpr}

/-- A type is the union of some types, or the only one of them. -/
def IsUnionOf (t : TypeExpr) (members : List TypeExpr) : Prop :=
  members = [t] ∨ ∃ text, t = .union text members

/-- The members of a union of several types. -/
def membersOf (types : List TypeExpr) : List TypeExpr :=
  distinctBy render (types.flatMap unionMembers)

/-- A union of types is one of their members. -/
theorem isUnionOf_unionOf (types : List TypeExpr) :
    (unionOf types).IsUnionOf (membersOf types) := by
  rw [unionOf]
  split
  next t h => exact .inl h
  next => exact .inr ⟨_, rfl⟩

/-- The members of a union decide on it. -/
theorem unionOf_eq_of_membersOf_eq {us : List TypeExpr} (h : membersOf ts = membersOf us) :
    unionOf ts = unionOf us := by
  rw [membersOf, membersOf] at h
  rw [unionOf, unionOf, h]

/-! ## Types without unions among their members -/

/-- No member of a type is a union. -/
def HasPlainMembers (t : TypeExpr) : Prop := ∀ u ∈ t.unionMembers, u.isUnion = false

/-- A type that is no union is its only member. -/
theorem unionMembers_of_isUnion_eq_false (h : t.isUnion = false) : t.unionMembers = [t] := by
  cases t <;> first | rfl | cases h

/-- A union of one type that is no union is that type. -/
theorem unionOf_singleton (h : t.isUnion = false) : unionOf [t] = t := by
  have hmembers : [t].flatMap unionMembers = [t] := by
    rw [List.flatMap_singleton, unionMembers_of_isUnion_eq_false h]
  rw [unionOf, hmembers]
  rfl

/-- A type that is no union has no unions as members. -/
theorem hasPlainMembers_of_isUnion_eq_false (h : t.isUnion = false) : t.HasPlainMembers := by
  rw [HasPlainMembers, unionMembers_of_isUnion_eq_false h, List.forall_mem_singleton]
  exact h

/-- A type that is built has no unions as members of a union. -/
theorem IsBuilt.hasPlainMembers {Found : TypeDeclaration → Prop} (h : t.IsBuilt Found) :
    t.HasPlainMembers := by
  cases hunion : t.isUnion with
  | false => exact hasPlainMembers_of_isUnion_eq_false hunion
  | true =>
    cases t with
    | union text members => exact (isBuilt_iff.1 h).1.union rfl
    | _ => cases hunion

/-- The members of a type that is built from sources are built from them. -/
theorem IsBuiltFrom.of_mem_unionMembers {Source : Node → Prop} {Found : TypeDeclaration → Prop}
    (h : t.IsBuiltFrom Source Found) (hu : u ∈ t.unionMembers) : u.IsBuiltFrom Source Found := by
  cases t with
  | union text members => exact (isBuiltFrom_iff.1 h).2 u hu
  | _ =>
    obtain rfl := List.mem_singleton.1 hu
    exact h

/-- The members of a type that is built are built. -/
theorem IsBuilt.of_mem_unionMembers {Found : TypeDeclaration → Prop} (h : t.IsBuilt Found)
    (hu : u ∈ t.unionMembers) : u.IsBuilt Found :=
  (h.isBuiltFrom.of_mem_unionMembers hu).isBuilt

/-- No member of several types is a union. -/
private theorem isUnion_of_mem_membersOf (h : ∀ t ∈ ts, t.HasPlainMembers) (hu : u ∈ membersOf ts) :
    u.isUnion = false := by
  obtain ⟨t, ht, hmem⟩ := List.mem_flatMap.1 (mem_of_mem_distinctBy hu)
  exact h t ht u hmem

/-- A union of flat unions has all of their members, each rendering once. -/
theorem unionMembers_unionOf (h : ∀ t ∈ ts, t.HasPlainMembers) :
    (unionOf ts).unionMembers = membersOf ts := by
  rcases isUnionOf_unionOf ts with hone | ⟨text, hunion⟩
  · rw [hone]
    refine unionMembers_of_isUnion_eq_false (isUnion_of_mem_membersOf h ?_)
    rw [hone]
    exact List.mem_singleton_self _
  · rw [hunion]
    rfl

/-- A union of types has no unions as members. -/
theorem hasPlainMembers_unionOf (h : ∀ t ∈ ts, t.HasPlainMembers) :
    (unionOf ts).HasPlainMembers := by
  rw [HasPlainMembers, unionMembers_unionOf h]
  exact fun u hu => isUnion_of_mem_membersOf h hu

/-- A union of types of the form of types that are built from some nodes has this form. -/
theorem isBuiltFrom_unionOf {Source : Node → Prop} {Found : TypeDeclaration → Prop}
    (h : ∀ t ∈ ts, t.IsBuiltFrom Source Found) : (unionOf ts).IsBuiltFrom Source Found := by
  have hmembers : ∀ u ∈ membersOf ts, IsPartOf Source Found true u := by
    intro u hu
    obtain ⟨t, ht, hmem⟩ := List.mem_flatMap.1 (mem_of_mem_distinctBy hu)
    exact ⟨(h t ht).of_mem_unionMembers hmem, (h t ht).isBuilt.hasPlainMembers u hmem⟩
  rcases isUnionOf_unionOf ts with hone | ⟨text, hunion⟩
  · refine (hmembers _ ?_).1
    rw [hone]
    exact List.mem_singleton_self _
  · rw [hunion]
    exact isBuiltFrom_union hmembers

/-- A union of types of the form of types that are built from syntax has this form. -/
theorem isBuilt_unionOf {Found : TypeDeclaration → Prop} (h : ∀ t ∈ ts, t.IsBuilt Found) :
    (unionOf ts).IsBuilt Found :=
  (isBuiltFrom_unionOf fun t ht => (h t ht).isBuiltFrom).isBuilt

/-- Nor does an optional type. -/
theorem HasPlainMembers.withOptional (h : t.HasPlainMembers) : t.withOptional.HasPlainMembers :=
  hasPlainMembers_unionOf (by simpa using ⟨h, hasPlainMembers_of_isUnion_eq_false rfl⟩)

/-- Members that are left of a flat union make a flat union. -/
theorem membersOf_of_forall_isUnion_eq_false (h : ∀ t ∈ ts, t.isUnion = false) :
    membersOf ts = distinctBy render ts := by
  have hflat : ts.flatMap unionMembers = ts := by
    rw [List.flatMap_congr fun t ht => unionMembers_of_isUnion_eq_false (h t ht),
      List.flatMap_singleton']
  rw [membersOf, hflat]

/-! ## Unions of unions -/

/-- Two unions may be put together before or after their types are. -/
theorem unionOf_unionOf {us : List TypeExpr} (ht : ∀ t ∈ ts, t.HasPlainMembers)
    (hu : ∀ u ∈ us, u.HasPlainMembers) :
    unionOf [unionOf ts, unionOf us] = unionOf (ts ++ us) := by
  refine unionOf_eq_of_membersOf_eq ?_
  calc membersOf [unionOf ts, unionOf us]
      = distinctBy render (membersOf ts ++ membersOf us) := by
        rw [← unionMembers_unionOf ht, ← unionMembers_unionOf hu]
        simp [membersOf]
    _ = distinctBy render (ts.flatMap unionMembers ++ us.flatMap unionMembers) := by
        rw [membersOf, membersOf, distinctBy_distinctBy_append, distinctBy_append_distinctBy]
    _ = membersOf (ts ++ us) := by
        rw [membersOf, List.flatMap_append]

/-- What may be missing twice may be missing. -/
theorem withOptional_withOptional (h : t.HasPlainMembers) :
    t.withOptional.withOptional = t.withOptional := by
  have hundefined : (keyword "undefined").HasPlainMembers := hasPlainMembers_of_isUnion_eq_false rfl
  have hboth : ∀ u ∈ [t, keyword "undefined"], u.HasPlainMembers := by
    simpa using ⟨h, hundefined⟩
  refine unionOf_eq_of_membersOf_eq ?_
  have hlast : [keyword "undefined"].map render ⊆
      ([t, keyword "undefined"].flatMap unionMembers).map render := by
    simp [unionMembers]
  calc membersOf [t.withOptional, keyword "undefined"]
      = distinctBy render (membersOf [t, keyword "undefined"] ++ [keyword "undefined"]) := by
        rw [← unionMembers_unionOf hboth]
        rfl
    _ = membersOf [t, keyword "undefined"] := by
        rw [membersOf, distinctBy_distinctBy_append, distinctBy_append_of_subset hlast]

/-! ## Types of syntax -/

variable {m : Type → Type} [Monad m] [MonadAttach m]

/-- A type that some node stands for, whatever the names in it are bound to. -/
def IsOfSyntax (m : Type → Type) [Monad m] [MonadAttach m] (t : TypeExpr) : Prop :=
  ∃ (bind : Binder m) (n : Node), CanReturn (build bind n) t

/-- A type that is read from syntax is built. -/
theorem IsOfSyntax.isBuilt [LawfulMonad m] [LawfulMonadAttach m] (h : t.IsOfSyntax m) :
    t.IsBuilt fun _ => True :=
  let ⟨_, _, ht⟩ := h
  isBuilt_of_build ht

private theorem HasBuiltForm.arguments_isUnion {Found : TypeDeclaration → Prop}
    (h : t.HasBuiltForm Found)
    (hunion : t.isUnion = true) : ∀ u ∈ t.arguments, u.isUnion = false := by
  cases t with
  | union => exact h.union rfl
  | _ => cases hunion

private theorem HasBuiltForm.arguments_isIntersection {Found : TypeDeclaration → Prop}
    (h : t.HasBuiltForm Found) (hintersection : t.isIntersection = true) :
    ∀ u ∈ t.arguments, u.isIntersection = false := by
  cases t with
  | intersection => exact h.intersection rfl
  | _ => cases hintersection

/-- Unions are flat, and no member of them comes twice. In a type that is built from syntax no union
stands directly inside of a union and no intersection directly inside of an intersection. A union of
such types has their members where each rendering occurs first; it makes no difference whether types
are put together at once or part by part, and none whether a type is said to be optional twice. -/
theorem unions_of_build [LawfulMonad m] [LawfulMonadAttach m] :
    (∀ t : TypeExpr, t.IsOfSyntax m → ∀ u ∈ t.within,
      (u.isUnion = true → ∀ v ∈ u.arguments, v.isUnion = false) ∧
      (u.isIntersection = true → ∀ v ∈ u.arguments, v.isIntersection = false)) ∧
    (∀ ts us : List TypeExpr, (∀ t ∈ ts ++ us, t.IsOfSyntax m) →
      (unionOf ts).unionMembers = firstOccurrences render (ts.flatMap unionMembers) ∧
      unionOf [unionOf ts, unionOf us] = unionOf (ts ++ us)) ∧
    ∀ t : TypeExpr, t.IsOfSyntax m → t.withOptional.withOptional = t.withOptional := by
  refine ⟨fun t ht u hu => ?_, fun ts us h => ?_, fun t ht => ?_⟩
  · have hform := ht.isBuilt u hu
    exact ⟨hform.arguments_isUnion, hform.arguments_isIntersection⟩
  · have hplain : ∀ t ∈ ts ++ us, t.HasPlainMembers := fun t ht => (h t ht).isBuilt.hasPlainMembers
    obtain ⟨hts, hus⟩ := List.forall_mem_append.1 hplain
    exact ⟨by rw [unionMembers_unionOf hts, membersOf, distinctBy_eq_firstOccurrences],
      unionOf_unionOf hts hus⟩
  · exact withOptional_withOptional ht.isBuilt.hasPlainMembers

/-- A union in parentheses, in a union where one of its names comes again. -/
theorem unions_of_parenthesizedUnion : ∃ t u : TypeExpr, t.IsOfSyntax Id ∧ u.IsOfSyntax Id ∧
    t.isUnion = true ∧ t.arguments.map render = ["A", "B", "A", "B[]"] ∧ u.render = "B[]" ∧
      (∀ v ∈ t.arguments, v.isUnion = false) ∧
      (unionOf [t]).unionMembers = firstOccurrences render t.unionMembers ∧
      (unionOf [t]).unionMembers.map render = ["A", "B", "B[]"] ∧
      unionOf [unionOf [t], unionOf [u]] = unionOf [t, u] ∧
      t.withOptional.withOptional = t.withOptional := by
  obtain ⟨hflat, hunions, hoptional⟩ := unions_of_build (m := Id)
  let nodes := (parse .typescript "type T = (A | B) | A | B[];").walk
  have hread : ∃ n, nodes.find? (·.is .unionType) = some n ∧
      ∃ n', nodes.find? (·.is .arrayType) = some n' ∧
        let t : TypeExpr := Id.run (build unbound n)
        t.isUnion = true ∧ t.arguments.map render = ["A", "B", "A", "B[]"] ∧
          (unionOf [t]).unionMembers.map render = ["A", "B", "B[]"] ∧
          TypeExpr.render (Id.run (build unbound n')) = "B[]" := by
    decide +kernel
  obtain ⟨n, -, n', -, hunion, hmembers, honce, hlast⟩ := hread
  have ht : IsOfSyntax Id (Id.run (build unbound n)) := ⟨unbound, n, rfl⟩
  have hu : IsOfSyntax Id (Id.run (build unbound n')) := ⟨unbound, n', rfl⟩
  obtain ⟨hfirst, htogether⟩ := hunions [Id.run (build unbound n)] [Id.run (build unbound n')]
    (by simpa using ⟨ht, hu⟩)
  rw [List.flatMap_singleton] at hfirst
  exact ⟨_, _, ht, hu, hunion, hmembers, hlast, (hflat _ ht _ (mem_within_self _)).1 hunion, hfirst,
    honce, htogether, hoptional _ ht⟩

end StableProps.TypeExpr
