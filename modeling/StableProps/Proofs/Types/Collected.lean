import StableProps.Proofs.Distinct
import StableProps.Proofs.Types.Within
import StableProps.Types.Stored

/-!
# Collected declarations

Declarations are collected from the objects that a type is stored in. An object that stands at
several places is looked into once, and what is found inside of a type is handed on without
repetitions. As one object holds one type wherever it stands, this leaves out nothing but what has
been met before, and what is collected are the first occurrences among the declarations of all types
in the type, whatever objects stand at its places.
-/

namespace StableProps

namespace StoredType

variable {κ : Type}

/-- The object of a stored type. -/
def object : StoredType κ → κ
  | ⟨object, _, _⟩ => object

/-- The declaration that a stored type refers to. -/
def declaration? : StoredType κ → Option TypeDeclaration
  | ⟨_, declaration, _⟩ => declaration

mutual

/-- All stored types in a stored type, itself included, outermost first. -/
def all : StoredType κ → List (StoredType κ)
  | ⟨object, declaration, inside⟩ => ⟨object, declaration, inside⟩ :: allOf inside

/-- All stored types in several ones. -/
def allOf : List (StoredType κ) → List (StoredType κ)
  | [] => []
  | t :: ts => all t ++ allOf ts

end

variable {t u : StoredType κ} {ts us : List (StoredType κ)}

/-- The declarations that a stored type refers to. -/
def declared (t : StoredType κ) : List TypeDeclaration := t.all.filterMap declaration?

/-- The declarations that several stored types refer to. -/
def declaredBy (ts : List (StoredType κ)) : List TypeDeclaration :=
  (allOf ts).filterMap declaration?

/-- One object holds one type. -/
def OneTypeEach (ts : List (StoredType κ)) : Prop :=
  ∀ t ∈ ts, ∀ u ∈ ts, t.object = u.object → t = u

/-- If one object holds one type, so it does among fewer of them. -/
theorem OneTypeEach.mono (h : OneTypeEach us) (hsub : ts ⊆ us) : OneTypeEach ts :=
  fun t ht u hu => h t (hsub ht) u (hsub hu)

private theorem mem_all_self (t : StoredType κ) : t ∈ t.all := by
  match t with
  | ⟨object, declaration, inside⟩ =>
    rw [all]
    exact List.mem_cons_self

private theorem declared_mk (object : κ) (d : Option TypeDeclaration)
    (inside : List (StoredType κ)) :
    declared ⟨object, d, inside⟩ = d.toList ++ declaredBy inside := by
  rw [declared, all, List.filterMap_cons, declaration?]
  cases d <;> rfl

private theorem declaredBy_cons (t : StoredType κ) (ts : List (StoredType κ)) :
    declaredBy (t :: ts) = t.declared ++ declaredBy ts := by
  rw [declaredBy, allOf, List.filterMap_append]
  rfl

mutual

/-- All that is in a part of a type is in the type. -/
private theorem all_subset (t : StoredType κ) (hu : u ∈ t.all) : u.all ⊆ t.all := by
  match t with
  | ⟨object, declaration, inside⟩ =>
    rw [all] at hu ⊢
    rcases List.mem_cons.1 hu with rfl | hu
    · rw [all]
      exact List.Subset.refl _
    · exact List.subset_cons_of_subset _ (allOf_subset inside hu)

/-- All that is in a part of several types is in them. -/
private theorem allOf_subset (ts : List (StoredType κ)) (hu : u ∈ allOf ts) : u.all ⊆ allOf ts := by
  match ts with
  | [] => cases hu
  | t :: ts =>
    rw [allOf] at hu ⊢
    rcases List.mem_append.1 hu with hu | hu
    · exact List.subset_append_of_subset_left _ (all_subset t hu)
    · exact List.subset_append_of_subset_right _ (allOf_subset ts hu)

end

mutual

private theorem sizeOf_le_of_mem_all (t : StoredType κ) (hu : u ∈ t.all) : sizeOf u ≤ sizeOf t := by
  match t with
  | ⟨object, declaration, inside⟩ =>
    rw [all] at hu
    rcases List.mem_cons.1 hu with rfl | hu
    · exact Nat.le_refl _
    · have hsize := sizeOf_lt_of_mem_allOf inside hu
      rw [mk.sizeOf_spec]
      omega

private theorem sizeOf_lt_of_mem_allOf (ts : List (StoredType κ)) (hu : u ∈ allOf ts) :
    sizeOf u < sizeOf ts := by
  match ts with
  | [] => cases hu
  | t :: ts =>
    rw [allOf] at hu
    rw [List.cons.sizeOf_spec]
    rcases List.mem_append.1 hu with hu | hu
    · have hsize := sizeOf_le_of_mem_all t hu
      omega
    · have hsize := sizeOf_lt_of_mem_allOf ts hu
      omega

end

/-! ## What is left out -/

/-- The identities of declarations. -/
abbrev identities (ds : List TypeDeclaration) : List (String × String) :=
  ds.map TypeDeclaration.identity

/-- Each declaration in a visited object has been met before. -/
def Met (met : List TypeDeclaration) (visited : List κ) (ts : List (StoredType κ)) : Prop :=
  ∀ u ∈ ts, u.object ∈ visited → identities u.declared ⊆ identities met

/-- What was met stays met, and among fewer types. -/
theorem Met.mono {visited : List κ} {met met' : List TypeDeclaration} (h : Met met visited us)
    (hsub : ts ⊆ us) (hmet : identities met ⊆ identities met') : Met met' visited ts :=
  fun u hu hvisited => List.Subset.trans (h u (hsub hu) hvisited) hmet

section

variable [DecidableEq κ]

mutual

/-- Only the objects of a type are visited. -/
theorem mem_visited_of_collect {visited : List κ} (t : StoredType κ) {k : κ}
    (hk : k ∈ (collect visited t).2) : k ∈ visited ∨ ∃ u ∈ t.all, u.object = k := by
  match t with
  | ⟨object, declaration, inside⟩ =>
    rw [collect] at hk
    split at hk
    · exact .inl hk
    · rw [all]
      rcases mem_visited_of_collectAll inside hk with hk | ⟨u, hu, rfl⟩
      · rcases List.mem_cons.1 hk with rfl | hk
        · exact .inr ⟨_, List.mem_cons_self, rfl⟩
        · exact .inl hk
      · exact .inr ⟨u, List.mem_cons_of_mem _ hu, rfl⟩

/-- A collection visits only objects of the types that it goes through. -/
private theorem mem_visited_of_collectAll {visited : List κ} (ts : List (StoredType κ)) {k : κ}
    (hk : k ∈ (collectAll visited ts).2) : k ∈ visited ∨ ∃ u ∈ allOf ts, u.object = k := by
  match ts with
  | [] => exact .inl hk
  | t :: ts =>
    rw [collectAll] at hk
    rw [allOf]
    rcases mem_visited_of_collectAll ts hk with hk | ⟨u, hu, rfl⟩
    · rcases mem_visited_of_collect t hk with hk | ⟨u, hu, rfl⟩
      · exact .inl hk
      · exact .inr ⟨u, List.mem_append_left _ hu, rfl⟩
    · exact .inr ⟨u, List.mem_append_right _ hu, rfl⟩

end

mutual

/-- Behind the declarations that were met before, it makes no difference whether a type is looked
through in full. -/
theorem distinctBy_append_collect {met : List TypeDeclaration} {visited : List κ}
    (t : StoredType κ) (hone : OneTypeEach t.all)
    (hmet : Met met visited t.all) :
    distinctBy TypeDeclaration.identity (met ++ (collect visited t).1) =
      distinctBy TypeDeclaration.identity (met ++ t.declared) := by
  match t with
  | ⟨object, declaration, inside⟩ =>
    rw [collect]
    split
    next hvisited =>
      rw [List.append_nil, distinctBy_append_of_subset (hmet _ (mem_all_self _) hvisited)]
    next hnew =>
      have hsub : allOf inside ⊆ all ⟨object, declaration, inside⟩ := by
        rw [all]
        exact List.subset_cons_self ..
      have hmet' : Met (met ++ declaration.toList) (object :: visited) (allOf inside) := by
        intro u hu hvisited
        rcases List.mem_cons.1 hvisited with hobject | hvisited
        · -- No type is stored inside of itself.
          obtain rfl := hone u (hsub hu) _ (mem_all_self _) hobject
          have hsize := sizeOf_lt_of_mem_allOf inside hu
          rw [mk.sizeOf_spec] at hsize
          omega
        · refine List.Subset.trans (hmet u (hsub hu) hvisited) ?_
          exact List.map_subset _ (List.subset_append_left ..)
      have hinside := distinctBy_append_collectAll inside (hone.mono hsub) hmet'
      rw [distinctBy_append_distinctBy, ← List.append_assoc, hinside, declared_mk,
        List.append_assoc]

/-- With what was met before, a collection finds all declarations of the types, each once. -/
private theorem distinctBy_append_collectAll {met : List TypeDeclaration} {visited : List κ}
    (ts : List (StoredType κ)) (hone : OneTypeEach (allOf ts))
    (hmet : Met met visited (allOf ts)) :
    distinctBy TypeDeclaration.identity (met ++ (collectAll visited ts).1) =
      distinctBy TypeDeclaration.identity (met ++ declaredBy ts) := by
  match ts with
  | [] => rfl
  | t :: ts =>
    rw [allOf] at hone hmet
    have hfirst := distinctBy_append_collect t (hone.mono (List.subset_append_left ..))
      (hmet.mono (List.subset_append_left ..) (List.Subset.refl _))
    have hmet' : Met (met ++ (collect visited t).1) (collect visited t).2 (allOf ts) := by
      intro u hu hvisited
      rcases mem_visited_of_collect t hvisited with hvisited | ⟨v, hv, hobject⟩
      · refine List.Subset.trans (hmet u (List.mem_append_right _ hu) hvisited) ?_
        exact List.map_subset _ (List.subset_append_left ..)
      · -- The object was visited in the type before, so all that it holds was met there.
        obtain rfl := hone v (List.mem_append_left _ hv) u (List.mem_append_right _ hu) hobject
        have hdeclared : v.declared ⊆ t.declared := List.filterMap_subset _ (all_subset t hv)
        intro k hk
        rw [← mem_map_distinctBy, hfirst, mem_map_distinctBy]
        exact List.map_subset _ (List.Subset.trans hdeclared (List.subset_append_right ..)) hk
    have hrest := distinctBy_append_collectAll ts (hone.mono (List.subset_append_right ..)) hmet'
    calc distinctBy TypeDeclaration.identity (met ++ (collectAll visited (t :: ts)).1)
      _ = distinctBy TypeDeclaration.identity (met ++ (collect visited t).1 ++
            (collectAll (collect visited t).2 ts).1) := by rw [collectAll, List.append_assoc]
      _ = distinctBy TypeDeclaration.identity (met ++ (collect visited t).1 ++ declaredBy ts) :=
        hrest
      _ = distinctBy TypeDeclaration.identity (met ++ t.declared ++ declaredBy ts) := by
        rw [← distinctBy_distinctBy_append, hfirst, distinctBy_distinctBy_append]
      _ = distinctBy TypeDeclaration.identity (met ++ declaredBy (t :: ts)) := by
        rw [declaredBy_cons, List.append_assoc]

end

/-- What is collected from a stored type are the first of its declarations under each identity. -/
theorem collect_nil_eq (t : StoredType κ) (hone : OneTypeEach t.all) :
    (collect [] t).1 = distinctBy TypeDeclaration.identity t.declared := by
  have hmet : Met [] [] t.all := fun u _ hvisited => absurd hvisited List.not_mem_nil
  have hcollect := distinctBy_append_collect t hone hmet
  rw [List.nil_append, List.nil_append] at hcollect
  rw [← hcollect]
  match t with
  | ⟨object, declaration, inside⟩ =>
    rw [collect, if_neg List.not_mem_nil]
    exact (distinctBy_distinctBy ..).symm

end

end StoredType

/-! ## Types at their places -/

namespace TypeExpr

open StoredType (OneTypeEach)

variable {κ : Type} (object : List Nat → κ) (place : List Nat)

/-- Members are stored by their types. -/
private theorem storedMembers_eq (n : Nat) (xs : List TypeMember) :
    storedMembers object place n xs =
      storedAll object place n (xs.filterMap TypeMember.type?) := by
  induction xs generalizing n with
  | nil => rfl
  | cons x xs ih =>
    cases x with
    | typed name t isOptional => exact congrArg _ (ih (n + 1))
    | untyped name isOptional => exact ih n

/-- Each type is stored once. -/
private theorem length_storedAll (n : Nat) (ts : List TypeExpr) :
    (storedAll object place n ts).length = ts.length := by
  induction ts generalizing n with
  | nil => rfl
  | cons t ts ih => rw [storedAll, List.length_cons, ih, List.length_cons]

/-- Types in a row are stored in a row. -/
private theorem storedAll_append (n : Nat) (ts us : List TypeExpr) :
    storedAll object place n (ts ++ us) =
      storedAll object place n ts ++ storedAll object place (n + ts.length) us := by
  induction ts generalizing n with
  | nil => rfl
  | cons t ts ih =>
    rw [List.cons_append, storedAll, ih, storedAll, List.cons_append, List.length_cons,
      Nat.add_right_comm, Nat.add_assoc]

/-- The types directly inside of a type are stored one after the other. -/
theorem stored_eq (t : TypeExpr) : t.stored object place =
    ⟨object place, t.declaration?, storedAll object place 0 t.inside⟩ := by
  cases t with
  | function text parameters returns =>
    rw [inside, storedAll_append, ← storedMembers_eq, Nat.zero_add,
      ← length_storedAll object place 0, ← storedMembers_eq]
    cases returns <;> rfl
  | object text members callable =>
    rw [stored, inside, storedMembers_eq]
    rfl
  | _ => rfl

/-- Wherever it is stored, a type refers to the declarations of all types in it. -/
theorem declared_stored (t : TypeExpr) :
    (t.stored object place).declared = t.within.filterMap declaration? := by
  induction t using inside_induction generalizing place with
  | step t ih =>
    have hinside : ∀ ts ⊆ t.inside, ∀ n, StoredType.declaredBy (storedAll object place n ts) =
        ts.flatMap fun u => u.within.filterMap declaration? := by
      intro ts hts n
      induction ts generalizing n with
      | nil => rfl
      | cons u us ihs =>
        obtain ⟨hu, hus⟩ := List.cons_subset.1 hts
        rw [storedAll, StoredType.declaredBy_cons, ih u hu, ihs hus, List.flatMap_cons]
    rw [stored_eq, StoredType.declared_mk, hinside _ (List.Subset.refl _), within_eq,
      List.filterMap_cons, List.filterMap_flatMap]
    cases t.declaration? <;> rfl

/-! ## Places as objects -/

/-- What is stored in one of several types is behind the place of that type. -/
theorem exists_of_mem_allOf {n : Nat} {ts : List TypeExpr} {u : StoredType κ}
    (hu : u ∈ StoredType.allOf (storedAll object place n ts)) :
    ∃ k, n ≤ k ∧ ∃ t ∈ ts, u ∈ (t.stored object (k :: place)).all := by
  induction ts generalizing n with
  | nil => cases hu
  | cons t ts ih =>
    rw [storedAll, StoredType.allOf] at hu
    rcases List.mem_append.1 hu with hu | hu
    · exact ⟨n, Nat.le_refl n, t, List.mem_cons_self, hu⟩
    · obtain ⟨k, hk, t, ht, hu⟩ := ih hu
      exact ⟨k, Nat.le_of_succ_le hk, t, List.mem_cons_of_mem _ ht, hu⟩

/-- Where each place is an object of its own, that of a type is behind those of the types around. -/
theorem suffix_of_mem_all (t : TypeExpr) {u : StoredType (List Nat)}
    (hu : u ∈ (t.stored id place).all) : place <:+ u.object := by
  induction t using inside_induction generalizing place with
  | step t ih =>
    rw [stored_eq, StoredType.all] at hu
    rcases List.mem_cons.1 hu with rfl | hu
    · exact List.suffix_refl place
    · obtain ⟨k, -, v, hv, hu⟩ := exists_of_mem_allOf id place hu
      exact (List.suffix_cons k place).trans (ih v hv (k :: place) hu)

/-- A place has one place right below it on the way to another one. -/
private theorem eq_of_cons_suffix {k n : Nat} {place l : List Nat} (h : k :: place <:+ l)
    (h' : n :: place <:+ l) : k = n := by
  rcases List.suffix_or_suffix_of_suffix h h' with h | h
  · exact (List.cons_eq_cons.1 (h.eq_of_length rfl)).1
  · exact (List.cons_eq_cons.1 (h.eq_of_length rfl)).1.symm

/-- No two places are the same object then. -/
theorem oneTypeEach_stored (t : TypeExpr) : OneTypeEach (t.stored id place).all := by
  induction t using inside_induction generalizing place with
  | step t ih =>
    have hinside : ∀ ts ⊆ t.inside, ∀ n,
        OneTypeEach (StoredType.allOf (storedAll id place n ts)) := by
      intro ts hts
      induction ts with
      | nil => exact fun n => nofun
      | cons v vs ihs =>
        intro n x hx y hy hobject
        obtain ⟨hv, hvs⟩ := List.cons_subset.1 hts
        -- Behind different numbers there are different places.
        have hapart {x y : StoredType (List Nat)} (hx : x ∈ (v.stored id (n :: place)).all)
            (hy : y ∈ StoredType.allOf (storedAll id place (n + 1) vs)) : x.object ≠ y.object := by
          intro hobject
          obtain ⟨k, hk, w, -, hy⟩ := exists_of_mem_allOf id place hy
          have hsuffix := suffix_of_mem_all (k :: place) w hy
          have hkn := eq_of_cons_suffix (hobject ▸ suffix_of_mem_all (n :: place) v hx) hsuffix
          omega
        rw [storedAll, StoredType.allOf] at hx hy
        rcases List.mem_append.1 hx with hx | hx <;> rcases List.mem_append.1 hy with hy | hy
        · exact ih v hv (n :: place) x hx y hy hobject
        · exact absurd hobject (hapart hx hy)
        · exact absurd hobject.symm (hapart hy hx)
        · exact ihs hvs (n + 1) x hx y hy hobject
    have hbehind {x : StoredType (List Nat)}
        (hx : x ∈ StoredType.allOf (storedAll id place 0 t.inside)) : x.object ≠ place := by
      rintro hobject
      obtain ⟨k, -, w, -, hx⟩ := exists_of_mem_allOf id place hx
      have hlength := (suffix_of_mem_all (k :: place) w hx).length_le
      rw [hobject, List.length_cons] at hlength
      omega
    intro x hx y hy hobject
    rw [stored_eq, StoredType.all] at hx hy
    rcases List.mem_cons.1 hx with rfl | hx <;> rcases List.mem_cons.1 hy with rfl | hy
    · rfl
    · exact absurd hobject.symm (hbehind hy)
    · exact absurd hobject (hbehind hx)
    · exact hinside _ (List.Subset.refl _) 0 x hx y hy hobject

/-- The declarations of a type are those that it mentions, each identity once. -/
theorem declarations_eq_distinctBy (t : TypeExpr) :
    t.declarations = distinctBy TypeDeclaration.identity t.mentioned := by
  rw [declarations, StoredType.collect_nil_eq _ (oneTypeEach_stored [] t), declared_stored,
    mentioned_eq_filterMap]

/-- The declarations of a type are those of all types in it, outermost first, and each identity is
kept where it occurs first. They are the same however the type is stored, if only one object holds
one type wherever it stands. -/
theorem collect_eq_firstOccurrences {κ : Type} [DecidableEq κ] (t : TypeExpr) :
    t.declarations =
        firstOccurrences TypeDeclaration.identity (t.within.filterMap declaration?) ∧
      ∀ object : List Nat → κ, OneTypeEach (t.stored object []).all →
        ((t.stored object []).collect []).1 =
          firstOccurrences TypeDeclaration.identity (t.within.filterMap declaration?) := by
  refine ⟨?_, fun object hone => ?_⟩
  · rw [declarations_eq_distinctBy, distinctBy_eq_firstOccurrences, mentioned_eq_filterMap]
  · rw [StoredType.collect_nil_eq _ hone, declared_stored, distinctBy_eq_firstOccurrences]

/-- An alias of a module. -/
def sharedName : TypeDeclaration := { name := "A", kind := .alias }

/-- Another one. -/
def genericName : TypeDeclaration := { name := "B", kind := .alias }

/-- A tuple of a reference and a type with that reference as its argument. -/
def sharedReference : TypeExpr :=
  let a : TypeExpr := .reference "A" "A" [] (some sharedName)
  .tuple "[A, B<A>]" [a, .reference "B<A>" "B" [a] (some genericName)]

/-- The objects of the tuple, where one object holds both references. -/
def sharedObject (place : List Nat) : Nat :=
  if place = [] then 0 else if place = [1] then 2 else 1

/-- The reference is stored once, so it is visited once. -/
theorem collect_sharedReference :
    OneTypeEach (sharedReference.stored sharedObject []).all ∧
      ((sharedReference.stored sharedObject []).collect []).1 = [sharedName, genericName] ∧
      firstOccurrences TypeDeclaration.identity (sharedReference.within.filterMap declaration?) =
        [sharedName, genericName] := by
  have hone : OneTypeEach (sharedReference.stored sharedObject []).all := by
    intro t ht u hu hobject
    simp only [sharedReference, stored, storedAll, StoredType.all, StoredType.allOf,
      List.mem_cons, List.append_nil, List.cons_append, List.nil_append, List.not_mem_nil,
      or_false] at ht hu
    rcases ht with rfl | rfl | rfl | rfl <;> rcases hu with rfl | rfl | rfl | rfl <;>
      first | rfl | exact absurd hobject (by decide)
  have hcollect := (collect_eq_firstOccurrences sharedReference).2 sharedObject hone
  have hnames : ((sharedReference.stored sharedObject []).collect []).1 =
      [sharedName, genericName] := rfl
  exact ⟨hone, hnames, hcollect.symm.trans hnames⟩

end TypeExpr

end StableProps
