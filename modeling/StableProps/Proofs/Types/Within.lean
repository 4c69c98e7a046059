import Mathlib.Data.List.Basic
import StableProps.Types.Expr

/-!
# All types in a type

A type is made of the types directly inside of it: its arguments, the types of its parameters and
members, and the type that it returns. Going on in each of them gives all types in it, outermost
first. What holds of a type as soon as it holds of the types directly inside holds of all types.
-/

namespace StableProps.TypeExpr

/-- The types directly inside of a type: arguments, types of parameters or members, and the type
that is returned. -/
def inside : TypeExpr → List TypeExpr
  | .reference _ _ arguments _ => arguments
  | .union _ members => members
  | .intersection _ members => members
  | .function _ parameters returns => parameters.filterMap TypeMember.type? ++ returns.toList
  | .object _ members _ => members.filterMap TypeMember.type?
  | .array _ element => [element]
  | .tuple _ items => items
  | .indexed _ parts => parts
  | .raw _ references => references
  | .keyword _ => []
  | .literal _ => []
  | .query _ => []

variable {t u : TypeExpr}

private theorem sizeOf_lt_of_mem_types {xs : List TypeMember}
    (h : u ∈ xs.filterMap TypeMember.type?) : sizeOf u < sizeOf xs := by
  obtain ⟨x, hx, htype⟩ := List.mem_filterMap.1 h
  have hsize := List.sizeOf_lt_of_mem hx
  cases x with
  | untyped => cases htype
  | typed name type isOptional =>
    obtain rfl := Option.some.inj htype
    rw [TypeMember.typed.sizeOf_spec] at hsize
    omega

private theorem sizeOf_lt_of_mem_inside (h : u ∈ t.inside) : sizeOf u < sizeOf t := by
  cases t with
  | reference text name arguments d =>
    have hsize : sizeOf u < sizeOf arguments := List.sizeOf_lt_of_mem h
    rw [reference.sizeOf_spec]
    omega
  | union text members =>
    have hsize : sizeOf u < sizeOf members := List.sizeOf_lt_of_mem h
    rw [union.sizeOf_spec]
    omega
  | intersection text members =>
    have hsize : sizeOf u < sizeOf members := List.sizeOf_lt_of_mem h
    rw [intersection.sizeOf_spec]
    omega
  | function text parameters returns =>
    rw [function.sizeOf_spec]
    rcases List.mem_append.1 h with h | h
    · have hsize := sizeOf_lt_of_mem_types h
      omega
    · obtain rfl := Option.mem_toList.1 h
      rw [Option.some.sizeOf_spec]
      omega
  | object text members callable =>
    have hsize := sizeOf_lt_of_mem_types h
    rw [object.sizeOf_spec]
    omega
  | array text element =>
    obtain rfl := List.mem_singleton.1 h
    rw [array.sizeOf_spec]
    omega
  | tuple text items =>
    have hsize : sizeOf u < sizeOf items := List.sizeOf_lt_of_mem h
    rw [tuple.sizeOf_spec]
    omega
  | indexed text parts =>
    have hsize : sizeOf u < sizeOf parts := List.sizeOf_lt_of_mem h
    rw [indexed.sizeOf_spec]
    omega
  | raw text references =>
    have hsize : sizeOf u < sizeOf references := List.sizeOf_lt_of_mem h
    rw [raw.sizeOf_spec]
    omega
  | keyword | literal | query => cases h

/-- A property of types that is inherited from the types directly inside holds of all types. -/
@[elab_as_elim]
theorem inside_induction {motive : TypeExpr → Prop}
    (step : ∀ t, (∀ u ∈ t.inside, motive u) → motive t) (t : TypeExpr) : motive t :=
  step t fun u _ => inside_induction step u
termination_by sizeOf t
decreasing_by exact sizeOf_lt_of_mem_inside ‹_›

/-- All types in a type, itself included, outermost first. -/
def within (t : TypeExpr) : List TypeExpr :=
  t :: t.inside.attach.flatMap fun u => u.1.within
termination_by sizeOf t
decreasing_by exact sizeOf_lt_of_mem_inside u.2

/-- What is within a type is the type itself and all that is within what is right inside it. -/
theorem within_eq (t : TypeExpr) : t.within = t :: t.inside.flatMap within := by
  rw [within, List.flatMap_subtype]
  · rw [List.unattach_attach]
  · intros
    rfl

/-- A type is within itself. -/
theorem mem_within_self (t : TypeExpr) : t ∈ t.within := by
  rw [within_eq]
  exact List.mem_cons_self

/-- What holds within a type holds of it and within all that is right inside it. -/
theorem forall_mem_within {P : TypeExpr → Prop} :
    (∀ u ∈ t.within, P u) ↔ P t ∧ ∀ u ∈ t.inside, ∀ v ∈ u.within, P v := by
  rw [within_eq, List.forall_mem_cons]
  simp only [List.mem_flatMap]
  grind

/-- What is in a type that is in another one is in that one too. -/
theorem within_subset (h : u ∈ t.within) : u.within ⊆ t.within := by
  induction t using inside_induction with
  | step t ih =>
    intro v hv
    rw [within_eq] at h ⊢
    rcases List.mem_cons.1 h with rfl | h
    · rwa [within_eq] at hv
    · obtain ⟨w, hw, h⟩ := List.mem_flatMap.1 h
      exact List.mem_cons_of_mem _ (List.mem_flatMap.2 ⟨w, hw, ih w hw h hv⟩)

/-! ## Declarations -/

/-- Several types mention what each of them mentions. -/
theorem mentionedAll_eq_flatMap (ts : List TypeExpr) : mentionedAll ts = ts.flatMap mentioned := by
  induction ts with
  | nil => rfl
  | cons t ts ih => rw [mentionedAll, ih, List.flatMap_cons]

private theorem mentionedMembers_eq_flatMap (xs : List TypeMember) :
    mentionedMembers xs = (xs.filterMap TypeMember.type?).flatMap mentioned := by
  induction xs with
  | nil => rfl
  | cons x xs ih =>
    cases x with
    | typed => exact congrArg _ ih
    | untyped => exact ih

/-- A type mentions its own declaration, and then what is mentioned right inside it. -/
private theorem mentioned_eq (t : TypeExpr) :
    t.mentioned = t.declaration?.toList ++ t.inside.flatMap mentioned := by
  cases t with
  | function text parameters returns =>
    cases returns <;>
      simp [mentioned, declaration?, inside, mentionedMembers_eq_flatMap]
  | _ => simp [mentioned, declaration?, inside, mentionedAll_eq_flatMap,
      mentionedMembers_eq_flatMap]

/-- The declarations that a type refers to are those of all types in it. -/
theorem mentioned_eq_filterMap (t : TypeExpr) : t.mentioned = t.within.filterMap declaration? := by
  induction t using inside_induction with
  | step t ih =>
    rw [mentioned_eq, within_eq, List.filterMap_cons, List.filterMap_flatMap, List.flatMap_congr ih]
    cases t.declaration? <;> rfl

end StableProps.TypeExpr
