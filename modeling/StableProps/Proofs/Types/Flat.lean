import StableProps.Proofs.Types.Built

/-!
# Flat types

Nested unions are built into one, and so are nested intersections. So a type that a node stands for
has no union among the members of a union and no intersection among those of an intersection, and
the type that is printed member by member says where each member ends.
-/

namespace StableProps

open MonadAttach (CanReturn)

namespace TypeExpr

mutual

/-- Whether no member of a union is a union and no member of an intersection is an intersection,
in all that is printed from its parts. -/
def IsFlat : TypeExpr → Prop
  | .reference _ _ arguments _ => AreFlat arguments
  | .union _ members => (∀ t ∈ members, t.isUnion = false) ∧ AreFlat members
  | .intersection _ members => (∀ t ∈ members, t.isIntersection = false) ∧ AreFlat members
  | .array _ element => IsFlat element
  | _ => True

/-- Whether several types are flat. -/
def AreFlat : List TypeExpr → Prop
  | [] => True
  | t :: ts => IsFlat t ∧ AreFlat ts

end

theorem areFlat_iff {ts : List TypeExpr} : AreFlat ts ↔ ∀ t ∈ ts, t.IsFlat := by
  induction ts with
  | nil => simp [AreFlat]
  | cons t ts ih => simp [AreFlat, ih]

/-- A type that has the form of types that are built from syntax is flat. -/
theorem IsBuilt.isFlat {Found : TypeDeclaration → Prop} {t : TypeExpr} (h : t.IsBuilt Found) :
    t.IsFlat := by
  induction t using inside_induction with
  | step t ih =>
    obtain ⟨hform, hinside⟩ := isBuilt_iff.1 h
    have hflat (u : TypeExpr) (hu : u ∈ t.inside) : u.IsFlat := ih u hu (hinside u hu)
    cases t with
    | reference => exact areFlat_iff.2 hflat
    | union => exact ⟨hform.union rfl, areFlat_iff.2 hflat⟩
    | intersection => exact ⟨hform.intersection rfl, areFlat_iff.2 hflat⟩
    | array text element => exact hflat element (List.mem_singleton_self element)
    | _ => trivial

variable {m : Type → Type} [Monad m] [LawfulMonad m] [MonadAttach m] [LawfulMonadAttach m]
variable {bind : Binder m}

/-- Whatever names are bound to, a type that a node stands for has the form of types that are built
from syntax. -/
theorem isBuilt_of_build {n : Node} {t : TypeExpr} (ht : CanReturn (build bind n) t) :
    t.IsBuilt fun _ => True :=
  isBuilt_build (.canReturn m) (fun _ _ _ _ _ _ => trivial) n t ht

/-- The types that nodes stand for are flat. -/
theorem isFlat_of_build {n : Node} {t : TypeExpr} (ht : CanReturn (build bind n) t) :
    t.IsFlat :=
  (isBuilt_of_build ht).isFlat

end TypeExpr

end StableProps
