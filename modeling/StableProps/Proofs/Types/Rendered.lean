import Mathlib.Data.List.Infix
import StableProps.Types.Expr

/-!
# Texts of types

The text of a type in another module holds those of the types it is written with: the arguments of
a reference, the members of a union or intersection and the element of an array, in parentheses
where these are needed.
-/

namespace StableProps.TypeExpr

/-- The name that a reference is written by. -/
def spelled (text name : String) (d : Option TypeDeclaration) : String :=
  referenceName (if name = "" then text else name) d

/-- Whether a type is put in parentheses as a member of a union or intersection. -/
def isGroupedIn (isUnion : Bool) (t : TypeExpr) : Bool := t.isFunction || (!isUnion && t.isUnion)

/-- Whether a type is put in parentheses as the element of an array. -/
def isGrouped (t : TypeExpr) : Bool := t.isFunction || t.isUnion || t.isIntersection

/-- The text of a member. -/
def memberText (isUnion : Bool) (t : TypeExpr) : String :=
  parenthesized (t.isGroupedIn isUnion) t.render

/-- Several types are printed one by one. -/
theorem renderAll_eq_map (ts : List TypeExpr) : renderAll ts = ts.map render := by
  induction ts with
  | nil => rfl
  | cons t ts ih => rw [renderAll, ih, List.map_cons]

/-- The members of a union are printed one by one. -/
theorem renderUnion_eq_map (ts : List TypeExpr) : renderUnion ts = ts.map (memberText true) := by
  induction ts with
  | nil => rfl
  | cons t ts ih =>
    rw [renderUnion, ih, List.map_cons, memberText, isGroupedIn, Bool.not_true, Bool.false_and,
      Bool.or_false]

/-- The members of an intersection are printed one by one. -/
theorem renderIntersection_eq_map (ts : List TypeExpr) :
    renderIntersection ts = ts.map (memberText false) := by
  induction ts with
  | nil => rfl
  | cons t ts ih =>
    rw [renderIntersection, ih, List.map_cons, memberText, isGroupedIn, Bool.not_false,
      Bool.true_and]

/-- A text stands inside of its parentheses. -/
private theorem infix_parenthesized (needed : Bool) (s : String) :
    s.toList <:+: (parenthesized needed s).toList := by
  rw [parenthesized]
  split
  · exact ⟨['('], [')'], by simp⟩
  · exact List.infix_rfl

/-- Each of several texts stands in what they are joined to. -/
private theorem infix_intercalate (separator : String) {s : String} {texts : List String}
    (h : s ∈ texts) : s.toList <:+: (String.intercalate separator texts).toList := by
  induction texts with
  | nil => simp at h
  | cons first rest ih =>
    by_cases hrest : rest = []
    · subst hrest
      obtain rfl := List.mem_singleton.1 h
      simp
    · rw [String.intercalate_cons_of_ne_nil hrest, String.toList_append, String.toList_append]
      rcases List.mem_cons.1 h with rfl | h
      · rw [List.append_assoc]
        exact (List.prefix_append _ _).isInfix
      · exact (ih h).trans (List.suffix_append _ _).isInfix

/-- The text of a reference with arguments. -/
theorem render_reference {text name : String} {arguments : List TypeExpr}
    {d : Option TypeDeclaration} (h : arguments ≠ []) :
    (reference text name arguments d).render =
      spelled text name d ++ "<" ++ String.intercalate ", " (arguments.map render) ++ ">" := by
  rw [render, ← renderAll_eq_map]
  simp [h, spelled]

/-- A type whose text stands in that of another one. -/
inductive RenderedIn (part : TypeExpr) : TypeExpr → Prop where
  | self : RenderedIn part part
  | argument {text name : String} {arguments : List TypeExpr} {d : Option TypeDeclaration}
      {a : TypeExpr} : a ∈ arguments → RenderedIn part a →
      RenderedIn part (.reference text name arguments d)
  | unionMember {text : String} {members : List TypeExpr} {a : TypeExpr} : a ∈ members →
      RenderedIn part a → RenderedIn part (.union text members)
  | intersectionMember {text : String} {members : List TypeExpr} {a : TypeExpr} : a ∈ members →
      RenderedIn part a → RenderedIn part (.intersection text members)
  | element {text : String} {element : TypeExpr} : RenderedIn part element →
      RenderedIn part (.array text element)

/-- The text of a type holds those of the types it is written with. -/
theorem RenderedIn.occurs {part t : TypeExpr} (h : part.RenderedIn t) :
    part.render.toList <:+: t.render.toList := by
  induction h with
  | self => exact List.infix_rfl
  | argument ha _ ih =>
    refine (ih.trans (infix_intercalate ", " (List.mem_map_of_mem ha))).trans ?_
    rw [render_reference (List.ne_nil_of_mem ha), String.toList_append, String.toList_append]
    exact List.infix_append _ _ _
  | @unionMember _ _ a ha _ ih =>
    refine (ih.trans (infix_parenthesized (a.isGroupedIn true) _)).trans ?_
    rw [render, renderUnion_eq_map]
    exact infix_intercalate _ (List.mem_map_of_mem ha)
  | @intersectionMember _ _ a ha _ ih =>
    refine (ih.trans (infix_parenthesized (a.isGroupedIn false) _)).trans ?_
    rw [render, renderIntersection_eq_map]
    exact infix_intercalate _ (List.mem_map_of_mem ha)
  | element _ ih =>
    rw [render, String.toList_append]
    exact (ih.trans (infix_parenthesized _ _)).trans (List.prefix_append _ _).isInfix

end StableProps.TypeExpr
