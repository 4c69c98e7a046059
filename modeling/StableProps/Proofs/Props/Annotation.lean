import StableProps.Proofs.Distinct
import StableProps.Proofs.Props.Origin
import StableProps.Proofs.Types.Collected
import StableProps.Proofs.Types.Rendered

/-!
# Names in annotations

An annotation is the text of a type that was written in another module. References are written anew
by the names of their exports, also in unions, intersections, arrays and type arguments, and these
are the names that the plan binds. Functions, objects, tuples and other forms are taken over as they
were found: every name of a type in them, read as such or not, stands as its own module wrote it. So
the names of an annotation are bound unless one of a few things happened, and these are told apart
here.
-/

namespace StableProps

open MonadAttach (CanReturn)

/-! ## Names in the text of a node -/

/-- A name of a type that stands in a text. -/
structure TypeUse where
  /-- What stands there. -/
  text : String
  name : String
  /-- The module or namespace that the name is looked up in. -/
  qualifier : Option String := none

namespace Node

mutual

/-- The variables that the type behind `extends` infers. -/
def inferredNames (n : Node) : List String :=
  match n with
  | ⟨id, label, field, start, stop, text, children⟩ =>
    let n : Node := ⟨id, label, field, start, stop, text, children⟩
    match label with
    | .rule .inferType => (n.firstNamed?.map Node.text).toList
    | .rule .conditionalType => []
    | _ => inferredNamesAll children

/-- The variables that several types infer. -/
def inferredNamesAll : List Node → List String
  | [] => []
  | c :: cs => inferredNames c ++ inferredNamesAll cs

end

/-- The names of types that a node declares for one of its children: type parameters, the key of a
mapped type and the variables of a conditional type. -/
def declaredFor (n c : Node) : List String :=
  match n.label with
  | .rule .inferType => (n.firstNamed?.map Node.text).toList
  | .rule .conditionalType =>
    if c.field == some .consequence then ((n.child? .right).map inferredNames).getD [] else []
  | .rule .indexSignature =>
    (((n.childOf? .mappedTypeClause).bind (·.child? .name)).map Node.text).toList
  | _ => ((n.child? .typeParameters).map fun ps =>
      ps.namedChildren.filterMap fun p => (p.child? .name).map Node.text).getD []

/-- The name that a node behind `typeof` asks for. -/
def queriedUse? (n : Node) : Option TypeUse :=
  if n.is .identifier then some ⟨n.text, n.text, none⟩
  else match n.child? .object, n.child? .property with
    | some object, some property =>
      if object.is .identifier then some ⟨n.text, property.text, some object.text⟩ else none
    | _, _ => none

/-- The names behind `typeof`. -/
def queriedUses (n : Node) : List TypeUse :=
  match n.firstNamed? with
  | none => []
  | some c =>
    let subject := if c.is .instantiationExpression then c.firstNamed?.getD c else c
    subject.walk.filterMap queriedUse?

mutual

/-- The names of types in a node, except those that the text around a name declares itself. -/
def typeUses (own : List String) (n : Node) : List TypeUse :=
  match n with
  | ⟨id, label, field, start, stop, text, children⟩ =>
    let n : Node := ⟨id, label, field, start, stop, text, children⟩
    match label with
    | .rule .typeIdentifier => if own.contains text then [] else [⟨text, text, none⟩]
    | .rule .nestedTypeIdentifier =>
      match n.child? .qualifier, n.child? .name with
      | some qualifier, some last => [⟨text, last.text, some qualifier.text⟩]
      | _, _ => []
    | .rule .typeQuery => n.queriedUses ++ typeUsesBelow own n children
    | _ => typeUsesBelow own n children

/-- The names of types in some children of a node. -/
def typeUsesBelow (own : List String) (n : Node) : List Node → List TypeUse
  | [] => []
  | c :: cs => typeUses (n.declaredFor c ++ own) c ++ typeUsesBelow own n cs

end

example : ((parse .typescript
    "type F = \x7b (x: T): void; m<U>(x: U): typeof v; [K in keyof N.V]: K \x7d;").typeUses []).map
      TypeUse.text = ["F", "T", "v", "N.V"] := by
  decide +kernel

end Node

/-! ## Names in the text of a type -/

/-- A name that stands in the text of a type. -/
structure TypeName where
  /-- The name as it stands there. -/
  name : String
  /-- The declaration it refers to where the type was written. -/
  declaration : TypeDeclaration
  /-- Whether it is written anew, by the name of its export. -/
  isRespelled : Bool

namespace TypeExpr

/-- Parts that are taken over are printed as they were found. -/
theorem render_of_isTakenOver (t : TypeExpr) (h : t.isTakenOver = true) : t.render = t.text := by
  cases t <;> first | rfl | cases h

/-- A name stands in the text of a type because a reference is written anew, or because it stands in
a node whose text is taken over. There it refers to what it is bound to at the place of the node.
-/
inductive HoldsName (Reads : Node → Binder (Except Failure) → Prop) (t : TypeExpr) :
    TypeName → Prop where
  | respelled {text name : String} {arguments : List TypeExpr} {d : TypeDeclaration}
      (part : (TypeExpr.reference text name arguments (some d)).RenderedIn t) :
      HoldsName Reads t ⟨spelled text name (some d), d, true⟩
  | takenOver {part : TypeExpr} (rendered : part.RenderedIn t) (isTaken : part.isTakenOver = true)
      {n : Node} {bind : Binder (Except Failure)} (reads : Reads n bind) {nodes : List Node}
      (printed : n.PrintedAs part.render nodes) {c : Node} (mem : c ∈ nodes) {use : TypeUse}
      (uses : use ∈ c.typeUses []) {d : TypeDeclaration}
      (denotes : bind use.name use.qualifier = .ok (some d)) :
      HoldsName Reads t ⟨use.text, d, false⟩

variable {Reads : Node → Binder (Except Failure) → Prop} {t : TypeExpr} {x : TypeName}

private theorem prefix_render_reference (text name : String) (arguments : List TypeExpr)
    (d : Option TypeDeclaration) :
    (spelled text name d).toList <+: (render (.reference text name arguments d)).toList := by
  rw [render, spelled]
  generalize referenceName (if name = "" then text else name) d = spelled
  split
  · exact List.prefix_rfl
  · rw [String.append_assoc, String.append_assoc, String.toList_append]
    exact List.prefix_append _ _

/-- A name that is written anew is that of the export, and stands in the text. -/
theorem HoldsName.respells (h : t.HoldsName Reads x) (hrespelled : x.isRespelled = true) :
    x.name.toList <:+: t.render.toList ∧
      (x.declaration.kind ≠ .typeParameter → x.name = x.declaration.spelling) := by
  cases h with
  | @respelled text name arguments d part =>
    refine ⟨(prefix_render_reference text name arguments (some d)).isInfix.trans part.occurs, ?_⟩
    intro hkind
    exact if_neg hkind
  | takenOver => cases hrespelled

private theorem eq_of_identity_eq {d d' : TypeDeclaration} (h : d ∈ t.declarations)
    (h' : d' ∈ t.declarations) (hsame : d.identity = d'.identity) : d = d' := by
  have hnodup : (t.declarations.map TypeDeclaration.identity).Nodup := by
    rw [declarations_eq_distinctBy]
    exact nodup_map_distinctBy TypeDeclaration.identity t.mentioned
  exact List.inj_on_of_nodup_map hnodup h h' hsame

end TypeExpr

/-! ## Names that are bound -/

namespace ModuleIndex

/-- A name in an annotation is the one by which the plan binds its declaration. No plan binds a type
parameter. -/
def Knows (i : ModuleIndex) (plan : ImportPlan) (t : TypeExpr) (x : TypeName) : Prop :=
  x.declaration.kind ≠ .typeParameter ∧ ∃ d ∈ t.declarations,
    d.identity = x.declaration.identity ∧ i.Binds plan d ∧ x.name = i.localName d

/-- None of the declarations that are planned for has a name. -/
def Lacks (i : ModuleIndex) (t : TypeExpr) (name : String) : Prop :=
  ∀ d ∈ t.declarations, name ≠ i.localName d

instance (i : ModuleIndex) (t : TypeExpr) (name : String) : Decidable (i.Lacks t name) :=
  inferInstanceAs (Decidable (∀ d ∈ t.declarations, name ≠ i.localName d))

/-- How a name in an annotation can differ from the one that the plan binds. -/
inductive Misspells (i : ModuleIndex) (t : TypeExpr) (x : TypeName) : Prop where
  /-- It is a type parameter: one behind a declaration of the same name, or one of a method that is
  written as a function without its type parameters. -/
  | parameter (isParameter : x.declaration.kind = .typeParameter)
  /-- It is written by the name of an export of the module itself, which has another name for it. -/
  | exported {d : TypeDeclaration} (planned : d ∈ t.declarations)
      (same : d.identity = x.declaration.identity) (isRespelled : x.isRespelled = true)
      (own : d.modulePath = some i.path) (renamed : x.declaration.spelling ≠ d.name)
  /-- It is planned for by a declaration of the same name that is exported by another one. -/
  | mixed {d : TypeDeclaration} (planned : d ∈ t.declarations)
      (same : d.identity = x.declaration.identity) (isRespelled : x.isRespelled = true)
      (foreign : d.modulePath ≠ some i.path) (renamed : x.declaration.spelling ≠ d.spelling)
  /-- It stands as it was found, and its own module has another name for it. -/
  | renamed {d : TypeDeclaration} (planned : d ∈ t.declarations)
      (same : d.identity = x.declaration.identity) (isFound : x.isRespelled = false)
      (renamed : x.name ≠ i.localName d)
  /-- It stands where no types are read: in the bound of a type parameter, in a signature without a
  name, behind `typeof`, or qualified in a form that is not looked into. So nothing is planned for
  it. -/
  | unread (unplanned : ∀ d ∈ t.declarations, d.identity ≠ x.declaration.identity)

variable {i : ModuleIndex} {t : TypeExpr} {x : TypeName} {plan : ImportPlan}

/-- A name that is not misspelled is that of the declaration that is planned for. -/
theorem name_eq_iff (hspelled : x.isRespelled = true → x.name = x.declaration.spelling)
    (hkind : x.declaration.kind ≠ .typeParameter) {d : TypeDeclaration} (hd : d ∈ t.declarations)
    (hsame : d.identity = x.declaration.identity) :
    x.name = i.localName d ↔ ¬i.Misspells t x := by
  constructor
  · intro hname hmisspells
    have hplanned {d' : TypeDeclaration} (hd' : d' ∈ t.declarations)
        (hsame' : d'.identity = x.declaration.identity) : x.name = i.localName d' := by
      rw [TypeExpr.eq_of_identity_eq hd' hd (hsame'.trans hsame.symm)]
      exact hname
    cases hmisspells with
    | parameter isParameter => exact hkind isParameter
    | exported planned same isRespelled own renamed =>
      have heq := hplanned planned same
      rw [hspelled isRespelled, localName, if_pos own] at heq
      exact renamed heq
    | mixed planned same isRespelled foreign renamed =>
      have heq := hplanned planned same
      rw [hspelled isRespelled, localName, if_neg foreign] at heq
      exact renamed heq
    | renamed planned same isFound renamed => exact renamed (hplanned planned same)
    | unread unplanned => exact unplanned d hd hsame
  · intro hmisspells
    by_contra hname
    refine hmisspells ?_
    cases hrespelled : x.isRespelled with
    | false => exact .renamed hd hsame hrespelled hname
    | true =>
      rw [hspelled hrespelled] at hname
      by_cases hown : d.modulePath = some i.path
      · rw [localName, if_pos hown] at hname
        exact .exported hd hsame hrespelled hown hname
      · rw [localName, if_neg hown] at hname
        exact .mixed hd hsame hrespelled hown hname

/-- All declarations of a type that can be imported are bound, so a name is known exactly if it is
not misspelled. -/
theorem knows_iff (hplan : i.PlansAll t.declarations {} plan) (himportable : plan.unreachable = [])
    {Reads : Node → Binder (Except Failure) → Prop} (h : t.HoldsName Reads x) :
    i.Knows plan t x ↔ ¬i.Misspells t x := by
  by_cases hkind : x.declaration.kind = .typeParameter
  · exact ⟨fun hknows => absurd hkind hknows.1, fun hnot => absurd (.parameter hkind) hnot⟩
  by_cases hplanned : ∃ d ∈ t.declarations, d.identity = x.declaration.identity
  · -- What is planned for is bound, so it is left to compare the spellings.
    obtain ⟨d, hd, hsame⟩ := hplanned
    have hspelled := fun hrespelled => (h.respells hrespelled).2 hkind
    rw [← name_eq_iff hspelled hkind hd hsame]
    constructor
    · rintro ⟨-, d', hd', hsame', -, hname⟩
      rw [TypeExpr.eq_of_identity_eq hd hd' (hsame.trans hsame'.symm)]
      exact hname
    · intro hname
      exact ⟨hkind, d, hd, hsame, (hplan.binds himportable d hd).2, hname⟩
  · push Not at hplanned
    constructor
    · rintro ⟨-, d, hd, hsame, -⟩
      exact absurd hsame (hplanned d hd)
    · exact fun hnot => absurd (.unread hplanned) hnot

end ModuleIndex

namespace TypeExpr

private theorem RenderedIn.mem_within {part t : TypeExpr} (h : part.RenderedIn t) :
    part ∈ t.within := by
  have hinside {u v : TypeExpr} (hu : u ∈ v.inside) (h : part ∈ u.within) : part ∈ v.within := by
    rw [within_eq]
    exact List.mem_cons_of_mem _ (List.mem_flatMap.2 ⟨u, hu, h⟩)
  induction h with
  | self => exact mem_within_self part
  | argument ha _ ih => exact hinside ha ih
  | unionMember ha _ ih => exact hinside ha ih
  | intersectionMember ha _ ih => exact hinside ha ih
  | element _ ih => exact hinside (List.mem_singleton_self _) ih

end TypeExpr

namespace Planner

variable {r : Resolver} {source : Source} {p : Planner (Except Failure)}

/-- A type that is written at a new binding, not as an indexed access, is the declared type of the
prop or its callable part. Each part of it that is taken over has the text of a node of a known
module or of the library. A name of a type in the text, written anew or standing in such a node, is
the one by which the plan binds its declaration, unless it is misspelled in one of five ways. -/
theorem knows_iff_not_misspells (hp : (Workspace.fresh r).planner source = .ok p) (s : Site)
    (callback : Bool) {b : BindingType} (h : p.bindingType s callback = .ok b)
    (htext : b.text ≠ none) (hindexed : b.isIndexed = false) :
    ∃ t, p.Annotates s callback t b ∧
      (∀ part : TypeExpr, part.RenderedIn t → part.isTakenOver = true →
        part = .unread ∨ ∃ n nodes bind, p.project.Reads r n bind ∧ n.PrintedAs part.render nodes) ∧
      ∀ x, t.HoldsName (p.project.Reads r) x →
        (x.isRespelled = true → x.name.toList <:+: t.render.toList) ∧
          (p.main.Knows b.plan t x ↔ ¬p.main.Misspells t x) := by
  obtain ⟨t, ht⟩ := exists_annotates (m := Except Failure) h htext hindexed
  refine ⟨t, ht, fun part hpart htaken => ?_, fun x hx => ⟨fun hrespelled => ?_, ?_⟩⟩
  · rcases (ht.isRead hp part hpart.mem_within).2 htaken with hunread | ⟨n, nodes, hreads, hprinted⟩
    · exact .inl hunread
    · obtain ⟨bind, hreads⟩ := hreads
      exact .inr ⟨n, nodes, bind, hreads, part.render_of_isTakenOver htaken ▸ hprinted⟩
  · exact (hx.respells hrespelled).1
  · have hplan := plansAll_of_foldlM (Query.canReturn_of_run (m := Except Failure) ht.plan)
    exact ModuleIndex.knows_iff hplan ht.isImportable hx

/-- A module that draws a component of another one with a fresh callback. -/
def freshCallback : Source :=
  .parsed (FileTree.resolve (.ofText "a.tsx")) .tsx
    ("import \x7b A \x7d from './b';\n" ++
      "function C(\x7b x \x7d) \x7b return <A f=\x7b() => x\x7d />; \x7d\n")

/-- The module of the component, which renames a type that it imports, and the module of that type.
-/
def renamingFiles : FileTree :=
  (FileTree.empty.write (.ofText "b.tsx")
    ("import \x7b T as U \x7d from './c';\n" ++
      "export function A(props: \x7b f: (x: U) => void \x7d) \x7b return null; \x7d\n")).write
    (.ofText "c.ts") "export type T = number;\n"

/-- A node of the module at a path has the text of a type, and holds a name by which no declaration
is planned for, though it refers to one. -/
def LacksUse (p : Planner (Except Failure)) (path : Path) (t : TypeExpr) : Prop :=
  ∃ module, p.project.index path = .ok module ∧ ∃ i, module = some i ∧ i.path = path ∧
    ∃ f ∈ i.source.root.focus.walk, f.node.text = t.text ∧
      ∃ use ∈ f.node.typeUses [], p.main.Lacks t use.text ∧
        ∃ found, p.project.binder i f use.name use.qualifier = .ok found ∧ found.isSome = true

instance (p : Planner (Except Failure)) (path : Path) (t : TypeExpr) :
    Decidable (p.LacksUse path t) := by
  unfold LacksUse
  infer_instance

set_option synthInstance.maxSize 200 in
set_option maxRecDepth 100000 in
/-- The annotation has a name for the type that the module does not know. -/
theorem bindingType_freshCallback :
    ∃ p, (Workspace.fresh ⟨renamingFiles, none⟩).planner freshCallback = .ok p ∧
      ∃ s ∈ Site.all freshCallback {} (IgnoreList.ofEntries []),
        (∃ b, p.bindingType s true = .ok b ∧ b.text ≠ none ∧ b.isIndexed = false) ∧
          ∃ answer, p.declaredType s = .ok answer ∧ ∃ found, answer = .ok found ∧
            ∃ d, found = some d ∧
              ∃ wanted, p.ask (fun q => d.type.filteredUnion? q.project.isCallable) = .ok wanted ∧
                ∃ t, wanted = some t ∧ t.isTakenOver = true ∧
                  p.LacksUse (FileTree.resolve (.ofText "b.tsx")) t := by
  decide +kernel

/-- Without a monad around the look-ups, only one type annotates a binding. -/
theorem Annotates.unique {s : Site} {callback : Bool} {t t' : TypeExpr} {b b' : BindingType}
    (h : p.Annotates s callback t b) (h' : p.Annotates s callback t' b') : t = t' := by
  obtain ⟨d, hd, hwanted⟩ := h.declared
  obtain ⟨d', hd', hwanted'⟩ := h'.declared
  obtain rfl : d = d' := Option.some.inj (Except.ok.inj (Except.ok.inj (hd.symm.trans hd')))
  cases callback with
  | true => exact Option.some.inj (Except.ok.inj (hwanted.symm.trans hwanted'))
  | false => exact hwanted.trans hwanted'.symm

/-- A name in a node of a known module that is planned for by no declaration stands in the text. -/
theorem LacksUse.exists_holdsName (hp : (Workspace.fresh r).planner source = .ok p) {path : Path}
    {t : TypeExpr} (h : p.LacksUse path t) (htaken : t.isTakenOver = true) :
    ∃ x, t.HoldsName (p.project.Reads r) x ∧ p.main.Lacks t x.name := by
  obtain ⟨_, hindex, i, rfl, rfl, f, hf, htext, use, huse, hlacks, _, hbound, hsome⟩ := h
  obtain ⟨d, rfl⟩ := Option.isSome_iff_exists.1 hsome
  have hreads : p.project.Reads r f.node (p.project.binder i f) :=
    .place (Workspace.knows_of_index_self hp hindex) (Focus.mem_walk_iff.1 hf)
  have hprinted : f.node.PrintedAs t.render [f.node] := by
    rw [t.render_of_isTakenOver htaken, ← htext]
    exact .whole
  exact ⟨_, .takenOver .self htaken hreads hprinted (List.mem_singleton_self _) huse hbound, hlacks⟩

private theorem annotates_freshCallback :
    ∃ p, (Workspace.fresh ⟨renamingFiles, none⟩).planner freshCallback = .ok p ∧
      ∃ s ∈ Site.all freshCallback {} (IgnoreList.ofEntries []),
        ∃ b, p.bindingType s true = .ok b ∧ b.text ≠ none ∧ b.isIndexed = false ∧
          ∃ t, p.Annotates s true t b ∧
            ∃ x, t.HoldsName (p.project.Reads ⟨renamingFiles, none⟩) x ∧ p.main.Lacks t x.name := by
  obtain ⟨p, hp, s, hs, ⟨b, hb, htext, hindexed⟩, _, hdeclared, _, rfl, d, rfl, _, hwanted, t, rfl,
    htaken, hlacks⟩ := bindingType_freshCallback
  have hreturns : CanReturn (p.bindingType s true) b := hb
  obtain ⟨t', ht'⟩ := exists_annotates hreturns htext hindexed
  obtain ⟨d', hd', hwanted'⟩ := ht'.declared
  obtain rfl : d = d' := Option.some.inj (Except.ok.inj (Except.ok.inj (hdeclared.symm.trans hd')))
  obtain rfl : t = t' := Option.some.inj (Except.ok.inj (hwanted.symm.trans hwanted'))
  exact ⟨p, hp, s, hs, b, hb, htext, hindexed, t, ht', hlacks.exists_holdsName hp htaken⟩

/-- The renamed type is misspelled in the annotation, which is the text of a node. -/
theorem misspells_freshCallback :
    ∃ p, (Workspace.fresh ⟨renamingFiles, none⟩).planner freshCallback = .ok p ∧
      ∃ s ∈ Site.all freshCallback {} (IgnoreList.ofEntries []),
        ∃ b, p.bindingType s true = .ok b ∧ b.text ≠ none ∧ b.isIndexed = false ∧
          ∃ t, p.Annotates s true t b ∧
            ∃ x, t.HoldsName (p.project.Reads ⟨renamingFiles, none⟩) x ∧ p.main.Misspells t x := by
  obtain ⟨p, hp, s, hs, b, hb, htext, hindexed, t, ht, x, hx, hlacks⟩ := annotates_freshCallback
  obtain ⟨t', ht', -, hnames⟩ := knows_iff_not_misspells hp s true hb htext hindexed
  obtain rfl := ht.unique ht'
  refine ⟨p, hp, s, hs, b, hb, htext, hindexed, t, ht, x, hx, ?_⟩
  by_contra hspelled
  obtain ⟨-, d, hd, -, -, hname⟩ := (hnames x hx).2.2 hspelled
  exact hlacks d hd hname

/-- An annotation may have names that the plan does not bind. -/
theorem not_forall_knows :
    ¬∀ (tree : FileTree) (source : Source) (p : Planner (Except Failure)),
      (Workspace.fresh ⟨tree, none⟩).planner source = .ok p →
        ∀ s ∈ Site.all source {} (IgnoreList.ofEntries []), ∀ callback b,
          p.bindingType s callback = .ok b → b.text ≠ none → b.isIndexed = false →
            ∀ t, p.Annotates s callback t b →
              ∀ x, t.HoldsName (p.project.Reads ⟨tree, none⟩) x → p.main.Knows b.plan t x := by
  intro hall
  obtain ⟨p, hp, s, hs, b, hb, htext, hindexed, t, ht, x, hx, hlacks⟩ := annotates_freshCallback
  obtain ⟨-, d, hd, -, -, hname⟩ :=
    hall renamingFiles freshCallback p hp s hs true b hb htext hindexed t ht x hx
  exact hlacks d hd hname

end Planner

end StableProps
