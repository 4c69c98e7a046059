import StableProps.Proofs.Module.Asked
import StableProps.Proofs.Props.Collapse
import StableProps.Proofs.Scope.Recorded

/-!
# Where types of props come from

The type of a prop is looked up from its tag to the declaration of the component, from there to the
type of the props, and through aliases, interfaces and unions to the type of the member. All that is
built on the way is built from nodes of modules that the project knows, or of the types of the
library, and so is what is put together from it.
-/

namespace StableProps

open TypeExpr (IsBuiltFrom)

namespace Project

variable {p : Project (Except Failure)} {r : Resolver} {i : ModuleIndex} {f g : Focus}
variable {t u : TypeExpr} {ts : List TypeExpr} {d : TypeDeclaration}

/-- A node is read with its names bound in a way: at its place in a known module, or as the library
has it. -/
inductive Reads (p : Project (Except Failure)) (r : Resolver) :
    Node → Binder (Except Failure) → Prop where
  | place {i : ModuleIndex} {f : Focus} (known : p.Knows r i) (inside : f.IsIn i.source.root) :
      Reads p r f.node (p.binder i f)
  | library {text : String} {f : Focus}
      (inside : f.IsIn (parse .typescript ("type __T = " ++ text ++ ";"))) :
      Reads p r f.node fun name qualifier => .ok (Id.run (Intrinsic.bind name qualifier))

/-- A type is made of what is read in the project. -/
def IsRead (p : Project (Except Failure)) (r : Resolver) (t : TypeExpr) : Prop :=
  t.IsBuiltFrom (fun n => ∃ bind, p.Reads r n bind) (p.Found r)

/-- A place stands in a known module. -/
structure IsKnown (p : Project (Except Failure)) (r : Resolver) (d : ModulePlace) : Prop where
  known : p.Knows r d.module
  inside : d.place.IsIn d.module.source.root

/-! ## Types that are built -/

/-- All that is written below a place of a known module is read. -/
private theorem exists_reads (hi : p.Knows r i) (hg : g.IsIn i.source.root) :
    ∀ c ∈ g.node.walk, ∃ bind, p.Reads r c bind := by
  intro c hc
  obtain ⟨f, rfl, hf⟩ := hg.exists_of_mem_walk hc
  exact ⟨_, .place hi hf⟩

/-- What the names at a place of a known module are bound to is found in the project. -/
private theorem finds_binder (hi : p.Knows r i) (hf : f.IsIn i.source.root) :
    TypeExpr.Finds p.asked ((asking p.bound).binder i f) (p.Found r) := by
  intro name qualifier found hfound d hd
  rw [run_binder] at hfound
  exact .inr ⟨i, hi, f, hf, name, qualifier, hd ▸ hfound⟩

/-- A type that is built at a place of a known module is made of what is read there. -/
private theorem isRead_build (hi : p.Knows r i) (hf : f.IsIn i.source.root)
    (hg : g.IsIn i.source.root) :
    p.asked.Ensures (p.IsRead r) (TypeExpr.build ((asking p.bound).binder i f) g.node) :=
  TypeExpr.isBuiltFrom_build p.asked (finds_binder hi hf) g.node (exists_reads hi hg)

/-- So is the type of a member. -/
private theorem isRead_buildMember (hi : p.Knows r i) (hf : f.IsIn i.source.root)
    (hg : g.IsIn i.source.root) :
    p.asked.Ensures (fun x => ∀ t, x.type? = some t → p.IsRead r t)
      (TypeExpr.buildMember ((asking p.bound).binder i f) g.node) :=
  TypeExpr.isBuiltFrom_buildMember p.asked (finds_binder hi hf) g.node (exists_reads hi hg)

/-- A type that is written at a place of a known module is made of what is read there. -/
theorem isRead_typeAt (hi : p.Knows r i) (hf : f.IsIn i.source.root) :
    p.asked.Ensures (p.IsRead r) ((asking p.bound).typeAt i f) :=
  isRead_build hi hf hf

private theorem isRead_some_typeAt (hi : p.Knows r i) (hf : f.IsIn i.source.root) :
    p.asked.Ensures (∀ t ∈ ·, p.IsRead r t)
      (do return some (← (asking p.bound).typeAt i f) : Query (Option TypeExpr)) := by
  refine p.asked.bind (isRead_typeAt hi hf) fun t ht => p.asked.pure ?_
  rintro _ ⟨⟩
  exact ht

/-! ## Components -/

/-- The declaration of a symbol in its own module is known. -/
private theorem isKnown_ownDeclaration? (hi : p.Knows r i) {σ : Symbol}
    (hσ : Event.DeclaredIn i.source.root σ) : ∀ d ∈ ownDeclaration? i σ, p.IsKnown r d := by
  intro d hd
  rw [ownDeclaration?] at hd
  split at hd
  · obtain rfl := Option.some.inj hd
    exact ⟨hi, hσ.declaration_isIn⟩
  · cases hd

/-- A value of a module is a symbol that is declared there. -/
private theorem declaredIn_of_value? (hi : p.Knows r i) {name : String} {σ : Symbol}
    (h : i.value? name = some σ) : Event.DeclaredIn i.source.root σ := by
  rw [ModuleIndex.value?, ModuleIndex.scopes_eq_of_ofSource hi.ofSource,
    ← ScopeTree.lookup_root] at h
  exact (ScopeTree.exists_of_lookup h).2.1

/-- A name resolves to a symbol that is declared in the module. -/
theorem declaredIn_of_resolve (hi : p.Knows r i) {σ : Symbol}
    (h : i.scopes.resolve f = some σ) : Event.DeclaredIn i.source.root σ := by
  rw [ModuleIndex.scopes_eq_of_ofSource hi.ofSource] at h
  exact ScopeTree.declaredIn_of_resolve h

section

variable (hclosed : p.Closed (p.Knows r))

include hclosed

/-- A symbol of a known module is declared in a known module. -/
theorem isKnown_declarationOf (hi : p.Knows r i) {σ : Symbol}
    (hσ : Event.DeclaredIn i.source.root σ) :
    p.asked.Ensures (∀ d ∈ ·, p.IsKnown r d) ((asking p.bound).declarationOf i σ) := by
  have hfollow (name : String) :
      p.asked.Ensures (fun found => ∀ d : Declared, found = some d → p.Knows r d.module)
        ((asking p.bound).followImport i name) := by
    intro found hfound d hd
    rw [run_followImport, hd] at hfound
    exact hclosed.followVia hclosed.resolveExport hi hfound
  rw [declarationOf]
  split
  · refine p.asked.bind (hfollow σ.name) fun found hfound => ?_
    split
    · exact p.asked.pure nofun
    next declared =>
      split
      · exact p.asked.pure nofun
      next target htarget =>
        have hmodule := hfound declared rfl
        exact p.asked.pure (isKnown_ownDeclaration? hmodule (declaredIn_of_value? hmodule htarget))
  · exact p.asked.pure (isKnown_ownDeclaration? hi hσ)

/-- The component that a tag names is declared in a known module. -/
theorem isKnown_component? (hi : p.Knows r i) (tag : Focus) :
    p.asked.Ensures (∀ d ∈ ·, p.IsKnown r d) ((asking p.bound).component? i tag) := by
  rw [component?]
  split
  · split
    · split
      next existing binding hidentifier himport =>
        split
        · exact p.asked.pure nofun
        · refine p.asked.bind (P := fun target => ∀ j, target = some j → p.Knows r j) ?_
            fun target htarget => ?_
          · intro target htarget j hj
            rw [run_index?, hj] at htarget
            exact hclosed.imported hi himport htarget
          split
          · exact p.asked.pure nofun
          next j =>
            refine p.asked.bind (P := fun found => ∀ d : Declared, found = some d →
              p.Knows r d.module) ?_ fun found hfound => ?_
            · intro found hfound d hd
              rw [run_resolveExport, hd] at hfound
              exact hclosed.resolveExport j _ d (htarget j rfl) hfound
            split
            · exact p.asked.pure nofun
            next declared =>
              split
              · exact p.asked.pure nofun
              next σ hσ =>
                have hmodule := hfound declared rfl
                exact isKnown_declarationOf hclosed hmodule (declaredIn_of_value? hmodule hσ)
      · exact p.asked.pure nofun
    · exact p.asked.pure nofun
  · split
    · split
      · exact p.asked.pure nofun
      next σ hσ => exact isKnown_declarationOf hclosed hi (declaredIn_of_resolve hi hσ)
    · exact p.asked.pure nofun

end

/-! ## Types of all props -/

/-- The type of the first parameter of a function is read. -/
private theorem isRead_firstParameterType (hi : p.Knows r i) (hf : f.IsIn i.source.root) :
    p.asked.Ensures (∀ t ∈ ·, p.IsRead r t) ((asking p.bound).firstParameterType i f) := by
  rw [firstParameterType]
  split
  next type htype =>
    obtain ⟨parameter, hfirst, htype⟩ := Option.bind_eq_some_iff.1 htype
    have hmem := List.mem_of_find?_eq_some hfirst
    cases hparameters : f.child? .parameters with
    | none => simp [hparameters] at hmem
    | some parameters =>
      rw [hparameters, Option.map_some, Option.getD_some] at hmem
      exact isRead_some_typeAt hi (((hf.child hparameters).of_mem_namedChildren hmem).child htype)
  · exact p.asked.pure nofun

/-- The type arguments of a call stand where the call does. -/
private theorem isIn_of_mem_typeArguments {root : Node} (hf : f.IsIn root)
    (h : g ∈ f.typeArguments) : g.IsIn root := by
  rw [Focus.typeArguments] at h
  cases harguments : f.child? .typeArguments with
  | none => simp [harguments] at h
  | some arguments =>
    rw [harguments, Option.map_some, Option.getD_some] at h
    exact (hf.child harguments).of_mem_namedChildren h

/-- The props of a class component are of a type that is read. -/
private theorem isRead_propsOfClass (hi : p.Knows r i) (hf : f.IsIn i.source.root) :
    p.asked.Ensures (∀ t ∈ ·, p.IsRead r t) ((asking p.bound).propsOfClass i f) := by
  rw [propsOfClass]
  split
  · exact p.asked.pure nofun
  next clause hclause =>
    obtain ⟨heritage, hheritage, hclause⟩ := Option.bind_eq_some_iff.1 hclause
    obtain ⟨n, hn, hclause⟩ := Option.bind_eq_some_iff.1 hclause
    obtain rfl := Option.some.inj hclause
    have hin := (hf.down (Node.mem_of_childOf? hheritage)).down (Node.mem_of_childOf? hn)
    split
    next base first rest hbase harguments =>
      split
      · exact isRead_some_typeAt hi
          (isIn_of_mem_typeArguments hin (harguments ▸ List.mem_cons_self))
      · exact p.asked.pure nofun
    · exact p.asked.pure nofun

/-- The declarations that names lead to have props of types that are read. -/
def JumpsToRead (p : Project (Except Failure)) (r : Resolver)
    (jump : Nat → ModulePlace → Query (Option TypeExpr)) : Prop :=
  ∀ depth d, p.IsKnown r d → p.asked.Ensures (∀ t ∈ ·, p.IsRead r t) (jump depth d)

variable {jump : Nat → ModulePlace → Query (Option TypeExpr)}

mutual

/-- The props by an expression that makes a component are of a type that is read. -/
theorem isRead_propsOfExpression (hclosed : p.Closed (p.Knows r)) (hjump : p.JumpsToRead r jump)
    (hi : p.Knows r i) (depth : Nat) (above : List Node) (n : Node)
    (hf : Focus.IsIn i.source.root ⟨n, above⟩) :
    p.asked.Ensures (∀ t ∈ ·, p.IsRead r t)
      ((asking p.bound).propsOfExpression jump i depth above n) := by
  obtain ⟨id, label, field, start, stop, text, children⟩ := n
  have hfirst (depth : Nat) := isRead_propsOfFirst hclosed hjump hi depth
    (⟨id, label, field, start, stop, text, children⟩ :: above) children fun c hc => hf.down hc
  rw [propsOfExpression.eq_def]
  dsimp only
  -- Only a name leaves the node, by `jump`; all other forms are looked into below it.
  split
  · exact isRead_firstParameterType hi hf
  · split
    · split
      · exact hfirst depth
      · exact p.asked.pure nofun
    · exact hfirst (depth + 1)
    · exact hfirst (depth + 1)
    · split
      next harguments =>
        exact isRead_some_typeAt hi (isIn_of_mem_typeArguments hf
          (harguments ▸ List.mem_cons_of_mem _ List.mem_cons_self))
      next harguments =>
        exact isRead_some_typeAt hi
          (isIn_of_mem_typeArguments hf (harguments ▸ List.mem_cons_self))
      · exact isRead_propsOfArguments hclosed hjump hi (depth + 1) _ children fun c hc => hf.down hc
    · split
      · exact p.asked.pure nofun
      · split
        · exact p.asked.pure nofun
        next σ hσ =>
          refine p.asked.bind (isKnown_declarationOf hclosed hi (declaredIn_of_resolve hi hσ))
            fun found hfound => ?_
          split
          · exact p.asked.pure nofun
          next d => exact hjump (depth + 1) d (hfound d rfl)
    · exact isRead_propsOfClass hi hf
    · exact p.asked.pure nofun
termination_by structural n

/-- So are the props by the first of several expressions that has any. -/
private theorem isRead_propsOfFirst (hclosed : p.Closed (p.Knows r)) (hjump : p.JumpsToRead r jump)
    (hi : p.Knows r i) (depth : Nat) (above : List Node) (cs : List Node)
    (hcs : ∀ c ∈ cs, Focus.IsIn i.source.root ⟨c, above⟩) :
    p.asked.Ensures (∀ t ∈ ·, p.IsRead r t)
      ((asking p.bound).propsOfFirst jump i depth above cs) := by
  match cs with
  | [] => exact p.asked.pure nofun
  | c :: cs =>
    obtain ⟨hc, hcs⟩ := List.forall_mem_cons.1 hcs
    rw [propsOfFirst]
    split
    · exact isRead_propsOfExpression hclosed hjump hi depth above c hc
    · exact isRead_propsOfFirst hclosed hjump hi depth above cs hcs
termination_by structural cs

/-- So are the props by the arguments of a call. -/
private theorem isRead_propsOfArguments (hclosed : p.Closed (p.Knows r))
    (hjump : p.JumpsToRead r jump)
    (hi : p.Knows r i) (depth : Nat) (above : List Node) (cs : List Node)
    (hcs : ∀ c ∈ cs, Focus.IsIn i.source.root ⟨c, above⟩) :
    p.asked.Ensures (∀ t ∈ ·, p.IsRead r t)
      ((asking p.bound).propsOfArguments jump i depth above cs) := by
  match cs with
  | [] => exact p.asked.pure nofun
  | ⟨id, label, field, start, stop, text, children⟩ :: cs =>
    obtain ⟨hc, hcs⟩ := List.forall_mem_cons.1 hcs
    rw [propsOfArguments]
    split
    · exact isRead_propsOfFirst hclosed hjump hi depth _ children fun c hmem => hc.down hmem
    · exact isRead_propsOfArguments hclosed hjump hi depth above cs hcs
termination_by structural cs

end

/-- The type of a component has props of a type that is read if it is read itself. -/
theorem isRead_props? (ht : p.IsRead r t) : ∀ u ∈ t.props?, p.IsRead r u := by
  intro u hu
  have hinside := (TypeExpr.isBuiltFrom_iff.1 ht).2
  cases t with
  | function text parameters returns =>
    obtain ⟨x, hx, htype⟩ := Option.bind_eq_some_iff.1 hu
    exact hinside u (List.mem_append_left _
      (List.mem_filterMap.2 ⟨x, List.mem_of_head? hx, htype⟩))
  | reference text name arguments d =>
    cases arguments with
    | nil => cases hu
    | cons first rest =>
      rw [TypeExpr.props?] at hu
      split at hu
      · obtain rfl := Option.some.inj hu
        exact hinside _ List.mem_cons_self
      · cases hu
  | _ => cases hu

/-- The props of a component in a known module are of a type that is read. -/
theorem isRead_propsAfter (hclosed : p.Closed (p.Knows r)) (fuel depth : Nat) {d : ModulePlace}
    (hd : p.IsKnown r d) :
    p.asked.Ensures (∀ t ∈ ·, p.IsRead r t) ((asking p.bound).propsAfter fuel depth d) := by
  induction fuel generalizing depth d with
  | zero => exact p.asked.pure nofun
  | succ fuel ih =>
    obtain ⟨i, f⟩ := d
    obtain ⟨hi, hf⟩ := hd
    rw [propsAfter]
    split
    · exact p.asked.pure nofun
    · split
      · exact isRead_firstParameterType hi hf
      · split
        · have hvalue (value : Focus) (h : f.child? .value = some value) :=
            isRead_propsOfExpression hclosed (fun depth d hd => ih depth hd) hi (depth + 1)
              value.above value.node (hf.child h)
          -- A variable without a type has the props of its value.
          split
          next type htype =>
            refine p.asked.bind (isRead_typeAt hi (hf.child htype)) fun t ht =>
              p.asked.bind (P := (· = t.props?)) (p.asked.pure rfl) fun declared hdeclared => ?_
            dsimp only
            split
            · exact p.asked.pure (hdeclared ▸ isRead_props? ht)
            next value h => exact hvalue value h
            · exact p.asked.pure nofun
          · refine p.asked.bind (P := (· = none)) (p.asked.pure rfl) fun declared hdeclared => ?_
            dsimp only
            split
            · cases hdeclared
            next value h => exact hvalue value h
            · exact p.asked.pure nofun
        · split
          · exact isRead_propsOfClass hi hf
          · exact p.asked.pure nofun

/-! ## Types of members -/

/-- A type that is read stays so when it is made optional. -/
theorem IsRead.withOptional (ht : p.IsRead r t) : p.IsRead r t.withOptional := by
  refine TypeExpr.isBuiltFrom_unionOf (List.forall_mem_cons.2 ⟨ht, ?_⟩)
  exact List.forall_mem_singleton.2 (TypeExpr.isBuiltFrom_keyword _)

/-- A member is seen from outside by a type that is read if its own type is. -/
theorem isRead_seenType? {x : TypeMember} (hx : ∀ t, x.type? = some t → p.IsRead r t) :
    ∀ t ∈ x.seenType?, p.IsRead r t := by
  rintro t ht
  cases x with
  | untyped => cases ht
  | typed name u isOptional =>
    obtain rfl := Option.some.inj ht
    cases isOptional with
    | true => exact (hx u rfl).withOptional
    | false => exact hx u rfl

/-- A member that is found by its name has a type that is read if all members have. -/
private theorem isRead_find? {members : List TypeMember} {name : String}
    (h : ∀ x ∈ members, ∀ t, x.type? = some t → p.IsRead r t) :
    ∀ t ∈ TypeMember.find? members name, p.IsRead r t := by
  intro t ht
  obtain ⟨x, hx, hseen⟩ := List.exists_of_findSome?_eq_some ht
  exact isRead_seenType? (h x (List.mem_filter.1 hx).1) t hseen

/-- What a look-up of a member finds is read. -/
def FindsRead (p : Project (Except Failure)) (r : Resolver) (look : Query Lookup) : Prop :=
  p.asked.Ensures (fun x => ∀ t ∈ x.1, p.IsRead r t) look

private theorem findsRead_none (opened : Opened) : p.FindsRead r (pure (none, opened)) :=
  p.asked.pure nofun

section

variable {jump : TypeDeclaration → Opened → Query Lookup}

mutual

/-- A member of a type that is read has a type that is read. -/
theorem findsRead_memberVia (hjump : ∀ d opened, p.Found r d → p.FindsRead r (jump d opened))
    (name : String) (t : TypeExpr) (ht : p.IsRead r t) (opened : Opened) :
    p.FindsRead r (t.memberVia jump name opened) := by
  obtain ⟨⟨hform, -⟩, hinside⟩ := TypeExpr.isBuiltFrom_iff.1 ht
  match t with
  | .object _ members _ =>
    refine p.asked.pure (isRead_find? fun x hx u hu => ?_)
    exact hinside u (List.mem_filterMap.2 ⟨x, hx, hu⟩)
  | .intersection _ parts => exact findsRead_memberOfFirst hjump name parts hinside opened
  | .union _ parts =>
    rw [TypeExpr.memberVia]
    refine p.asked.bind (isRead_memberOfEach hjump name parts hinside opened) fun x hx =>
      p.asked.pure ?_
    split
    · nofun
    · rintro _ ⟨⟩
      exact TypeExpr.isBuiltFrom_unionOf hx
  | .reference _ outer arguments none =>
    rw [TypeExpr.memberVia]
    split
    · refine p.asked.bind (findsRead_memberOfArgument hjump name arguments hinside opened)
        fun x hx => p.asked.pure ?_
      split
      · rintro u hu
        obtain ⟨v, hv, rfl⟩ := Option.map_eq_some_iff.1 hu
        exact (hx v hv).withOptional
      · exact hx
    · exact findsRead_none opened
  | .reference _ _ _ (some d) => exact hjump d opened (hform.declaration d rfl)
  | .function .. | .array .. | .tuple .. | .keyword .. | .literal .. | .indexed .. | .query ..
  | .raw .. => exact findsRead_none opened
termination_by structural t

/-- A member of a type argument has a type that is read. -/
private theorem findsRead_memberOfArgument
    (hjump : ∀ d opened, p.Found r d → p.FindsRead r (jump d opened)) (name : String)
    (ts : List TypeExpr) (hts : ∀ t ∈ ts, p.IsRead r t) (opened : Opened) :
    p.FindsRead r (TypeExpr.memberOfArgument jump name ts opened) := by
  match ts with
  | [] => exact findsRead_none opened
  | t :: _ => exact findsRead_memberVia hjump name t (hts t List.mem_cons_self) opened
termination_by structural ts

/-- A member of the first of several types that has it is of a type that is read. -/
private theorem findsRead_memberOfFirst
    (hjump : ∀ d opened, p.Found r d → p.FindsRead r (jump d opened)) (name : String)
    (ts : List TypeExpr) (hts : ∀ t ∈ ts, p.IsRead r t) (opened : Opened) :
    p.FindsRead r (TypeExpr.memberOfFirst jump name ts opened) := by
  match ts with
  | [] => exact findsRead_none opened
  | t :: ts =>
    obtain ⟨ht, hts⟩ := List.forall_mem_cons.1 hts
    rw [TypeExpr.memberOfFirst]
    refine p.asked.bind (findsRead_memberVia hjump name t ht opened) fun x hx => ?_
    split
    · exact p.asked.pure hx
    next opened => exact findsRead_memberOfFirst hjump name ts hts opened
termination_by structural ts

/-- The members of several types are of types that are read. -/
private theorem isRead_memberOfEach
    (hjump : ∀ d opened, p.Found r d → p.FindsRead r (jump d opened)) (name : String)
    (ts : List TypeExpr) (hts : ∀ t ∈ ts, p.IsRead r t) (opened : Opened) :
    p.asked.Ensures (fun x => ∀ t ∈ x.1, p.IsRead r t)
      (TypeExpr.memberOfEach jump name ts opened) := by
  match ts with
  | [] => exact p.asked.pure (List.forall_mem_nil _)
  | t :: ts =>
    obtain ⟨ht, hts⟩ := List.forall_mem_cons.1 hts
    rw [TypeExpr.memberOfEach]
    refine p.asked.bind (findsRead_memberVia hjump name t ht opened) fun x hx => ?_
    refine p.asked.bind (isRead_memberOfEach hjump name ts hts x.2) fun y hy => p.asked.pure ?_
    refine List.forall_mem_append.2 ⟨fun u hu => hx u (Option.mem_toList.1 hu), hy⟩
termination_by structural ts

end

end

/-- A signature of an interface in a known module has a type that is read. -/
theorem isRead_ownMember (hi : p.Knows r i) (hf : f.IsIn i.source.root) (name : String)
    (signatures : List Node)
    (h : ∀ c ∈ signatures, ∃ g, g.node = c ∧ Focus.IsIn i.source.root g) :
    p.asked.Ensures (∀ t ∈ ·, p.IsRead r t) ((asking p.bound).ownMember i f name signatures) := by
  induction signatures with
  | nil => exact p.asked.pure nofun
  | cons c cs ih =>
    obtain ⟨⟨g, rfl, hg⟩, hcs⟩ := List.forall_mem_cons.1 h
    rw [ownMember]
    split
    · refine p.asked.bind (isRead_buildMember hi hf hg) fun x hx => ?_
      split
      next u hu =>
        refine p.asked.pure ?_
        rintro _ ⟨⟩
        split at hu
        · exact isRead_seenType? hx u hu
        · cases hu
      next => exact ih hcs
    · exact ih hcs

/-- So have the members of the interfaces that it extends. -/
theorem findsRead_baseMember {ask : TypeExpr → Opened → Query Lookup}
    (hask : ∀ t opened, p.IsRead r t → p.FindsRead r (ask t opened)) (hi : p.Knows r i)
    (hf : f.IsIn i.source.root) (bases : List Node)
    (h : ∀ c ∈ bases, ∃ g, g.node = c ∧ Focus.IsIn i.source.root g) (opened : Opened) :
    p.FindsRead r ((asking p.bound).baseMember ask i f bases opened) := by
  induction bases generalizing opened with
  | nil => exact findsRead_none opened
  | cons c cs ih =>
    obtain ⟨⟨g, rfl, hg⟩, hcs⟩ := List.forall_mem_cons.1 h
    rw [baseMember]
    refine p.asked.bind (isRead_build hi hf hg) fun t ht =>
      p.asked.bind (hask t opened ht) fun x hx => ?_
    split
    · exact p.asked.pure hx
    next opened => exact ih hcs opened

/-- A declaration with a place is placed in the module at its path. -/
private theorem places_of_index (hplace : d.place = some f) {path : Path}
    (hpath : d.modulePath = some path) :
    p.asked.Ensures (∀ i ∈ ·, p.Places d i f) ((asking p.bound).index path) := by
  rintro _ h i rfl
  rw [run_index] at h
  exact ⟨hplace, path, hpath, h⟩

/-- The module of a declaration that is found is known, and holds its place. -/
theorem Found.of_places (h : p.Found r d) (hclosed : p.Closed (p.Knows r)) (hd : p.Places d i f) :
    p.Knows r i ∧ f.IsIn i.source.root := by
  refine Refers.of_places (h.resolve_left ?_) hclosed hd
  simp [hd.1]

/-- The signatures of an interface stand where the interface does. -/
private theorem exists_isIn_of_mem_body {interface : Focus} {root : Node} (hf : interface.IsIn root)
    {c : Node} (hc : c ∈ ((interface.node.child? .body).map Node.namedChildren).getD []) :
    ∃ g, g.node = c ∧ Focus.IsIn root g := by
  cases hbody : interface.node.child? .body with
  | none => simp [hbody] at hc
  | some body =>
    rw [hbody, Option.map_some, Option.getD_some] at hc
    exact ⟨(interface.down body).down c, rfl,
      (hf.down (Node.mem_of_child? hbody)).down (Node.mem_of_mem_namedChildren hc)⟩

/-- The bases of an interface stand where the interface does. -/
private theorem exists_isIn_of_mem_basesOf {interface : Focus} {root : Node}
    (hf : interface.IsIn root)
    {c : Node} (hc : c ∈ basesOf interface.node) : ∃ g, g.node = c ∧ Focus.IsIn root g := by
  obtain ⟨clause, hclause, hc⟩ := List.mem_flatMap.1 hc
  have hmem := Node.mem_of_mem_namedChildren (List.mem_filter.1 hclause).1
  exact ⟨(interface.down clause).down c, rfl,
    (hf.down hmem).down (Node.mem_of_mem_namedChildren hc)⟩

section

variable (hclosed : p.Closed (p.Knows r))

include hclosed

/-- A member of a declaration that is opened has a type that is read. -/
theorem findsRead_memberOfDeclaration {ask : TypeExpr → Opened → Query Lookup}
    (hask : ∀ t opened, p.IsRead r t → p.FindsRead r (ask t opened)) (name : String)
    (hd : p.Found r d) (opened : Opened) :
    p.FindsRead r ((asking p.bound).memberOfDeclaration ask name d opened) := by
  rw [memberOfDeclaration]
  split
  next place path hplace hpath =>
    split
    · exact findsRead_none opened
    · refine p.asked.bind (places_of_index hplace hpath) fun found hfound => ?_
      split
      · exact findsRead_none _
      next i =>
        obtain ⟨hi, hin⟩ := hd.of_places hclosed (hfound i rfl)
        split
        · refine p.asked.bind (isRead_ownMember hi hin name _ fun c => exists_isIn_of_mem_body hin)
            fun own hown => ?_
          split
          · exact p.asked.pure hown
          · exact findsRead_baseMember hask hi hin _ (fun c => exists_isIn_of_mem_basesOf hin) _
        · split
          · split
            next value hvalue =>
              exact p.asked.bind (isRead_typeAt hi (hin.child hvalue)) fun t ht => hask t _ ht
            · exact findsRead_none _
          · exact findsRead_none _
  · exact findsRead_none opened

/-- A member is of a type that is read, however deep it is looked for. -/
private theorem findsRead_memberWithin (name : String) (fuel : Nat) (ht : p.IsRead r t)
    (opened : Opened) : p.FindsRead r ((asking p.bound).memberWithin name fuel t opened) := by
  induction fuel generalizing t opened with
  | zero => exact findsRead_memberVia (fun _ opened _ => findsRead_none opened) name t ht opened
  | succ fuel ih =>
    exact findsRead_memberVia (fun d opened hd => findsRead_memberOfDeclaration hclosed
      (fun t opened ht => ih ht opened) name hd opened) name t ht opened

/-- A member of a type that is read has a type that is read, through all that is opened. -/
theorem isRead_memberType (ht : p.IsRead r t) (name : String) :
    p.asked.Ensures (∀ u ∈ ·, p.IsRead r u) ((asking p.bound).memberType t name) :=
  p.asked.bind (findsRead_memberWithin hclosed name _ ht []) fun _ hx => p.asked.pure hx

/-! ## Aliases -/

/-- An alias of a type that is read is replaced by a type that is read. -/
private theorem isRead_followAlias (fuel : Nat) (opened : Opened) (ht : p.IsRead r t) :
    p.asked.Ensures (p.IsRead r) ((asking p.bound).followAlias fuel opened t) := by
  induction fuel generalizing opened t with
  | zero => exact p.asked.pure ht
  | succ fuel ih =>
    unfold followAlias
    split
    next text name d =>
      split
      next place path hkind hplace hpath =>
        split
        · exact p.asked.pure ht
        · refine p.asked.bind (places_of_index hplace hpath) fun found hfound => ?_
          split
          next value i hvalue =>
            have hd := (TypeExpr.isBuiltFrom_iff.1 ht).1.1.declaration d rfl
            obtain ⟨hi, hin⟩ := hd.of_places hclosed (hfound i rfl)
            refine p.asked.bind (isRead_typeAt hi (hin.child hvalue)) fun u hu => ?_
            split
            · exact ih _ hu
            · exact p.asked.pure ht
          · exact p.asked.pure ht
      · exact p.asked.pure ht
    · exact p.asked.pure ht

end

mutual

/-- With its aliases replaced a type that is read is read. -/
theorem isRead_collapse (hclosed : p.Closed (p.Knows r)) (t : TypeExpr) (ht : p.IsRead r t) :
    p.asked.Ensures (p.IsRead r) ((asking p.bound).collapse t) := by
  match t with
  | .union _ members =>
    exact p.asked.bind (isRead_collapseAll hclosed members (TypeExpr.isBuiltFrom_iff.1 ht).2)
      fun us hus => p.asked.pure (TypeExpr.isBuiltFrom_unionOf hus)
  | .reference .. | .intersection .. | .function .. | .object .. | .array .. | .tuple ..
  | .keyword _ | .literal _ | .indexed .. | .query _ | .raw .. =>
    exact isRead_followAlias hclosed _ _ ht
termination_by structural t

/-- With their aliases replaced, types that are read are read. -/
private theorem isRead_collapseAll (hclosed : p.Closed (p.Knows r)) (ts : List TypeExpr)
    (hts : ∀ t ∈ ts, p.IsRead r t) :
    p.asked.Ensures (∀ u ∈ ·, p.IsRead r u) ((asking p.bound).collapseAll ts) := by
  match ts with
  | [] => exact p.asked.pure (List.forall_mem_nil _)
  | t :: ts =>
    obtain ⟨ht, hts⟩ := List.forall_mem_cons.1 hts
    exact p.asked.cons (isRead_collapse hclosed t ht) (isRead_collapseAll hclosed ts hts)
termination_by structural ts

end

/-! ## Props -/

/-- The types of the library are read. -/
theorem isRead_of_type? {text : String} (h : Intrinsic.type? text = some t) : p.IsRead r t := by
  rw [Intrinsic.type?] at h
  obtain ⟨statement, hstatement, h⟩ := Option.bind_eq_some_iff.1 h
  obtain ⟨value, hvalue, h⟩ := Option.bind_eq_some_iff.1 h
  let root := parse .typescript ("type __T = " ++ text ++ ";")
  have hin : ((root.focus.down statement).down value).IsIn root :=
    (Focus.IsIn.root.down (Node.mem_of_firstNamed? hstatement)).down (Node.mem_of_child? hvalue)
  have hreads : ∀ c ∈ value.walk, ∃ bind, p.Reads r c bind := by
    intro c hc
    obtain ⟨f, rfl, hf⟩ := hin.exists_of_mem_walk hc
    exact ⟨_, .library hf⟩
  exact (TypeExpr.isBuiltFrom_build (.canReturn Id) Intrinsic.finds_bind value hreads t
    (Option.some.inj h)).imp fun _ => .inl

/-- The declared type of a prop is read. -/
theorem isRead_propType (hclosed : p.Closed (p.Knows r)) (hi : p.Knows r i) (tag : Focus)
    (prop : String) :
    p.asked.Ensures (fun answer => ∀ d : PropType, answer = .ok (some d) → p.IsRead r d.type)
      ((asking p.bound).propType i tag prop) := by
  rw [propType]
  dsimp only
  split
  · refine p.asked.pure ?_
    intro d hd
    obtain ⟨t, ht, rfl⟩ := Option.map_eq_some_iff.1 (Except.ok.inj hd)
    obtain ⟨text, -, htext⟩ := Option.bind_eq_some_iff.1 ht
    exact (isRead_of_type? htext).withOptional
  · refine p.asked.bind (isKnown_component? hclosed hi tag) fun component hcomponent => ?_
    split
    · exact p.asked.pure nofun
    next declaration =>
      refine p.asked.bind (isRead_propsAfter hclosed 9 0 (hcomponent declaration rfl))
        fun props hprops => ?_
      split
      · exact p.asked.pure nofun
      next all =>
        refine p.asked.bind (isRead_memberType hclosed (hprops all rfl) prop) fun found hfound => ?_
        split
        · exact p.asked.pure nofun
        next t =>
          refine p.asked.bind (isRead_collapse hclosed t (hfound t rfl)) fun u hu =>
            p.asked.pure ?_
          intro d hd
          obtain rfl := Option.some.inj (Except.ok.inj hd)
          rw [PropType.type_ofType]
          exact hu

/-- The members of a type that are kept for a callback are read. -/
theorem isRead_filteredUnion? {test : TypeExpr → Except Failure Bool} (ht : p.IsRead r t)
    (h : t.filteredUnion? test = .ok (some u)) : p.IsRead r u := by
  rw [TypeExpr.filteredUnion?] at h
  obtain ⟨kept, hkept, h⟩ := bind_eq_ok.1 h
  have hread : ∀ v ∈ kept, p.IsRead r v := by
    intro v hv
    rw [eq_filter_of_filterM hkept] at hv
    exact ht.of_mem_unionMembers (List.mem_of_mem_filter hv)
  split at h
  · cases Except.ok.inj h
  · split at h
    · obtain rfl := Option.some.inj (Except.ok.inj h)
      exact TypeExpr.isBuiltFrom_unionOf hread
    · obtain rfl := Option.some.inj (Except.ok.inj h)
      exact ht

end Project

namespace Planner

variable {r : Resolver} {source : Source} {p : Planner (Except Failure)}

/-- A type that annotates a binding is read in the project. -/
theorem Annotates.isRead (hp : (Workspace.fresh r).planner source = .ok p) {s : Site}
    {callback : Bool} {t : TypeExpr} {b : BindingType} (h : p.Annotates s callback t b) :
    p.project.IsRead r t := by
  obtain ⟨d, hd, hwanted⟩ := h.declared
  have hdeclared : p.project.IsRead r d.type := by
    change p.declaredType s = .ok (.ok (some d)) at hd
    rw [declaredType] at hd
    cases hprop : p.ask fun q => q.project.propType q.main s.tag s.attributeName with
    | error f =>
      rw [hprop] at hd
      cases hd
    | ok answer =>
      rw [hprop] at hd
      obtain rfl := Except.ok.inj hd
      exact Project.isRead_propType (Workspace.closed_knows hp) (Workspace.knows_main hp) s.tag
        s.attributeName _ hprop d rfl
  cases callback with
  | true =>
    change p.ask (fun q => d.type.filteredUnion? q.project.isCallable) = .ok (some t) at hwanted
    rw [ask_filteredUnion?] at hwanted
    exact Project.isRead_filteredUnion? hdeclared hwanted
  | false =>
    obtain rfl : t = d.type := hwanted
    exact hdeclared

end Planner

end StableProps
