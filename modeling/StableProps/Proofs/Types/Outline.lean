import StableProps.Proofs.Outcome
import StableProps.Syntax.Reader.Finish
import StableProps.Types.Build

/-!
# Outlines

Two types have the same outline if they are made of the same forms in the same way, whatever their
names, texts and declarations are. The outline of the type that a node stands for is decided by
the rules and parts of the nodes below it alone: neither offsets nor texts nor what names are bound
to make a difference.
-/

namespace StableProps

open MonadAttach (CanReturn)

namespace TypeExpr

mutual

/-- A type without names, texts and declarations. -/
def outline : TypeExpr → TypeExpr
  | .reference _ _ arguments _ => .reference "" "" (outlineAll arguments) none
  | .union _ members => .union "" (outlineAll members)
  | .intersection _ members => .intersection "" (outlineAll members)
  | .function _ parameters none => .function "" (outlineMembers parameters) none
  | .function _ parameters (some returns) =>
    .function "" (outlineMembers parameters) (some (outline returns))
  | .object _ members callable => .object "" (outlineMembers members) callable
  | .array _ element => .array "" (outline element)
  | .tuple _ items => .tuple "" (outlineAll items)
  | .keyword _ => .keyword ""
  | .literal _ => .literal ""
  | .indexed _ parts => .indexed "" (outlineAll parts)
  | .query _ => .query ""
  | .raw _ references => .raw "" (outlineAll references)

/-- Several types without names, texts and declarations. -/
def outlineAll : List TypeExpr → List TypeExpr
  | [] => []
  | t :: ts => outline t :: outlineAll ts

/-- A member without names and texts. -/
def outlineMember : TypeMember → TypeMember
  | .typed _ t isOptional => .typed "" (outline t) isOptional
  | .untyped _ isOptional => .untyped "" isOptional

/-- Several members without names and texts. -/
def outlineMembers : List TypeMember → List TypeMember
  | [] => []
  | m :: ms => outlineMember m :: outlineMembers ms

end

/-- The outlines of several types are those of each. -/
theorem outlineAll_eq_map (ts : List TypeExpr) : outlineAll ts = ts.map outline := by
  induction ts with
  | nil => rfl
  | cons t ts ih => rw [outlineAll, ih, List.map_cons]

private theorem outline_function (text : String) (parameters : List TypeMember)
    (returns : Option TypeExpr) : outline (.function text parameters returns) =
      .function "" (outlineMembers parameters) (returns.map outline) := by
  cases returns <;> rfl

private theorem outlineMember_member (name : String) (type : Option TypeExpr) (isOptional : Bool) :
    outlineMember (member name type isOptional) = member "" (type.map outline) isOptional := by
  cases type <;> rfl

/-- Outlines are taken on both sides of an append. -/
theorem outlineAll_append (ts us : List TypeExpr) :
    outlineAll (ts ++ us) = outlineAll ts ++ outlineAll us := by
  simp only [outlineAll_eq_map, List.map_append]

/-- The parts that a union or intersection takes over show in the outline. -/
theorem outlineAll_sameForm (isUnion : Bool) (t : TypeExpr) :
    outlineAll (sameForm isUnion t) = sameForm isUnion t.outline := by
  match t with
  | .union .. => cases isUnion <;> rfl
  | .intersection .. => cases isUnion <;> rfl
  | .function _ _ none => rfl
  | .function _ _ (some _) => rfl
  | .reference .. => rfl
  | .object .. => rfl
  | .array .. => rfl
  | .tuple .. => rfl
  | .keyword .. => rfl
  | .literal .. => rfl
  | .indexed .. => rfl
  | .query .. => rfl
  | .raw .. => rfl

/-- The outline of a type that adds itself to a union or intersection does so too. -/
theorem sameForm_outline {isUnion : Bool} {t : TypeExpr}
    (h : (if isUnion then t.isUnion else t.isIntersection) = false) :
    sameForm isUnion t.outline = [t.outline] := by
  rw [← outlineAll_sameForm]
  cases isUnion <;> cases t <;> first | rfl | cases h

end TypeExpr

namespace Node

mutual

/-- A node without number, offsets and text. -/
def bare (n : Node) : Node :=
  match n with
  | ⟨_, label, field, _, _, _, children⟩ => ⟨0, label, field, 0, 0, "", bareAll children⟩

/-- Several nodes without numbers, offsets and texts. -/
def bareAll : List Node → List Node
  | [] => []
  | c :: cs => bare c :: bareAll cs

end

private theorem bareAll_eq_map (cs : List Node) : bareAll cs = cs.map bare := by
  induction cs with
  | nil => rfl
  | cons c cs ih => rw [bareAll, ih, List.map_cons]

@[simp] theorem label_bare (n : Node) : n.bare.label = n.label := by
  cases n
  rw [bare]

@[simp] theorem field_bare (n : Node) : n.bare.field = n.field := by
  cases n
  rw [bare]

/-- The children of a bare node are bare. -/
@[simp] theorem children_bare (n : Node) : n.bare.children = n.children.map bare := by
  cases n
  rw [bare, bareAll_eq_map]

@[simp] theorem is_bare (n : Node) (k : Kind) : n.bare.is k = n.is k := by
  rw [is, label_bare, is]

@[simp] theorem isNamed_bare (n : Node) : n.bare.isNamed = n.isNamed := by
  rw [isNamed, kind?, label_bare, isNamed, kind?]

@[simp] theorem isOneOf_bare (n : Node) (ks : List Kind) : n.bare.isOneOf ks = n.isOneOf ks := by
  rw [isOneOf, label_bare, isOneOf]

@[simp] theorem hasToken_bare (n : Node) (t : String) : n.bare.hasToken t = n.hasToken t := by
  simp only [hasToken, children_bare, List.any_map]
  congr 1
  funext c
  rw [Function.comp_apply, isToken, label_bare, isToken]

/-- A field holds the same child, laid bare. -/
private theorem child?_bare (n : Node) (f : Field) : n.bare.child? f = (n.child? f).map bare := by
  simp only [child?, children_bare, List.find?_map]
  congr 2
  funext c
  rw [Function.comp_apply, field_bare]

/-- The first named child is the same one, laid bare. -/
private theorem firstNamed?_bare (n : Node) : n.bare.firstNamed? = n.firstNamed?.map bare := by
  simp only [firstNamed?, children_bare, List.find?_map]
  congr 2
  funext c
  rw [Function.comp_apply, isNamed_bare]

mutual

/-- A bare node is walked like the node itself. -/
private theorem walk_bare (n : Node) : n.bare.walk = n.walk.map bare := by
  obtain ⟨id, label, field, start, stop, text, children⟩ := n
  rw [bare, walk, walk, List.map_cons, walkAll_bareAll, bare]

private theorem walkAll_bareAll (cs : List Node) : walkAll (bareAll cs) =
    (walkAll cs).map bare := by
  match cs with
  | [] => rfl
  | c :: cs =>
    rw [bareAll, walkAll, walkAll, walk_bare, walkAll_bareAll, List.map_append]

end

end Node

namespace Reader

mutual

/-- Numbers are no part of a bare node. -/
private theorem bare_number (source : String) (n : Node) (next : Nat) :
    (number source n next).1.bare = n.bare := by
  obtain ⟨id, label, field, start, stop, text, children⟩ := n
  rw [number, Node.bare, Node.bare, bareAll_numberAll]

/-- Numbers are no part of bare nodes. -/
private theorem bareAll_numberAll (source : String) (ns : List Node) (next : Nat) :
    Node.bareAll (numberAll source ns next).1 = Node.bareAll ns := by
  match ns with
  | [] => rfl
  | n :: rest =>
    rw [numberAll, Node.bareAll, Node.bareAll, bare_number, bareAll_numberAll]

end

mutual

/-- Without comments nothing is put into a tree. -/
theorem attach_nil (n : Node) : attach n [] = n := by
  obtain ⟨id, label, field, start, stop, text, children⟩ := n
  rw [attach, attachAll_nil]

/-- Without comments there is nothing to attach. -/
private theorem attachAll_nil (ns : List Node) : attachAll ns [] = ns := by
  match ns with
  | [] => rfl
  | n :: rest =>
    simp only [attachAll, List.takeWhile_nil, List.dropWhile_nil, List.map_nil, List.nil_append]
    rw [attach_nil, attachAll_nil]

end

end Reader

/-! ## What a node stands for -/

namespace TypeExpr

/-- Finds no declaration. -/
def unbound : Binder Id := fun _ _ => none

section

variable {m : Type → Type} [Monad m] [LawfulMonad m] [MonadAttach m] [LawfulMonadAttach m]
variable {α β γ : Type}

/-- All that some steps can return looks like what others return. -/
def Agrees (look : α → β) (x : m α) (y : Id α) : Prop := ∀ a, CanReturn x a → look a = look y

/-- Results that look alike agree. -/
theorem Agrees.pure {look : α → β} {a b : α} (h : look a = look b) :
    Agrees look (pure a : m α) (pure b) := by
  intro c hc
  rw [eq_of_canReturn_pure hc]
  exact h

/-- Two runs that agree go on alike if what follows agrees for all results that look alike. -/
theorem Agrees.bind {look : α → γ} {look' : β → γ'} {x : m α} {y : Id α} {f : α → m β}
    {g : α → Id β} (hx : Agrees look x y) (hf : ∀ a, look a = look y → Agrees look' (f a) (g y)) :
    Agrees look' (x >>= f) (y >>= g) := by
  intro b hb
  obtain ⟨a, ha, hb⟩ := canReturn_bind hb
  exact hf a (hx a ha) b hb

/-- Steps over the nodes of a list agree if they do for each node. -/
theorem Agrees.mapM {look : α → β} {f : Node → m α} {g : Node → Id α} {cs : List Node}
    (h : ∀ c, Agrees look (f c) (g c.bare)) :
    Agrees (List.map look) (cs.mapM f) ((cs.map Node.bare).mapM g) := by
  induction cs with
  | nil =>
    rw [List.mapM_nil, List.map_nil, List.mapM_nil]
    exact .pure rfl
  | cons c cs ih =>
    rw [List.mapM_cons, List.map_cons, List.mapM_cons]
    refine (h c).bind fun t ht => ih.bind fun ts hts => .pure ?_
    rw [List.map_cons, ht, hts, List.map_cons]

variable (bind : Binder m)

/-- Whatever a name is bound to, a reference has the outline of its arguments. -/
private theorem agrees_bound {text name text' name' : String} {q q' : Option String}
    {arguments arguments' : List TypeExpr} (h : outlineAll arguments = outlineAll arguments') :
    Agrees outline (bound bind text name q arguments)
      (bound unbound text' name' q' arguments') := by
  intro t ht
  rw [bound] at ht
  obtain ⟨d, -, ht⟩ := canReturn_bind ht
  have hform : ∀ name d, outline (.reference text name arguments d) =
      outline (bound unbound text' name' q' arguments') := by
    intro name d
    rw [outline, h, bound]
    simp only [unbound]
    cases q'.filter (· ≠ "") <;> rfl
  split at ht
  · exact eq_of_canReturn_pure ht ▸ hform _ _
  · split at ht <;> exact eq_of_canReturn_pure ht ▸ hform _ _

/-- A reference has the same outline by whatever name it is written. -/
private theorem agrees_ofName {text text' : String} {name : Node}
    {arguments arguments' : List TypeExpr} (h : outlineAll arguments = outlineAll arguments') :
    Agrees outline (ofName bind text name arguments)
      (ofName unbound text' name.bare arguments') := by
  rw [ofName, ofName, Node.is_bare, Node.child?_bare, Node.child?_bare]
  cases name.is .nestedTypeIdentifier <;> cases name.child? .qualifier <;>
    cases name.child? .name <;> exact agrees_bound bind h

/-- A form that is kept as text has no outline of its own, only that of the names in it. -/
private theorem agrees_ofUnread (n : Node) :
    Agrees outline (ofUnread bind n) (ofUnread unbound n.bare) := by
  rw [ofUnread, ofUnread]
  have hnames : n.bare.walk.filter (·.is .typeIdentifier) =
      (n.walk.filter (·.is .typeIdentifier)).map Node.bare := by
    rw [Node.walk_bare, List.filter_map]
    congr 2
    funext c
    rw [Function.comp_apply, Node.is_bare]
  rw [hnames]
  refine Agrees.bind (Agrees.mapM fun c => agrees_bound bind rfl) fun ts hts => .pure ?_
  rw [outline, outlineAll_eq_map, hts, outline, outlineAll_eq_map]

/-- A list that looks the same at its head and in its tail looks the same. -/
theorem Agrees.cons {x : m TypeMember} {y : Id TypeMember} {xs : m (List TypeMember)}
    {ys : Id (List TypeMember)} (h : Agrees outlineMember x y) (hs : Agrees outlineMembers xs ys) :
    Agrees outlineMembers (x >>= fun p => xs >>= fun ps => Pure.pure (p :: ps))
      (y >>= fun p => ys >>= fun ps => Pure.pure (p :: ps)) := by
  refine h.bind fun p hp => hs.bind fun ps hps => .pure ?_
  rw [outlineMembers, hp, hps, outlineMembers]

mutual

/-- The outline of a type is decided by the bare node. -/
theorem agrees_build (n : Node) : Agrees outline (build bind n) (build unbound n.bare) := by
  obtain ⟨id, label, field, start, stop, text, children⟩ := n
  have hunread := agrees_ofUnread bind ⟨id, label, field, start, stop, text, children⟩
  have hname := Node.child?_bare ⟨id, label, field, start, stop, text, children⟩ .name
  have hnamed := Node.firstNamed?_bare ⟨id, label, field, start, stop, text, children⟩
  have hnested : Agrees outline
      (ofName bind text ⟨id, label, field, start, stop, text, children⟩ [])
      (ofName unbound "" (Node.bare ⟨id, label, field, start, stop, text, children⟩) []) :=
    agrees_ofName bind rfl
  rw [Node.bare] at hunread hname hnamed hnested ⊢
  have hraw : outline (.raw text []) = outline (.raw "" []) := rfl
  have hfirst := agrees_buildFirst hraw children
  have hfunction : Agrees outline
      (do let ps ← buildParameters bind children
          return .function text ps (← buildField bind .returnType children) : m TypeExpr)
      (do let ps ← buildParameters unbound (Node.bareAll children)
          return .function "" ps (← buildField unbound .returnType (Node.bareAll children))) := by
    refine (agrees_buildParameters children).bind fun ps hps =>
      (agrees_buildField .returnType children).bind fun r hr => .pure ?_
    rw [outline_function, hps, hr, outline_function]
  rw [build.eq_def bind, build.eq_def unbound]
  dsimp only
  split
  case h_1 => exact hfirst
  case h_2 => exact hfirst
  case h_3 => exact hfirst
  case h_4 => exact hfirst
  case h_5 => exact agrees_bound bind rfl
  case h_6 => exact hnested
  case h_7 =>
    refine (agrees_buildArguments children).bind fun arguments h => ?_
    rw [hname]
    cases Node.child? _ .name with
    | some name => exact agrees_ofName bind h
    | none => exact .pure rfl
  case h_8 => exact .pure rfl
  case h_9 =>
    rw [hnamed]
    cases Node.firstNamed? _ with
    | none => exact .pure rfl
    | some c =>
      simp only [Option.map_some, Node.is_bare]
      split
      · exact .pure rfl
      · split <;> exact .pure rfl
  case h_10 =>
    refine (agrees_buildFlat true children).bind fun ts h => .pure ?_
    rw [outline, h, outline]
  case h_11 =>
    refine (agrees_buildFlat false children).bind fun ts h => .pure ?_
    rw [outline, h, outline]
  case h_12 => exact hfunction
  case h_13 => exact hfunction
  case h_14 =>
    refine (agrees_buildMembers children).bind fun ms h => .pure ?_
    have hcallable : (Node.bareAll children).any (·.is .callSignature) =
        children.any (·.is .callSignature) := by
      rw [Node.bareAll_eq_map, List.any_map]
      congr 1
      funext c
      rw [Function.comp_apply, Node.is_bare]
    rw [outline, h, outline, hcallable]
  case h_15 =>
    refine (agrees_buildFirst rfl children).bind fun t h => .pure ?_
    rw [outline, h, outline]
  case h_16 =>
    refine (agrees_buildNamed children).bind fun ts h => .pure ?_
    rw [outline, h, outline]
  case h_17 =>
    refine (agrees_buildNamed children).bind fun ts h => .pure ?_
    rw [outline, h, outline]
  case h_18 => exact .pure rfl
  case h_19 => exact hunread

/-- The first type among the children has the outline of the first one among them laid bare. -/
private theorem agrees_buildFirst {otherwise otherwise' : TypeExpr}
    (h : otherwise.outline = otherwise'.outline) (cs : List Node) :
    Agrees outline (buildFirst bind otherwise cs)
      (buildFirst unbound otherwise' (Node.bareAll cs)) := by
  match cs with
  | [] => exact .pure h
  | c :: cs =>
    rw [Node.bareAll, buildFirst, buildFirst, Node.isNamed_bare]
    split
    · exact agrees_build c
    · exact agrees_buildFirst h cs

private theorem agrees_buildNamed (cs : List Node) :
    Agrees outlineAll (buildNamed bind cs) (buildNamed unbound (Node.bareAll cs)) := by
  match cs with
  | [] => exact .pure rfl
  | c :: cs =>
    rw [Node.bareAll, buildNamed, buildNamed, Node.isNamed_bare]
    split
    · refine (agrees_build c).bind fun t ht => (agrees_buildNamed cs).bind fun ts hts => .pure ?_
      rw [outlineAll, ht, hts, outlineAll]
    · exact agrees_buildNamed cs

/-- A union or intersection takes over the same parts with and without names. -/
private theorem agrees_buildFlat (isUnion : Bool) (cs : List Node) :
    Agrees outlineAll (buildFlat bind isUnion cs)
      (buildFlat unbound isUnion (Node.bareAll cs)) := by
  match cs with
  | [] => exact .pure rfl
  | c :: cs =>
    rw [Node.bareAll, buildFlat, buildFlat, Node.isNamed_bare]
    split
    · refine (agrees_build c).bind fun t ht =>
        (agrees_buildFlat isUnion cs).bind fun ts hts => .pure ?_
      rw [outlineAll_append, outlineAll_append, outlineAll_sameForm, outlineAll_sameForm, ht, hts]
    · exact agrees_buildFlat isUnion cs

private theorem agrees_buildField (part : Field) (cs : List Node) :
    Agrees (Option.map outline) (buildField bind part cs)
      (buildField unbound part (Node.bareAll cs)) := by
  match cs with
  | [] => exact .pure rfl
  | c :: cs =>
    rw [Node.bareAll, buildField, buildField, Node.field_bare]
    split
    · refine (agrees_build c).bind fun t ht => .pure ?_
      rw [Option.map_some, ht, Option.map_some]
    · exact agrees_buildField part cs

private theorem agrees_buildArguments (cs : List Node) :
    Agrees outlineAll (buildArguments bind cs) (buildArguments unbound (Node.bareAll cs)) := by
  match cs with
  | [] => exact .pure rfl
  | ⟨id, label, field, start, stop, text, children⟩ :: cs =>
    rw [Node.bareAll, Node.bare, buildArguments, buildArguments]
    split
    · exact agrees_buildNamed children
    · exact agrees_buildArguments cs

/-- Parameters keep their outlines when the nodes are laid bare. -/
private theorem agrees_buildParameters (cs : List Node) :
    Agrees outlineMembers (buildParameters bind cs)
      (buildParameters unbound (Node.bareAll cs)) := by
  match cs with
  | [] => exact .pure rfl
  | ⟨id, label, field, start, stop, text, children⟩ :: cs =>
    rw [Node.bareAll, Node.bare, buildParameters, buildParameters]
    split
    · exact agrees_buildParameterList children
    · exact agrees_buildParameters cs

private theorem agrees_buildParameterList (cs : List Node) :
    Agrees outlineMembers (buildParameterList bind cs)
      (buildParameterList unbound (Node.bareAll cs)) := by
  match cs with
  | [] => exact .pure rfl
  | c :: cs =>
    rw [Node.bareAll, buildParameterList, buildParameterList, Node.isOneOf_bare]
    split
    · exact (agrees_buildParameter c).cons (agrees_buildParameterList cs)
    · exact agrees_buildParameterList cs

private theorem agrees_buildParameter (n : Node) :
    Agrees outlineMember (buildParameter bind n) (buildParameter unbound n.bare) := by
  obtain ⟨id, label, field, start, stop, text, children⟩ := n
  rw [Node.bare, buildParameter, buildParameter]
  refine (agrees_buildField .type children).bind fun type htype => .pure ?_
  rw [outlineMember_member, outlineMember_member, htype]
  rfl

/-- Members keep their outlines when the nodes are laid bare. -/
private theorem agrees_buildMembers (cs : List Node) :
    Agrees outlineMembers (buildMembers bind cs) (buildMembers unbound (Node.bareAll cs)) := by
  match cs with
  | [] => exact .pure rfl
  | c :: cs =>
    rw [Node.bareAll, buildMembers, buildMembers, Node.isOneOf_bare]
    split
    · exact (agrees_buildMember c).cons (agrees_buildMembers cs)
    · exact agrees_buildMembers cs

private theorem agrees_buildMember (n : Node) :
    Agrees outlineMember (buildMember bind n) (buildMember unbound n.bare) := by
  obtain ⟨id, label, field, start, stop, text, children⟩ := n
  have hkind := Node.is_bare ⟨id, label, field, start, stop, text, children⟩ .methodSignature
  have htoken := Node.hasToken_bare ⟨id, label, field, start, stop, text, children⟩ "?"
  rw [Node.bare] at hkind htoken ⊢
  rw [buildMember, buildMember, hkind, htoken]
  split
  · refine (agrees_buildParameters children).bind fun ps hps =>
      (agrees_buildField .returnType children).bind fun r hr => .pure ?_
    rw [outlineMember, outline_function, hps, hr, outlineMember, outline_function]
  · refine (agrees_buildField .type children).bind fun type htype => .pure ?_
    rw [outlineMember_member, outlineMember_member, htype]

end

end

end TypeExpr

namespace Node

/-- The outline of the type that a node stands for. -/
def outline (n : Node) : TypeExpr :=
  TypeExpr.outline (Id.run (TypeExpr.build TypeExpr.unbound n.bare))

/-- Whatever its names are bound to, a node stands for a type of its outline. -/
theorem outline_eq_of_build {m : Type → Type} [Monad m] [LawfulMonad m] [MonadAttach m]
    [LawfulMonadAttach m] {bind : Binder m} {n : Node} {t : TypeExpr}
    (ht : CanReturn (TypeExpr.build bind n) t) : t.outline = n.outline :=
  TypeExpr.agrees_build bind n t ht

/-- The outline of the type that a node stands for does not depend on how its nodes are numbered. -/
theorem outline_number (source : String) (n : Node) (next : Nat) :
    (Reader.number source n next).1.outline = n.outline := by
  rw [outline, Reader.bare_number, outline]

end Node

end StableProps
