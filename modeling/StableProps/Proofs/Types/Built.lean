import StableProps.Proofs.Module.Unanswered
import StableProps.Proofs.Types.Within
import StableProps.Types.Build

/-!
# Types as they are built

A type that is built from syntax refers only to declarations that its names were bound to, it has
no union directly inside of a union and no intersection directly inside of an intersection, and what
is printed in it as it was found is the text of a node, however deep all this stands. It is shown
together, by going along with the steps in which a type is built, for every way to speak of what
steps return that goes along with taking one step after the other.
-/

namespace StableProps

/-- A text is that of some nodes: of a whole node, or of the parameters and the result of a method,
which is written as a function. -/
inductive Node.PrintedAs (n : Node) : String → List Node → Prop where
  | whole : PrintedAs n n.text [n]
  | method (isMethod : n.is .methodSignature = true) : PrintedAs n (TypeExpr.methodText n)
      ((n.child? .parameters).toList ++ (n.child? .returnType).toList)

namespace TypeExpr

/-- Whether a type is of a form that is printed as it was found. -/
def isTakenOver : TypeExpr → Bool
  | .function .. => true
  | .object .. => true
  | .tuple .. => true
  | .literal .. => true
  | .indexed .. => true
  | .query .. => true
  | .raw .. => true
  | _ => false

/-- The type that stands for the missing element of an array. -/
def unread : TypeExpr := .raw "unknown" []

/-- A type that is printed as it was found has the text of a node. -/
def HasSource (Source : Node → Prop) (t : TypeExpr) : Prop :=
  t.isTakenOver = true → t = unread ∨ ∃ n nodes, Source n ∧ n.PrintedAs t.text nodes

/-- What is so of a type by itself if it was built from syntax. -/
structure HasBuiltForm (Found : TypeDeclaration → Prop) (t : TypeExpr) : Prop where
  declaration : ∀ d, t.declaration? = some d → Found d
  union : t.isUnion = true → ∀ u ∈ t.inside, u.isUnion = false
  intersection : t.isIntersection = true → ∀ u ∈ t.inside, u.isIntersection = false

/-- All types in a type have the form of types that are built from syntax. -/
def IsBuilt (Found : TypeDeclaration → Prop) (t : TypeExpr) : Prop :=
  ∀ u ∈ t.within, u.HasBuiltForm Found

/-- All types in a type have the form of types that are built from some nodes. -/
def IsBuiltFrom (Source : Node → Prop) (Found : TypeDeclaration → Prop) (t : TypeExpr) : Prop :=
  ∀ u ∈ t.within, u.HasBuiltForm Found ∧ u.HasSource Source

end TypeExpr

/-- The type of a member has the form of types that are built from syntax. -/
def TypeMember.IsBuilt (Found : TypeDeclaration → Prop) (x : TypeMember) : Prop :=
  ∀ t, x.type? = some t → t.IsBuilt Found

/-- The type of a member has the form of types that are built from some nodes. -/
def TypeMember.IsBuiltFrom (Source : Node → Prop) (Found : TypeDeclaration → Prop)
    (x : TypeMember) : Prop :=
  ∀ t, x.type? = some t → t.IsBuiltFrom Source Found

namespace TypeExpr

variable {Source : Node → Prop} {Found : TypeDeclaration → Prop} {t u : TypeExpr}
variable {ts : List TypeExpr} {xs : List TypeMember} {text name : String}

/-- A type is built exactly if it has a form that is built and all types right inside it are built.
-/
theorem isBuilt_iff :
    t.IsBuilt Found ↔ t.HasBuiltForm Found ∧ ∀ u ∈ t.inside, u.IsBuilt Found :=
  forall_mem_within

/-- A type is built from sources exactly if its own form is and all types right inside it are. -/
theorem isBuiltFrom_iff : t.IsBuiltFrom Source Found ↔
    (t.HasBuiltForm Found ∧ t.HasSource Source) ∧ ∀ u ∈ t.inside, u.IsBuiltFrom Source Found :=
  forall_mem_within

/-- What is built from sources is built. -/
theorem IsBuiltFrom.isBuilt (h : t.IsBuiltFrom Source Found) : t.IsBuilt Found :=
  fun u hu => (h u hu).1

/-- Some node has the text of a type. -/
theorem IsBuilt.isBuiltFrom (h : t.IsBuilt Found) : t.IsBuiltFrom (fun _ => True) Found :=
  fun u hu => ⟨h u hu, fun _ =>
    .inr ⟨{ (default : Node) with text := u.text }, _, trivial, .whole⟩⟩

/-- All types inside a type that is built from sources are built from them. -/
theorem IsBuiltFrom.of_mem_within (h : t.IsBuiltFrom Source Found) (hu : u ∈ t.within) :
    u.IsBuiltFrom Source Found :=
  fun v hv => h v (within_subset hu hv)

/-- More declarations may be found. -/
theorem IsBuiltFrom.imp {Found' : TypeDeclaration → Prop} (h : t.IsBuiltFrom Source Found)
    (himp : ∀ d, Found d → Found' d) : t.IsBuiltFrom Source Found' := fun u hu =>
  ⟨{ (h u hu).1 with declaration := fun d hd => himp d ((h u hu).1.declaration d hd) }, (h u hu).2⟩

/-- All types inside a type that is built are built. -/
theorem IsBuilt.of_mem_within (h : t.IsBuilt Found) (hu : u ∈ t.within) : u.IsBuilt Found :=
  fun v hv => h v (within_subset hu hv)

/-- More declarations may be found. -/
theorem IsBuilt.imp {Found' : TypeDeclaration → Prop} (h : t.IsBuilt Found)
    (himp : ∀ d, Found d → Found' d) : t.IsBuilt Found' := fun u hu =>
  { h u hu with declaration := fun d hd => himp d ((h u hu).declaration d hd) }

/-- Of other forms than references, unions and intersections nothing is asked by themselves but a
source. -/
theorem isBuiltFrom_of_inside (hdeclaration : t.declaration? = none) (hunion : t.isUnion = false)
    (hintersection : t.isIntersection = false) (hsource : t.HasSource Source)
    (h : ∀ u ∈ t.inside, u.IsBuiltFrom Source Found) : t.IsBuiltFrom Source Found := by
  refine isBuiltFrom_iff.2 ⟨⟨⟨?_, ?_, ?_⟩, hsource⟩, h⟩
  · simp [hdeclaration]
  · simp [hunion]
  · simp [hintersection]

/-- A reference is built if its arguments are and its declaration was found. -/
private theorem isBuiltFrom_reference {d : Option TypeDeclaration} (hd : ∀ e, d = some e → Found e)
    (h : ∀ u ∈ ts, u.IsBuiltFrom Source Found) :
    IsBuiltFrom Source Found (.reference text name ts d) :=
  isBuiltFrom_iff.2 ⟨⟨⟨hd, nofun, nofun⟩, nofun⟩, h⟩

/-- A whole node is the source of a type that has its text. -/
theorem hasSource_of_text {n : Node} (hn : Source n) (h : t.text = n.text) : t.HasSource Source :=
  fun _ => .inr ⟨n, [n], hn, h ▸ .whole⟩

/-- The text of a source is built. -/
private theorem isBuiltFrom_raw_nil {n : Node} (hn : Source n) (h : text = n.text) :
    IsBuiltFrom Source Found (.raw text []) :=
  isBuiltFrom_of_inside rfl rfl rfl (hasSource_of_text hn h) nofun

/-- A keyword is built from no source. -/
theorem isBuiltFrom_keyword (name : String) : IsBuiltFrom Source Found (.keyword name) :=
  isBuiltFrom_of_inside rfl rfl rfl nofun nofun

private theorem isBuiltFrom_unread : IsBuiltFrom Source Found unread :=
  isBuiltFrom_of_inside rfl rfl rfl (fun _ => .inl rfl) nofun

private theorem forall_isBuiltFrom_types (h : ∀ x ∈ xs, x.IsBuiltFrom Source Found) :
    ∀ u ∈ xs.filterMap TypeMember.type?, u.IsBuiltFrom Source Found := by
  intro u hu
  obtain ⟨x, hx, htype⟩ := List.mem_filterMap.1 hu
  exact h x hx u htype

/-- A function is built if it is the text of a source and its parameters and result are built. -/
private theorem isBuiltFrom_function {returns : Option TypeExpr}
    (hsource : HasSource Source (.function text xs returns))
    (hparameters : ∀ x ∈ xs, x.IsBuiltFrom Source Found)
    (hreturns : ∀ t, returns = some t → t.IsBuiltFrom Source Found) :
    IsBuiltFrom Source Found (.function text xs returns) := by
  refine isBuiltFrom_of_inside rfl rfl rfl hsource (List.forall_mem_append.2 ⟨?_, ?_⟩)
  · exact forall_isBuiltFrom_types hparameters
  · exact fun u hu => hreturns u (Option.mem_toList.1 hu)

private theorem isBuiltFrom_member {type : Option TypeExpr} {isOptional : Bool}
    (h : ∀ t, type = some t → t.IsBuiltFrom Source Found) :
    (member name type isOptional).IsBuiltFrom Source Found := by
  intro t ht
  cases type with
  | none => cases ht
  | some u => exact Option.some.inj ht ▸ h u rfl

/-- What may stand directly inside of a union, or else of an intersection. -/
def IsPartOf (Source : Node → Prop) (Found : TypeDeclaration → Prop) (isUnion : Bool)
    (t : TypeExpr) : Prop :=
  t.IsBuiltFrom Source Found ∧ (if isUnion then t.isUnion else t.isIntersection) = false

/-- A union is built if its members can be parts of one. -/
theorem isBuiltFrom_union (h : ∀ u ∈ ts, IsPartOf Source Found true u) :
    IsBuiltFrom Source Found (.union text ts) :=
  isBuiltFrom_iff.2 ⟨⟨⟨nofun, fun _ u hu => (h u hu).2, nofun⟩, nofun⟩, fun u hu => (h u hu).1⟩

/-- An intersection is built if its members can be parts of one. -/
private theorem isBuiltFrom_intersection (h : ∀ u ∈ ts, IsPartOf Source Found false u) :
    IsBuiltFrom Source Found (.intersection text ts) :=
  isBuiltFrom_iff.2 ⟨⟨⟨nofun, nofun, fun _ u hu => (h u hu).2⟩, nofun⟩, fun u hu => (h u hu).1⟩

/-- What a type adds to a union or intersection around it may stand directly inside of it. -/
theorem isPartOf_sameForm {isUnion : Bool} (ht : t.IsBuiltFrom Source Found) :
    ∀ u ∈ sameForm isUnion t, IsPartOf Source Found isUnion u := by
  obtain ⟨⟨hform, -⟩, hinside⟩ := isBuiltFrom_iff.1 ht
  have hself (h : (if isUnion then t.isUnion else t.isIntersection) = false) :
      ∀ u ∈ [t], IsPartOf Source Found isUnion u := by
    rintro u hu
    obtain rfl := List.mem_singleton.1 hu
    exact ⟨ht, h⟩
  cases t with
  | union text members =>
    cases isUnion with
    | true => exact fun u hu => ⟨hinside u hu, hform.union rfl u hu⟩
    | false => exact hself rfl
  | intersection text members =>
    cases isUnion with
    | true => exact hself rfl
    | false => exact fun u hu => ⟨hinside u hu, hform.intersection rfl u hu⟩
  | _ => cases isUnion <;> exact hself rfl

section

variable {m : Type → Type} [Monad m] {bind : Binder m} (L : OutcomeLogic m)

/-- All declarations that names are bound to have a property. -/
def Finds (L : OutcomeLogic m) (bind : Binder m) (Found : TypeDeclaration → Prop) : Prop :=
  ∀ name qualifier, L.Ensures (fun d => ∀ e, d = some e → Found e) (bind name qualifier)

/-- A name is built into a reference to what it is bound to. -/
private theorem isBuiltFrom_bound (hbind : Finds L bind Found) {q : Option String}
    (h : ∀ u ∈ ts, u.IsBuiltFrom Source Found) :
    L.Ensures (IsBuiltFrom Source Found) (bound bind text name q ts) := by
  rw [bound]
  refine L.bind (hbind name q) fun d hd => ?_
  split
  · exact L.pure (isBuiltFrom_reference hd h)
  · split <;> exact L.pure (isBuiltFrom_reference nofun h)

/-- A name, qualified or not, is built into a reference. -/
private theorem isBuiltFrom_ofName (hbind : Finds L bind Found) {n : Node}
    (h : ∀ u ∈ ts, u.IsBuiltFrom Source Found) :
    L.Ensures (IsBuiltFrom Source Found) (ofName bind text n ts) := by
  rw [ofName]
  split <;> exact isBuiltFrom_bound L hbind h

/-- A form that is not looked into is built from its own text and the names in it. -/
private theorem isBuiltFrom_ofUnread (hbind : Finds L bind Found) {n : Node} (hn : Source n) :
    L.Ensures (IsBuiltFrom Source Found) (ofUnread bind n) := by
  rw [ofUnread]
  refine L.bind (P := (∀ t ∈ ·, IsBuiltFrom Source Found t))
    (L.mapM (fun c => isBuiltFrom_bound L hbind (List.forall_mem_nil _)) _) fun ts hts => ?_
  exact L.pure (isBuiltFrom_of_inside rfl rfl rfl (hasSource_of_text hn rfl) hts)

mutual

/-- A type that a node stands for has the form of types that are built from the nodes below. -/
theorem isBuiltFrom_build (hbind : Finds L bind Found) (n : Node) (hn : ∀ c ∈ n.walk, Source c) :
    L.Ensures (IsBuiltFrom Source Found) (build bind n) := by
  obtain ⟨id, label, field, start, stop, text, children⟩ := n
  rw [Node.walk] at hn
  obtain ⟨hself, hchildren⟩ := List.forall_mem_cons.1 hn
  have hfirst : L.Ensures (IsBuiltFrom Source Found) (buildFirst bind (.raw text []) children) :=
    isBuiltFrom_buildFirst hbind (isBuiltFrom_raw_nil hself rfl) children hchildren
  have hown (t : TypeExpr) (htext : t.text = text) (hdeclaration : t.declaration? = none)
      (hunion : t.isUnion = false) (hintersection : t.isIntersection = false)
      (h : ∀ u ∈ t.inside, u.IsBuiltFrom Source Found) :
      L.Ensures (IsBuiltFrom Source Found) (pure t : m TypeExpr) :=
    L.pure (isBuiltFrom_of_inside hdeclaration hunion hintersection
      (hasSource_of_text hself htext) h)
  have hkeyword (name : String) :
      L.Ensures (IsBuiltFrom Source Found) (pure (.keyword name) : m TypeExpr) :=
    L.pure (isBuiltFrom_keyword name)
  have hfunction : L.Ensures (IsBuiltFrom Source Found)
      (do let ps ← buildParameters bind children
          return .function text ps (← buildField bind .returnType children)) :=
    L.bind (isBuiltFrom_buildParameters hbind children hchildren) fun ps hps =>
      L.bind (isBuiltFrom_buildField hbind .returnType children hchildren) fun r hr =>
        L.pure (isBuiltFrom_function (hasSource_of_text hself rfl) hps hr)
  rw [build.eq_def]
  dsimp only
  split
  case h_1 => exact hfirst
  case h_2 => exact hfirst
  case h_3 => exact hfirst
  case h_4 => exact hfirst
  case h_5 => exact isBuiltFrom_bound L hbind (List.forall_mem_nil _)
  case h_6 => exact isBuiltFrom_ofName L hbind (List.forall_mem_nil _)
  case h_7 =>
    refine L.bind (isBuiltFrom_buildArguments hbind children hchildren) fun arguments h => ?_
    split
    · exact isBuiltFrom_ofName L hbind h
    · exact L.pure (isBuiltFrom_raw_nil hself rfl)
  case h_8 => exact hkeyword text
  case h_9 =>
    split
    · split
      · exact hkeyword _
      · split
        · exact hkeyword _
        · exact hown _ rfl rfl rfl rfl nofun
    · exact hown _ rfl rfl rfl rfl nofun
  case h_10 =>
    exact L.bind (isBuiltFrom_buildFlat hbind true children hchildren) fun ts h =>
      L.pure (isBuiltFrom_union h)
  case h_11 =>
    exact L.bind (isBuiltFrom_buildFlat hbind false children hchildren) fun ts h =>
      L.pure (isBuiltFrom_intersection h)
  case h_12 => exact hfunction
  case h_13 => exact hfunction
  case h_14 =>
    exact L.bind (isBuiltFrom_buildMembers hbind children hchildren) fun xs h =>
      hown _ rfl rfl rfl rfl (forall_isBuiltFrom_types h)
  case h_15 =>
    refine L.bind (isBuiltFrom_buildFirst hbind isBuiltFrom_unread children hchildren)
      fun t h => L.pure ?_
    exact isBuiltFrom_of_inside rfl rfl rfl nofun (by simpa [inside] using h)
  case h_16 =>
    exact L.bind (isBuiltFrom_buildNamed hbind children hchildren) fun ts h =>
      hown _ rfl rfl rfl rfl h
  case h_17 =>
    exact L.bind (isBuiltFrom_buildNamed hbind children hchildren) fun ts h =>
      hown _ rfl rfl rfl rfl h
  case h_18 => exact hown _ rfl rfl rfl rfl nofun
  case h_19 => exact isBuiltFrom_ofUnread L hbind hself
termination_by structural n

/-- The first type among the children is built from them. -/
private theorem isBuiltFrom_buildFirst (hbind : Finds L bind Found) {otherwise : TypeExpr}
    (h : otherwise.IsBuiltFrom Source Found) (cs : List Node)
    (hcs : ∀ c ∈ Node.walkAll cs, Source c) :
    L.Ensures (IsBuiltFrom Source Found) (buildFirst bind otherwise cs) := by
  match cs with
  | [] => exact L.pure h
  | c :: cs =>
    obtain ⟨hc, hcs⟩ := List.forall_mem_append.1 hcs
    rw [buildFirst]
    split
    · exact isBuiltFrom_build hbind c hc
    · exact isBuiltFrom_buildFirst hbind h cs hcs
termination_by structural cs

private theorem isBuiltFrom_buildNamed (hbind : Finds L bind Found) (cs : List Node)
    (hcs : ∀ c ∈ Node.walkAll cs, Source c) :
    L.Ensures (∀ t ∈ ·, t.IsBuiltFrom Source Found) (buildNamed bind cs) := by
  match cs with
  | [] => exact L.pure (List.forall_mem_nil _)
  | c :: cs =>
    obtain ⟨hc, hcs⟩ := List.forall_mem_append.1 hcs
    rw [buildNamed]
    split
    · exact L.cons (isBuiltFrom_build hbind c hc) (isBuiltFrom_buildNamed hbind cs hcs)
    · exact isBuiltFrom_buildNamed hbind cs hcs
termination_by structural cs

/-- The parts of a union or intersection are built from the children. -/
private theorem isBuiltFrom_buildFlat (hbind : Finds L bind Found) (isUnion : Bool) (cs : List Node)
    (hcs : ∀ c ∈ Node.walkAll cs, Source c) :
    L.Ensures (∀ t ∈ ·, IsPartOf Source Found isUnion t) (buildFlat bind isUnion cs) := by
  match cs with
  | [] => exact L.pure (List.forall_mem_nil _)
  | c :: cs =>
    obtain ⟨hc, hcs⟩ := List.forall_mem_append.1 hcs
    rw [buildFlat]
    split
    · refine L.bind (isBuiltFrom_build hbind c hc) fun t ht =>
        L.bind (isBuiltFrom_buildFlat hbind isUnion cs hcs) fun ts hts => L.pure ?_
      exact List.forall_mem_append.2 ⟨isPartOf_sameForm ht, hts⟩
    · exact isBuiltFrom_buildFlat hbind isUnion cs hcs
termination_by structural cs

private theorem isBuiltFrom_buildField (hbind : Finds L bind Found) (part : Field) (cs : List Node)
    (hcs : ∀ c ∈ Node.walkAll cs, Source c) :
    L.Ensures (fun o => ∀ t, o = some t → t.IsBuiltFrom Source Found)
      (buildField bind part cs) := by
  match cs with
  | [] => exact L.pure nofun
  | c :: cs =>
    obtain ⟨hc, hcs⟩ := List.forall_mem_append.1 hcs
    rw [buildField]
    split
    · refine L.bind (isBuiltFrom_build hbind c hc) fun t ht => L.pure ?_
      rintro u ⟨⟩
      exact ht
    · exact isBuiltFrom_buildField hbind part cs hcs
termination_by structural cs

private theorem isBuiltFrom_buildArguments (hbind : Finds L bind Found) (cs : List Node)
    (hcs : ∀ c ∈ Node.walkAll cs, Source c) :
    L.Ensures (∀ t ∈ ·, t.IsBuiltFrom Source Found) (buildArguments bind cs) := by
  match cs with
  | [] => exact L.pure (List.forall_mem_nil _)
  | ⟨id, label, field, start, stop, text, children⟩ :: cs =>
    rw [Node.walkAll, Node.walk] at hcs
    obtain ⟨hc, hcs⟩ := List.forall_mem_append.1 hcs
    rw [buildArguments]
    split
    · exact isBuiltFrom_buildNamed hbind children (List.forall_mem_cons.1 hc).2
    · exact isBuiltFrom_buildArguments hbind cs hcs
termination_by structural cs

/-- Parameters are built from their nodes. -/
private theorem isBuiltFrom_buildParameters (hbind : Finds L bind Found) (cs : List Node)
    (hcs : ∀ c ∈ Node.walkAll cs, Source c) :
    L.Ensures (∀ x ∈ ·, x.IsBuiltFrom Source Found) (buildParameters bind cs) := by
  match cs with
  | [] => exact L.pure (List.forall_mem_nil _)
  | ⟨id, label, field, start, stop, text, children⟩ :: cs =>
    rw [Node.walkAll, Node.walk] at hcs
    obtain ⟨hc, hcs⟩ := List.forall_mem_append.1 hcs
    rw [buildParameters]
    split
    · exact isBuiltFrom_buildParameterList hbind children (List.forall_mem_cons.1 hc).2
    · exact isBuiltFrom_buildParameters hbind cs hcs
termination_by structural cs

private theorem isBuiltFrom_buildParameterList (hbind : Finds L bind Found) (cs : List Node)
    (hcs : ∀ c ∈ Node.walkAll cs, Source c) :
    L.Ensures (∀ x ∈ ·, x.IsBuiltFrom Source Found) (buildParameterList bind cs) := by
  match cs with
  | [] => exact L.pure (List.forall_mem_nil _)
  | c :: cs =>
    obtain ⟨hc, hcs⟩ := List.forall_mem_append.1 hcs
    rw [buildParameterList]
    split
    · exact L.cons (isBuiltFrom_buildParameter hbind c hc)
        (isBuiltFrom_buildParameterList hbind cs hcs)
    · exact isBuiltFrom_buildParameterList hbind cs hcs
termination_by structural cs

private theorem isBuiltFrom_buildParameter (hbind : Finds L bind Found) (n : Node)
    (hn : ∀ c ∈ n.walk, Source c) :
    L.Ensures (TypeMember.IsBuiltFrom Source Found) (buildParameter bind n) := by
  obtain ⟨id, label, field, start, stop, text, children⟩ := n
  rw [Node.walk] at hn
  rw [buildParameter]
  exact L.bind (isBuiltFrom_buildField hbind .type children (List.forall_mem_cons.1 hn).2)
    fun type htype => L.pure (isBuiltFrom_member htype)
termination_by structural n

/-- Members are built from their nodes. -/
private theorem isBuiltFrom_buildMembers (hbind : Finds L bind Found) (cs : List Node)
    (hcs : ∀ c ∈ Node.walkAll cs, Source c) :
    L.Ensures (∀ x ∈ ·, x.IsBuiltFrom Source Found) (buildMembers bind cs) := by
  match cs with
  | [] => exact L.pure (List.forall_mem_nil _)
  | c :: cs =>
    obtain ⟨hc, hcs⟩ := List.forall_mem_append.1 hcs
    rw [buildMembers]
    split
    · exact L.cons (isBuiltFrom_buildMember hbind c hc) (isBuiltFrom_buildMembers hbind cs hcs)
    · exact isBuiltFrom_buildMembers hbind cs hcs
termination_by structural cs

/-- So has the type of a member. -/
theorem isBuiltFrom_buildMember (hbind : Finds L bind Found) (n : Node)
    (hn : ∀ c ∈ n.walk, Source c) :
    L.Ensures (TypeMember.IsBuiltFrom Source Found) (buildMember bind n) := by
  obtain ⟨id, label, field, start, stop, text, children⟩ := n
  rw [Node.walk] at hn
  obtain ⟨hself, hchildren⟩ := List.forall_mem_cons.1 hn
  rw [buildMember]
  split
  next hmethod =>
    refine L.bind (isBuiltFrom_buildParameters hbind children hchildren) fun ps hps =>
      L.bind (isBuiltFrom_buildField hbind .returnType children hchildren) fun r hr => L.pure ?_
    rintro t ⟨⟩
    exact isBuiltFrom_function (fun _ => .inr ⟨_, _, hself, .method hmethod⟩) hps hr
  next =>
    exact L.bind (isBuiltFrom_buildField hbind .type children hchildren) fun type htype =>
      L.pure (isBuiltFrom_member htype)
termination_by structural n

end

/-- A type that a node stands for has the form of types that are built from syntax. -/
theorem isBuilt_build (hbind : Finds L bind Found) (n : Node) :
    L.Ensures (IsBuilt Found) (build bind n) := by
  have hbuilt : L.Ensures (IsBuiltFrom (fun _ => True) Found) (build bind n) :=
    isBuiltFrom_build L hbind n fun _ _ => trivial
  exact L.imp hbuilt fun _ => IsBuiltFrom.isBuilt

/-- So has the type of a member. -/
theorem isBuilt_buildMember (hbind : Finds L bind Found) (n : Node) :
    L.Ensures (TypeMember.IsBuilt Found) (buildMember bind n) := by
  have hbuilt : L.Ensures (TypeMember.IsBuiltFrom (fun _ => True) Found) (buildMember bind n) :=
    isBuiltFrom_buildMember L hbind n fun _ _ => trivial
  exact L.imp hbuilt fun _ h t ht => (h t ht).isBuilt

end

end TypeExpr

end StableProps
