import StableProps.Proofs.Types.Flat
import StableProps.Proofs.Types.Names
import StableProps.Proofs.Types.Rendered

/-!
# Types that the grammar derives

A text is a type by rules that say how it is put together: from names and words, from what is taken
over as it was found, by angle brackets, by brackets behind an element, by marks between members
and by parentheses around what binds weaker than its place. Each rule gives the tree of the text as
well. A printed type is derived by these rules, and its tree stands for a type of its outline, if
every form that is taken over binds strongly enough where it stands.
-/

namespace StableProps

open MonadAttach (CanReturn)
open Reader

/-- Where a type stands in a text. -/
inductive Slot where
  /-- As the whole of it, of parentheses or of an argument. -/
  | whole
  /-- As a member of a union. -/
  | inUnion
  /-- As a member of an intersection. -/
  | inIntersection
  /-- As the element of an array. -/
  | element
  deriving DecidableEq

namespace Slot

/-- Forms that are taken over as they were found and bind as strongly as names. -/
def tightKinds : List Kind :=
  [.predefinedType, .literalType, .objectType, .tupleType, .lookupType, .typeQuery,
   .templateLiteralType, .thisType]

/-- Forms with a word in front that binds weaker than the brackets of arrays. -/
def operatorKinds : List Kind := [.indexTypeQuery, .readonlyType]

/-- Forms that bind weaker than the marks between members. -/
def looseKinds : List Kind := [.functionType, .constructorType, .conditionalType, .inferType]

/-- The forms that are taken over at a place as they were found. -/
def bareKinds : Slot → List Kind
  | .whole => tightKinds ++ operatorKinds ++ looseKinds
  | .inUnion => tightKinds ++ operatorKinds
  | .inIntersection => tightKinds ++ operatorKinds
  | .element => tightKinds

/-- The forms that stand at a place in parentheses. -/
def groupedKinds : Slot → List Kind
  | .whole => []
  | .inUnion => looseKinds
  | .inIntersection => .unionType :: looseKinds
  | .element => [.unionType, .intersectionType] ++ operatorKinds ++ looseKinds

/-- Where the members of unions or intersections stand. -/
def ofMember (isUnion : Bool) : Slot := if isUnion then .inUnion else .inIntersection

/-- The places where a union or intersection stands without parentheses. -/
def holds (isUnion : Bool) : List Slot := if isUnion then [.whole] else [.whole, .inUnion]

end Slot

namespace Reader

/-- A mark in a tree. -/
def mark (s : String) : Node := leaf (.token s) 0 0

/-- The tree of a union or intersection, which is read from the left. -/
def joinedTree (isUnion : Bool) (first : Node) (rest : List Node) : Node :=
  (rest.map (Prod.mk (mark (String.singleton (jointMark isUnion))))).foldl (join isUnion) first

/-- The nodes of type arguments with the marks around them. -/
def argumentNodes (first : Node) (rest : List Node) : List Node :=
  mark "<" :: first :: rest.flatMap (fun n => [mark ",", n]) ++ [mark ">"]

end Reader

/-- A text is a type by the rules of the grammar, and has a tree by them. What stands below `source`
may be taken over. -/
inductive Derives (source : Node) : Slot → String → Node → Prop where
  | taken {p : Slot} {n : Node} (below : n ∈ source.walk) (fits : n.isOneOf p.bareKinds = true) :
      Derives source p n.text n
  | name {p : Slot} {s : String} {n : Node} (isName : IsTypeName s.toList) (tree : isTypeName n) :
      Derives source p s n
  | null {p : Slot} {n : Node} (tree : n.is .nullLiteral = true) :
      Derives source p "null" (branch .literalType [n])
  | undefined {p : Slot} {n : Node} (tree : n.is .undefinedKeyword = true) :
      Derives source p "undefined" (branch .literalType [n])
  | generic {p : Slot} {s : String} {n : Node} {first : String × Node}
      {rest : List (String × Node)} (isName : IsTypeName s.toList) (tree : isTypeName n)
      (each : ∀ a ∈ first :: rest, Derives source .whole a.1 a.2) :
      Derives source p (s ++ "<" ++ String.intercalate ", " ((first :: rest).map Prod.fst) ++ ">")
        (branch .genericType [inField .name n, inField .typeArguments
          (branch .typeArguments (argumentNodes first.2 (rest.map Prod.snd)))])
  | array {p : Slot} {s : String} {n : Node} (element : Derives source .element s n) :
      Derives source p (s ++ "[]") (branch .arrayType [n, mark "[", mark "]"])
  | joint {p : Slot} {isUnion : Bool} {first : String × Node} {rest : List (String × Node)}
      (place : p ∈ Slot.holds isUnion) (several : rest ≠ [])
      (each : ∀ a ∈ first :: rest, Derives source (Slot.ofMember isUnion) a.1 a.2) :
      Derives source p
        (String.intercalate (String.ofList (jointSeparator isUnion)) ((first :: rest).map Prod.fst))
        (joinedTree isUnion first.2 (rest.map Prod.snd))
  | group {p : Slot} {s : String} {n : Node} (inside : Derives source .whole s n)
      (weak : n.isOneOf p.groupedKinds = true) :
      Derives source p ("(" ++ s ++ ")") (branch .parenthesizedType [mark "(", n, mark ")"])

/-- A reader of types takes a text as the grammar does: for a tree that stands for the same type. -/
def Node.IsReadBy (source : Node) (read : String → Option Node) (s : String) : Prop :=
  ∀ tree, Derives source .whole s tree → ∃ n, read s = some n ∧ n.outline = tree.outline

/-! ## Trees of unions and intersections -/

namespace Reader

variable {isUnion : Bool} {first : Node} {rest : List Node}

private theorem is_join (left : Node) (p : Node × Node) :
    (join isUnion left p).is (jointKind isUnion) = true :=
  beq_self_eq_true (Label.rule (jointKind isUnion))

/-- The tree of several members is a union or an intersection. -/
theorem is_joinedTree (h : rest ≠ []) :
    (joinedTree isUnion first rest).is (jointKind isUnion) = true := by
  rw [← List.dropLast_append_getLast h, joinedTree, List.map_append, List.foldl_append]
  exact is_join _ _

/-- The tree stands for the union or intersection of what its members stand for. -/
theorem outline_joinedTree (hfirst : first.isNamed = true) (hrest : ∀ n ∈ rest, n.isNamed = true)
    (hne : rest ≠ []) : (joinedTree isUnion first rest).outline =
      joint isUnion (((first :: rest).map Node.outline).flatMap (TypeExpr.sameForm isUnion)) := by
  match rest with
  | n :: rest =>
    obtain ⟨hn, hrest⟩ := List.forall_mem_cons.1 hrest
    have hfound : ∀ p ∈ rest.map (Prod.mk (mark (String.singleton (jointMark isUnion)))),
        p.1.isNamed = false ∧ p.2.isNamed = true :=
      List.forall_mem_map.2 fun c hc => ⟨rfl, hrest c hc⟩
    have hjoin := outline_join isUnion hfirst
      (p := (mark (String.singleton (jointMark isUnion)), n)) ⟨rfl, hn⟩
    rw [joinedTree, List.map_cons, List.foldl_cons,
      (outline_foldl_join isUnion rfl hjoin hfound).2, List.map_map, List.map_cons, List.map_cons,
      List.flatMap_cons, List.flatMap_cons, List.append_assoc]
    rfl

/-- The named nodes among type arguments are the arguments. -/
theorem filter_argumentNodes (hfirst : first.isNamed = true)
    (hrest : ∀ n ∈ rest, n.isNamed = true) :
    (argumentNodes first rest).filter Node.isNamed = first :: rest := by
  have hitems : (rest.flatMap fun n => [mark ",", n]).filter Node.isNamed = rest := by
    induction rest with
    | nil => rfl
    | cons n rest ih =>
      obtain ⟨hn, hrest⟩ := List.forall_mem_cons.1 hrest
      rw [List.flatMap_cons, List.filter_append, ih hrest,
        List.filter_cons_of_neg (by decide), List.filter_cons_of_pos hn]
      rfl
  rw [argumentNodes, List.cons_append, List.cons_append, List.filter_cons_of_neg (by decide),
    List.filter_cons_of_pos hfirst, List.filter_append, hitems]
  simp [mark, leaf, Node.isNamed, Node.kind?]

end Reader

/-- The tree of a type is a named node. -/
theorem Derives.isNamed {source n : Node} {p : Slot} {s : String} (h : Derives source p s n) :
    n.isNamed = true := by
  cases h with
  | taken below fits =>
    rw [Node.isOneOf] at fits
    rw [Node.isNamed, Node.kind?]
    cases hlabel : n.label with
    | rule kind => rfl
    | token text => simp [hlabel] at fits
  | name isName tree => exact tree.elim Node.isNamed_of_is Node.isNamed_of_is
  | joint place several each => exact Node.isNamed_of_is (is_joinedTree (by simpa using several))
  | null | undefined | generic | array | group => rfl

/-! ## What is taken over -/

namespace TypeExpr

/-- The rules of the trees of a type, for forms that tell them. -/
def kinds : TypeExpr → List Kind
  | .union .. => [.unionType]
  | .intersection .. => [.intersectionType]
  | .function .. => [.functionType, .constructorType]
  | .object .. => [.objectType]
  | .tuple .. => [.tupleType]
  | .literal .. => [.literalType]
  | .indexed .. => [.lookupType]
  | .query .. => [.typeQuery]
  | _ => []

/-- A form that is printed as it was found is the text of a node below another one, as far as its
form tells the rule of the node. -/
def IsTaken (source : Node) : TypeExpr → Prop
  | .reference .. => True
  | .union .. => True
  | .intersection .. => True
  | .array .. => True
  | .raw .. => True
  | .keyword name =>
    name ∈ ["null", "undefined"] ∨ ∃ n ∈ source.walk, n.is .predefinedType = true ∧ n.text = name
  | t => ∃ n ∈ source.walk, n.isOneOf t.kinds = true ∧ n.text = t.text ∧ n.outline = t.outline

/-- All that a type is printed from is taken from below a node. -/
def IsTakenFrom (source : Node) (t : TypeExpr) : Prop :=
  ∀ u : TypeExpr, u.RenderedIn t → u.IsTaken source

section

variable {source : Node} {ts : List TypeExpr} {text name : String} {d : Option TypeDeclaration}

/-- A reference is printed anew, so only its arguments have to be taken from somewhere. -/
private theorem isTakenFrom_reference (h : ∀ t ∈ ts, t.IsTakenFrom source) :
    IsTakenFrom source (.reference text name ts d) := by
  intro u hu
  cases hu with
  | self => trivial
  | argument ha hu => exact h _ ha u hu

private theorem isTakenFrom_union (h : ∀ t ∈ ts, t.IsTakenFrom source) :
    IsTakenFrom source (.union text ts) := by
  intro u hu
  cases hu with
  | self => trivial
  | unionMember ha hu => exact h _ ha u hu

private theorem isTakenFrom_intersection (h : ∀ t ∈ ts, t.IsTakenFrom source) :
    IsTakenFrom source (.intersection text ts) := by
  intro u hu
  cases hu with
  | self => trivial
  | intersectionMember ha hu => exact h _ ha u hu

private theorem isTakenFrom_array {t : TypeExpr} (h : t.IsTakenFrom source) :
    IsTakenFrom source (.array text t) := by
  intro u hu
  cases hu with
  | self => trivial
  | element hu => exact h u hu

end

section

variable {m : Type → Type} [Monad m] [LawfulMonad m] [MonadAttach m] [LawfulMonadAttach m]
variable {bind : Binder m} {source : Node}

/-- A name that is bound to a declaration is printed anew. -/
private theorem isTakenFrom_bound {text name : String} {q : Option String} {ts : List TypeExpr}
    (h : ∀ t ∈ ts, t.IsTakenFrom source) :
    (OutcomeLogic.canReturn m).Ensures (IsTakenFrom source) (bound bind text name q ts) := by
  rw [bound]
  refine OutcomeLogic.bind _ (P := fun _ => True) (fun _ _ => trivial) fun d _ => ?_
  split
  · exact OutcomeLogic.pure _ (isTakenFrom_reference h)
  · split <;> exact OutcomeLogic.pure _ (isTakenFrom_reference h)

private theorem isTakenFrom_ofName {text : String} {n : Node} {ts : List TypeExpr}
    (h : ∀ t ∈ ts, t.IsTakenFrom source) :
    (OutcomeLogic.canReturn m).Ensures (IsTakenFrom source) (ofName bind text n ts) := by
  rw [ofName]
  split <;> exact isTakenFrom_bound h

private theorem isTakenFrom_raw {text : String} {ts : List TypeExpr} :
    IsTakenFrom source (.raw text ts) := by
  rintro u ⟨⟩
  trivial

/-- What a type adds to a union or intersection around it is taken from where the type is. -/
theorem isTakenFrom_sameForm {isUnion : Bool} {t : TypeExpr} (h : t.IsTakenFrom source) :
    ∀ u ∈ sameForm isUnion t, u.IsTakenFrom source := by
  cases t with
  | union text members =>
    cases isUnion with
    | true => exact fun u hu v hv => h v (.unionMember hu hv)
    | false => exact fun u hu => List.mem_singleton.1 hu ▸ h
  | intersection text members =>
    cases isUnion with
    | true => exact fun u hu => List.mem_singleton.1 hu ▸ h
    | false => exact fun u hu v hv => h v (.intersectionMember hu hv)
  | _ => exact fun u hu => List.mem_singleton.1 hu ▸ h

mutual

/-- A type that is built from a node is taken from below it. -/
theorem isTakenFrom_build (n : Node) (hn : ∀ c ∈ n.walk, c ∈ source.walk) :
    (OutcomeLogic.canReturn m).Ensures (IsTakenFrom source) (build bind n) := by
  let L := OutcomeLogic.canReturn m
  suffices himp : L.Ensures (fun t => t.outline = n.outline → IsTakenFrom source t) (build bind n)
    from fun t ht => himp t ht (Node.outline_eq_of_build ht)
  obtain ⟨id, label, field, start, stop, text, children⟩ := n
  rw [Node.walk] at hn
  obtain ⟨hself, hchildren⟩ := List.forall_mem_cons.1 hn
  have hfirst : L.Ensures (IsTakenFrom source) (buildFirst bind (.raw text []) children) :=
    isTakenFrom_buildFirst isTakenFrom_raw children hchildren
  have hany {α : Type} (x : m α) : L.Ensures (fun _ => True) x := fun _ _ => trivial
  rw [build.eq_def]
  dsimp only
  split
  case h_1 => exact fun t ht _ => hfirst t ht
  case h_2 => exact fun t ht _ => hfirst t ht
  case h_3 => exact fun t ht _ => hfirst t ht
  case h_4 => exact fun t ht _ => hfirst t ht
  case h_5 => exact fun t ht _ => isTakenFrom_bound (List.forall_mem_nil _) t ht
  case h_6 => exact fun t ht _ => isTakenFrom_ofName (List.forall_mem_nil _) t ht
  case h_7 =>
    refine L.bind (isTakenFrom_buildArguments children hchildren) fun arguments h => ?_
    split
    · exact fun t ht _ => isTakenFrom_ofName h t ht
    · exact L.pure fun _ => isTakenFrom_raw
  case h_8 =>
    refine L.pure fun _ => ?_
    rintro u ⟨⟩
    exact .inr ⟨_, hself, rfl, rfl⟩
  case h_9 =>
    split
    · split
      · refine L.pure fun _ => ?_
        rintro u ⟨⟩
        exact .inl (by decide)
      · split
        · refine L.pure fun _ => ?_
          rintro u ⟨⟩
          exact .inl (by decide)
        · refine L.pure fun ho => ?_
          rintro u ⟨⟩
          exact ⟨_, hself, rfl, rfl, ho.symm⟩
    · refine L.pure fun ho => ?_
      rintro u ⟨⟩
      exact ⟨_, hself, rfl, rfl, ho.symm⟩
  case h_10 =>
    exact L.bind (isTakenFrom_buildFlat true children hchildren) fun ts h =>
      L.pure fun _ => isTakenFrom_union h
  case h_11 =>
    exact L.bind (isTakenFrom_buildFlat false children hchildren) fun ts h =>
      L.pure fun _ => isTakenFrom_intersection h
  case h_12 =>
    refine L.bind (hany _) fun ps _ => L.bind (hany _) fun r _ => L.pure fun ho => ?_
    rintro u ⟨⟩
    exact ⟨_, hself, rfl, rfl, ho.symm⟩
  case h_13 =>
    refine L.bind (hany _) fun ps _ => L.bind (hany _) fun r _ => L.pure fun ho => ?_
    rintro u ⟨⟩
    exact ⟨_, hself, rfl, rfl, ho.symm⟩
  case h_14 =>
    refine L.bind (hany _) fun xs _ => L.pure fun ho => ?_
    rintro u ⟨⟩
    exact ⟨_, hself, rfl, rfl, ho.symm⟩
  case h_15 =>
    exact L.bind (isTakenFrom_buildFirst isTakenFrom_raw children hchildren) fun t h =>
      L.pure fun _ => isTakenFrom_array h
  case h_16 =>
    refine L.bind (hany _) fun ts _ => L.pure fun ho => ?_
    rintro u ⟨⟩
    exact ⟨_, hself, rfl, rfl, ho.symm⟩
  case h_17 =>
    refine L.bind (hany _) fun ts _ => L.pure fun ho => ?_
    rintro u ⟨⟩
    exact ⟨_, hself, rfl, rfl, ho.symm⟩
  case h_18 =>
    refine L.pure fun ho => ?_
    rintro u ⟨⟩
    exact ⟨_, hself, rfl, rfl, ho.symm⟩
  case h_19 =>
    exact L.bind (hany _) fun ts _ => L.pure fun _ => isTakenFrom_raw
termination_by structural n

/-- The first type among the children is taken from below the source, or is the one given. -/
private theorem isTakenFrom_buildFirst {otherwise : TypeExpr} (h : otherwise.IsTakenFrom source)
    (cs : List Node) (hcs : ∀ c ∈ Node.walkAll cs, c ∈ source.walk) :
    (OutcomeLogic.canReturn m).Ensures (IsTakenFrom source) (buildFirst bind otherwise cs) := by
  match cs with
  | [] => exact OutcomeLogic.pure _ h
  | c :: cs =>
    obtain ⟨hc, hcs⟩ := List.forall_mem_append.1 hcs
    rw [buildFirst]
    split
    · exact isTakenFrom_build c hc
    · exact isTakenFrom_buildFirst h cs hcs
termination_by structural cs

private theorem isTakenFrom_buildNamed (cs : List Node)
    (hcs : ∀ c ∈ Node.walkAll cs, c ∈ source.walk) :
    (OutcomeLogic.canReturn m).Ensures (∀ t ∈ ·, t.IsTakenFrom source) (buildNamed bind cs) := by
  match cs with
  | [] => exact OutcomeLogic.pure _ (List.forall_mem_nil _)
  | c :: cs =>
    obtain ⟨hc, hcs⟩ := List.forall_mem_append.1 hcs
    rw [buildNamed]
    split
    · exact OutcomeLogic.cons _ (isTakenFrom_build c hc) (isTakenFrom_buildNamed cs hcs)
    · exact isTakenFrom_buildNamed cs hcs
termination_by structural cs

/-- The parts of a union or intersection are taken from below the source. -/
private theorem isTakenFrom_buildFlat (isUnion : Bool) (cs : List Node)
    (hcs : ∀ c ∈ Node.walkAll cs, c ∈ source.walk) :
    (OutcomeLogic.canReturn m).Ensures (∀ t ∈ ·, t.IsTakenFrom source)
      (buildFlat bind isUnion cs) := by
  match cs with
  | [] => exact OutcomeLogic.pure _ (List.forall_mem_nil _)
  | c :: cs =>
    obtain ⟨hc, hcs⟩ := List.forall_mem_append.1 hcs
    rw [buildFlat]
    split
    · refine OutcomeLogic.bind _ (isTakenFrom_build c hc) fun t ht =>
        OutcomeLogic.bind _ (isTakenFrom_buildFlat isUnion cs hcs) fun ts hts =>
          OutcomeLogic.pure _ ?_
      exact List.forall_mem_append.2 ⟨isTakenFrom_sameForm ht, hts⟩
    · exact isTakenFrom_buildFlat isUnion cs hcs
termination_by structural cs

private theorem isTakenFrom_buildArguments (cs : List Node)
    (hcs : ∀ c ∈ Node.walkAll cs, c ∈ source.walk) :
    (OutcomeLogic.canReturn m).Ensures (∀ t ∈ ·, t.IsTakenFrom source)
      (buildArguments bind cs) := by
  match cs with
  | [] => exact OutcomeLogic.pure _ (List.forall_mem_nil _)
  | ⟨id, label, field, start, stop, text, children⟩ :: cs =>
    obtain ⟨hc, hcs⟩ := List.forall_mem_append.1 hcs
    rw [buildArguments]
    split
    · refine isTakenFrom_buildNamed children fun c hmem => hc c ?_
      rw [Node.walk]
      exact List.mem_cons_of_mem _ hmem
    · exact isTakenFrom_buildArguments cs hcs
termination_by structural cs

end

end

/-! ## Printed types are derived -/

mutual

/-- Whether a printed type is a type by the rules of the grammar: names are names, unions and
intersections have several members, and forms that are not looked into are taken over where they
bind strongly enough. -/
def IsPrintable (source : Node) (p : Slot) : TypeExpr → Prop
  | .reference text name arguments d =>
    IsTypeName (spelled text name d).toList ∧ ArePrintable source .whole arguments
  | .union _ members => 2 ≤ members.length ∧ ArePrintable source .inUnion members
  | .intersection _ members => 2 ≤ members.length ∧ ArePrintable source .inIntersection members
  | .array _ element => IsPrintable source .element element
  | .raw text references =>
    ∃ n ∈ source.walk, n.isOneOf p.bareKinds = true ∧ n.text = text ∧
      n.outline = outline (.raw text references)
  | _ => True

/-- Whether several printed types are types by the rules of the grammar. -/
def ArePrintable (source : Node) (p : Slot) : List TypeExpr → Prop
  | [] => True
  | t :: ts => IsPrintable source p t ∧ ArePrintable source p ts

end

private theorem arePrintable_iff {source : Node} {p : Slot} {ts : List TypeExpr} :
    ArePrintable source p ts ↔ ∀ t ∈ ts, t.IsPrintable source p := by
  induction ts with
  | nil => simp [ArePrintable]
  | cons t ts ih => simp [ArePrintable, ih]

/-- Whether a type is put in parentheses at a place. -/
def isGroupedAt : Slot → TypeExpr → Bool
  | .whole, _ => false
  | .inUnion, t => t.isGroupedIn true
  | .inIntersection, t => t.isGroupedIn false
  | .element, t => t.isGrouped

/-- The text of a type at a place. -/
def textAt (p : Slot) (t : TypeExpr) : String := parenthesized (t.isGroupedAt p) t.render

/-- A type that needs no parentheses at its place is printed there as anywhere. -/
theorem textAt_of_not_isGroupedAt {p : Slot} {t : TypeExpr} (h : t.isGroupedAt p = false) :
    t.textAt p = t.render := by
  rw [textAt, h]
  rfl

/-- The members of flat unions and intersections are none themselves. -/
def IsMemberAt : Slot → TypeExpr → Prop
  | .inUnion, t => t.isUnion = false
  | .inIntersection, t => t.isIntersection = false
  | _, _ => True

section

variable {source : Node} {p : Slot} {t : TypeExpr} {ts : List TypeExpr} {text name : String}
  {d : Option TypeDeclaration}

/-- The members of a list are derived one by one. -/
theorem exists_pairs (f : TypeExpr → String) {p : Slot}
    (h : ∀ t ∈ ts, ∃ n, Derives source p (f t) n ∧ n.outline = t.outline) :
    ∃ pairs : List (String × Node), pairs.map Prod.fst = ts.map f ∧
      pairs.map (·.2.outline) = ts.map outline ∧ ∀ a ∈ pairs, Derives source p a.1 a.2 := by
  induction ts with
  | nil => exact ⟨[], rfl, rfl, List.forall_mem_nil _⟩
  | cons t ts ih =>
    obtain ⟨⟨n, hn, ho⟩, h⟩ := List.forall_mem_cons.1 h
    obtain ⟨pairs, htexts, houtlines, hpairs⟩ := ih h
    exact ⟨(f t, n) :: pairs, by rw [List.map_cons, htexts, List.map_cons],
      by rw [List.map_cons, houtlines, ho, List.map_cons], List.forall_mem_cons.2 ⟨hn, hpairs⟩⟩

/-- A name is derived with its arguments. -/
theorem exists_derives_reference (hname : IsTypeName (spelled text name d).toList)
    (h : ∀ t ∈ ts, ∃ n, Derives source .whole t.render n ∧ n.outline = t.outline) (p : Slot) :
    ∃ n, Derives source p (render (.reference text name ts d)) n ∧
      n.outline = outline (.reference text name ts d) := by
  let name' : Node := leaf (.rule .typeIdentifier) 0 0
  have htree : isTypeName name' := .inl rfl
  obtain ⟨pairs, htexts, houtlines, hpairs⟩ := exists_pairs render h
  cases ts with
  | nil =>
    refine ⟨name', ?_, Node.outline_of_isName htree⟩
    rw [render]
    exact .name hname htree
  | cons t ts =>
    cases pairs with
    | nil => cases htexts
    | cons first rest =>
      refine ⟨branch .genericType [inField .name name', inField .typeArguments
        (branch .typeArguments (argumentNodes first.2 (rest.map Prod.snd)))], ?_, ?_⟩
      · rw [render_reference (List.cons_ne_nil t ts), ← htexts]
        exact .generic hname htree hpairs
      · have hnamed := fun a ha => (hpairs a ha).isNamed
        obtain ⟨hfirst, hrest⟩ := List.forall_mem_cons.1 hnamed
        rw [Node.outline_genericType, filter_argumentNodes hfirst (List.forall_mem_map.2 hrest),
          outline, outlineAll_eq_map, ← houtlines]
        simp

/-- A flat union or intersection is derived from its members. -/
theorem exists_derives_joint (isUnion : Bool) (hlength : 2 ≤ ts.length)
    (h : ∀ t ∈ ts, ∃ n, Derives source (.ofMember isUnion) (memberText isUnion t) n ∧
      n.outline = t.outline)
    (hforms : ∀ t ∈ ts, (if isUnion then t.isUnion else t.isIntersection) = false)
    (hp : p ∈ Slot.holds isUnion) :
    ∃ n, Derives source p (String.intercalate (String.ofList (jointSeparator isUnion))
      (ts.map (memberText isUnion))) n ∧ n.outline = joint isUnion (outlineAll ts) ∧
        n.is (jointKind isUnion) = true := by
  obtain ⟨pairs, htexts, houtlines, hpairs⟩ := exists_pairs (memberText isUnion) h
  have hlengths : pairs.length = ts.length := by
    simpa using congrArg List.length htexts
  match pairs with
  | first :: second :: rest =>
    obtain ⟨hfirst, hrest⟩ := List.forall_mem_cons.1 fun a ha => (hpairs a ha).isNamed
    have hflat : (ts.map outline).flatMap (sameForm isUnion) = ts.map outline := by
      rw [List.flatMap_map]
      exact (List.flatMap_congr fun t ht => sameForm_outline (hforms t ht)).trans
        List.map_eq_flatMap.symm
    refine ⟨joinedTree isUnion first.2 ((second :: rest).map Prod.snd), ?_, ?_,
      is_joinedTree (List.cons_ne_nil _ _)⟩
    · rw [← htexts]
      exact .joint hp (List.cons_ne_nil _ _) hpairs
    · rw [outline_joinedTree hfirst (List.forall_mem_map.2 hrest) (List.cons_ne_nil _ _),
        outlineAll_eq_map, ← hflat, ← houtlines, ← List.map_cons, List.map_map]
      rfl
  | [] => simp at hlengths; omega
  | [_] => simp at hlengths; omega

/-- A node of one of some kinds is of one of more kinds. -/
theorem isOneOf_mono {n : Node} {ks ks' : List Kind} (h : n.isOneOf ks = true) (hsub : ks ⊆ ks') :
    n.isOneOf ks' = true := by
  rw [Node.isOneOf] at h ⊢
  split at h
  next k hk => simpa using hsub (by simpa using h)
  next => cases h

/-- A node of a kind is of one of several kinds with it. -/
theorem isOneOf_of_is {n : Node} {k : Kind} {ks : List Kind} (h : n.is k = true) (hk : k ∈ ks) :
    n.isOneOf ks = true := by
  rw [Node.isOneOf, show n.label = .rule k from eq_of_beq h]
  simpa using hk

/-- A form that is taken over is derived where it binds strongly enough. -/
theorem exists_derives_taken
    (h : ∃ n ∈ source.walk, n.isOneOf t.kinds = true ∧ n.text = t.text ∧ n.outline = t.outline)
    (hp : t.kinds ⊆ p.bareKinds) :
    ∃ n, Derives source p t.text n ∧ n.outline = t.outline ∧
      (t.kinds ≠ [] → n.isOneOf t.kinds = true) := by
  obtain ⟨n, hn, hkind, htext, ho⟩ := h
  exact ⟨n, htext ▸ .taken hn (isOneOf_mono hkind hp), ho, fun _ => hkind⟩

/-- The words of types are derived. -/
theorem exists_derives_keyword (h : IsTaken source (.keyword name)) (p : Slot) :
    ∃ n, Derives source p name n ∧ n.outline = outline (.keyword name) := by
  rcases h with h | ⟨n, hn, hkind, rfl⟩
  · rcases List.mem_pair.1 h with rfl | rfl
    · exact ⟨_, .null (n := leaf (.rule .nullLiteral) 0 0) rfl,
        Node.outline_emptyValue (.inl rfl)⟩
    · exact ⟨_, .undefined (n := leaf (.rule .undefinedKeyword) 0 0) rfl,
        Node.outline_emptyValue (.inr rfl)⟩
  · refine ⟨n, .taken hn (isOneOf_of_is hkind ?_), Node.outline_predefinedType hkind⟩
    cases p <;> decide

/-- A type that is put in parentheses at a place binds too weakly for it. -/
theorem kinds_subset_groupedKinds (h : t.isGroupedAt p = true) :
    t.kinds ≠ [] ∧ t.kinds ⊆ p.groupedKinds := by
  revert h
  cases p <;> cases t <;> simp [isGroupedAt, isGroupedIn, isGrouped, isFunction, isUnion,
    isIntersection, kinds, Slot.groupedKinds, Slot.looseKinds]

/-- A flat type can be derived at a place, in its parentheses where these are needed. -/
def IsDerivedWherePrintable (source : Node) (t : TypeExpr) : Prop :=
  ∀ p, t.IsPrintable source p → t.IsMemberAt p →
    ∃ n, Derives source p (t.textAt p) n ∧ n.outline = t.outline

/-- A type that needs no parentheses is derived from the types directly inside of it. -/
theorem exists_derives_render (hinside : ∀ u ∈ t.inside, u.IsFlat → u.IsTakenFrom source →
      u.IsDerivedWherePrintable source)
    (hflat : t.IsFlat) (htaken : t.IsTakenFrom source) (h : t.IsPrintable source p)
    (hmember : t.IsMemberAt p) (hgrouped : t.isGroupedAt p = false) :
    ∃ n, Derives source p t.render n ∧ n.outline = t.outline ∧
      (t.kinds ≠ [] → n.isOneOf t.kinds = true) := by
  have hself := htaken t .self
  cases t with
  | reference text name arguments d =>
    obtain ⟨hname, h⟩ := h
    obtain ⟨n, hn, ho⟩ := exists_derives_reference hname (fun u hu =>
      hinside u hu (areFlat_iff.1 hflat u hu) (fun v hv => htaken v (.argument hu hv)) .whole
        (arePrintable_iff.1 h u hu) trivial) p
    exact ⟨n, hn, ho, fun hne => absurd rfl hne⟩
  | union text members =>
    obtain ⟨hforms, hflat⟩ := hflat
    obtain ⟨hlength, h⟩ := h
    have hp : p ∈ Slot.holds true := by
      cases p with
      | whole => decide
      | inUnion => cases hmember
      | inIntersection => cases hgrouped
      | element => cases hgrouped
    obtain ⟨n, hn, ho, hkind⟩ := exists_derives_joint true hlength (fun u hu =>
      hinside u hu (areFlat_iff.1 hflat u hu) (fun v hv => htaken v (.unionMember hu hv)) .inUnion
        (arePrintable_iff.1 h u hu) (hforms u hu)) hforms hp
    refine ⟨n, ?_, ho, fun _ => ?_⟩
    · rw [render, renderUnion_eq_map]
      exact hn
    · exact isOneOf_of_is hkind (List.mem_singleton_self _)
  | intersection text members =>
    obtain ⟨hforms, hflat⟩ := hflat
    obtain ⟨hlength, h⟩ := h
    have hp : p ∈ Slot.holds false := by
      cases p with
      | whole => decide
      | inUnion => decide
      | inIntersection => cases hmember
      | element => cases hgrouped
    obtain ⟨n, hn, ho, hkind⟩ := exists_derives_joint false hlength (fun u hu =>
      hinside u hu (areFlat_iff.1 hflat u hu) (fun v hv => htaken v (.intersectionMember hu hv))
        .inIntersection (arePrintable_iff.1 h u hu) (hforms u hu)) hforms hp
    refine ⟨n, ?_, ho, fun _ => ?_⟩
    · rw [render, renderIntersection_eq_map]
      exact hn
    · exact isOneOf_of_is hkind (List.mem_singleton_self _)
  | array text e =>
    obtain ⟨n, hn, ho⟩ := hinside e (List.mem_singleton_self e) hflat
      (fun v hv => htaken v (.element hv)) .element h trivial
    exact ⟨_, .array hn, (Node.outline_arrayType hn.isNamed _).trans (congrArg _ ho),
      fun hne => absurd rfl hne⟩
  | keyword name =>
    obtain ⟨n, hn, ho⟩ := exists_derives_keyword hself p
    exact ⟨n, hn, ho, fun hne => absurd rfl hne⟩
  | raw text references =>
    obtain ⟨n, hn, hkind, htext, ho⟩ := h
    exact ⟨n, htext ▸ .taken hn hkind, ho, fun hne => absurd rfl hne⟩
  | function text parameters returns =>
    refine exists_derives_taken hself ?_
    cases p with
    | whole => simp [kinds, Slot.bareKinds, Slot.looseKinds]
    | inUnion => cases hgrouped
    | inIntersection => cases hgrouped
    | element => cases hgrouped
  | object | tuple | literal | indexed | query =>
    refine exists_derives_taken hself ?_
    cases p <;> simp [kinds, Slot.bareKinds, Slot.tightKinds]

/-- A flat type is derived where it stands, in its parentheses where these are needed. -/
theorem isDerivedWherePrintable (t : TypeExpr) (hflat : t.IsFlat)
    (htaken : t.IsTakenFrom source) : t.IsDerivedWherePrintable source := by
  induction t using inside_induction with
  | step t ih =>
    intro p h hmember
    cases hgrouped : t.isGroupedAt p with
    | false =>
      obtain ⟨n, hn, ho, -⟩ := exists_derives_render ih hflat htaken h hmember hgrouped
      exact ⟨n, textAt_of_not_isGroupedAt hgrouped ▸ hn, ho⟩
    | true =>
      rw [textAt, hgrouped]
      obtain ⟨hkinds, hsub⟩ := kinds_subset_groupedKinds hgrouped
      have hwhole : t.IsPrintable source .whole := by
        cases t <;> first | exact h | exact absurd rfl hkinds
      obtain ⟨n, hn, ho, hkind⟩ := exists_derives_render ih hflat htaken hwhole trivial rfl
      refine ⟨_, .group hn (isOneOf_mono (hkind hkinds) hsub), ?_⟩
      exact (Node.outline_parenthesizedType rfl hn.isNamed _).trans ho

end

end TypeExpr

end StableProps
