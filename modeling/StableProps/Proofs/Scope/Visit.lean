import StableProps.Proofs.Syntax.Range
import StableProps.Scope.Event

/-!
# The visit of a module

A visit is a place together with the role in which it is reached and the scopes open there. Visits
lead from the root of a module to all places in it, each of which is reached in one way only, and
the events of a module are those of all visits. There are eight things that can happen at a place,
and what visits do is shown for each of them. Open scopes are those of places around the visited
one, the outermost of which is the module itself.
-/

namespace StableProps

namespace Event

/-- A place as it is reached. -/
structure Visit where
  role : Role
  /-- The scopes that are open, innermost first. -/
  scopes : OpenScopes
  place : Focus

namespace Visit

/-- What is met at the place itself. -/
def events (v : Visit) : List Event := (enter v.role v.place v.scopes).1

/-- The scopes open below the place. -/
def inner (v : Visit) : OpenScopes := (enter v.role v.place v.scopes).2

/-- The visit of a child. -/
def child (v : Visit) (c : Node) : Visit :=
  ⟨roleOf v.role v.place.node c, v.inner, v.place.down c⟩

/-- The visit of a whole module, whose scope is open from the start. -/
def ofRoot (root : Node) : Visit := ⟨.transparent, [root], root.focus⟩

/-- One visit leads to another one by going down. -/
inductive Leads (v : Visit) : Visit → Prop where
  | refl : Leads v v
  | child {w : Visit} {c : Node} : Leads v w → c ∈ w.place.node.children → Leads v (w.child c)

/-- A visit that leads to a second one leads to all that this leads to. -/
theorem Leads.trans {u v w : Visit} (huv : u.Leads v) (hvw : v.Leads w) : u.Leads w := by
  induction hvw with
  | refl => exact huv
  | child _ hc ih => exact ih.child hc

end Visit

/-- The events of a node are its own and those of its children. -/
theorem ofNode_eq (v : Visit) :
    ofNode v.role v.scopes v.place.above v.place.node =
      v.events ++ ofChildren v.role v.place.node v.inner (v.place.node :: v.place.above)
        v.place.node.children := by
  obtain ⟨role, scopes, ⟨⟨id, label, field, start, stop, text, children⟩, above⟩⟩ := v
  rw [ofNode]
  rfl

/-- The events of children are those of each child in its role. -/
private theorem mem_ofChildren {e : Event} {role : Role} {n : Node} {scopes : OpenScopes}
    {above cs : List Node} :
    e ∈ ofChildren role n scopes above cs ↔
      ∃ c ∈ cs, e ∈ ofNode (roleOf role n c) scopes above c := by
  induction cs with
  | nil => simp [ofChildren]
  | cons c cs ih => simp [ofChildren, ih]

/-- What is met below a child is met below its parent. -/
theorem mem_ofNode_of_child {e : Event} {v : Visit} {c : Node} (hc : c ∈ v.place.node.children)
    (h : e ∈ ofNode (v.child c).role (v.child c).scopes (v.child c).place.above c) :
    e ∈ ofNode v.role v.scopes v.place.above v.place.node := by
  rw [ofNode_eq]
  exact List.mem_append_right _ (mem_ofChildren.2 ⟨c, hc, h⟩)

/-- Each event of a node is one of a visit that the node leads to. -/
private theorem exists_leads_of_mem_ofNode {e : Event} (v : Visit)
    (h : e ∈ ofNode v.role v.scopes v.place.above v.place.node) :
    ∃ w, v.Leads w ∧ e ∈ w.events := by
  rw [ofNode_eq] at h
  rcases List.mem_append.1 h with h | h
  · exact ⟨v, .refl, h⟩
  · obtain ⟨c, hc, h⟩ := mem_ofChildren.1 h
    obtain ⟨w, hw, he⟩ := exists_leads_of_mem_ofNode (v.child c) h
    exact ⟨w, (Visit.Leads.refl.child hc).trans hw, he⟩
termination_by sizeOf v.place.node
decreasing_by exact Node.sizeOf_lt_of_mem hc

/-- What is met below a visit is met below any visit that leads to it. -/
theorem mem_ofNode_of_leads {e : Event} {v w : Visit} (hw : v.Leads w)
    (h : e ∈ ofNode w.role w.scopes w.place.above w.place.node) :
    e ∈ ofNode v.role v.scopes v.place.above v.place.node := by
  induction hw with
  | refl => exact h
  | child _ hc ih => exact ih (mem_ofNode_of_child hc h)

/-- The events of a module are those of its visits, and the opening of its own scope. -/
theorem mem_ofModule_iff {root : Node} {e : Event} :
    e ∈ ofModule root ↔
      e = .opened root.focus [] ∨ ∃ v, (Visit.ofRoot root).Leads v ∧ e ∈ v.events := by
  have hroot : ofNode .transparent [root] [] root =
      ofChildren .transparent root [root] [root] root.children := ofNode_eq (Visit.ofRoot root)
  rw [ofModule, ← hroot, List.mem_cons]
  refine or_congr Iff.rfl ⟨exists_leads_of_mem_ofNode (Visit.ofRoot root), ?_⟩
  rintro ⟨v, hv, he⟩
  refine mem_ofNode_of_leads hv ?_
  rw [ofNode_eq]
  exact List.mem_append_left _ he

namespace Visit

variable {root : Node} {v w : Visit}

/-- Visits of a module are visits of its places. -/
theorem isIn (h : (ofRoot root).Leads v) : v.place.IsIn root := by
  induction h with
  | refl => exact .root
  | child _ hc ih => exact ih.down hc

/-! ## Open scopes -/

end Visit

/-- Rules that open a scope without making a function. -/
def blockKinds : List Kind := [.statementBlock, .forStatement, .forInStatement, .catchClause]

/-- Rules of declarations that name a class, a type or an enumeration, each with the sort of the
name and with what it can be used for. -/
def namedKinds : List (Kind × BindingKind × List Namespace) :=
  [(.classDeclaration, .classDefinition, [.value, .type]),
   (.abstractClassDeclaration, .classDefinition, [.value, .type]),
   (.interfaceDeclaration, .typeName, [.type]),
   (.typeAliasDeclaration, .typeName, [.type]),
   (.enumDeclaration, .enumeration, [.value, .type])]

/-- Whether a node opens a scope when it is visited for its own sake. -/
def opensScope (n : Node) : Bool := n.isFunction || n.isOneOf blockKinds

/-- A node has a kind if its label is a rule. -/
theorem kind?_eq_some_iff {n : Node} {k : Kind} : n.kind? = some k ↔ n.label = .rule k := by
  rw [Node.kind?]
  split <;> simp_all

/-- Whether a node is of one of several kinds is told by its kind. -/
theorem isOneOf_of_kind? {n : Node} {k : Kind} (h : n.kind? = some k) (ks : List Kind) :
    n.isOneOf ks = ks.contains k := by
  rw [Node.isOneOf, kind?_eq_some_iff.1 h]

/-- Whether a node is a function is told by its kind. -/
theorem isFunction_of_kind? {n : Node} {k : Kind} (h : n.kind? = some k) :
    n.isFunction = functionKinds.contains k := by
  simp [Node.isFunction, Node.isOneOf, Node.isToken, kind?_eq_some_iff.1 h]

/-- A function opens a scope. -/
theorem opensScope_of_isFunction {n : Node} (h : n.isFunction = true) : opensScope n = true := by
  rw [opensScope, h, Bool.true_or]

/-- Functions and blocks open scopes. -/
theorem opensScope_of_kind? {n : Node} {k : Kind} (h : n.kind? = some k) :
    opensScope n = (functionKinds.contains k || blockKinds.contains k) := by
  rw [opensScope, isFunction_of_kind? h, isOneOf_of_kind? h]

/-- A node of one of several kinds has one of them. -/
theorem exists_kind?_of_isOneOf {n : Node} {ks : List Kind} (h : n.isOneOf ks = true) :
    ∃ k ∈ ks, n.kind? = some k := by
  rw [Node.isOneOf] at h
  split at h
  next k hlabel => exact ⟨k, List.contains_iff_mem.1 h, kind?_eq_some_iff.2 hlabel⟩
  · cases h

namespace Visit

variable {root : Node} {v w : Visit}

/-! ## What happens at a place -/

/-- What a visit does at its place. -/
inductive Enters (v : Visit) : Prop where
  /-- A function opens its scope, and declares its name and a parameter without parentheses. -/
  | function (role : v.role = .plain) (node : v.place.node.isFunction = true)
      (events : v.events = .opened v.place (v.scopes.map Node.id) ::
        ((((v.place.child? .name).filter (·.node.is .identifier)).toList.map fun name =>
          declare (if v.place.node.isOneOf [.functionDeclaration, .generatorFunctionDeclaration]
            then v.scopes.current else v.place.id) .function v.place [.value] ⟨name, []⟩) ++
        (v.place.child? .parameter).toList.map fun p =>
          declare v.place.id .parameter p [.value] ⟨p, []⟩))
      (inner : v.inner = v.place.node :: v.scopes)
  /-- A block or loop opens its scope, and declares the names that its head binds. -/
  | block {k : Kind} (kind : BindingKind) (head : Option Focus) (role : v.role = .plain)
      (node : v.place.node.kind? = some k) (opens : k ∈ blockKinds)
      (binds : ∀ p, head = some p →
        k = .forInStatement ∧ kind = .plain ∧ v.place.child? .left = some p ∨
        k = .catchClause ∧ kind = .caught ∧ v.place.child? .parameter = some p)
      (events : v.events = .opened v.place (v.scopes.map Node.id) ::
        (head.toList.flatMap Focus.bindings).map (declare v.place.id kind v.place [.value]))
      (inner : v.inner = v.place.node :: v.scopes)
  /-- A class, type or enumeration declares its name. -/
  | named {k : Kind} {kind : BindingKind} {spaces : List Namespace} (role : v.role = .plain)
      (node : v.place.node.kind? = some k) (sort : (k, kind, spaces) ∈ namedKinds)
      (events : v.events = declareName v.scopes.current kind v.place spaces)
      (inner : v.inner = v.scopes)
  /-- An import declares what it brings in. -/
  | imported (role : v.role = .plain) (node : v.place.node.kind? = some .importStatement)
      (events : v.events = ofImport v.scopes.root v.place) (inner : v.inner = v.scopes)
  /-- A parameter declares the names that it binds. -/
  | parameter (role : v.role = .parameter)
      (events : v.events = ((parameterPattern? v.place).toList.flatMap Focus.bindings).map
        (declare v.scopes.current .parameter v.place [.value]))
      (inner : v.inner = v.scopes)
  /-- So does a variable. -/
  | declarator (hoisted : Bool) (role : v.role = .declarator hoisted)
      (events : v.events = ((v.place.child? .name).toList.flatMap Focus.bindings).map
        (declare (if hoisted then v.scopes.function else v.scopes.current) .plain v.place [.value]))
      (inner : v.inner = v.scopes)
  /-- The block of a function stands for the scope of the function. -/
  | functionBlock (role : v.role = .functionBlock)
      (events : v.events = [.shared v.place.id v.scopes.current]) (inner : v.inner = v.scopes)
  /-- Nothing happens anywhere else. -/
  | nothing (other : v.role = .plain → opensScope v.place.node = false ∧
        v.place.node.isOneOf (namedKinds.map Prod.fst) = false)
      (events : v.events = []) (inner : v.inner = v.scopes)

theorem enters (v : Visit) : v.Enters := by
  obtain ⟨role, scopes, f⟩ := v
  cases role with
  | plain =>
    obtain ⟨x, hx⟩ : ∃ x, enterPlain f scopes = x := ⟨_, rfl⟩
    have hevents : events ⟨.plain, scopes, f⟩ = x.1 := congrArg Prod.fst hx
    have hinner : inner ⟨.plain, scopes, f⟩ = x.2 := congrArg Prod.snd hx
    rw [enterPlain] at hx
    split at hx
    next hfunction =>
      subst hx
      exact .function rfl hfunction hevents hinner
    next hfunction =>
      split at hx
      all_goals subst hx
      next hk => exact .named rfl hk (by decide) hevents hinner
      next hk => exact .named rfl hk (by decide) hevents hinner
      next hk => exact .imported rfl hk hevents hinner
      next hk => exact .named rfl hk (by decide) hevents hinner
      next hk => exact .named rfl hk (by decide) hevents hinner
      next hk => exact .named rfl hk (by decide) hevents hinner
      next hk => exact .block .plain none rfl hk (by decide) nofun hevents hinner
      next hk => exact .block .plain none rfl hk (by decide) nofun hevents hinner
      next hk =>
        refine .block _ _ rfl hk (by decide) (fun p hp => .inl ⟨rfl, rfl, ?_⟩) hevents hinner
        split at hp
        · exact hp
        · cases hp
      next hk =>
        exact .block _ _ rfl hk (by decide) (fun p hp => .inr ⟨rfl, rfl, hp⟩) hevents hinner
      next =>
        have hother {ks : List Kind} (h : ∀ k ∈ ks, f.node.kind? ≠ some k) :
            f.node.isOneOf ks = false := by
          rw [Bool.eq_false_iff]
          intro hone
          obtain ⟨k, hk, hkind⟩ := exists_kind?_of_isOneOf hone
          exact h k hk hkind
        have hblock : f.node.isOneOf blockKinds = false := hother (by simp_all [blockKinds])
        refine .nothing (fun _ => ⟨?_, hother (by simp_all [namedKinds])⟩) hevents hinner
        rw [opensScope, Bool.eq_false_iff.2 hfunction, hblock]
        rfl
  | parameter => exact .parameter rfl rfl rfl
  | declarator hoisted => exact .declarator hoisted rfl rfl rfl
  | functionBlock => exact .functionBlock rfl rfl rfl
  | _ => exact .nothing nofun rfl rfl

/-- A visit leaves the open scopes as they are, or opens one for its own place. -/
theorem inner_cases (v : Visit) :
    v.inner = v.scopes ∨
      v.role = .plain ∧ opensScope v.place.node = true ∧
        .opened v.place (v.scopes.map Node.id) ∈ v.events ∧
        v.inner = v.place.node :: v.scopes := by
  cases v.enters with
  | function role node events inner =>
    exact .inr ⟨role, opensScope_of_isFunction node, events ▸ List.mem_cons_self, inner⟩
  | block kind head role node opens binds events inner =>
    refine .inr ⟨role, ?_, events ▸ List.mem_cons_self, inner⟩
    rw [opensScope_of_kind? node, List.contains_iff_mem.2 opens, Bool.or_true]
  | named role node sort events inner => exact .inl inner
  | imported role node events inner => exact .inl inner
  | parameter role events inner => exact .inl inner
  | declarator hoisted role events inner => exact .inl inner
  | functionBlock role events inner => exact .inl inner
  | nothing other events inner => exact .inl inner

/-- An event that declares a name. -/
def IsDeclared (e : Event) : Prop := ∃ σ spaces, e = .declared σ spaces

private theorem isDeclared_of_mem_map {α : Type} {l : List α} {f : α → Event}
    (hf : ∀ a, IsDeclared (f a)) {e : Event} (h : e ∈ l.map f) : IsDeclared e := by
  obtain ⟨a, -, rfl⟩ := List.mem_map.1 h
  exact hf a

/-- A declaration is an event of that sort. -/
private theorem isDeclared_declare (scope : Nat) (kind : BindingKind) (f : Focus)
    (spaces : List Namespace) (b : Bound) : IsDeclared (declare scope kind f spaces b) :=
  ⟨_, _, rfl⟩

/-- An import declares names and does nothing else. -/
private theorem isDeclared_of_mem_ofImport {scope : Nat} {f : Focus} {e : Event}
    (h : e ∈ ofImport scope f) : IsDeclared e := by
  rw [ofImport] at h
  split at h
  · simp at h
  · obtain ⟨part, -, h⟩ := List.mem_flatMap.1 h
    rw [ofImportPart] at h
    split at h
    · exact List.mem_singleton.1 h ▸ isDeclared_declare ..
    · exact isDeclared_of_mem_map (fun _ => isDeclared_declare ..) h
    · obtain ⟨specifier, -, h⟩ := List.mem_flatMap.1 h
      exact isDeclared_of_mem_map (fun _ => isDeclared_declare ..) h
    · simp at h

/-- A visit declares names, opens the scope of its place, or stands for the scope around it. -/
theorem of_mem_events {e : Event} (h : e ∈ v.events) :
    IsDeclared e ∨
      v.role = .plain ∧ e = .opened v.place (v.scopes.map Node.id) ∧
        v.inner = v.place.node :: v.scopes ∨
      v.role = .functionBlock ∧ e = .shared v.place.id v.scopes.current := by
  cases v.enters with
  | function role node events inner =>
    rw [events] at h
    rcases List.mem_cons.1 h with rfl | h
    · exact .inr (.inl ⟨role, rfl, inner⟩)
    · rcases List.mem_append.1 h with h | h <;>
        exact .inl (isDeclared_of_mem_map (fun _ => isDeclared_declare ..) h)
  | block kind head role node opens binds events inner =>
    rw [events] at h
    rcases List.mem_cons.1 h with rfl | h
    · exact .inr (.inl ⟨role, rfl, inner⟩)
    · exact .inl (isDeclared_of_mem_map (fun _ => isDeclared_declare ..) h)
  | named role node sort events inner =>
    exact .inl (isDeclared_of_mem_map (fun _ => isDeclared_declare ..) (events ▸ h))
  | imported role node events inner => exact .inl (isDeclared_of_mem_ofImport (events ▸ h))
  | parameter role events inner =>
    exact .inl (isDeclared_of_mem_map (fun _ => isDeclared_declare ..) (events ▸ h))
  | declarator hoisted role events inner =>
    exact .inl (isDeclared_of_mem_map (fun _ => isDeclared_declare ..) (events ▸ h))
  | functionBlock role events inner =>
    exact .inr (.inr ⟨role, List.mem_singleton.1 (events ▸ h)⟩)
  | nothing other events inner =>
    rw [events] at h
    cases h

/-- A scope is opened for a place that is visited for its own sake, inside the scopes open there. -/
theorem of_opened_mem {g : Focus} {outer : List Nat} (h : .opened g outer ∈ v.events) :
    v.role = .plain ∧ g = v.place ∧ outer = v.scopes.map Node.id := by
  rcases of_mem_events h with ⟨σ, spaces, heq⟩ | ⟨hrole, heq, -⟩ | ⟨-, heq⟩
  · cases heq
  · obtain ⟨rfl, rfl⟩ := Event.opened.inj heq
    exact ⟨hrole, rfl, rfl⟩
  · cases heq

/-- A visit that opens a scope leaves it open below. -/
theorem inner_of_opened_mem {g : Focus} {outer : List Nat} (h : .opened g outer ∈ v.events) :
    v.inner = v.place.node :: v.scopes := by
  rcases of_mem_events h with ⟨σ, spaces, heq⟩ | ⟨-, -, hinner⟩ | ⟨-, heq⟩
  · cases heq
  · exact hinner
  · cases heq

/-- Only the block of a function stands for a scope opened before, the one open around it. -/
theorem of_shared_mem {block scope : Nat} (h : .shared block scope ∈ v.events) :
    v.role = .functionBlock ∧ block = v.place.id ∧ scope = v.scopes.current := by
  rcases of_mem_events h with ⟨σ, spaces, heq⟩ | ⟨-, heq, -⟩ | ⟨hrole, heq⟩
  · cases heq
  · cases heq
  · obtain ⟨rfl, rfl⟩ := Event.shared.inj heq
    exact ⟨hrole, rfl, rfl⟩

/-! ## Scopes around a place -/

/-- A place whose scope is open at another one: it lies around that one, and its node opens a scope
when it is met. -/
structure OpenAt (root : Node) (f g : Focus) : Prop where
  around : g ∈ f.outward
  below : g.above ≠ []
  opens : opensScope g.node = true
  opened : ∃ outer, .opened g outer ∈ ofModule root

/-- What is open at a place is open further inside. -/
theorem OpenAt.mono {f f' g : Focus} (h : OpenAt root f g) (hf : f ∈ f'.outward) :
    OpenAt root f' g :=
  ⟨Focus.mem_outward_trans hf h.around, h.below, h.opens, h.opened⟩

/-- The outermost open scope is that of the module. All others belong to places around the visited
one. -/
theorem exists_inner_eq (h : (ofRoot root).Leads v) :
    ∃ l, v.inner = l ++ [root] ∧ ∀ n ∈ l, ∃ g, OpenAt root v.place g ∧ g.node = n := by
  induction h with
  | refl => exact ⟨[], rfl, by simp⟩
  | @child w c hw hc ih =>
    obtain ⟨l, hl, hopen⟩ := ih
    have hmono : ∀ n ∈ l, ∃ g, OpenAt root (w.child c).place g ∧ g.node = n := by
      intro n hn
      obtain ⟨g, hg, hgn⟩ := hopen n hn
      exact ⟨g, hg.mono (List.mem_cons_of_mem _ (Focus.mem_outward_self _)), hgn⟩
    have hscopes : (w.child c).scopes = l ++ [root] := hl
    rcases (w.child c).inner_cases with heq | ⟨-, hopens, hevent, heq⟩
    · exact ⟨l, heq.trans hscopes, hmono⟩
    · refine ⟨c :: l, heq.trans (congrArg (c :: ·) hscopes), ?_⟩
      intro n hn
      rcases List.mem_cons.1 hn with rfl | hn
      · refine ⟨(w.child n).place, ⟨Focus.mem_outward_self _, List.cons_ne_nil _ _, hopens, ?_⟩,
          rfl⟩
        exact ⟨_, mem_ofModule_iff.2 (.inr ⟨w.child n, hw.child hc, hevent⟩)⟩
      · exact hmono n hn

/-- The scopes open at a place below the root belong to places strictly around it. -/
theorem exists_scopes_eq (h : (ofRoot root).Leads v) :
    ∃ l, v.scopes = l ++ [root] ∧ ∀ n ∈ l, ∃ g, OpenAt root v.place g ∧ g.node = n ∧
      g ∈ Focus.ofAbove v.place.above := by
  cases h with
  | refl => exact ⟨[], rfl, by simp⟩
  | @child w c hw hc =>
    obtain ⟨l, hl, hopen⟩ := exists_inner_eq hw
    refine ⟨l, hl, ?_⟩
    intro n hn
    obtain ⟨g, hg, hgn⟩ := hopen n hn
    exact ⟨g, hg.mono (List.mem_cons_of_mem _ (Focus.mem_outward_self _)), hgn, hg.around⟩

/-! ## Each place is reached in one way -/

/-- A visit is that of the root or of a child of a node that is visited. -/
theorem eq_ofRoot_or_child (h : (ofRoot root).Leads v) :
    v = ofRoot root ∨ ∃ (w : Visit) (c : Node),
      (ofRoot root).Leads w ∧ c ∈ w.place.node.children ∧ v = w.child c := by
  cases h with
  | refl => exact .inl rfl
  | child hw hc => exact .inr ⟨_, _, hw, hc, rfl⟩

/-- A place is reached in one role and with the same open scopes. -/
theorem eq_of_place_eq (hv : (ofRoot root).Leads v) (hw : (ofRoot root).Leads w)
    (h : v.place = w.place) : v = w := by
  induction hv generalizing w with
  | refl =>
    rcases eq_ofRoot_or_child hw with rfl | ⟨u, c, -, -, rfl⟩
    · rfl
    · cases congrArg Focus.above h
  | @child u c hu hc ih =>
    rcases eq_ofRoot_or_child hw with rfl | ⟨u', c', hu', -, rfl⟩
    · cases congrArg Focus.above h
    · have hnode : c = c' := congrArg Focus.node h
      have habove : u.place.node :: u.place.above = u'.place.node :: u'.place.above :=
        congrArg Focus.above h
      obtain ⟨hn, ha⟩ := List.cons.inj habove
      have hplace : u.place = u'.place := by
        cases hu : u.place
        cases hu' : u'.place
        simp_all
      rw [ih hu' hplace, hnode]

/-- Inside what is ignored everything is ignored. -/
theorem ignored_of_mem_outward (hv : (ofRoot root).Leads v) (hw : (ofRoot root).Leads w)
    (hrole : w.role = .ignored) (hmem : w.place ∈ v.place.outward) : v.role = .ignored := by
  induction hv with
  | refl =>
    have hplace : w.place = (ofRoot root).place := List.mem_singleton.1 hmem
    rw [← eq_of_place_eq hw .refl hplace]
    exact hrole
  | @child u c hu hc ih =>
    rcases List.mem_cons.1 hmem with heq | hmem
    · rw [← eq_of_place_eq hw (hu.child hc) heq]
      exact hrole
    · change roleOf u.role u.place.node c = .ignored
      rw [ih hmem]
      rfl

end Visit

end Event

end StableProps
