import StableProps.Lift.Dependencies
import StableProps.Proofs.Scope.Pattern
import StableProps.Proofs.Scope.Visit

/-!
# What a visit declares

There are seven ways to declare a name. Each fixes the role of the visit, the part of its place that
holds the name, and the scope the name belongs to. From this follow the facts that later stages
rely on: names stand in the tree, the place of a name determines what sort of declaration binds it,
and a name that no function declares belongs to the module, to a block outside of all functions, or
is the own name of a function expression there.
-/

namespace StableProps

namespace Event.Visit

open Focus (mem_walk_self down_mem_walk mem_walk_trans)

/-! ## The ways to declare a name -/

/-- Rules of declarations that name a class, a type or an enumeration. -/
def typeNameKinds : List Kind :=
  [.classDeclaration, .abstractClassDeclaration, .interfaceDeclaration, .typeAliasDeclaration,
   .enumDeclaration]

/-- How a visit declares a symbol. -/
inductive Declares (v : Visit) (σ : Symbol) : Prop where
  /-- A function declares its own name: around itself as a statement, else inside itself. -/
  | functionName (role : v.role = .plain) (node : v.place.node.isFunction = true)
      (kind : σ.kind = .function) (declaration : σ.declaration = v.place)
      (binding : v.place.child? .name = some σ.binding)
      (scope : σ.scope = if v.place.node.isOneOf [.functionDeclaration,
        .generatorFunctionDeclaration] then v.scopes.current else v.place.id)
  /-- A function declares a parameter that stands without parentheses. -/
  | singleParameter (role : v.role = .plain) (node : v.place.node.isFunction = true)
      (kind : σ.kind = .parameter) (declaration : σ.declaration = σ.binding)
      (binding : v.place.child? .parameter = some σ.binding) (scope : σ.scope = v.place.id)
  /-- A class, type or enumeration declares its name. -/
  | typeName (role : v.role = .plain) (function : v.place.node.isFunction = false)
      (node : ∃ k ∈ typeNameKinds, v.place.node.kind? = some k)
      (kind : σ.kind = .classDefinition ∨ σ.kind = .typeName ∨ σ.kind = .enumeration)
      (declaration : σ.declaration = v.place) (binding : v.place.child? .name = some σ.binding)
      (scope : σ.scope = v.scopes.current)
  /-- An import declares names of the module. -/
  | imported (role : v.role = .plain) (node : v.place.node.kind? = some .importStatement)
      (kind : σ.kind = .imported) (declaration : σ.declaration ∈ v.place.walk)
      (binding : ∃ c ∈ v.place.node.children, σ.binding ∈ (v.place.down c).walk)
      (scope : σ.scope = v.scopes.root)
  /-- The head of a loop, or of a block that catches, declares names of its own. -/
  | head (role : v.role = .plain) (part : Field)
      (node : v.place.node.kind? = some .forInStatement ∧ part = .left ∨
        v.place.node.kind? = some .catchClause ∧ part = .parameter)
      (kind : σ.kind = .plain ∨ σ.kind = .caught) (declaration : σ.declaration = v.place)
      (binding : ∃ p, v.place.child? part = some p ∧ σ.binding ∈ p.walk)
      (scope : σ.scope = v.place.id)
  /-- A parameter declares names of its function. -/
  | parameter (role : v.role = .parameter) (kind : σ.kind = .parameter)
      (declaration : σ.declaration = v.place)
      (binding : ∃ p, parameterPattern? v.place = some p ∧ σ.binding ∈ p.walk)
      (scope : σ.scope = v.scopes.current)
  /-- A variable declares names of the block or function around it. -/
  | declarator (hoisted : Bool) (role : v.role = .declarator hoisted) (kind : σ.kind = .plain)
      (declaration : σ.declaration = v.place)
      (binding : ∃ p, v.place.child? .name = some p ∧ σ.binding ∈ p.walk)
      (scope : σ.scope = if hoisted then v.scopes.function else v.scopes.current)

/-- The declaration of a bound name. -/
theorem declare_eq {scope : Nat} {kind : BindingKind} {f : Focus} {spaces spaces' : List Namespace}
    {b : Bound} {σ : Symbol} (h : declare scope kind f spaces b = .declared σ spaces') :
    σ = ⟨b.place.node.text, kind, b.place, f, scope, b.path⟩ := by
  rw [declare] at h
  exact (Event.declared.inj h).1.symm

/-- An event that declares the name of a node. -/
theorem of_mem_declareName {scope : Nat} {kind : BindingKind} {f : Focus}
    {spaces spaces' : List Namespace} {σ : Symbol}
    (h : .declared σ spaces' ∈ declareName scope kind f spaces) :
    σ.kind = kind ∧ σ.declaration = f ∧ f.child? .name = some σ.binding ∧ σ.scope = scope ∧
      σ.name = σ.binding.node.text := by
  obtain ⟨b, hb, heq⟩ := List.mem_map.1 h
  obtain rfl := declare_eq heq
  exact ⟨rfl, rfl, Option.mem_toList.1 hb, rfl, rfl⟩

/-- An event that declares a name bound by a pattern. -/
theorem of_mem_map_declare {scope : Nat} {kind : BindingKind} {f : Focus} {pattern : Option Focus}
    {spaces spaces' : List Namespace} {σ : Symbol}
    (h : .declared σ spaces' ∈
      (pattern.toList.flatMap Focus.bindings).map (declare scope kind f spaces)) :
    σ.kind = kind ∧ σ.declaration = f ∧ (∃ p, pattern = some p ∧ σ.binding ∈ p.walk) ∧
      σ.scope = scope ∧ σ.name = σ.binding.node.text := by
  obtain ⟨b, hb, heq⟩ := List.mem_map.1 h
  obtain ⟨p, hp, hb⟩ := List.mem_flatMap.1 hb
  obtain rfl := declare_eq heq
  exact ⟨rfl, rfl, ⟨p, Option.mem_toList.1 hp, (Focus.binds_of_mem_bindings hb).mem_walk⟩, rfl, rfl⟩

/-- An event for a part of an import. -/
theorem of_mem_ofImportPart {scope : Nat} {statement part : Focus} {spaces : List Namespace}
    {σ : Symbol} (h : .declared σ spaces ∈ ofImportPart scope statement part) :
    σ.kind = .imported ∧ (σ.declaration = statement ∨ σ.declaration ∈ part.walk) ∧
      σ.binding ∈ part.walk ∧ σ.scope = scope ∧ σ.name = σ.binding.node.text := by
  rw [ofImportPart] at h
  split at h
  · obtain rfl := declare_eq (List.mem_singleton.1 h).symm
    exact ⟨rfl, .inl rfl, mem_walk_self _, rfl, rfl⟩
  · obtain ⟨name, hname, heq⟩ := List.mem_map.1 h
    obtain rfl := declare_eq heq
    have hmem := Node.mem_of_childOf? (Option.mem_toList.1 hname)
    exact ⟨rfl, .inr (mem_walk_self _), down_mem_walk (mem_walk_self _) hmem, rfl, rfl⟩
  · obtain ⟨specifier, hspecifier, h⟩ := List.mem_flatMap.1 h
    obtain ⟨name, hname, heq⟩ := List.mem_map.1 h
    obtain rfl := declare_eq heq
    obtain ⟨n, hn, rfl⟩ := List.mem_map.1 (List.mem_filter.1 hspecifier).1
    have hwalk : part.down n ∈ part.walk :=
      down_mem_walk (mem_walk_self _) (Node.mem_of_mem_namedChildren hn)
    refine ⟨rfl, .inr hwalk, ?_, rfl, rfl⟩
    have hchild : ∃ field, (part.down n).child? field = some name := by
      cases halias : (part.down n).child? .alias with
      | some a =>
        rw [halias] at hname
        exact ⟨_, halias.trans (Option.mem_toList.1 hname)⟩
      | none =>
        rw [halias] at hname
        exact ⟨_, Option.mem_toList.1 hname⟩
    obtain ⟨field, hfield⟩ := hchild
    obtain ⟨c, hc, rfl⟩ := Option.map_eq_some_iff.1 hfield
    exact down_mem_walk hwalk (Node.mem_of_child? hc)
  · simp at h

/-- An event for an import. -/
theorem of_mem_ofImport {scope : Nat} {f : Focus} {spaces : List Namespace} {σ : Symbol}
    (h : .declared σ spaces ∈ ofImport scope f) :
    σ.kind = .imported ∧ σ.declaration ∈ f.walk ∧
      (∃ c ∈ f.node.children, σ.binding ∈ (f.down c).walk) ∧ σ.scope = scope ∧
      σ.name = σ.binding.node.text := by
  rw [ofImport] at h
  split at h
  · simp at h
  next clause hclause =>
    obtain ⟨part, hpart, h⟩ := List.mem_flatMap.1 h
    obtain ⟨n, hn, rfl⟩ := List.mem_map.1 hpart
    obtain ⟨hkind, hdeclaration, hbinding, hscope, hname⟩ := of_mem_ofImportPart h
    have hclause := Node.mem_of_childOf? hclause
    have hn := Node.mem_of_mem_namedChildren hn
    refine ⟨hkind, ?_, ⟨clause, hclause, ?_⟩, hscope, hname⟩
    · rcases hdeclaration with heq | hmem
      · exact heq ▸ mem_walk_self _
      · exact mem_walk_trans hmem (down_mem_walk (down_mem_walk (mem_walk_self _) hclause) hn)
    · exact mem_walk_trans hbinding (down_mem_walk (mem_walk_self _) hn)

theorem not_declared_opened {f : Focus} {outer : List Nat} {σ : Symbol} {spaces : List Namespace} :
    Event.declared σ spaces ≠ .opened f outer := nofun

/-- All that a visit declares is declared in one of the seven ways, under the name that stands where
it is bound. -/
theorem declares_of_mem {v : Visit} {σ : Symbol} {spaces : List Namespace}
    (h : .declared σ spaces ∈ v.events) : v.Declares σ ∧ σ.name = σ.binding.node.text := by
  cases v.enters with
  | function role node events inner =>
    rw [events] at h
    rcases List.mem_append.1 (List.mem_of_ne_of_mem not_declared_opened h) with h | h
    · obtain ⟨b, hb, heq⟩ := List.mem_map.1 h
      obtain rfl := declare_eq heq
      have hname := Option.mem_toList.1 hb
      exact ⟨.functionName role node rfl rfl (Option.filter_eq_some_iff.1 hname).1 rfl, rfl⟩
    · obtain ⟨b, hb, heq⟩ := List.mem_map.1 h
      obtain rfl := declare_eq heq
      exact ⟨.singleParameter role node rfl rfl (Option.mem_toList.1 hb) rfl, rfl⟩
  | block kind head role node opens binds events inner =>
    rw [events] at h
    obtain ⟨hkind, hdeclaration, ⟨p, hp, hmem⟩, hscope, hname⟩ :=
      of_mem_map_declare (List.mem_of_ne_of_mem not_declared_opened h)
    refine ⟨?_, hname⟩
    rcases binds p hp with ⟨rfl, rfl, hpart⟩ | ⟨rfl, rfl, hpart⟩
    · exact .head role .left (.inl ⟨node, rfl⟩) (.inl hkind) hdeclaration ⟨p, hpart, hmem⟩ hscope
    · exact .head role .parameter (.inr ⟨node, rfl⟩) (.inr hkind) hdeclaration ⟨p, hpart, hmem⟩
        hscope
  | @named k kind spaces' role node sort events inner =>
    obtain ⟨hkind, hdeclaration, hbinding, hscope, hname⟩ := of_mem_declareName (events ▸ h)
    have hsorts : ∀ x ∈ namedKinds, x.1 ∈ typeNameKinds ∧ functionKinds.contains x.1 = false ∧
        (x.2.1 = .classDefinition ∨ x.2.1 = .typeName ∨ x.2.1 = .enumeration) := by
      decide
    obtain ⟨hk, hfunction, hsort⟩ := hsorts _ sort
    exact ⟨.typeName role ((isFunction_of_kind? node).trans hfunction) ⟨k, hk, node⟩
      (hkind ▸ hsort) hdeclaration hbinding hscope, hname⟩
  | imported role node events inner =>
    obtain ⟨hkind, hdeclaration, hbinding, hscope, hname⟩ := of_mem_ofImport (events ▸ h)
    exact ⟨.imported role node hkind hdeclaration hbinding hscope, hname⟩
  | parameter role events inner =>
    obtain ⟨hkind, hdeclaration, hbinding, hscope, hname⟩ := of_mem_map_declare (events ▸ h)
    exact ⟨.parameter role hkind hdeclaration hbinding hscope, hname⟩
  | declarator hoisted role events inner =>
    obtain ⟨hkind, hdeclaration, hbinding, hscope, hname⟩ := of_mem_map_declare (events ▸ h)
    exact ⟨.declarator hoisted role hkind hdeclaration hbinding hscope, hname⟩
  | functionBlock role events inner =>
    rw [events] at h
    cases List.mem_singleton.1 h
  | nothing other events inner =>
    rw [events] at h
    cases h

/-! ## Names and the parts that hold them -/

section

variable {root : Node} {v w : Visit} {σ τ : Symbol}

theorem exists_of_child? {f c : Focus} {part : Field} (h : f.child? part = some c) :
    ∃ n ∈ f.node.children, n.field = some part ∧ c = f.down n := by
  obtain ⟨n, hn, rfl⟩ := Option.map_eq_some_iff.1 h
  exact ⟨n, Node.mem_of_child? hn, Node.field_of_child? hn, rfl⟩

/-- The pattern of a parameter is the parameter itself or a child that the visit ignores. -/
theorem parameterPattern?_cases {f p : Focus} (h : parameterPattern? f = some p) :
    p = f ∧ (∀ c, parameterPart f.node c = .ignored) ∨
      ∃ n ∈ f.node.children, p = f.down n ∧ parameterPart f.node n = .ignored := by
  have hpattern := (Option.filter_eq_some_iff.1 h).1
  split at hpattern
  next hlabel =>
    obtain ⟨n, hn, hfield, rfl⟩ := exists_of_child? hpattern
    exact .inr ⟨n, hn, rfl, by simp [parameterPart, hlabel, hfield]⟩
  next hlabel =>
    obtain ⟨n, hn, hfield, rfl⟩ := exists_of_child? hpattern
    exact .inr ⟨n, hn, rfl, by simp [parameterPart, hlabel, hfield]⟩
  next hlabel =>
    obtain ⟨n, hn, hfield, rfl⟩ := exists_of_child? hpattern
    exact .inr ⟨n, hn, rfl, by simp [parameterPart, hlabel, hfield]⟩
  next h₁ h₂ h₃ =>
    refine .inl ⟨(Option.some.inj hpattern).symm, ?_⟩
    intro c
    simp [parameterPart]

/-- A name is bound at the visited place itself, if that is a parameter, or in a child that is
ignored, or is the whole of a child that is visited for its own sake. -/
theorem Declares.part (h : v.Declares σ) :
    σ.binding = v.place ∧ v.role = .parameter ∨
      ∃ c ∈ v.place.node.children, σ.binding ∈ (v.place.down c).walk ∧
        ((v.child c).role = .ignored ∨
          (v.child c).role = .plain ∧ σ.binding = v.place.down c) := by
  cases h with
  | functionName hrole hnode _ _ hbinding _ =>
    obtain ⟨c, hc, hfield, heq⟩ := exists_of_child? hbinding
    refine .inr ⟨c, hc, heq ▸ mem_walk_self _, .inl ?_⟩
    simp [child, roleOf, hrole, plainPart, hnode, functionPart, hfield]
  | singleParameter hrole hnode _ _ hbinding _ =>
    obtain ⟨c, hc, hfield, heq⟩ := exists_of_child? hbinding
    refine .inr ⟨c, hc, heq ▸ mem_walk_self _, .inl ?_⟩
    simp [child, roleOf, hrole, plainPart, hnode, functionPart, hfield]
  | typeName hrole hfunction hnode _ _ hbinding _ =>
    obtain ⟨c, hc, hfield, heq⟩ := exists_of_child? hbinding
    refine .inr ⟨c, hc, heq ▸ mem_walk_self _, ?_⟩
    obtain ⟨k, hk, hkind⟩ := hnode
    simp only [typeNameKinds, List.mem_cons, List.not_mem_nil, or_false] at hk
    rcases hk with rfl | rfl | rfl | rfl | rfl
    all_goals simp [child, roleOf, hrole, plainPart, hfunction, hkind, heq]
  | imported hrole hnode _ _ hbinding _ =>
    obtain ⟨c, hc, hmem⟩ := hbinding
    refine .inr ⟨c, hc, hmem, .inl ?_⟩
    have hfunction : v.place.node.isFunction = false := isFunction_of_kind? hnode
    simp [child, roleOf, hrole, plainPart, hfunction, hnode]
  | head hrole part hnode _ _ hbinding _ =>
    obtain ⟨p, hp, hmem⟩ := hbinding
    obtain ⟨c, hc, hfield, rfl⟩ := exists_of_child? hp
    refine .inr ⟨c, hc, hmem, .inl ?_⟩
    rcases hnode with ⟨hnode, rfl⟩ | ⟨hnode, rfl⟩
    all_goals
      have hfunction : v.place.node.isFunction = false := isFunction_of_kind? hnode
      simp [child, roleOf, hrole, plainPart, hfunction, hnode, hfield]
  | parameter hrole _ _ hbinding _ =>
    obtain ⟨p, hp, hmem⟩ := hbinding
    have hroleOf (c : Node) : (v.child c).role = parameterPart v.place.node c := by
      simp [child, roleOf, hrole]
    rcases parameterPattern?_cases hp with ⟨rfl, hignored⟩ | ⟨c, hc, rfl, hignored⟩
    · rw [Focus.walk, Focus.walkFrom_eq] at hmem
      rcases List.mem_cons.1 hmem with heq | hmem
      · exact .inl ⟨heq, hrole⟩
      · obtain ⟨c, hc, hmem⟩ := Focus.mem_walkAll.1 hmem
        exact .inr ⟨c, hc, hmem, .inl ((hroleOf c).trans (hignored c))⟩
    · exact .inr ⟨c, hc, hmem, .inl ((hroleOf c).trans hignored)⟩
  | declarator hoisted hrole _ _ hbinding _ =>
    obtain ⟨p, hp, hmem⟩ := hbinding
    obtain ⟨c, hc, hfield, rfl⟩ := exists_of_child? hp
    refine .inr ⟨c, hc, hmem, .inl ?_⟩
    simp [child, roleOf, hrole, hfield]

theorem Declares.binding_mem (h : v.Declares σ) : σ.binding ∈ v.place.walk := by
  rcases h.part with ⟨heq, -⟩ | ⟨c, hc, hmem, -⟩
  · exact heq ▸ mem_walk_self _
  · exact mem_walk_trans hmem (down_mem_walk (mem_walk_self _) hc)

private theorem Declares.declaration_mem (h : v.Declares σ) : σ.declaration ∈ v.place.walk := by
  have hbinding := h.binding_mem
  cases h with
  | functionName _ _ _ hdeclaration _ _ => exact hdeclaration ▸ mem_walk_self _
  | singleParameter _ _ _ hdeclaration _ _ => exact hdeclaration ▸ hbinding
  | typeName _ _ _ _ hdeclaration _ _ => exact hdeclaration ▸ mem_walk_self _
  | imported _ _ _ hdeclaration _ _ => exact hdeclaration
  | head _ _ _ _ hdeclaration _ _ => exact hdeclaration ▸ mem_walk_self _
  | parameter _ _ hdeclaration _ _ => exact hdeclaration ▸ mem_walk_self _
  | declarator _ _ _ hdeclaration _ _ => exact hdeclaration ▸ mem_walk_self _

theorem Declares.role_ne_ignored (h : v.Declares σ) : v.role ≠ .ignored := by
  cases h <;> simp_all

/-- Two visits, of which the place of one lies around that of the other, declare names at the same
place only if they are the same. -/
theorem Declares.place_eq_of_mem_outward (hv : (ofRoot root).Leads v) (hw : (ofRoot root).Leads w)
    (hσ : v.Declares σ) (hτ : w.Declares τ) (hbinding : σ.binding = τ.binding)
    (hmem : v.place ∈ w.place.outward) : v.place = w.place := by
  have hwb : w.place ∈ σ.binding.outward :=
    hbinding ▸ Focus.mem_outward_of_mem_walk hτ.binding_mem
  rcases (isIn hw).eq_or_child_mem_outward hmem with heq | ⟨d, hd, hdmem⟩
  · exact heq.symm
  rcases hσ.part with ⟨heq, -⟩ | ⟨c, hc, hcmem, hrole⟩
  · exact Focus.mem_outward_antisymm hmem (heq ▸ hwb)
  -- The child on the way to the inner visit is the one that holds the name.
  have hcb : v.place.down c ∈ σ.binding.outward := Focus.mem_outward_of_mem_walk hcmem
  obtain rfl : c = d :=
    Focus.child_eq_of_mem_outward hcb (Focus.mem_outward_trans hwb hdmem)
  rcases hrole with hrole | ⟨hrole, heq⟩
  · exact absurd (ignored_of_mem_outward hw (hv.child hc) hrole hdmem) hτ.role_ne_ignored
  · rw [heq] at hwb
    have hwplace : w.place = (v.child c).place := Focus.mem_outward_antisymm hwb hdmem
    obtain rfl := eq_of_place_eq hw (hv.child hc) hwplace
    rcases hτ.part with ⟨-, hparameter⟩ | ⟨e, -, hemem, -⟩
    · rw [hrole] at hparameter
      cases hparameter
    · have hlt := Focus.mem_outward_of_mem_walk hemem
      rw [← hbinding, heq] at hlt
      have hlength := (Focus.above_suffix hlt).length_le
      simp only [Focus.down, child, List.length_cons] at hlength
      omega

/-- A name is declared by one visit only. -/
theorem Declares.visit_eq (hv : (ofRoot root).Leads v) (hw : (ofRoot root).Leads w)
    (hσ : v.Declares σ) (hτ : w.Declares τ) (hbinding : σ.binding = τ.binding) : v = w := by
  refine eq_of_place_eq hv hw ?_
  have hvb : v.place ∈ σ.binding.outward := Focus.mem_outward_of_mem_walk hσ.binding_mem
  have hwb : w.place ∈ σ.binding.outward :=
    hbinding ▸ Focus.mem_outward_of_mem_walk hτ.binding_mem
  rcases Focus.outward_linear hvb hwb with hmem | hmem
  · exact (hτ.place_eq_of_mem_outward hw hv hσ hbinding.symm hmem).symm
  · exact hσ.place_eq_of_mem_outward hv hw hτ hbinding hmem

/-- Only functions declare names of functions. -/
theorem Declares.of_kind_eq_function (h : v.Declares σ) (hkind : σ.kind = .function) :
    v.role = .plain ∧ v.place.node.isFunction = true ∧ σ.declaration = v.place ∧
      v.place.child? .name = some σ.binding := by
  cases h with
  | functionName hrole hnode _ hdeclaration hbinding _ =>
    exact ⟨hrole, hnode, hdeclaration, hbinding⟩
  | _ => simp_all

/-- Whether a name is that of a function is told by the place where it stands. -/
theorem Declares.kind_eq_function_of_binding_eq (hσ : v.Declares σ) (hτ : v.Declares τ)
    (hbinding : σ.binding = τ.binding) (hkind : σ.kind = .function) : τ.kind = .function := by
  obtain ⟨hrole, hnode, -, hname⟩ := hσ.of_kind_eq_function hkind
  cases hτ with
  | functionName _ _ hkind _ _ _ => exact hkind
  | singleParameter _ _ _ _ hparameter _ =>
    obtain ⟨n, -, hfield, heq⟩ := exists_of_child? hname
    obtain ⟨n', -, hfield', heq'⟩ := exists_of_child? hparameter
    have hsame : n = n' := congrArg Focus.node (heq.symm.trans (hbinding.trans heq'))
    rw [hsame, hfield'] at hfield
    cases hfield
  | typeName _ hfunction _ _ _ _ _ => simp [hnode] at hfunction
  | imported _ himport _ _ _ _ =>
    rw [isFunction_of_kind? himport] at hnode
    cases hnode
  | head _ _ hhead _ _ _ _ =>
    rcases hhead with ⟨hkind, -⟩ | ⟨hkind, -⟩ <;>
    · rw [isFunction_of_kind? hkind] at hnode
      cases hnode
  | parameter hrole' _ _ _ _ => simp [hrole] at hrole'
  | declarator _ hrole' _ _ _ _ => simp [hrole] at hrole'

/-! ## Scopes of names -/

/-- The scope around a visited place is that of the module or of a place strictly around it. -/
theorem current_cases (h : (ofRoot root).Leads v) :
    v.scopes.current = root.id ∨ ∃ g, OpenAt root v.place g ∧ v.scopes.current = g.id ∧
      g ∈ Focus.ofAbove v.place.above := by
  obtain ⟨l, hl, hopen⟩ := exists_scopes_eq h
  rw [hl]
  cases l with
  | nil => exact .inl rfl
  | cons n l =>
    obtain ⟨g, hg, hgn, hmem⟩ := hopen n List.mem_cons_self
    exact .inr ⟨g, hg, hgn ▸ rfl, hmem⟩

theorem root_scopes (h : (ofRoot root).Leads v) : v.scopes.root = root.id := by
  obtain ⟨l, hl, -⟩ := exists_scopes_eq h
  simp [OpenScopes.root, hl]

/-- Among open scopes the nearest of a function is one of them, or else the outermost one. -/
theorem function_cases (l : List Node) (n : Node) :
    OpenScopes.function (l ++ [n]) = n.id ∨
      ∃ m ∈ l, m.isFunction = true ∧ OpenScopes.function (l ++ [n]) = m.id := by
  induction l with
  | nil => exact .inl rfl
  | cons m l ih =>
    have hstep : OpenScopes.function (m :: (l ++ [n])) =
        if m.isFunction then m.id else OpenScopes.function (l ++ [n]) := by
      cases l <;> rfl
    rw [List.cons_append, hstep]
    split
    next hm => exact .inr ⟨m, List.mem_cons_self, hm, rfl⟩
    next =>
      rcases ih with h | ⟨k, hk, hfunction, h⟩
      · exact .inl h
      · exact .inr ⟨k, List.mem_cons_of_mem _ hk, hfunction, h⟩

end

end Event.Visit

namespace Focus

/-- A place lies outside of all functions, and is none itself. -/
def OutsideFunctions (f : Focus) : Prop := ∀ g ∈ f.outward, g.node.isFunction = false

private theorem findUp?_isFunction_eq_none_iff {f : Focus} :
    f.findUp? (·.node.isFunction) = none ↔ f.OutsideFunctions := by
  simp [findUp?, OutsideFunctions]

/-- What lies around a place that is strictly around another one is strictly around that one. -/
theorem mem_ofAbove_trans {f g h : Focus} (hg : g ∈ ofAbove f.above) (hh : h ∈ g.outward) :
    h ∈ ofAbove f.above := by
  rcases mem_outward_iff.1 (mem_outward_trans (List.mem_cons_of_mem _ hg) hh) with heq | hmem
  · have hlt := length_above_lt hg
    have hle := (above_suffix hh).length_le
    rw [heq] at hle
    omega
  · exact hmem

/-- Nothing lies strictly inside of what lies inside of it. -/
theorem not_mem_ofAbove_of_mem_outward {f g : Focus} (hg : g ∈ f.outward) :
    f ∉ ofAbove g.above := by
  intro hf
  have hlt := length_above_lt hf
  have hle := (above_suffix hg).length_le
  omega

/-- Strictly inside a place one comes through a child of it. -/
theorem IsIn.exists_child_of_mem_ofAbove {root : Node} {f g : Focus} (hf : f.IsIn root)
    (h : g ∈ ofAbove f.above) : ∃ c ∈ g.node.children, g.down c ∈ f.outward := by
  rcases hf.eq_or_child_mem_outward (List.mem_cons_of_mem _ h) with rfl | hchild
  · exact absurd h (not_mem_ofAbove_of_mem_outward (mem_outward_self _))
  · exact hchild

/-- What lies strictly around a place lies strictly around all inside of it. -/
theorem mem_ofAbove_of_mem_outward {f g h : Focus} (hg : g ∈ f.outward)
    (hh : h ∈ ofAbove g.above) : h ∈ ofAbove f.above := by
  rcases mem_outward_iff.1 hg with rfl | hmem
  · exact hh
  · exact mem_ofAbove_trans hmem (List.mem_cons_of_mem _ hh)

/-- What is found upward lies inside all that passes the same test. -/
theorem mem_outward_of_findUp? {f g h : Focus} {test : Focus → Bool}
    (hg : f.findUp? test = some g) (hh : h ∈ f.outward) (htest : test h = true) :
    h ∈ g.outward := by
  obtain ⟨n, above⟩ := f
  induction above generalizing n with
  | nil =>
    obtain rfl := List.mem_singleton.1 hh
    have heq := List.mem_of_find?_eq_some hg
    rw [List.mem_singleton.1 heq]
    exact mem_outward_self _
  | cons p ps ih =>
    rw [findUp?, outward, List.find?_cons] at hg
    split at hg
    · rw [← Option.some.inj hg]
      exact hh
    next hfirst =>
      rcases List.mem_cons.1 hh with rfl | hh
      · rw [htest] at hfirst
        cases hfirst
      · exact ih p hg hh

private theorem parent?_findUp?_isFunction_eq_none_iff {f : Focus} :
    f.parent?.bind (·.findUp? (·.node.isFunction)) = none ↔
      ∀ g ∈ ofAbove f.above, g.node.isFunction = false := by
  obtain ⟨n, above⟩ := f
  cases above with
  | nil => simp [parent?, ofAbove]
  | cons p ps => exact findUp?_isFunction_eq_none_iff

theorem OutsideFunctions.of_mem_outward {f g : Focus} (h : f.OutsideFunctions)
    (hg : g ∈ f.outward) : g.OutsideFunctions :=
  fun p hp => h p (mem_outward_trans hg hp)

end Focus

namespace Event

/-- A symbol that a module declares. -/
def DeclaredIn (root : Node) (σ : Symbol) : Prop := ∃ spaces, .declared σ spaces ∈ ofModule root

namespace DeclaredIn

variable {root : Node} {σ τ : Symbol}

theorem exists_visit (h : DeclaredIn root σ) :
    ∃ v, (Visit.ofRoot root).Leads v ∧ v.Declares σ := by
  obtain ⟨spaces, h⟩ := h
  rcases mem_ofModule_iff.1 h with h | ⟨v, hv, h⟩
  · cases h
  · exact ⟨v, hv, (Visit.declares_of_mem h).1⟩

theorem binding_isIn (h : DeclaredIn root σ) : σ.binding.IsIn root := by
  obtain ⟨v, hv, hσ⟩ := h.exists_visit
  exact Focus.isIn_of_mem_walk (Visit.isIn hv) hσ.binding_mem

theorem declaration_isIn (h : DeclaredIn root σ) : σ.declaration.IsIn root := by
  obtain ⟨v, hv, hσ⟩ := h.exists_visit
  exact Focus.isIn_of_mem_walk (Visit.isIn hv) hσ.declaration_mem

/-- Symbols that are bound at the same place are declared by the same function. -/
theorem declaringFunction?_eq (hσ : DeclaredIn root σ) (hτ : DeclaredIn root τ)
    (h : σ.binding = τ.binding) : σ.declaringFunction? = τ.declaringFunction? := by
  obtain ⟨v, hv, hσ⟩ := hσ.exists_visit
  obtain ⟨w, hw, hτ⟩ := hτ.exists_visit
  obtain rfl := hσ.visit_eq hv hw hτ h
  rw [Symbol.declaringFunction?, Symbol.declaringFunction?]
  by_cases hkind : σ.kind = .function
  · have hkind' := hσ.kind_eq_function_of_binding_eq hτ h hkind
    rw [if_pos hkind, if_pos hkind', (hσ.of_kind_eq_function hkind).2.2.1,
      (hτ.of_kind_eq_function hkind').2.2.1]
  · have hkind' : τ.kind ≠ .function :=
      fun hk => hkind (hτ.kind_eq_function_of_binding_eq hσ h.symm hk)
    rw [if_neg hkind, if_neg hkind', h]

/-- A scope outside of all functions that is not that of the module: a block, or the inside of a
function expression, which then declares nothing but its own name. -/
inductive IsStray (root : Node) (σ : Symbol) : Prop where
  /-- The name belongs to a block, a loop or a clause that catches. -/
  | block (g : Focus) (isIn : g.IsIn root) (below : g.above ≠ [])
      (kind : g.node.isOneOf blockKinds = true) (outside : g.OutsideFunctions)
      (scope : σ.scope = g.id)
  /-- The name is that of a function expression, seen only inside of it. -/
  | ownName (isIn : σ.declaration.IsIn root) (below : σ.declaration.above ≠ [])
      (node : σ.declaration.node.isFunction = true)
      (expression : σ.declaration.node.isOneOf
        [.functionDeclaration, .generatorFunctionDeclaration] = false)
      (outside : ∀ g ∈ Focus.ofAbove σ.declaration.above, g.node.isFunction = false)
      (name : σ.declaration.child? .name = some σ.binding) (scope : σ.scope = σ.declaration.id)

/-- An open scope outside of all functions is that of a block. -/
theorem stray_of_openAt {f g : Focus} (hf : f.IsIn root) (hg : Visit.OpenAt root f g)
    (houtside : g.OutsideFunctions) (hscope : σ.scope = g.id) : IsStray root σ := by
  have hopens := hg.opens
  rw [opensScope, houtside g (Focus.mem_outward_self g), Bool.false_or] at hopens
  exact .block g (hf.of_mem_outward hg.around) hg.below hopens houtside hscope

/-- A name of the scope around a place, with no function around that place, is one of the module or
of a block. -/
theorem scope_of_current {v : Visit} (hv : (Visit.ofRoot root).Leads v)
    (houtside : ∀ g ∈ Focus.ofAbove v.place.above, g.node.isFunction = false)
    (hscope : σ.scope = v.scopes.current) : σ.scope = root.id ∨ IsStray root σ := by
  rcases Visit.current_cases hv with hcurrent | ⟨g, hg, hcurrent, hmem⟩
  · exact .inl (hscope.trans hcurrent)
  · refine .inr (stray_of_openAt (Visit.isIn hv) hg ?_ (hscope.trans hcurrent))
    exact fun p hp => houtside p (Focus.mem_ofAbove_trans hmem hp)

theorem above_ne_nil_of_role {v : Visit} (hv : (Visit.ofRoot root).Leads v)
    (hrole : v.role = .plain) : v.place.above ≠ [] := by
  rcases Visit.eq_ofRoot_or_child hv with rfl | ⟨w, c, -, -, rfl⟩
  · cases hrole
  · exact List.cons_ne_nil _ _

/-- A name that no function declares belongs to the module, to a block outside of all functions, or
is the own name of a function expression there. -/
theorem scope_of_declaringFunction?_eq_none (hσ : DeclaredIn root σ)
    (h : σ.declaringFunction? = none) : σ.scope = root.id ∨ IsStray root σ := by
  obtain ⟨v, hv, hdeclares⟩ := hσ.exists_visit
  have hmem : v.place ∈ σ.binding.outward :=
    Focus.mem_outward_of_mem_walk hdeclares.binding_mem
  rw [Symbol.declaringFunction?] at h
  split at h
  next hkind =>
    -- The name of a function is bound inside it, but counts for the function around it.
    obtain ⟨-, -, hdeclaration, -⟩ := hdeclares.of_kind_eq_function hkind
    rw [hdeclaration, Focus.parent?_findUp?_isFunction_eq_none_iff] at h
    cases hdeclares with
    | functionName hrole hnode _ _ hbinding hscope =>
      split at hscope
      · exact scope_of_current hv h hscope
      next hexpression =>
        rw [Bool.not_eq_true] at hexpression
        refine .inr (.ownName ?_ ?_ ?_ ?_ ?_ ?_ ?_) <;> rw [hdeclaration]
        · exact Visit.isIn hv
        · exact above_ne_nil_of_role hv hrole
        · exact hnode
        · exact hexpression
        · exact h
        · exact hbinding
        · exact hscope
    | _ => simp_all
  next hkind =>
    rw [Focus.findUp?_isFunction_eq_none_iff] at h
    have houtside := h.of_mem_outward hmem
    have habove : ∀ g ∈ Focus.ofAbove v.place.above, g.node.isFunction = false :=
      fun g hg => houtside g (List.mem_cons_of_mem _ hg)
    cases hdeclares with
    | functionName _ _ hfunction _ _ _ => exact absurd hfunction hkind
    | singleParameter _ hnode _ _ _ _ =>
      rw [houtside _ (Focus.mem_outward_self _)] at hnode
      cases hnode
    | typeName _ _ _ _ _ _ hscope => exact scope_of_current hv habove hscope
    | imported _ _ _ _ _ hscope => exact .inl (hscope.trans (Visit.root_scopes hv))
    | head hrole part hnode _ _ _ hscope =>
      have habove' := above_ne_nil_of_role hv hrole
      refine .inr (.block v.place (Visit.isIn hv) habove' ?_ houtside hscope)
      rcases hnode with ⟨hkind, -⟩ | ⟨hkind, -⟩ <;> exact isOneOf_of_kind? hkind _
    | parameter _ _ _ _ hscope => exact scope_of_current hv habove hscope
    | declarator hoisted _ _ _ _ hscope =>
      cases hoisted with
      | false => exact scope_of_current hv habove hscope
      | true =>
        obtain ⟨l, hl, hopen⟩ := Visit.exists_scopes_eq hv
        rw [if_pos rfl, hl] at hscope
        rcases Visit.function_cases l root with heq | ⟨n, hn, hfunction, -⟩
        · exact .inl (hscope.trans heq)
        · obtain ⟨g, -, rfl, hg⟩ := hopen n hn
          rw [habove g hg] at hfunction
          cases hfunction

end DeclaredIn

end Event

end StableProps
