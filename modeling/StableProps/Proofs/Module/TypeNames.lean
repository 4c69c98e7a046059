import StableProps.Proofs.Module.PassedNames
import StableProps.Proofs.Scope.Resolution

/-!
# Names of declared types

Interfaces and aliases are declared by visits that do not go on inside them. Their places share no
byte, so a text has no more of them than bytes. Every type that a module finds, at its top or in a
scope inside, is declared by such a visit.
-/

namespace StableProps

namespace Event

/-- The name of an interface or an alias that is declared. -/
def typeName? : Event → Option String
  | .declared σ _ => if σ.kind = .typeName then some σ.name else none
  | _ => none

/-- The names of the interfaces and aliases that are declared. -/
def typeNames (events : List Event) : List String := events.filterMap typeName?

private theorem typeNames_append (es es' : List Event) :
    typeNames (es ++ es') = typeNames es ++ typeNames es' :=
  List.filterMap_append

private theorem typeNames_opened (f : Focus) (outer : List Nat) (es : List Event) :
    typeNames (.opened f outer :: es) = typeNames es := rfl

/-- Names that are declared in another way are no names of types. -/
theorem typeNames_map_declare {scope : Nat} {kind : BindingKind} (hkind : kind ≠ .typeName)
    (f : Focus) (spaces : List Namespace) (bs : List Bound) :
    typeNames (bs.map (declare scope kind f spaces)) = [] := by
  rw [typeNames, List.filterMap_map, List.filterMap_eq_nil_iff]
  intro b _
  exact if_neg hkind

private theorem typeNames_declareName (scope : Nat) (kind : BindingKind) (f : Focus)
    (spaces : List Namespace) : typeNames (declareName scope kind f spaces) =
      if kind = .typeName then (f.child? .name).toList.map (·.node.text) else [] := by
  rw [declareName]
  cases f.child? .name with
  | none => simp [typeNames]
  | some c =>
    by_cases hkind : kind = .typeName <;>
      simp [typeNames, typeName?, declare, hkind]

private theorem typeNames_ofImport (scope : Nat) (f : Focus) : typeNames (ofImport scope f) =
    [] := by
  rw [typeNames, List.filterMap_eq_nil_iff]
  intro e he
  cases e with
  | declared σ spaces =>
    have hkind := (Visit.of_mem_ofImport he).1
    exact if_neg (by rw [hkind]; decide)
  | opened => rfl
  | shared => rfl

/-- The rules that declare a name which stands for a type only. -/
def typeOnlyKinds : List Kind := [.interfaceDeclaration, .typeAliasDeclaration]

/-- A visit for its own sake declares the name of an interface or an alias, and no other visit
declares names of types. -/
theorem typeNames_events (v : Visit) :
    typeNames v.events =
      if v.role = .plain ∧ v.place.node.isOneOf typeOnlyKinds = true then
        (v.place.child? .name).toList.map (·.node.text)
      else [] := by
  have hnone (hnil : typeNames v.events = [])
      (hother : v.role = .plain → v.place.node.isOneOf typeOnlyKinds = false) :
      typeNames v.events = if v.role = .plain ∧ v.place.node.isOneOf typeOnlyKinds = true then
        (v.place.child? .name).toList.map (·.node.text) else [] := by
    rw [if_neg, hnil]
    rintro ⟨hrole, hone⟩
    cases (hother hrole).symm.trans hone
  have hmap {kind : BindingKind} (hkind : kind ≠ .typeName) (scope : Nat) (f : Focus → Focus)
      (g : Option Focus) : typeNames (g.toList.map fun p =>
        declare scope kind (f p) [.value] ⟨p, []⟩) = [] := by
    cases g with
    | none => rfl
    | some p => exact typeNames_map_declare hkind (f p) [.value] [⟨p, []⟩]
  cases v.enters with
  | function role node events inner =>
    refine hnone ?_ fun _ => ?_
    · rw [events, typeNames_opened, typeNames_append, hmap (by decide), hmap (by decide)]
      rfl
    · rw [Bool.eq_false_iff]
      intro hone
      cases node.symm.trans (Node.isFunction_eq_false_of_isOneOf hone (by decide))
  | block kind head role node opens binds events inner =>
    refine hnone ?_ fun _ => ?_
    · rw [events, typeNames_opened]
      cases hhead : head with
      | none => rfl
      | some p =>
        refine typeNames_map_declare ?_ _ _ _
        rcases binds p hhead with ⟨-, rfl, -⟩ | ⟨-, rfl, -⟩ <;> decide
    · have hblocks : ∀ k ∈ blockKinds, typeOnlyKinds.contains k = false := by decide
      rw [isOneOf_of_kind? node, hblocks _ opens]
  | @named k kind spaces role node sort events inner =>
    have hsorts : ∀ x ∈ namedKinds, x.2.1 = .typeName ↔ typeOnlyKinds.contains x.1 = true := by
      decide
    rw [events, typeNames_declareName, isOneOf_of_kind? node]
    exact if_congr ((hsorts _ sort).trans (and_iff_right role).symm) rfl rfl
  | imported role node events inner =>
    exact hnone (events ▸ typeNames_ofImport _ _) fun _ => isOneOf_of_kind? node _
  | parameter role events inner =>
    exact hnone (events ▸ typeNames_map_declare (by decide) _ _ _) (by simp [role])
  | declarator hoisted role events inner =>
    exact hnone (events ▸ typeNames_map_declare (by decide) _ _ _) (by simp [role])
  | functionBlock role events inner => exact hnone (events ▸ rfl) (by simp [role])
  | nothing other events inner =>
    refine hnone (events ▸ rfl) fun hrole => ?_
    rw [Bool.eq_false_iff]
    intro hone
    obtain ⟨k, hk, hkind⟩ := exists_kind?_of_isOneOf hone
    have hkinds : ∀ k ∈ typeOnlyKinds, (namedKinds.map Prod.fst).contains k = true := by decide
    have hnamed := (other hrole).2
    rw [isOneOf_of_kind? hkind, hkinds k hk] at hnamed
    cases hnamed

/-- Where a type is declared, nothing below is visited. -/
theorem typeNames_events_cases (v : Visit) :
    typeNames v.events = [] ∨
      (∀ c, roleOf v.role v.place.node c = .ignored) ∧ (typeNames v.events).length ≤ 1 := by
  rw [typeNames_events]
  split
  next h =>
    obtain ⟨k, hk, hkind⟩ := exists_kind?_of_isOneOf h.2
    refine .inr ⟨fun c => ?_, ?_⟩
    · simp only [h.1, roleOf, plainPart, isFunction_of_kind? hkind]
      rw [hkind]
      rcases List.mem_cons.1 hk with rfl | hk
      · rfl
      · obtain rfl := List.mem_singleton.1 hk
        rfl
    · rw [List.length_map]
      cases v.place.child? .name <;> simp
  · exact .inl rfl

mutual

/-- Nothing is met in what is ignored. -/
theorem ofNode_ignored (scopes : OpenScopes) (above : List Node) (n : Node) :
    ofNode .ignored scopes above n = [] := by
  obtain ⟨id, label, field, start, stop, text, children⟩ := n
  rw [ofNode]
  exact ofChildren_eq_nil children fun _ _ => rfl

private theorem ofChildren_eq_nil {role : Role} {n : Node} {scopes : OpenScopes} {above : List Node}
    (cs : List Node) (h : ∀ c ∈ cs, roleOf role n c = .ignored) :
    ofChildren role n scopes above cs = [] := by
  match cs with
  | [] => rw [ofChildren]
  | c :: cs =>
    rw [ofChildren, h c List.mem_cons_self, ofNode_ignored, List.nil_append]
    exact ofChildren_eq_nil cs fun d hd => h d (List.mem_cons_of_mem _ hd)

end

mutual

/-- A node declares no more types than it has bytes. -/
theorem length_typeNames_ofNode (role : Role) (scopes : OpenScopes) (above : List Node) (n : Node)
    (h : n.nests = true) (hsize : n.start < n.stop) :
    (typeNames (ofNode role scopes above n)).length + n.start ≤ n.stop := by
  obtain ⟨id, label, field, start, stop, text, children⟩ := n
  rw [ofNode]
  dsimp only
  rw [typeNames_append, List.length_append]
  have hcases := typeNames_events_cases
    ⟨role, scopes, ⟨⟨id, label, field, start, stop, text, children⟩, above⟩⟩
  dsimp only [Visit.events] at hcases
  rcases hcases with hnil | ⟨hignored, hone⟩
  · rw [hnil, List.length_nil, Nat.zero_add]
    exact length_typeNames_ofChildren role _ _ _ children start stop (by rwa [Node.nests] at h)
  · rw [ofChildren_eq_nil children fun c _ => hignored c]
    change _ + 0 + start ≤ stop
    have hsize : start < stop := hsize
    omega
termination_by structural n

private theorem length_typeNames_ofChildren (role : Role) (n : Node) (scopes : OpenScopes)
    (above cs : List Node) (start stop : Nat) (h : Node.nestsBetween start stop cs = true) :
    (typeNames (ofChildren role n scopes above cs)).length + start ≤ stop := by
  match cs with
  | [] =>
    rw [ofChildren]
    simpa [Node.nestsBetween, typeNames] using h
  | c :: cs =>
    simp only [Node.nestsBetween, Bool.and_eq_true, decide_eq_true_eq] at h
    obtain ⟨⟨⟨hstart, hsize⟩, hnests⟩, hrest⟩ := h
    have hfirst := length_typeNames_ofNode (roleOf role n c) scopes above c hnests hsize
    have hothers := length_typeNames_ofChildren role n scopes above cs c.stop stop hrest
    rw [ofChildren, typeNames_append, List.length_append]
    omega
termination_by structural cs

end

/-! ## Names that stand for types -/

/-- What is declared to stand for a type belongs to the module, is an interface or an alias, or is a
class or an enumeration. -/
theorem Visit.of_declared_type {v : Visit} {σ : Symbol} {spaces : List Namespace}
    (h : .declared σ spaces ∈ v.events) (htype : .type ∈ spaces) :
    σ.scope = v.scopes.root ∨ σ.kind = .typeName ∨
      DeclarationKind.ofNode? σ.declaration.node = some .classDefinition ∨
        DeclarationKind.ofNode? σ.declaration.node = some .enumeration := by
  have hvalue {α : Type} {l : List α} {scope : Nat} {kind : BindingKind} {f : α → Focus}
      {g : α → Bound} :
      .declared σ spaces ∉ l.map fun a => declare scope kind (f a) [.value] (g a) := by
    intro hmem
    obtain ⟨a, -, heq⟩ := List.mem_map.1 hmem
    obtain ⟨-, rfl⟩ := Event.declared.inj heq
    exact absurd htype (by decide)
  cases v.enters with
  | function role node events inner =>
    rw [events] at h
    rcases List.mem_append.1 (List.mem_of_ne_of_mem not_declared_opened h) with h | h <;>
      exact absurd h hvalue
  | block kind head role node opens binds events inner =>
    rw [events] at h
    exact absurd (List.mem_of_ne_of_mem not_declared_opened h) hvalue
  | @named k kind spaces' role node sort events inner =>
    obtain ⟨hkind, hdeclaration, -⟩ := of_mem_declareName (events ▸ h)
    have hsort : kind = .typeName ∨
        DeclarationKind.ofNode? v.place.node = some .classDefinition ∨
          DeclarationKind.ofNode? v.place.node = some .enumeration := by
      simp only [namedKinds, List.mem_cons, List.not_mem_nil, or_false, Prod.mk.injEq] at sort
      rw [DeclarationKind.ofNode?, node]
      rcases sort with ⟨rfl, rfl, -⟩ | ⟨rfl, rfl, -⟩ | ⟨rfl, rfl, -⟩ | ⟨rfl, rfl, -⟩ |
        ⟨rfl, rfl, -⟩ <;> simp
    rw [hkind, hdeclaration]
    exact .inr hsort
  | imported role node events inner => exact .inl (of_mem_ofImport (events ▸ h)).2.2.2.1
  | parameter role events inner => exact absurd (events ▸ h) hvalue
  | declarator hoisted role events inner => exact absurd (events ▸ h) hvalue
  | functionBlock role events inner =>
    rw [events] at h
    cases List.mem_singleton.1 h
  | nothing other events inner =>
    rw [events] at h
    cases h

end Event

namespace Source

/-- The names of the interfaces and aliases that a text declares. -/
def typeNames (s : Source) : List String := Event.typeNames (Event.ofModule s.root)

/-- A text has at least as many bytes as it declares types. -/
theorem length_typeNames_le (s : Source) : s.typeNames.length ≤ s.text.utf8ByteSize := by
  have hnests := s.wellFormed.nested
  rw [Node.nests_iff] at hnests
  have hlength :=
    Event.length_typeNames_ofChildren .transparent s.root [s.root] [s.root] _ _ _ hnests
  rw [s.stop_root] at hlength
  rw [typeNames, Event.ofModule, Event.typeNames_opened]
  exact Nat.le_of_add_right_le hlength

private theorem mem_typeNames_of_declared {s : Source} {σ : Symbol} {spaces : List Namespace}
    (h : .declared σ spaces ∈ Event.ofModule s.root) (hkind : σ.kind = .typeName) :
    σ.name ∈ s.typeNames :=
  List.mem_filterMap.2 ⟨_, h, if_pos hkind⟩

/-- The name of an interface or an alias that is visited is declared. -/
theorem mem_typeNames_of_leads {s : Source} {v : Event.Visit}
    (hv : (Event.Visit.ofRoot s.root).Leads v) (hrole : v.role = .plain)
    (hnode : v.place.node.isOneOf Event.typeOnlyKinds = true) {name : Node}
    (hname : v.place.node.child? .name = some name) : name.text ∈ s.typeNames := by
  have hnames : name.text ∈ Event.typeNames v.events := by
    rw [Event.typeNames_events, if_pos ⟨hrole, hnode⟩, Focus.child?, hname]
    exact List.mem_singleton_self _
  obtain ⟨e, he, hname⟩ := List.mem_filterMap.1 hnames
  exact List.mem_filterMap.2 ⟨e, Event.mem_ofModule_iff.2 (.inr ⟨v, hv, he⟩), hname⟩

end Source

namespace ModuleItem

private theorem of_type_mem_typesOf {f g : Focus} {name : String} (h : .type name g ∈ typesOf f) :
    g = f ∧ (DeclarationKind.ofNode? f.node).isSome = true ∧
      ∃ n, f.node.child? .name = some n ∧ n.text = name := by
  rw [typesOf] at h
  split at h
  next hkind =>
    obtain ⟨n, hn, heq⟩ := List.mem_map.1 h
    obtain ⟨rfl, rfl⟩ := ModuleItem.type.inj heq
    exact ⟨rfl, hkind, n, Option.mem_toList.1 hn, rfl⟩
  · cases h

/-- A type at the top of a module is declared by a statement, or by the declaration that a statement
exports, and is visited there. -/
theorem exists_leads_of_type_mem {root c : Node} (hc : c ∈ root.namedChildren) {name : String}
    {f : Focus} (h : .type name f ∈ ofStatement (root.focus.down c)) :
    ∃ v, (Event.Visit.ofRoot root).Leads v ∧ v.role = .plain ∧ v.place = f ∧
      .type name f ∈ typesOf f := by
  have hstatement : (Event.Visit.ofRoot root).Leads ((Event.Visit.ofRoot root).child c) :=
    .child .refl (Node.mem_of_mem_namedChildren hc)
  have hself {g : Focus} (h : .type name f ∈ typesOf g) : g = f ∧ .type name f ∈ typesOf f := by
    obtain ⟨rfl, -⟩ := of_type_mem_typesOf h
    exact ⟨rfl, h⟩
  have hinside {d : Node} (hd : d ∈ c.children) {k : Kind} (hk : c.kind? = some k)
      (hrole : k = .exportStatement ∨ k = .ambientDeclaration)
      (h : .type name f ∈ typesOf ((root.focus.down c).down d)) :
      ∃ v, (Event.Visit.ofRoot root).Leads v ∧ v.role = .plain ∧ v.place = f ∧
        .type name f ∈ typesOf f := by
    refine ⟨_, hstatement.child hd, ?_, hself h⟩
    change Event.plainPart c d = .plain
    rw [Event.plainPart, Event.isFunction_of_kind? hk, hk]
    rcases hrole with rfl | rfl <;> rfl
  rw [ofStatement] at h
  split at h
  next hk =>
    rw [ofExport] at h
    dsimp only at h
    split at h
    next d hd =>
      obtain ⟨n, hn, -, rfl⟩ := Event.Visit.exists_of_child? hd
      rcases List.mem_append.1 h with h | h
      · exact hinside hn hk (.inl rfl) h
      · obtain ⟨e, -, heq⟩ := List.mem_map.1 h
        cases heq
    · split at h
      · cases List.mem_singleton.1 h
      · split at h
        · obtain ⟨source, -, heq⟩ := List.mem_map.1 h
          cases heq
        · obtain ⟨n, -, hread⟩ := List.mem_filterMap.1 h
          obtain ⟨entry, -, heq, -⟩ := of_ofSpecifier? hread
          cases heq
  next hk =>
    obtain ⟨g, hg, h⟩ := List.mem_flatMap.1 h
    obtain ⟨n, hn, rfl⟩ := List.mem_map.1 hg
    exact hinside (Node.mem_of_mem_namedChildren hn) hk (.inr rfl) h
  · exact ⟨_, hstatement, rfl, hself h⟩

end ModuleItem

namespace DeclarationKind

/-- Interfaces and aliases are declared by rules of their own. -/
theorem isOneOf_of_ofNode? {n : Node} {k : DeclarationKind} (h : ofNode? n = some k)
    (hk : k = .alias ∨ k = .interface) : n.isOneOf Event.typeOnlyKinds = true := by
  rw [ofNode?] at h
  split at h
  next hkind => exact Event.isOneOf_of_kind? hkind _
  next hkind => exact Event.isOneOf_of_kind? hkind _
  · obtain rfl := Option.some.inj h
    simp at hk
  · obtain rfl := Option.some.inj h
    simp at hk
  · obtain rfl := Option.some.inj h
    simp at hk
  · cases h

end DeclarationKind

namespace ModuleIndex

variable {resolve : String → Path → Except Failure (Option Path)} {i : ModuleIndex}
variable {name : String} {d : TypeDeclaration}

/-- A declaration of a type stands in a module. -/
structure Holds (i : ModuleIndex) (d : TypeDeclaration) : Prop where
  path : d.modulePath = some i.path
  isIn : ∃ f, d.place = some f ∧ f.IsIn i.source.root
  named : d.kind = .alias ∨ d.kind = .interface → d.name ∈ i.source.typeNames

theorem exists_leads_of_type? (h : ofSource resolve i.source = .ok i) {f : Focus}
    (hf : i.type? name = some f) : ∃ v, (Event.Visit.ofRoot i.source.root).Leads v ∧
      v.role = .plain ∧ v.place = f ∧ .type name f ∈ ModuleItem.typesOf f := by
  obtain ⟨imports, -, h⟩ := bind_eq_ok.1 h
  have htypes := congrArg types (Except.ok.inj h)
  obtain ⟨before, after, hlist, -⟩ := List.lookup_eq_some_iff.1 hf
  have hmem : (name, f) ∈ i.types := by simp [hlist]
  rw [← htypes] at hmem
  obtain ⟨item, hitem, htype⟩ := List.mem_filterMap.1 (mem_of_mem_distinctBy hmem)
  obtain ⟨g, hg, hitem⟩ := List.mem_flatMap.1 hitem
  obtain ⟨c, hc, rfl⟩ := List.mem_map.1 hg
  cases item with
  | exported entry => cases htype
  | star specifier => cases htype
  | type n g =>
    obtain ⟨rfl, rfl⟩ := Prod.mk.inj (Option.some.inj htype)
    exact ModuleItem.exists_leads_of_type_mem hc hitem

/-- The declaration of a type at the top of a module stands in it. -/
theorem holds_of_declaration? (h : ofSource resolve i.source = .ok i)
    (hd : i.declaration? name = some d) : i.Holds d := by
  obtain ⟨f, hf, rfl⟩ := Option.map_eq_some_iff.1 hd
  obtain ⟨v, hv, hrole, rfl, htype⟩ := exists_leads_of_type? h hf
  obtain ⟨-, hkind, n, hn, rfl⟩ := ModuleItem.of_type_mem_typesOf htype
  obtain ⟨k, hk⟩ := Option.isSome_iff_exists.1 hkind
  refine ⟨rfl, ⟨v.place, rfl, Event.Visit.isIn hv⟩, fun hone => ?_⟩
  rw [hk, Option.getD_some] at hone
  exact Source.mem_typeNames_of_leads hv hrole (DeclarationKind.isOneOf_of_ofNode? hk hone) hn

theorem scopes_eq_of_ofSource (h : ofSource resolve i.source = .ok i) :
    i.scopes = ScopeTree.ofModule i.source.root := by
  obtain ⟨imports, -, h⟩ := bind_eq_ok.1 h
  exact (congrArg scopes (Except.ok.inj h)).symm

/-- A type that is found in a scope is declared in a scope around the place, which is not that of
the module. -/
theorem exists_of_innerDeclaration? (h : ofSource resolve i.source = .ok i) {context : Focus}
    (hd : i.innerDeclaration? name context = some d) :
    ∃ σ, σ.name = name ∧ σ.scope ≠ i.source.root.id ∧
      (∃ s ∈ (ScopeTree.ofModule i.source.root).scopes, σ.scope = s.id) ∧
      (∃ spaces, .declared σ spaces ∈ Event.ofModule i.source.root ∧ .type ∈ spaces) ∧
      d = { name, kind := (DeclarationKind.ofNode? σ.declaration.node).getD .alias
            modulePath := i.path, place := σ.declaration } := by
  obtain ⟨σ, hlookup, hd⟩ := Option.bind_eq_some_iff.1 hd
  rw [scopes_eq_of_ofSource h] at hlookup hd
  obtain ⟨hname, -, s, hs, hscope, hmem⟩ := ScopeTree.exists_of_lookup hlookup
  have hs := ScopeTree.mem_scopes_of_mem_chainFor hs
  obtain ⟨-, -, hevent⟩ :=
    ScopeTree.sound_ofModule _ s hs .type _ (ScopeTree.mem_of_lookup hmem)
  obtain ⟨r, hr, hopener, -⟩ := ScopeTree.exists_rootScope i.source.root
  have hid : r.id = i.source.root.id := by
    rw [Scope.id, hopener]
    rfl
  rw [hr, Option.map_some, hid] at hd
  split at hd
  · cases hd
  next hne =>
    exact ⟨σ, hname, fun heq => hne (congrArg some heq), ⟨s, hs, hscope⟩, hevent,
      (Option.some.inj hd).symm⟩

/-- The declaration of a type in a scope inside a module stands in it. -/
theorem holds_of_innerDeclaration? (h : ofSource resolve i.source = .ok i) {context : Focus}
    (hd : i.innerDeclaration? name context = some d) :
    i.Holds d := by
  obtain ⟨σ, hname, hscope, -, ⟨spaces, hevent, htype⟩, rfl⟩ :=
    exists_of_innerDeclaration? h hd
  refine ⟨rfl, ⟨_, rfl, Event.DeclaredIn.declaration_isIn ⟨spaces, hevent⟩⟩, fun hone => ?_⟩
  rcases Event.mem_ofModule_iff.1 hevent with heq | ⟨v, hv, hmem⟩
  · cases heq
  · rcases Event.Visit.of_declared_type hmem htype with hroot | hkind | hkind | hkind
    · exact absurd (hroot.trans (Event.Visit.root_scopes hv)) hscope
    · exact hname ▸ Source.mem_typeNames_of_declared hevent hkind
    · simp [hkind] at hone
    · simp [hkind] at hone

/-- How a module declares a type: at its top, or in a scope around some place. -/
inductive DeclaresType (i : ModuleIndex) (d : TypeDeclaration) : Prop where
  | top {name : String} (found : i.declaration? name = some d)
  | inner {name : String} {context : Focus} (isIn : context.IsIn i.source.root)
      (found : i.innerDeclaration? name context = some d)

theorem DeclaresType.holds (hd : i.DeclaresType d) (h : ofSource resolve i.source = .ok i) :
    i.Holds d := by
  cases hd with
  | top found => exact holds_of_declaration? h found
  | inner _ found => exact holds_of_innerDeclaration? h found

end ModuleIndex

/-- A module without scopes inside. -/
def Source.IsFlat (s : Source) : Prop :=
  ∀ scope ∈ (ScopeTree.ofModule s.root).scopes, scope.id = s.root.id

instance (s : Source) : Decidable s.IsFlat :=
  inferInstanceAs (Decidable (∀ scope ∈ (ScopeTree.ofModule s.root).scopes, scope.id = s.root.id))

/-- Without scopes inside, all types are declared at the top. -/
theorem ModuleIndex.DeclaresType.of_isFlat
    {resolve : String → Path → Except Failure (Option Path)} {i : ModuleIndex}
    {d : TypeDeclaration} (hd : i.DeclaresType d) (h : ofSource resolve i.source = .ok i)
    (hflat : i.source.IsFlat) : i.declaration? d.name = some d := by
  cases hd with
  | top found =>
    obtain ⟨f, -, rfl⟩ := Option.map_eq_some_iff.1 found
    exact found
  | inner _ found =>
    obtain ⟨σ, -, hscope, ⟨s, hs, heq⟩, -⟩ := exists_of_innerDeclaration? h found
    exact absurd (heq.trans (hflat s hs)) hscope

end StableProps
