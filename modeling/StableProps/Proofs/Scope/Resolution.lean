import StableProps.Proofs.Scope.Declared
import StableProps.Scope.Tree

/-!
# Scopes and look-up

The scopes of a module are recorded from the events of its visit. Every place of the module belongs
to a scope, the scopes around it end in that of the module, and a name is found in the innermost of
them that declares it. Thus a name that is found from somewhere inside is the one found from the
module itself exactly if it belongs to the scope of the module.
-/

namespace StableProps

namespace Event

/-- The place that opens a scope, with the scopes around it. -/
def opening? : Event → Option (Focus × List Nat)
  | .opened opener outer => some (opener, outer)
  | _ => none

/-- A node that has a scope, with the scope. -/
def home? : Event → Option (Nat × Nat)
  | .opened opener _ => some (opener.id, opener.id)
  | .shared block scope => some (block, scope)
  | .declared .. => none

/-- A declared symbol under the number of the node that binds it. -/
def symbol? : Event → Option (Nat × Symbol)
  | .declared symbol _ => some (symbol.binding.id, symbol)
  | _ => none

end Event

/-! ## Tables -/

/-- A table has what it had before and the new symbol. -/
private theorem Table.mem_declare {t : Table} {s : Symbol} {x : String × Symbol}
    (h : x ∈ t.declare s) : x ∈ t ∨ x = (s.name, s) := by
  rw [Table.declare] at h
  split at h
  · obtain ⟨e, he, rfl⟩ := List.mem_map.1 h
    split
    next heq => exact .inr (by rw [eq_of_beq heq])
    · exact .inl he
  · rcases List.mem_append.1 h with h | h
    · exact .inl h
    · exact .inr (List.mem_singleton.1 h)

namespace Scope

@[simp] theorem opener_declare (s : Scope) (symbol : Symbol) (space : Namespace) :
    (s.declare symbol space).opener = s.opener := by
  cases space <;> rfl

@[simp] theorem outer_declare (s : Scope) (symbol : Symbol) (space : Namespace) :
    (s.declare symbol space).outer = s.outer := by
  cases space <;> rfl

/-- A scope has what it had before, and the new symbol in its namespace. -/
private theorem mem_table_declare {s : Scope} {symbol : Symbol} {space space' : Namespace}
    {x : String × Symbol} (h : x ∈ (s.declare symbol space).table space') :
    x ∈ s.table space' ∨ x = (symbol.name, symbol) ∧ space' = space := by
  cases space <;> cases space'
  · exact (Table.mem_declare h).imp_right fun h => ⟨h, rfl⟩
  · exact .inl h
  · exact .inl h
  · exact (Table.mem_declare h).imp_right fun h => ⟨h, rfl⟩

/-- Entering a symbol into several tables changes only these. -/
theorem mem_table_foldl_declare {symbol : Symbol} {spaces : List Namespace} {s : Scope}
    {space : Namespace} {x : String × Symbol}
    (h : x ∈ (spaces.foldl (fun s space => s.declare symbol space) s).table space) :
    x ∈ s.table space ∨ x = (symbol.name, symbol) ∧ space ∈ spaces := by
  induction spaces generalizing s with
  | nil => exact .inl h
  | cons first rest ih =>
    rcases ih h with hfirst | ⟨heq, hmem⟩
    · rcases mem_table_declare hfirst with hold | ⟨heq, rfl⟩
      · exact .inl hold
      · exact .inr ⟨heq, List.mem_cons_self⟩
    · exact .inr ⟨heq, List.mem_cons_of_mem _ hmem⟩

/-- Declarations do not move a scope. -/
theorem foldl_declare_frame (symbol : Symbol) (spaces : List Namespace) (s : Scope) :
    (spaces.foldl (fun s space => s.declare symbol space) s).opener = s.opener ∧
      (spaces.foldl (fun s space => s.declare symbol space) s).outer = s.outer := by
  induction spaces generalizing s with
  | nil => exact ⟨rfl, rfl⟩
  | cons first rest ih =>
    obtain ⟨hopener, houter⟩ := ih (s.declare symbol first)
    exact ⟨hopener.trans (opener_declare ..), houter.trans (outer_declare ..)⟩

end Scope

namespace ScopeTree

/-! ## What is recorded -/

/-- The places that open scopes, in order. -/
def openings (t : ScopeTree) : List (Focus × List Nat) :=
  t.scopes.map fun s => (s.opener, s.outer)

/-- An event is recorded behind the openings there are. -/
private theorem openings_record (t : ScopeTree) (e : Event) :
    (t.record e).openings = t.openings ++ e.opening?.toList := by
  cases e with
  | opened opener outer => simp [record, openings, Event.opening?]
  | shared block scope => simp [record, openings, Event.opening?]
  | declared symbol spaces =>
    simp only [record, openings, Event.opening?, Option.toList_none, List.append_nil, List.map_map]
    refine List.map_congr_left ?_
    intro s _
    simp only [Function.comp_apply]
    split
    · obtain ⟨hopener, houter⟩ := Scope.foldl_declare_frame symbol spaces s
      rw [hopener, houter]
    · rfl

/-- An event is recorded behind the homes there are. -/
private theorem homes_record (t : ScopeTree) (e : Event) :
    (t.record e).homes = t.homes ++ e.home?.toList := by
  cases e <;> simp [record, Event.home?]

/-- An event is recorded behind the symbols there are. -/
private theorem symbols_record (t : ScopeTree) (e : Event) :
    (t.record e).symbols = t.symbols ++ e.symbol?.toList := by
  cases e <;> simp [record, Event.symbol?]

/-- What one event adds to a list, all events add in order. -/
theorem foldl_record_eq {α : Type} (list : ScopeTree → List α) (add? : Event → Option α)
    (hrecord : ∀ t e, list (t.record e) = list t ++ (add? e).toList) (t : ScopeTree)
    (events : List Event) : list (events.foldl record t) = list t ++ events.filterMap add? := by
  induction events generalizing t with
  | nil => simp
  | cons e events ih =>
    rw [List.foldl_cons, ih, hrecord, List.filterMap_cons]
    cases add? e <;> simp

variable {root : Node}

private theorem openings_ofModule : (ofModule root).openings = (Event.ofModule root).filterMap
    Event.opening? :=
  foldl_record_eq openings _ openings_record empty _

/-- The homes of a tree are those of all events. -/
theorem homes_ofModule : (ofModule root).homes = (Event.ofModule root).filterMap Event.home? :=
  foldl_record_eq homes _ homes_record empty _

/-- The symbols of a tree are those of all events. -/
theorem symbols_ofModule :
    (ofModule root).symbols = (Event.ofModule root).filterMap Event.symbol? :=
  foldl_record_eq symbols _ symbols_record empty _

/-- A scope belongs to an event that opens it. -/
theorem opened_of_mem_scopes {s : Scope} (h : s ∈ (ofModule root).scopes) :
    .opened s.opener s.outer ∈ Event.ofModule root := by
  have hmem : (s.opener, s.outer) ∈ (ofModule root).openings :=
    List.mem_map_of_mem (f := fun s : Scope => (s.opener, s.outer)) h
  rw [openings_ofModule] at hmem
  obtain ⟨e, he, heq⟩ := List.mem_filterMap.1 hmem
  cases e with
  | opened opener outer =>
    obtain ⟨rfl, rfl⟩ := Prod.mk.inj (Option.some.inj heq)
    exact he
  | shared block scope => cases heq
  | declared symbol spaces => cases heq

/-- An event that opens a scope leaves one. -/
theorem exists_scope_of_opened {g : Focus} {outer : List Nat}
    (h : .opened g outer ∈ Event.ofModule root) :
    ∃ s ∈ (ofModule root).scopes, s.opener = g ∧ s.outer = outer := by
  have hmem : (g, outer) ∈ (ofModule root).openings := by
    rw [openings_ofModule]
    exact List.mem_filterMap.2 ⟨_, h, rfl⟩
  obtain ⟨s, hs, heq⟩ := List.mem_map.1 hmem
  obtain ⟨hopener, houter⟩ := Prod.mk.inj heq
  exact ⟨s, hs, hopener, houter⟩

/-- The tables of a scope hold symbols declared in that scope under their names. -/
def Sound (events : List Event) (t : ScopeTree) : Prop :=
  ∀ s ∈ t.scopes, ∀ space, ∀ x ∈ s.table space,
    x.1 = x.2.name ∧ x.2.scope = s.id ∧
      ∃ spaces, .declared x.2 spaces ∈ events ∧ space ∈ spaces

/-- A tree stays sound when an event is recorded. -/
theorem Sound.record {events : List Event} {t : ScopeTree} (h : Sound events t) {e : Event}
    (he : e ∈ events) : Sound events (t.record e) := by
  intro s hs space x hx
  cases e with
  | opened opener outer =>
    rcases List.mem_append.1 hs with hs | hs
    · exact h s hs space x hx
    · obtain rfl := List.mem_singleton.1 hs
      cases space <;> simp [Scope.table] at hx
  | shared block scope => exact h s hs space x hx
  | declared symbol spaces =>
    obtain ⟨s', hs', rfl⟩ := List.mem_map.1 hs
    split at hx
    next hid =>
      have hopener := (Scope.foldl_declare_frame symbol spaces s').1
      have hsame : (spaces.foldl (fun s space => s.declare symbol space) s').id = s'.id :=
        congrArg Focus.id hopener
      rw [if_pos hid, hsame]
      rcases Scope.mem_table_foldl_declare hx with hx | ⟨rfl, hspace⟩
      · exact h s' hs' space x hx
      · exact ⟨rfl, (eq_of_beq hid).symm, spaces, he, hspace⟩
    next hid =>
      rw [if_neg hid]
      exact h s' hs' space x hx

/-- The tree of a module is sound. -/
theorem sound_ofModule (root : Node) : Sound (Event.ofModule root) (ofModule root) :=
  List.foldlRecOn (motive := Sound (Event.ofModule root)) _ _ (by simp [Sound, empty])
    fun _ ih _ he => ih.record he

/-! ## Chains -/

/-- A scope that is found by its number is one of the tree. -/
theorem mem_of_scope? {t : ScopeTree} {id : Nat} {s : Scope} (h : t.scope? id = some s) :
    s ∈ t.scopes ∧ s.id = id :=
  ⟨List.mem_of_find?_eq_some h, eq_of_beq (List.find?_some (p := fun s : Scope => s.id == id) h)⟩

/-- A scope that is opened is found by its number. -/
theorem exists_scope?_of_opened {g : Focus} {outer : List Nat}
    (h : .opened g outer ∈ Event.ofModule root) : ∃ s, (ofModule root).scope? g.id = some s := by
  obtain ⟨s, hs, rfl, -⟩ := exists_scope_of_opened h
  refine Option.isSome_iff_exists.1 (List.find?_isSome.2 ⟨s, hs, ?_⟩)
  simp [Scope.id]

/-- The scope of the module is recorded first. It has the root for its opener, nothing around it,
and is the one found by the number of the root. -/
theorem exists_rootScope (root : Node) :
    ∃ r, (ofModule root).rootScope? = some r ∧ r.opener = root.focus ∧ r.outer = [] ∧
      (ofModule root).scope? root.id = some r := by
  have hopenings : (ofModule root).openings.head? = some (root.focus, []) := by
    rw [openings_ofModule]
    rfl
  rw [openings, List.head?_map] at hopenings
  obtain ⟨r, hr, heq⟩ := Option.map_eq_some_iff.1 hopenings
  obtain ⟨hopener, houter⟩ := Prod.mk.inj heq
  refine ⟨r, hr, hopener, houter, ?_⟩
  have hid : (r.id == root.id) = true := by rw [Scope.id, hopener]; exact beq_self_eq_true _
  rw [scope?]
  cases hscopes : (ofModule root).scopes with
  | nil => simp [hscopes] at hr
  | cons s rest =>
    obtain rfl : s = r := by simpa [hscopes] using hr
    exact List.find?_cons_of_pos hid

/-- A scope is opened by the module itself or by a visit of a place below the root, inside the
scopes open there. -/
theorem opened_cases {g : Focus} {outer : List Nat} (h : .opened g outer ∈ Event.ofModule root) :
    g = root.focus ∧ outer = [] ∨
      ∃ v, (Event.Visit.ofRoot root).Leads v ∧ v.role = .plain ∧ g = v.place ∧
        outer = v.scopes.map Node.id := by
  rcases Event.mem_ofModule_iff.1 h with heq | ⟨v, hv, hmem⟩
  · obtain ⟨rfl, rfl⟩ := Event.opened.inj heq
    exact .inl ⟨rfl, rfl⟩
  · obtain ⟨hrole, rfl, rfl⟩ := Event.Visit.of_opened_mem hmem
    exact .inr ⟨v, hv, hrole, rfl, rfl⟩

/-- A place below the root has another number. -/
theorem id_ne_of_above_ne_nil (hroot : root.WellFormed) {g : Focus} (hg : g.IsIn root)
    (habove : g.above ≠ []) : g.id ≠ root.id := by
  intro hid
  rw [hg.eq_of_id_eq hroot .root hid] at habove
  exact habove rfl

/-- A scope with those around it ends in that of the module, which is not among the others. -/
theorem chain_eq (hroot : root.WellFormed) {s : Scope}
    (h : (ofModule root).scope? s.id = some s) :
    ∃ locals r, (ofModule root).chain s = locals ++ [r] ∧ (ofModule root).rootScope? = some r ∧
      ∀ l ∈ locals, l.id ≠ root.id := by
  obtain ⟨r, hr, -, houter, hfound⟩ := exists_rootScope root
  rcases opened_cases (opened_of_mem_scopes (mem_of_scope? h).1) with
    ⟨hopener, -⟩ | ⟨v, hv, hrole, hopener, hs⟩
  · -- The scope of the module itself.
    have hid : s.id = root.id := congrArg Focus.id hopener
    rw [hid, hfound] at h
    obtain rfl := Option.some.inj h
    exact ⟨[], r, by simp [chain, houter], hr, by simp⟩
  · obtain ⟨l, hl, hopen⟩ := Event.Visit.exists_scopes_eq hv
    have hplace := Event.Visit.isIn hv
    have houter : s.outer.filterMap (ofModule root).scope? =
        (l.map Node.id).filterMap (ofModule root).scope? ++ [r] := by
      simp [hs, hl, hfound]
    refine ⟨s :: (l.map Node.id).filterMap (ofModule root).scope?, r, ?_, hr, ?_⟩
    · rw [chain, houter, List.cons_append]
    · intro x hx
      rcases List.mem_cons.1 hx with rfl | hx
      · have hid : x.id = v.place.id := congrArg Focus.id hopener
        rw [hid]
        exact id_ne_of_above_ne_nil hroot hplace (Event.DeclaredIn.above_ne_nil_of_role hv hrole)
      · obtain ⟨i, hi, hx⟩ := List.mem_filterMap.1 hx
        obtain ⟨n, hn, rfl⟩ := List.mem_map.1 hi
        obtain ⟨g, hg, rfl, -⟩ := hopen n hn
        rw [(mem_of_scope? hx).2]
        exact id_ne_of_above_ne_nil hroot (hplace.of_mem_outward hg.around) hg.below

/-- The number of a scope that a node has is that of a scope. -/
theorem exists_scope?_of_mem_homes {k id : Nat} (h : (k, id) ∈ (ofModule root).homes) :
    ∃ s, (ofModule root).scope? id = some s := by
  rw [homes_ofModule] at h
  obtain ⟨e, he, heq⟩ := List.mem_filterMap.1 h
  cases e with
  | opened opener outer =>
    obtain ⟨-, rfl⟩ := Prod.mk.inj (Option.some.inj heq)
    exact exists_scope?_of_opened he
  | shared block scope =>
    obtain ⟨-, rfl⟩ := Prod.mk.inj (Option.some.inj heq)
    rcases Event.mem_ofModule_iff.1 he with heq | ⟨v, hv, hmem⟩
    · cases heq
    · rw [(Event.Visit.of_shared_mem hmem).2.2]
      rcases Event.Visit.current_cases hv with hcurrent | ⟨g, hg, hcurrent, -⟩
      · obtain ⟨r, -, -, -, hr⟩ := exists_rootScope root
        exact ⟨r, hcurrent ▸ hr⟩
      · obtain ⟨outer, hopened⟩ := hg.opened
        exact hcurrent ▸ exists_scope?_of_opened hopened
  | declared symbol spaces => cases heq

/-- Every place of a module belongs to a scope. -/
theorem exists_scopeFor? {f : Focus} (hf : f.IsIn root) :
    ∃ s, (ofModule root).scopeFor? f = some s ∧ (ofModule root).scope? s.id = some s := by
  have hhome : (root.id, root.id) ∈ (ofModule root).homes := by
    rw [homes_ofModule]
    exact List.mem_filterMap.2 ⟨_, List.mem_cons_self, rfl⟩
  have hlookup : ((ofModule root).homes.lookup root.focus.id).isSome = true :=
    List.lookup_isSome_iff.2 ⟨_, hhome, beq_self_eq_true _⟩
  have hsome : (f.outward.findSome? fun g => (ofModule root).homes.lookup g.id).isSome = true :=
    List.findSome?_isSome_iff.2 ⟨_, hf.root_mem_outward, hlookup⟩
  obtain ⟨id, hid⟩ := Option.isSome_iff_exists.1 hsome
  obtain ⟨g, -, hg⟩ := List.exists_of_findSome?_eq_some hid
  obtain ⟨l₁, l₂, heq, -⟩ := List.lookup_eq_some_iff.1 hg
  have hmem : (g.id, id) ∈ (ofModule root).homes := by simp [heq]
  obtain ⟨s, hs⟩ := exists_scope?_of_mem_homes hmem
  refine ⟨s, ?_, ?_⟩
  · rw [scopeFor?, hid]
    exact hs
  · rw [(mem_of_scope? hs).2]
    exact hs

/-- The scopes around a place without that of the module, innermost first. -/
def localScopes (t : ScopeTree) (f : Focus) : List Scope := (t.chainFor f).dropLast

/-- The scopes around a place are local ones and that of the module. -/
theorem chainFor_eq (hroot : root.WellFormed) {f : Focus} (hf : f.IsIn root) :
    ∃ r, (ofModule root).rootScope? = some r ∧
      (ofModule root).chainFor f = (ofModule root).localScopes f ++ [r] ∧
      ∀ l ∈ (ofModule root).localScopes f, l.id ≠ root.id := by
  obtain ⟨s, hs, hscope⟩ := exists_scopeFor? hf
  obtain ⟨locals, r, hchain, hr, hlocals⟩ := chain_eq hroot hscope
  have hchainFor : (ofModule root).chainFor f = locals ++ [r] := by
    rw [chainFor, hs]
    exact hchain
  have hlocalScopes : (ofModule root).localScopes f = locals := by
    rw [localScopes, hchainFor, List.dropLast_concat]
  exact ⟨r, hr, by rw [hchainFor, hlocalScopes], by rw [hlocalScopes]; exact hlocals⟩

/-- All scopes around a place are among those of the module. -/
theorem mem_scopes_of_mem_chainFor {f : Focus} {s : Scope}
    (h : s ∈ (ofModule root).chainFor f) : s ∈ (ofModule root).scopes := by
  rw [chainFor] at h
  split at h
  next s' hs' =>
    rcases List.mem_cons.1 h with rfl | h
    · obtain ⟨i, -, hi⟩ := Option.bind_eq_some_iff.1 hs'
      exact (mem_of_scope? hi).1
    · obtain ⟨i, -, hi⟩ := List.mem_filterMap.1 h
      exact (mem_of_scope? hi).1
  next => cases h

/-! ## Look-up -/

theorem mem_of_lookup {t : Table} {name : String} {σ : Symbol} (h : t.lookup name = some σ) :
    (name, σ) ∈ t := by
  obtain ⟨l₁, l₂, rfl, -⟩ := List.lookup_eq_some_iff.1 h
  simp

/-- A name that is found belongs to a scope around the place, and was declared there. -/
theorem exists_of_lookup {f : Focus} {name : String} {space : Namespace} {σ : Symbol}
    (h : (ofModule root).lookup f name space = some σ) :
    σ.name = name ∧ Event.DeclaredIn root σ ∧ ∃ s ∈ (ofModule root).chainFor f,
      σ.scope = s.id ∧ (s.table space).lookup name = some σ := by
  obtain ⟨s, hs, hlookup⟩ := List.exists_of_findSome?_eq_some h
  obtain ⟨hname, hscope, spaces, hdeclared, -⟩ :=
    sound_ofModule root s (mem_scopes_of_mem_chainFor hs) space _ (mem_of_lookup hlookup)
  exact ⟨hname.symm, ⟨spaces, hdeclared⟩, s, hs, hscope, hlookup⟩

/-- From the module itself only the names of the module are found. -/
theorem lookup_root (root : Node) (name : String) :
    (ofModule root).lookup root.focus name .value = (ofModule root).moduleValues.lookup name := by
  obtain ⟨r, hr, -, houter, hfound⟩ := exists_rootScope root
  have hhomes : (ofModule root).homes.lookup root.id = some root.id := by
    rw [homes_ofModule, Event.ofModule, List.filterMap_cons]
    exact List.lookup_cons_self
  have hscopeFor : (ofModule root).scopeFor? root.focus = some r := by
    simp [scopeFor?, Focus.outward, Node.focus, Focus.ofAbove, Focus.id, hhomes, hfound]
  simp [lookup, chainFor, hscopeFor, chain, houter, Scope.table, moduleValues, hr]

end ScopeTree

/-- A scope declares a value of a name. -/
def Scope.DeclaresValue (s : Scope) (name : String) : Prop := name ∈ s.values.map Prod.fst

/-- A name is not found exactly if the scope does not declare it. -/
theorem Scope.lookup_eq_none_iff {s : Scope} {name : String} :
    s.values.lookup name = none ↔ ¬s.DeclaresValue name := by
  simp only [List.lookup_eq_none_iff, Scope.DeclaresValue, List.mem_map, not_exists, not_and]
  constructor
  · intro h x hx heq
    simpa [heq] using h x hx
  · intro h x hx
    simpa using fun heq => h x hx heq.symm

namespace ScopeTree

variable {root : Node}

/-- A name that is found from a place is the one of the module exactly if it belongs to the scope of
the module. -/
theorem lookup_root_eq_some_iff (hroot : root.WellFormed) {f : Focus} (hf : f.IsIn root)
    {name : String} {σ : Symbol} (h : (ofModule root).lookup f name .value = some σ) :
    (ofModule root).lookup root.focus name .value = some σ ↔ σ.scope = root.id := by
  obtain ⟨r, hr, hropener, -, -⟩ := exists_rootScope root
  constructor
  · intro hlookup
    rw [lookup_root, moduleValues, hr] at hlookup
    obtain ⟨-, hscope, -⟩ :=
      sound_ofModule root r (List.mem_of_head? hr) .value _ (mem_of_lookup hlookup)
    rw [hscope, Scope.id, hropener]
    rfl
  · intro hscope
    obtain ⟨-, -, s, hs, hid, hlookup⟩ := exists_of_lookup h
    obtain ⟨r', hr', hchain, hlocals⟩ := chainFor_eq hroot hf
    rw [hchain] at hs
    rcases List.mem_append.1 hs with hs | hs
    · exact absurd (hid.symm.trans hscope) (hlocals s hs)
    · obtain rfl := List.mem_singleton.1 hs
      rw [lookup_root, moduleValues, hr']
      exact hlookup

/-- A name found from a place is that of the module exactly if no local scope around the place
declares it. -/
theorem lookup_eq_lookup_root_iff (hroot : root.WellFormed) {f : Focus} (hf : f.IsIn root)
    (name : String) :
    (ofModule root).lookup f name .value = (ofModule root).lookup root.focus name .value ↔
      ∀ s ∈ (ofModule root).localScopes f, ¬s.DeclaresValue name := by
  obtain ⟨r, hr, hchain, hlocals⟩ := chainFor_eq hroot hf
  have hlookup : (ofModule root).lookup f name .value =
      (((ofModule root).localScopes f).findSome? fun s => s.values.lookup name).or
        (r.values.lookup name) := by
    rw [lookup, hchain, List.findSome?_append]
    simp [Scope.table]
  constructor
  · intro heq s hs hdeclares
    -- A local scope that declares the name would be asked before that of the module.
    cases hfound : ((ofModule root).localScopes f).findSome? fun s => s.values.lookup name with
    | none =>
      have hnone := List.findSome?_eq_none_iff.1 hfound s hs
      exact Scope.lookup_eq_none_iff.1 hnone hdeclares
    | some σ =>
      rw [hfound, Option.some_or] at hlookup
      have hscope := (lookup_root_eq_some_iff hroot hf hlookup).1 (heq.symm.trans hlookup)
      obtain ⟨l, hl, hlσ⟩ := List.exists_of_findSome?_eq_some hfound
      have hmem : l ∈ (ofModule root).chainFor f := by
        rw [hchain]
        exact List.mem_append_left _ hl
      obtain ⟨-, hlid, -⟩ := sound_ofModule root l (mem_scopes_of_mem_chainFor hmem) .value _
        (mem_of_lookup hlσ)
      exact hlocals l hl (hlid.symm.trans hscope)
  · intro hnone
    have hfound : ((ofModule root).localScopes f).findSome? (fun s => s.values.lookup name) =
        none :=
      List.findSome?_eq_none_iff.2 fun s hs => Scope.lookup_eq_none_iff.2 (hnone s hs)
    rw [hlookup, hfound, Option.none_or, lookup_root, moduleValues, hr]
    rfl

end ScopeTree

end StableProps
