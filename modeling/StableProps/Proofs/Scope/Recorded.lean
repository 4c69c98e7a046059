import StableProps.Proofs.Scope.Chain
import StableProps.Proofs.Scope.Pattern

/-!
# What is declared is recorded

A symbol goes into the table of its scope only if the scope is there when the symbol is declared.
A visit declares names only in scopes that are open, so each of them was opened before, and every
declared name is found in the table of its scope at the end. Which symbol stands at a place is
settled by the one visit that can declare names there.
-/

namespace StableProps

namespace OpenScopes

private theorem current_mem {scopes : OpenScopes} (h : scopes ≠ []) :
    scopes.current ∈ scopes.map Node.id := by
  cases scopes with
  | nil => exact absurd rfl h
  | cons n rest => exact List.mem_cons_self

private theorem root_mem {scopes : OpenScopes} (h : scopes ≠ []) :
    scopes.root ∈ scopes.map Node.id := by
  have hlast : scopes.root = (scopes.getLast h).id := by
    rw [root, List.getLast?_eq_some_getLast h]
    rfl
  exact hlast ▸ List.mem_map_of_mem (List.getLast_mem h)

private theorem function_mem {scopes : OpenScopes} (h : scopes ≠ []) :
    scopes.function ∈ scopes.map Node.id := by
  rcases List.eq_nil_or_concat scopes with rfl | ⟨l, n, rfl⟩
  · exact absurd rfl h
  · obtain ⟨m, hm, heq⟩ := Event.exists_function_eq (l := l) (n := n)
    rw [List.concat_eq_append, heq]
    exact List.mem_map_of_mem hm

end OpenScopes

namespace Event

/-! ## Scopes are opened before they are used -/

/-- The numbers of the scopes that an event opens. -/
def opens : Event → List Nat
  | .opened opener _ => [opener.id]
  | _ => []

/-- Each name is declared in a scope that is known at first or is opened before. -/
def InOrder : List Nat → List Event → Prop
  | _, [] => True
  | known, e :: es =>
    (∀ σ spaces, e = .declared σ spaces → σ.scope ∈ known) ∧ InOrder (e.opens ++ known) es

/-- Events are in order if more scopes are known. -/
theorem InOrder.mono {known known' : List Nat} {es : List Event} (h : InOrder known es)
    (hsub : known ⊆ known') : InOrder known' es := by
  induction es generalizing known known' with
  | nil => trivial
  | cons e es ih =>
    refine ⟨fun σ spaces he => hsub (h.1 σ spaces he), ih h.2 ?_⟩
    exact List.append_subset.2 ⟨List.subset_append_left _ _,
      fun k hk => List.mem_append_right _ (hsub hk)⟩

/-- Events in a row are in order if the later ones are after the scopes that the first ones open. -/
theorem InOrder.append {known : List Nat} {es es' : List Event} (h : InOrder known es)
    (h' : InOrder (es.flatMap opens ++ known) es') : InOrder known (es ++ es') := by
  induction es generalizing known with
  | nil => exact h'
  | cons e es ih =>
    refine ⟨h.1, ih h.2 (h'.mono ?_)⟩
    intro k hk
    simp only [List.flatMap_cons, List.append_assoc, List.mem_append] at hk ⊢
    tauto

/-- Names that are declared in known scopes are in order. -/
theorem inOrder_of_forall {known : List Nat} {es : List Event}
    (h : ∀ σ spaces, .declared σ spaces ∈ es → σ.scope ∈ known) : InOrder known es := by
  induction es with
  | nil => trivial
  | cons e es ih =>
    refine ⟨fun σ spaces he => h σ spaces (he ▸ List.mem_cons_self), ?_⟩
    exact (ih fun σ spaces he => h σ spaces (List.mem_cons_of_mem _ he)).mono
      (List.subset_append_right _ _)

namespace Visit

variable {root : Node} {v w : Visit} {σ : Symbol}

/-- What a function or a head declares comes behind the opening of its scope. -/
theorem exists_events_eq_cons (hrole : v.role = .plain) (h : opensScope v.place.node = true) :
    ∃ rest, v.events = .opened v.place (v.scopes.map Node.id) :: rest := by
  cases v.enters with
  | function role node events inner => exact ⟨_, events⟩
  | block kind head role node opens binds events inner => exact ⟨_, events⟩
  | @named k kind spaces role node sort events inner =>
    have hsorts : ∀ x ∈ namedKinds,
        (functionKinds.contains x.1 || blockKinds.contains x.1) = false := by decide
    rw [opensScope_of_kind? node, hsorts _ sort] at h
    cases h
  | imported role node events inner =>
    rw [opensScope_of_kind? node] at h
    cases h
  | parameter role events inner => cases hrole.symm.trans role
  | declarator hoisted role events inner => cases hrole.symm.trans role
  | functionBlock role events inner => cases hrole.symm.trans role
  | nothing other events inner => cases h.symm.trans (other hrole).1

/-- A visit declares names in scopes that are open, or in the one that it opens first. -/
theorem Declares.scope_mem (h : v.Declares σ) (hscopes : v.scopes ≠ []) :
    σ.scope ∈ v.scopes.map Node.id ∨
      σ.scope = v.place.id ∧
        ∃ rest, v.events = .opened v.place (v.scopes.map Node.id) :: rest := by
  have hcurrent (hscope : σ.scope = v.scopes.current) : σ.scope ∈ v.scopes.map Node.id :=
    hscope ▸ OpenScopes.current_mem hscopes
  cases h with
  | functionName hrole hnode _ _ _ hscope =>
    split at hscope
    · exact .inl (hcurrent hscope)
    · exact .inr ⟨hscope, exists_events_eq_cons hrole (opensScope_of_isFunction hnode)⟩
  | singleParameter hrole hnode _ _ _ hscope =>
    exact .inr ⟨hscope, exists_events_eq_cons hrole (opensScope_of_isFunction hnode)⟩
  | typeName _ _ _ _ _ _ hscope => exact .inl (hcurrent hscope)
  | imported _ _ _ _ _ hscope => exact .inl (hscope ▸ OpenScopes.root_mem hscopes)
  | head hrole _ hnode _ _ _ hscope =>
    refine .inr ⟨hscope, exists_events_eq_cons hrole ?_⟩
    rcases hnode with ⟨hkind, -⟩ | ⟨hkind, -⟩ <;> exact opensScope_of_kind? hkind
  | parameter _ _ _ _ hscope => exact .inl (hcurrent hscope)
  | declarator hoisted _ _ _ _ hscope =>
    cases hoisted with
    | false => exact .inl (hcurrent hscope)
    | true => exact .inl (hscope ▸ OpenScopes.function_mem hscopes)

/-- What a visit declares is in order. -/
theorem inOrder_events (hscopes : v.scopes ≠ []) : InOrder (v.scopes.map Node.id) v.events := by
  by_cases hfirst : ∃ rest, v.events = .opened v.place (v.scopes.map Node.id) :: rest
  · obtain ⟨rest, hrest⟩ := hfirst
    rw [hrest]
    refine ⟨nofun, inOrder_of_forall fun σ spaces he => ?_⟩
    have hmem : .declared σ spaces ∈ v.events := hrest ▸ List.mem_cons_of_mem _ he
    rcases (declares_of_mem hmem).1.scope_mem hscopes with hscope | ⟨hscope, -⟩
    · exact List.mem_cons_of_mem _ hscope
    · exact hscope ▸ List.mem_cons_self
  · refine inOrder_of_forall fun σ spaces he => ?_
    rcases (declares_of_mem he).1.scope_mem hscopes with hscope | ⟨-, hopened⟩
    · exact hscope
    · exact absurd hopened hfirst

/-- The scopes open below a visit were open before or are opened by it. -/
theorem map_id_inner_subset :
    v.inner.map Node.id ⊆ v.events.flatMap opens ++ v.scopes.map Node.id := by
  rcases v.inner_cases with heq | ⟨-, -, hopened, heq⟩
  · exact heq ▸ List.subset_append_right _ _
  · rw [heq]
    refine List.cons_subset.2 ⟨List.mem_append_left _ ?_, List.subset_append_right _ _⟩
    exact List.mem_flatMap.2 ⟨_, hopened, List.mem_singleton_self _⟩

private theorem inner_ne_nil (hscopes : v.scopes ≠ []) : v.inner ≠ [] := by
  rcases v.inner_cases with heq | ⟨-, -, -, heq⟩
  · exact heq ▸ hscopes
  · exact heq ▸ List.cons_ne_nil _ _

end Visit

/-- The events of children are in order if those of each child are. -/
private theorem inOrder_ofChildren {known : List Nat} {role : Role} {n : Node} {scopes : OpenScopes}
    {above cs : List Node}
    (h : ∀ c ∈ cs, InOrder known (ofNode (roleOf role n c) scopes above c)) :
    InOrder known (ofChildren role n scopes above cs) := by
  induction cs with
  | nil => simp [ofChildren, InOrder]
  | cons c cs ih =>
    rw [ofChildren]
    refine (h c List.mem_cons_self).append ?_
    exact (ih fun d hd => h d (List.mem_cons_of_mem _ hd)).mono (List.subset_append_right _ _)

/-- All that is declared below a visit is in order. -/
theorem inOrder_ofNode (v : Visit) (hscopes : v.scopes ≠ []) :
    InOrder (v.scopes.map Node.id) (ofNode v.role v.scopes v.place.above v.place.node) := by
  rw [ofNode_eq]
  refine (Visit.inOrder_events hscopes).append (InOrder.mono ?_ Visit.map_id_inner_subset)
  exact inOrder_ofChildren fun c hc => inOrder_ofNode (v.child c) (Visit.inner_ne_nil hscopes)
termination_by sizeOf v.place.node
decreasing_by exact Node.sizeOf_lt_of_mem hc

/-- All that a module declares is in order. -/
theorem inOrder_ofModule (root : Node) : InOrder [] (ofModule root) := by
  have h := inOrder_ofNode (Visit.ofRoot root) (List.cons_ne_nil _ _)
  rw [ofNode_eq] at h
  exact ⟨nofun, h⟩

end Event

/-! ## Names in tables -/

private theorem Table.map_fst_subset_declare (t : Table) (s : Symbol) :
    t.map Prod.fst ⊆ (t.declare s).map Prod.fst := by
  intro name h
  rw [declare]
  split
  · obtain ⟨e, he, rfl⟩ := List.mem_map.1 h
    refine List.mem_map.2 ⟨_, List.mem_map_of_mem he, ?_⟩
    split <;> rfl
  · rw [List.map_append]
    exact List.mem_append_left _ h

private theorem Table.name_mem_declare (t : Table) (s : Symbol) :
    s.name ∈ (t.declare s).map Prod.fst := by
  rw [declare]
  split
  next h =>
    obtain ⟨e, he, hname⟩ := List.any_eq_true.1 h
    exact List.mem_map.2 ⟨(e.1, s), List.mem_map.2 ⟨e, he, if_pos hname⟩, eq_of_beq hname⟩
  · simp

namespace Scope

/-- A scope has an entry for a name. -/
def Has (s : Scope) (space : Namespace) (name : String) : Prop :=
  name ∈ (s.table space).map Prod.fst

variable {s : Scope} {symbol : Symbol} {space : Namespace} {name : String}

/-- A scope keeps its names when another one is declared. -/
theorem Has.declare (h : s.Has space name) (space' : Namespace) :
    (s.declare symbol space').Has space name := by
  cases space <;> cases space' <;>
    first | exact h | exact Table.map_fst_subset_declare _ _ h

private theorem Has.foldl_declare (h : s.Has space name) (spaces : List Namespace) :
    (spaces.foldl (fun s space => s.declare symbol space) s).Has space name := by
  induction spaces generalizing s with
  | nil => exact h
  | cons space' spaces ih => exact ih (h.declare space')

/-- A name that is declared is in the scope. -/
private theorem has_declare (s : Scope) (symbol : Symbol) (space : Namespace) :
    (s.declare symbol space).Has space symbol.name := by
  cases space <;> exact Table.name_mem_declare _ _

/-- A name that is declared in several namespaces is in each of them. -/
private theorem has_foldl_declare {spaces : List Namespace} (h : space ∈ spaces) :
    (spaces.foldl (fun s space => s.declare symbol space) s).Has space symbol.name := by
  induction spaces generalizing s with
  | nil => cases h
  | cons space' spaces ih =>
    rcases List.mem_cons.1 h with rfl | h
    · exact (has_declare s symbol space).foldl_declare spaces
    · exact ih h

/-- A scope has a name exactly if it can be looked up. -/
theorem has_iff : s.Has space name ↔ ((s.table space).lookup name).isSome = true := by
  rw [List.lookup_isSome_iff, Has, List.mem_map]
  refine exists_congr fun e => and_congr_right fun _ => ?_
  rw [beq_iff_eq]
  exact eq_comm

end Scope

namespace ScopeTree

variable {root : Node} {t : ScopeTree}

/-- The scope of a number has an entry for a name. -/
def HasAt (t : ScopeTree) (id : Nat) (space : Namespace) (name : String) : Prop :=
  ∃ s, t.scope? id = some s ∧ s.Has space name

/-- An event that declares a name changes the tables of one scope. -/
theorem scope?_record_declared (t : ScopeTree) (σ : Symbol) (spaces : List Namespace) (id : Nat) :
    (t.record (.declared σ spaces)).scope? id = (t.scope? id).map fun s =>
      if s.id == σ.scope then spaces.foldl (fun s space => s.declare σ space) s else s := by
  rw [scope?, record, List.find?_map, scope?]
  refine congrArg (Option.map _ <| List.find? · t.scopes) (funext fun s => ?_)
  rw [Function.comp_apply]
  split
  · rw [Scope.id, (Scope.foldl_declare_frame σ spaces s).1]
    rfl
  · rfl

/-- Scopes stay, with the names they have. -/
theorem exists_scope?_record {id : Nat} {s : Scope} (h : t.scope? id = some s) (e : Event) :
    ∃ s', (t.record e).scope? id = some s' ∧
      ∀ space name, s.Has space name → s'.Has space name := by
  cases e with
  | opened opener outer =>
    refine ⟨s, ?_, fun _ _ hname => hname⟩
    rw [scope?, record, List.find?_append]
    exact Option.or_eq_some_iff.2 (.inl h)
  | shared block scope => exact ⟨s, h, fun _ _ hname => hname⟩
  | declared σ spaces =>
    refine ⟨_, by rw [scope?_record_declared, h]; rfl, fun space name hname => ?_⟩
    beta_reduce
    split
    · exact hname.foldl_declare spaces
    · exact hname

/-- A tree keeps its names when more events are recorded. -/
private theorem HasAt.foldl_record {id : Nat} {space : Namespace} {name : String}
    (h : t.HasAt id space name) (es : List Event) : (es.foldl record t).HasAt id space name := by
  induction es generalizing t with
  | nil => exact h
  | cons e es ih =>
    obtain ⟨s, hs, hname⟩ := h
    obtain ⟨s', hs', hmono⟩ := exists_scope?_record hs e
    exact ih ⟨s', hs', hmono space name hname⟩

/-- What is declared in order has an entry at the end. -/
theorem hasAt_of_inOrder {known : List Nat} {es : List Event}
    (hknown : ∀ id ∈ known, (t.scope? id).isSome = true) (h : Event.InOrder known es) {σ : Symbol}
    {spaces : List Namespace} (hσ : .declared σ spaces ∈ es) {space : Namespace}
    (hspace : space ∈ spaces) : (es.foldl record t).HasAt σ.scope space σ.name := by
  induction es generalizing t known with
  | nil => cases hσ
  | cons e es ih =>
    rcases List.mem_cons.1 hσ with rfl | hσ
    · obtain ⟨s, hs⟩ := Option.isSome_iff_exists.1 (hknown _ (h.1 σ spaces rfl))
      refine HasAt.foldl_record ⟨_, by rw [scope?_record_declared, hs]; rfl, ?_⟩ es
      beta_reduce
      rw [if_pos (beq_iff_eq.2 (mem_of_scope? hs).2)]
      exact Scope.has_foldl_declare hspace
    · refine ih ?_ h.2 hσ
      intro id hid
      rcases List.mem_append.1 hid with hid | hid
      · cases e with
        | opened opener outer =>
          obtain rfl := List.mem_singleton.1 hid
          rw [scope?, record, List.find?_isSome]
          exact ⟨_, List.mem_append_right _ (List.mem_singleton_self _), beq_self_eq_true _⟩
        | shared | declared => cases hid
      · obtain ⟨s, hs⟩ := Option.isSome_iff_exists.1 (hknown id hid)
        obtain ⟨s', hs', -⟩ := exists_scope?_record hs e
        exact Option.isSome_iff_exists.2 ⟨s', hs'⟩

/-- Every declared name has an entry in its scope. -/
theorem hasAt_of_declared {σ : Symbol} {spaces : List Namespace}
    (h : .declared σ spaces ∈ Event.ofModule root) {space : Namespace} (hspace : space ∈ spaces) :
    (ofModule root).HasAt σ.scope space σ.name :=
  hasAt_of_inOrder (by simp) (Event.inOrder_ofModule root) h hspace

/-! ## The symbol at a place -/

/-- The symbol at a place is declared, and bound at a place of this number. -/
theorem of_declaredAt? {f : Focus} {σ : Symbol} (h : (ofModule root).declaredAt? f = some σ) :
    Event.DeclaredIn root σ ∧ σ.binding.id = f.id := by
  obtain ⟨l₁, l₂, heq, -⟩ := List.lookup_eq_some_iff.1 h
  have hmem : (f.id, σ) ∈ (ofModule root).symbols := by simp [heq]
  rw [symbols_ofModule] at hmem
  obtain ⟨e, he, heq⟩ := List.mem_filterMap.1 hmem
  cases e with
  | declared τ spaces =>
    obtain ⟨hid, rfl⟩ := Prod.mk.inj (Option.some.inj heq)
    exact ⟨⟨spaces, he⟩, hid⟩
  | opened | shared => cases heq

/-- What a name at a place declares or refers to is declared by the module. -/
theorem declaredIn_of_resolve {f : Focus} {σ : Symbol} (h : (ofModule root).resolve f = some σ) :
    Event.DeclaredIn root σ := by
  rw [resolve] at h
  split at h
  next found =>
    obtain rfl := Option.some.inj h
    exact (of_declaredAt? found).1
  next => exact (exists_of_lookup h).2.1

/-- Where a symbol is bound, there is one. -/
theorem exists_declaredAt? {σ : Symbol} (h : Event.DeclaredIn root σ) :
    ∃ τ, (ofModule root).declaredAt? σ.binding = some τ := by
  obtain ⟨spaces, h⟩ := h
  have hmem : (σ.binding.id, σ) ∈ (ofModule root).symbols := by
    rw [symbols_ofModule]
    exact List.mem_filterMap.2 ⟨_, h, rfl⟩
  exact Option.isSome_iff_exists.1 (List.lookup_isSome_iff.2 ⟨_, hmem, beq_self_eq_true _⟩)

end ScopeTree

namespace Event.Visit

variable {root : Node} {v w : Visit} {σ : Symbol} {n : Focus}

/-- The visit of a place, from the outside in. -/
def ofPlace (root : Node) (f : Focus) : Visit := go f.node f.above
where
  /-- The visit of a node below others. -/
  go (n : Node) : List Node → Visit
    | [] => ofRoot root
    | p :: ps => (go p ps).child n

private theorem ofPlace_down (root : Node) (f : Focus) (c : Node) :
    ofPlace root (f.down c) = (ofPlace root f).child c := rfl

/-- The visit of a place is at that place. -/
theorem place_ofPlace {f : Focus} (hf : f.IsIn root) : (ofPlace root f).place = f := by
  induction hf with
  | root => rfl
  | down _ _ ih => rw [ofPlace_down, child, ih]

/-- The root leads to the visit of each place. -/
theorem leads_ofPlace {f : Focus} (hf : f.IsIn root) : (ofRoot root).Leads (ofPlace root f) := by
  induction hf with
  | root => exact .refl
  | down hf hc ih => exact ih.child (by rwa [place_ofPlace hf])

/-- The names at a place can be declared by this visit only: the place is that of a parameter, or
stands in a part that is ignored. -/
def Keeps (v : Visit) (n : Focus) : Prop :=
  n = v.place ∧ v.role = .parameter ∨
    ∃ c ∈ v.place.node.children, n ∈ (v.place.down c).walk ∧ (v.child c).role = .ignored

/-- Names that a visit keeps are declared by no other one. -/
theorem Keeps.eq_of_declares (h : v.Keeps n) (hv : (ofRoot root).Leads v)
    (hrole : v.role ≠ .ignored) (hw : (ofRoot root).Leads w) (hσ : w.Declares σ)
    (hbinding : σ.binding = n) : w = v := by
  refine eq_of_place_eq hw hv ?_
  have hvn : v.place ∈ n.outward := by
    rcases h with ⟨rfl, -⟩ | ⟨c, hc, hn, -⟩
    · exact Focus.mem_outward_self _
    · exact Focus.mem_outward_trans (Focus.mem_outward_of_mem_walk hn)
        (List.mem_cons_of_mem _ (Focus.mem_outward_self _))
  have hwn : w.place ∈ n.outward := hbinding ▸ Focus.mem_outward_of_mem_walk hσ.binding_mem
  rcases Focus.outward_linear hvn hwn with hmem | hmem
  · -- The visit that declares the name lies around, and the way in leads through one of its parts.
    rcases (isIn hv).eq_or_child_mem_outward hmem with heq | ⟨d, hd, hdmem⟩
    · exact heq.symm
    rcases hσ.part with ⟨heq, -⟩ | ⟨c, hc, hcmem, hpart⟩
    · rw [hbinding] at heq
      exact Focus.mem_outward_antisymm hmem (heq ▸ hvn)
    have hcn : w.place.down c ∈ n.outward := hbinding ▸ Focus.mem_outward_of_mem_walk hcmem
    obtain rfl := Focus.child_eq_of_mem_outward hcn (Focus.mem_outward_trans hvn hdmem)
    rcases hpart with hignored | ⟨hplain, heq⟩
    · exact absurd (ignored_of_mem_outward hv (hw.child hc) hignored hdmem) hrole
    · -- The part is the name itself, and the visit that keeps it.
      rw [hbinding] at heq
      have hvc : v.place ∈ (w.child c).place.outward := by
        rw [heq] at hvn
        exact hvn
      obtain rfl := eq_of_place_eq hv (hw.child hc) (Focus.mem_outward_antisymm hvc hdmem)
      rcases h with ⟨-, hparameter⟩ | ⟨e, he, hen, -⟩
      · rw [hplain] at hparameter
        cases hparameter
      · have hinside : (w.child c).place.down e ∈ (w.child c).place.outward := by
          rw [heq] at hen
          exact Focus.mem_outward_of_mem_walk hen
        exact absurd (List.mem_cons_self : _ ∈ Focus.ofAbove ((w.child c).place.down e).above)
          (Focus.not_mem_ofAbove_of_mem_outward hinside)
  · rcases (isIn hw).eq_or_child_mem_outward hmem with heq | ⟨d, hd, hdmem⟩
    · exact heq
    rcases h with ⟨rfl, -⟩ | ⟨c, hc, hn, hignored⟩
    · exact Focus.mem_outward_antisymm hwn hmem |>.symm ▸ rfl
    · have hcd := Focus.child_eq_of_mem_outward (Focus.mem_outward_of_mem_walk hn)
        (Focus.mem_outward_trans hwn hdmem)
      subst hcd
      exact absurd (ignored_of_mem_outward hw (hv.child hc) hignored hdmem) hσ.role_ne_ignored

/-- A node that is kept stands below the place that is visited. -/
theorem Keeps.mem_walk (h : v.Keeps n) : n ∈ v.place.walk := by
  rcases h with ⟨rfl, -⟩ | ⟨c, hc, hn, -⟩
  · exact Focus.mem_walk_self _
  · exact Focus.mem_walk_trans hn (Focus.down_mem_walk (Focus.mem_walk_self _) hc)

/-- The symbol at a place that a visit keeps is declared by this visit. -/
theorem Keeps.of_declaredAt? (h : v.Keeps n) (hroot : root.WellFormed) (hv : (ofRoot root).Leads v)
    (hrole : v.role ≠ .ignored) (hσ : (ScopeTree.ofModule root).declaredAt? n = some σ) :
    σ.binding = n ∧ ∃ spaces, .declared σ spaces ∈ v.events := by
  obtain ⟨hdeclared, hid⟩ := ScopeTree.of_declaredAt? hσ
  have hbinding := hdeclared.binding_isIn.eq_of_id_eq hroot
    (Focus.isIn_of_mem_walk (isIn hv) h.mem_walk) hid
  obtain ⟨spaces, hmem⟩ := hdeclared
  rcases mem_ofModule_iff.1 hmem with heq | ⟨w, hw, hevent⟩
  · cases heq
  · obtain rfl := h.eq_of_declares hv hrole hw (declares_of_mem hevent).1 hbinding
    exact ⟨hbinding, spaces, hevent⟩

/-- A visit that declares what a pattern binds declares it in full, except behind dots that a
comment follows. -/
theorem Keeps.declaredAt?_of_pattern (h : v.Keeps n) (hroot : root.WellFormed)
    (hv : (ofRoot root).Leads v) (hrole : v.role ≠ .ignored) {p declaration : Focus} {scope : Nat}
    {kind : BindingKind}
    (hevents : v.events = p.bindings.map (declare scope kind declaration [.value]))
    (hn : p.Binds n) :
    (p.Hides n → (ScopeTree.ofModule root).declaredAt? n = none) ∧
      (¬p.Hides n →
        (∃ path, (ScopeTree.ofModule root).declaredAt? n =
          some ⟨n.node.text, kind, n, declaration, scope, path⟩) ∧
        (ScopeTree.ofModule root).HasAt scope .value n.node.text) := by
  have hsymbol {σ : Symbol} (hσ : (ScopeTree.ofModule root).declaredAt? n = some σ) :
      ∃ b ∈ p.bindings, b.place = n ∧ σ = ⟨n.node.text, kind, n, declaration, scope, b.path⟩ := by
    obtain ⟨hbinding, spaces, hevent⟩ := h.of_declaredAt? hroot hv hrole hσ
    rw [hevents] at hevent
    obtain ⟨b, hb, heq⟩ := List.mem_map.1 hevent
    obtain rfl := declare_eq heq
    obtain rfl : b.place = n := hbinding
    exact ⟨b, hb, rfl, rfl⟩
  constructor
  · intro hhides
    by_contra hsome
    obtain ⟨σ, hσ⟩ := Option.ne_none_iff_exists'.1 hsome
    obtain ⟨b, hb, hplace, -⟩ := hsymbol hσ
    exact (Focus.mem_places_iff.1 ⟨b, hb, hplace⟩).2 hhides
  · intro hhides
    obtain ⟨b, hb, rfl⟩ := Focus.mem_places_iff.2 ⟨hn, hhides⟩
    have hmem : declare scope kind declaration [.value] b ∈ ofModule root := by
      refine mem_ofModule_iff.2 (.inr ⟨v, hv, ?_⟩)
      rw [hevents]
      exact List.mem_map_of_mem hb
    obtain ⟨σ, hσ⟩ := ScopeTree.exists_declaredAt? ⟨_, hmem⟩
    obtain ⟨b', -, -, rfl⟩ := hsymbol hσ
    exact ⟨⟨b'.path, hσ⟩, ScopeTree.hasAt_of_declared hmem (List.mem_singleton_self _)⟩

end Event.Visit

end StableProps
