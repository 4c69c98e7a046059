import StableProps.Proofs.Scope.Resolution

/-!
# Chains of scopes follow the tree

The scopes around a place are those that are open when the visit reaches it. Hence the scopes of
a place inside an expression are some that the expression opens itself, followed by those around the
expression. A scope holds the names it declares, so a name of the expression that is bound outside
of it is looked up around the expression, wherever in the expression it stands.
-/

namespace StableProps

namespace Event.Visit

variable {root : Node} {v w : Visit}

/-! ## Visits of places -/

/-- Every place below a visited one is visited from there. -/
theorem exists_leads_of_mem_walk {f : Focus} (h : f ∈ v.place.walk) :
    ∃ w, v.Leads w ∧ w.place = f := by
  refine Focus.walkFrom_induction (P := fun f => ∃ w, v.Leads w ∧ w.place = f) ?_ _ _
    ⟨v, .refl, rfl⟩ h
  rintro p c ⟨w, hw, rfl⟩ hc
  exact ⟨w.child c, hw.child hc, rfl⟩

theorem exists_leads_of_isIn {f : Focus} (h : f.IsIn root) :
    ∃ v, (ofRoot root).Leads v ∧ v.place = f :=
  exists_leads_of_mem_walk (v := ofRoot root) (Focus.mem_walk_iff.2 h)

/-- The visit of a place with a given number. -/
theorem eq_of_id_eq (hroot : root.WellFormed) (hv : (ofRoot root).Leads v)
    (hw : (ofRoot root).Leads w) (h : v.place.id = w.place.id) : v = w :=
  eq_of_place_eq hv hw ((isIn hv).eq_of_id_eq hroot (isIn hw) h)

/-- A visit leads to all visits inside its place. -/
theorem leads_of_mem_outward (hv : (ofRoot root).Leads v) (hw : (ofRoot root).Leads w)
    (h : v.place ∈ w.place.outward) : v.Leads w := by
  induction hw with
  | refl =>
    rw [eq_of_place_eq hv .refl (List.mem_singleton.1 h)]
    exact .refl
  | child hw hc ih =>
    rcases List.mem_cons.1 h with heq | h
    · rw [eq_of_place_eq hv (hw.child hc) heq]
      exact .refl
    · exact (ih h).child hc

/-- Going down leads inside. -/
theorem place_mem_outward (h : v.Leads w) : v.place ∈ w.place.outward := by
  induction h with
  | refl => exact Focus.mem_outward_self _
  | child _ _ ih => exact List.mem_cons_of_mem _ ih

/-! ## Scopes on the way -/

/-- The block of a function opens no scope. -/
theorem inner_of_functionBlock (h : v.role = .functionBlock) : v.inner = v.scopes := by
  obtain ⟨role, scopes, f⟩ := v
  obtain rfl : role = .functionBlock := h
  rfl

/-- Open scopes of which each was opened inside the next ones. -/
inductive Nested (root : Node) : OpenScopes → Prop where
  | root : Nested root [root]
  | opened {g : Focus} {scopes : OpenScopes} : Nested root scopes →
      .opened g (scopes.map Node.id) ∈ ofModule root → Nested root (g.node :: scopes)

theorem nested_inner (h : (ofRoot root).Leads v) : Nested root v.inner := by
  induction h with
  | refl => exact .root
  | @child w c hw hc ih =>
    rcases (w.child c).inner_cases with heq | ⟨-, -, hevent, heq⟩
    · rw [heq]
      exact ih
    · rw [heq]
      exact .opened ih (mem_ofModule_iff.2 (.inr ⟨_, hw.child hc, hevent⟩))

/-- Below a visit the scopes open there stay open, and more are opened only on the way down. -/
theorem exists_inner_eq_inner (h : v.Leads w) :
    ∃ l, w.inner = l ++ v.inner ∧
      ∀ n ∈ l, ∃ g ∈ w.place.outward, v.place ∈ Focus.ofAbove g.above ∧ g.node = n := by
  induction h with
  | refl => exact ⟨[], rfl, by simp⟩
  | @child u c hu hc ih =>
    obtain ⟨l, hl, hopen⟩ := ih
    have hmono : ∀ n ∈ l, ∃ g ∈ (u.child c).place.outward,
        v.place ∈ Focus.ofAbove g.above ∧ g.node = n := by
      intro n hn
      obtain ⟨g, hg, hinside⟩ := hopen n hn
      exact ⟨g, List.mem_cons_of_mem _ hg, hinside⟩
    rcases (u.child c).inner_cases with heq | ⟨-, -, -, heq⟩
    · exact ⟨l, heq.trans hl, hmono⟩
    · refine ⟨c :: l, heq.trans (congrArg (c :: ·) hl), ?_⟩
      intro n hn
      rcases List.mem_cons.1 hn with rfl | hn
      · exact ⟨(u.child n).place, Focus.mem_outward_self _, place_mem_outward hu, rfl⟩
      · exact hmono n hn

/-- Strictly inside a visited place the scopes open below it are still open. -/
theorem exists_scopes_eq_append (hu : (ofRoot root).Leads v) (hv : (ofRoot root).Leads w)
    (hinside : v.place ∈ Focus.ofAbove w.place.above) :
    ∃ l, w.scopes = l ++ v.inner ∧
      ∀ n ∈ l, ∃ g ∈ w.place.outward, v.place ∈ Focus.ofAbove g.above ∧ g.node = n := by
  rcases eq_ofRoot_or_child hv with rfl | ⟨u, c, hu', -, rfl⟩
  · simp [ofRoot, Node.focus, Focus.ofAbove] at hinside
  · obtain ⟨l, hl, hopen⟩ := exists_inner_eq_inner (leads_of_mem_outward hu hu' hinside)
    refine ⟨l, hl, ?_⟩
    intro n hn
    obtain ⟨g, hg, hstrict⟩ := hopen n hn
    exact ⟨g, List.mem_cons_of_mem _ hg, hstrict⟩

/-- The scopes below a visit are some that were opened since, and those open before. -/
theorem exists_inner_eq_append (h : v.Leads w) :
    ∃ l, w.inner = l ++ v.scopes ∧
      ∀ n ∈ l, ∃ g ∈ w.place.outward, v.place ∈ g.outward ∧ g.node = n := by
  obtain ⟨l, hl, hopen⟩ := exists_inner_eq_inner h
  have hwithin : ∀ n ∈ l, ∃ g ∈ w.place.outward, v.place ∈ g.outward ∧ g.node = n := by
    intro n hn
    obtain ⟨g, hg, hinside, heq⟩ := hopen n hn
    exact ⟨g, hg, List.mem_cons_of_mem _ hinside, heq⟩
  rcases v.inner_cases with heq | ⟨-, -, -, heq⟩
  · exact ⟨l, by rw [hl, heq], hwithin⟩
  · refine ⟨l ++ [v.place.node], by rw [hl, heq]; simp, ?_⟩
    intro n hn
    rcases List.mem_append.1 hn with hn | hn
    · exact hwithin n hn
    · exact ⟨v.place, place_mem_outward h, Focus.mem_outward_self _, (List.mem_singleton.1 hn).symm⟩

end Event.Visit

namespace ScopeTree

open Event (Visit)

variable {root : Node} {v : Visit}

/-! ## The scopes of a place -/

/-- A place opens one scope at most. -/
theorem outer_eq_of_opened {g : Focus} {outer outer' : List Nat}
    (h : .opened g outer ∈ Event.ofModule root) (h' : .opened g outer' ∈ Event.ofModule root) :
    outer = outer' := by
  rcases opened_cases h with ⟨rfl, rfl⟩ | ⟨v, hv, hrole, rfl, rfl⟩
  · rcases opened_cases h' with ⟨-, rfl⟩ | ⟨w, hw, hrole, hplace, -⟩
    · rfl
    · exact absurd (congrArg Focus.above hplace).symm
        (Event.DeclaredIn.above_ne_nil_of_role hw hrole)
  · rcases opened_cases h' with ⟨hplace, -⟩ | ⟨w, hw, -, hplace, rfl⟩
    · exact absurd (congrArg Focus.above hplace) (Event.DeclaredIn.above_ne_nil_of_role hv hrole)
    · rw [Visit.eq_of_place_eq hv hw hplace]

theorem opener_isIn {s : Scope} (h : s ∈ (ofModule root).scopes) : s.opener.IsIn root := by
  rcases opened_cases (opened_of_mem_scopes h) with ⟨heq, -⟩ | ⟨v, hv, -, heq, -⟩
  · exact heq ▸ .root
  · exact heq ▸ Visit.isIn hv

/-- The scope that a place opens is found by the number of the place. -/
theorem exists_scope?_eq (hroot : root.WellFormed) {g : Focus} {outer : List Nat}
    (h : .opened g outer ∈ Event.ofModule root) :
    ∃ s, (ofModule root).scope? g.id = some s ∧ s.opener = g ∧ s.outer = outer := by
  obtain ⟨s, hs⟩ := exists_scope?_of_opened h
  obtain ⟨hmem, hid⟩ := mem_of_scope? hs
  obtain ⟨t, ht, rfl, rfl⟩ := exists_scope_of_opened h
  have hopener : s.opener = t.opener :=
    (opener_isIn hmem).eq_of_id_eq hroot (opener_isIn ht) hid
  have hopened := opened_of_mem_scopes hmem
  rw [hopener] at hopened
  exact ⟨s, hs, hopener, outer_eq_of_opened hopened (opened_of_mem_scopes ht)⟩

/-- The scopes of open ones. -/
def ofOpen (t : ScopeTree) (scopes : OpenScopes) : List Scope :=
  scopes.filterMap fun n => t.scope? n.id

/-- The chain of the innermost of nested scopes is the list of them all. -/
theorem chain_of_nested (hroot : root.WellFormed) {scopes : OpenScopes}
    (h : Visit.Nested root scopes) :
    ∃ s, (ofModule root).scope? scopes.current = some s ∧
      (ofModule root).chain s = (ofModule root).ofOpen scopes := by
  have hfilter (scopes : OpenScopes) :
      (scopes.map Node.id).filterMap (ofModule root).scope? = (ofModule root).ofOpen scopes := by
    rw [List.filterMap_map]
    rfl
  cases h with
  | root =>
    obtain ⟨r, -, -, houter, hfound⟩ := exists_rootScope root
    exact ⟨r, hfound, by simp [chain, houter, ofOpen, hfound]⟩
  | @opened g scopes _ hopened =>
    obtain ⟨s, hs, -, houter⟩ := exists_scope?_eq hroot hopened
    refine ⟨s, hs, ?_⟩
    have hhead : (ofModule root).scope? g.node.id = some s := hs
    rw [chain, houter, hfilter, ofOpen, ofOpen, List.filterMap_cons, hhead]

/-- A node that has a scope is visited, and the scope is the innermost one open below it. -/
theorem eq_current_of_mem_homes (hroot : root.WellFormed) (hv : (Visit.ofRoot root).Leads v)
    {id : Nat} (h : (v.place.id, id) ∈ (ofModule root).homes) : id = v.inner.current := by
  rw [homes_ofModule] at h
  obtain ⟨e, he, heq⟩ := List.mem_filterMap.1 h
  rcases Event.mem_ofModule_iff.1 he with rfl | ⟨w, hw, hevent⟩
  · obtain ⟨hid, rfl⟩ := Prod.mk.inj (Option.some.inj heq)
    obtain rfl := Visit.eq_of_id_eq hroot .refl hv hid
    rfl
  · cases e with
    | opened opener outer =>
      obtain ⟨hid, rfl⟩ := Prod.mk.inj (Option.some.inj heq)
      obtain ⟨-, rfl, -⟩ := Visit.of_opened_mem hevent
      obtain rfl := Visit.eq_of_id_eq hroot hw hv hid
      rw [Visit.inner_of_opened_mem hevent]
      rfl
    | shared block scope =>
      obtain ⟨hid, rfl⟩ := Prod.mk.inj (Option.some.inj heq)
      obtain ⟨hrole, hblock, hscope⟩ := Visit.of_shared_mem hevent
      obtain rfl := Visit.eq_of_id_eq hroot hw hv (hblock.symm.trans hid)
      rw [Visit.inner_of_functionBlock hrole]
      exact hscope
    | declared symbol spaces => cases heq

/-- A visit that opens a scope gives its place a home. -/
theorem exists_mem_homes_of_inner_ne (hv : (Visit.ofRoot root).Leads v)
    (h : v.inner ≠ v.scopes) : ∃ id, (v.place.id, id) ∈ (ofModule root).homes := by
  rcases v.inner_cases with heq | ⟨-, -, hevent, -⟩
  · exact absurd heq h
  · refine ⟨v.place.id, ?_⟩
    rw [homes_ofModule]
    exact List.mem_filterMap.2 ⟨_, Event.mem_ofModule_iff.2 (.inr ⟨v, hv, hevent⟩), rfl⟩

/-- A visited place belongs to the innermost scope that is open below it. -/
theorem scopeFor?_place (hroot : root.WellFormed) (hv : (Visit.ofRoot root).Leads v) :
    (ofModule root).scopeFor? v.place = (ofModule root).scope? v.inner.current := by
  induction hv with
  | refl =>
    have hlookup : (ofModule root).homes.lookup root.id = some root.id := by
      rw [homes_ofModule, Event.ofModule, List.filterMap_cons]
      exact List.lookup_cons_self
    simp [scopeFor?, Focus.outward, Visit.ofRoot, Node.focus, Focus.ofAbove, Focus.id, hlookup,
      Visit.inner, Event.enter, OpenScopes.current]
  | @child u c hu hc ih =>
    cases hlookup : (ofModule root).homes.lookup (u.child c).place.id with
    | some id =>
      obtain ⟨l₁, l₂, heq, -⟩ := List.lookup_eq_some_iff.1 hlookup
      have hmem : ((u.child c).place.id, id) ∈ (ofModule root).homes := by simp [heq]
      have hid := eq_current_of_mem_homes hroot (hu.child hc) hmem
      simp [scopeFor?, Focus.outward, hlookup, hid]
    | none =>
      -- Without a home of its own the place belongs where its parent does.
      have hinner : (u.child c).inner = (u.child c).scopes := by
        by_contra hne
        obtain ⟨id, hid⟩ := exists_mem_homes_of_inner_ne (hu.child hc) hne
        have hnone := List.lookup_eq_none_iff.1 hlookup _ hid
        simp at hnone
      have hparent : (ofModule root).scopeFor? (u.child c).place =
          (ofModule root).scopeFor? u.place := by
        rw [scopeFor?, scopeFor?, Focus.outward, List.findSome?_cons, hlookup]
        rfl
      rw [hparent, ih, hinner]
      rfl

/-- The scopes around a visited place are those open below it, innermost first. -/
theorem chainFor_place (hroot : root.WellFormed) (hv : (Visit.ofRoot root).Leads v) :
    (ofModule root).chainFor v.place = (ofModule root).ofOpen v.inner := by
  obtain ⟨s, hs, hchain⟩ := chain_of_nested hroot (Visit.nested_inner hv)
  rw [chainFor, scopeFor?_place hroot hv, hs]
  exact hchain

/-- The scopes around a place are opened by places around it. -/
theorem opener_mem_outward (hroot : root.WellFormed) {f : Focus} (hf : f.IsIn root) {s : Scope}
    (h : s ∈ (ofModule root).chainFor f) : s.opener ∈ f.outward := by
  obtain ⟨v, hv, rfl⟩ := Visit.exists_leads_of_isIn hf
  rw [chainFor_place hroot hv] at h
  obtain ⟨n, hn, hs⟩ := List.mem_filterMap.1 h
  obtain ⟨hmem, hid⟩ := mem_of_scope? hs
  obtain ⟨l, hl, hopen⟩ := Visit.exists_inner_eq hv
  rw [hl] at hn
  rcases List.mem_append.1 hn with hn | hn
  · obtain ⟨g, hg, rfl⟩ := hopen n hn
    rw [(opener_isIn hmem).eq_of_id_eq hroot (hf.of_mem_outward hg.around) hid]
    exact hg.around
  · obtain rfl := List.mem_singleton.1 hn
    rw [(opener_isIn hmem).eq_of_id_eq hroot .root hid]
    exact hf.root_mem_outward

end ScopeTree

/-! ## Names and the scopes that hold them -/

namespace Event

variable {root : Node}

/-- Among open scopes the nearest of a function is one of them. -/
theorem exists_function_eq {l : List Node} {n : Node} :
    ∃ m ∈ l ++ [n], OpenScopes.function (l ++ [n]) = m.id := by
  rcases Visit.function_cases l n with heq | ⟨m, hm, -, heq⟩
  · exact ⟨n, by simp, heq⟩
  · exact ⟨m, List.mem_append_left _ hm, heq⟩

/-- A symbol has the name that stands where it is bound. -/
theorem DeclaredIn.name_eq {σ : Symbol} (h : DeclaredIn root σ) :
    σ.name = σ.binding.node.text := by
  obtain ⟨spaces, h⟩ := h
  rcases mem_ofModule_iff.1 h with h | ⟨v, -, h⟩
  · cases h
  · exact (Visit.declares_of_mem h).2

/-- The scope of a name is opened by the visited place that declares the name, or around it. -/
theorem Visit.Declares.exists_opener {v : Visit} (hv : (Visit.ofRoot root).Leads v) {σ : Symbol}
    (hσ : v.Declares σ) : ∃ g ∈ v.place.outward, g.IsIn root ∧ σ.scope = g.id := by
  have haround {g : Focus} (hg : g ∈ v.place.outward) (hscope : σ.scope = g.id) :
      ∃ g ∈ v.place.outward, g.IsIn root ∧ σ.scope = g.id :=
    ⟨g, hg, (Visit.isIn hv).of_mem_outward hg, hscope⟩
  have hcurrent (hscope : σ.scope = v.scopes.current) :
      ∃ g ∈ v.place.outward, g.IsIn root ∧ σ.scope = g.id := by
    rcases Visit.current_cases hv with heq | ⟨g, hg, heq, -⟩
    · exact haround (Visit.isIn hv).root_mem_outward (hscope.trans heq)
    · exact haround hg.around (hscope.trans heq)
  cases hσ with
  | functionName _ _ _ _ _ hscope =>
    split at hscope
    · exact hcurrent hscope
    · exact haround (Focus.mem_outward_self _) hscope
  | singleParameter _ _ _ _ _ hscope => exact haround (Focus.mem_outward_self _) hscope
  | typeName _ _ _ _ _ _ hscope => exact hcurrent hscope
  | imported _ _ _ _ _ hscope =>
    exact haround (Visit.isIn hv).root_mem_outward (hscope.trans (Visit.root_scopes hv))
  | head _ _ _ _ _ _ hscope => exact haround (Focus.mem_outward_self _) hscope
  | parameter _ _ _ _ hscope => exact hcurrent hscope
  | declarator hoisted _ _ _ _ hscope =>
    cases hoisted with
    | false => exact hcurrent hscope
    | true =>
      obtain ⟨l, hl, hopen⟩ := Visit.exists_scopes_eq hv
      rw [if_pos rfl, hl] at hscope
      obtain ⟨m, hm, heq⟩ := exists_function_eq (l := l) (n := root)
      rcases List.mem_append.1 hm with hm | hm
      · obtain ⟨g, hg, rfl, -⟩ := hopen m hm
        exact haround hg.around (hscope.trans heq)
      · obtain rfl := List.mem_singleton.1 hm
        exact haround (Visit.isIn hv).root_mem_outward (hscope.trans heq)

/-- The scope of a name is opened by a place around the name. -/
theorem DeclaredIn.exists_opener {σ : Symbol} (h : DeclaredIn root σ) :
    ∃ g ∈ σ.binding.outward, g.IsIn root ∧ σ.scope = g.id := by
  obtain ⟨v, hv, hσ⟩ := h.exists_visit
  obtain ⟨g, hg, hgin, hscope⟩ := hσ.exists_opener hv
  have hplace : v.place ∈ σ.binding.outward := Focus.mem_outward_of_mem_walk hσ.binding_mem
  exact ⟨g, Focus.mem_outward_trans hplace hg, hgin, hscope⟩

end Event

namespace ScopeTree

open Event (Visit)

variable {root : Node}

/-- The first of some scopes that declares a name, with the symbol it declares. -/
def lookupIn (scopes : List Scope) (name : String) : Option Symbol :=
  scopes.findSome? fun s => s.values.lookup name

/-- A name inside an expression that is bound outside of it is found in the scopes around the
expression, wherever in it the name stands. -/
theorem lookupIn_of_lookup (hroot : root.WellFormed) {v : Visit} (hv : (Visit.ofRoot root).Leads v)
    {f : Focus} (hf : f ∈ v.place.walk) {name : String} {σ : Symbol}
    (h : (ofModule root).lookup f name .value = some σ)
    (houter : σ.binding.isWithin v.place = false) :
    lookupIn ((ofModule root).ofOpen v.scopes) name = some σ := by
  obtain ⟨w, hw, rfl⟩ := Visit.exists_leads_of_mem_walk hf
  have hwin := Visit.isIn (hv.trans hw)
  obtain ⟨l, hl, hinside⟩ := Visit.exists_inner_eq_append hw
  have hlookup : lookupIn ((ofModule root).ofOpen l ++ (ofModule root).ofOpen v.scopes) name =
      some σ := by
    rw [ofOpen, ofOpen, ← List.filterMap_append, ← hl]
    change lookupIn ((ofModule root).ofOpen w.inner) name = some σ
    rw [← chainFor_place hroot (hv.trans hw)]
    exact h
  rw [lookupIn, List.findSome?_append, Option.or_eq_some_iff] at hlookup
  rcases hlookup with hlocal | ⟨-, houtside⟩
  · -- A scope that the expression opens would hold the name.
    obtain ⟨s, hs, hfound⟩ := List.exists_of_findSome?_eq_some hlocal
    obtain ⟨n, hn, hs⟩ := List.mem_filterMap.1 hs
    obtain ⟨hmem, hid⟩ := mem_of_scope? hs
    obtain ⟨g, hgw, hg, rfl⟩ := hinside n hn
    have hgin := hwin.of_mem_outward hgw
    obtain ⟨-, hscope, spaces, hdeclared, -⟩ :=
      sound_ofModule root s hmem .value _ (mem_of_lookup hfound)
    have hσ : Event.DeclaredIn root σ := ⟨spaces, hdeclared⟩
    obtain ⟨g', hg', hgin', hscope'⟩ := hσ.exists_opener
    obtain rfl := hgin'.eq_of_id_eq hroot hgin (hscope'.symm.trans (hscope.trans hid))
    have hwithin : v.place ∈ σ.binding.outward := Focus.mem_outward_trans hg' hg
    rw [(hσ.binding_isIn.isWithin_iff hroot (Visit.isIn hv)).2 hwithin] at houter
    cases houter
  · exact houtside

/-- A name found around a place is visible from another place around it, unless the scope of the
name is opened in between. -/
theorem opened_between_or_lookup (hroot : root.WellFormed) {u v : Visit}
    (hu : (Visit.ofRoot root).Leads u) (hv : (Visit.ofRoot root).Leads v)
    (hinside : u.place ∈ Focus.ofAbove v.place.above) {name : String} {σ : Symbol}
    (h : lookupIn ((ofModule root).ofOpen v.scopes) name = some σ) :
    (∃ g ∈ v.place.outward, u.place ∈ Focus.ofAbove g.above ∧ σ.scope = g.id) ∨
      (ofModule root).lookup u.place name .value = some σ := by
  obtain ⟨l, hl, hopen⟩ := Visit.exists_scopes_eq_append hu hv hinside
  have hsplit : lookupIn ((ofModule root).ofOpen l ++ (ofModule root).chainFor u.place) name =
      some σ := by
    rw [chainFor_place hroot hu, ofOpen, ofOpen, ← List.filterMap_append, ← hl]
    exact h
  rw [lookupIn, List.findSome?_append, Option.or_eq_some_iff] at hsplit
  rcases hsplit with hbetween | ⟨-, hlookup⟩
  · obtain ⟨s, hs, hfound⟩ := List.exists_of_findSome?_eq_some hbetween
    obtain ⟨n, hn, hs⟩ := List.mem_filterMap.1 hs
    obtain ⟨hmem, hid⟩ := mem_of_scope? hs
    obtain ⟨-, hscope, -⟩ := sound_ofModule root s hmem .value _ (mem_of_lookup hfound)
    obtain ⟨g, hg, hinside, rfl⟩ := hopen n hn
    exact .inl ⟨g, hg, hinside, hscope.trans hid⟩
  · exact .inr hlookup

end ScopeTree

end StableProps
