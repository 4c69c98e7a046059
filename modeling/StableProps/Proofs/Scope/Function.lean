import StableProps.Proofs.Scope.Chain

/-!
# Names of a function

Functions stand only where they are visited for their own sake, and none of them between a pattern
and its names. Hence a parameter belongs to the scope of the function that declares it, and
whatever else is declared inside a function belongs to a scope that is opened there, that of the
function at the outermost. Imports apart, which always belong to the module.
-/

namespace StableProps

/-! ## Roles -/

namespace Event

/-- How a child comes to its role. -/
inductive Given (role : Role) (n c : Node) : Role → Prop where
  | plain : Given role n c .plain
  | ignored : Given role n c .ignored
  | parameterList (parent : role = .plain) (function : n.isFunction = true)
      (field : c.field = some .parameters) : Given role n c .parameterList
  | parameter (parent : role = .parameterList) : Given role n c .parameter
  | functionBlock (block : c.is .statementBlock = true) : Given role n c .functionBlock
  | transparent (clause : n.is .catchClause = true) (field : c.field = some .body) :
      Given role n c .transparent
  | declarator (hoisted : Bool) (declarator : c.is .variableDeclarator = true) :
      Given role n c (.declarator hoisted)

private theorem given_functionPart {n c : Node} (h : n.isFunction = true) :
    Given .plain n c (functionPart c) := by
  rw [functionPart]
  split
  next hfield => exact .parameterList rfl h hfield
  next =>
    split
    · split
      next hblock => exact .functionBlock hblock
      next => exact .plain
    · exact .ignored

private theorem given_plainPart (n c : Node) : Given .plain n c (plainPart n c) := by
  rw [plainPart]
  split
  next h => exact given_functionPart h
  next =>
    split
    · split
      next h => exact .declarator _ h
      next => exact .ignored
    · split
      next h => exact .declarator _ h
      next => exact .ignored
    · exact .ignored
    · exact .ignored
    · exact .ignored
    · exact .ignored
    · split
      · exact .plain
      · exact .ignored
    next hkind =>
      split
      next hfield => exact .transparent (by simp [Node.is, kind?_eq_some_iff.1 hkind]) hfield
      next => exact .ignored
    · exact .plain

/-- Only the default of a parameter is visited, and only if the parameter has a rule of its own. -/
theorem parameterPart_cases (n c : Node) :
    parameterPart n c = .ignored ∨ parameterPart n c = .plain ∧ n.isFunction = false := by
  have hrule {k : Kind} (hk : functionKinds.contains k = false) (hlabel : n.label = .rule k) :
      n.isFunction = false := by
    rw [isFunction_of_kind? (kind?_eq_some_iff.2 hlabel), hk]
  simp only [parameterPart]
  split
  next hlabel =>
    split
    · exact .inr ⟨rfl, hrule rfl hlabel⟩
    · exact .inl rfl
  next hlabel =>
    split
    · exact .inr ⟨rfl, hrule rfl hlabel⟩
    · exact .inl rfl
  next hlabel =>
    split
    · exact .inr ⟨rfl, hrule rfl hlabel⟩
    · exact .inl rfl
  next => exact .inl (if_neg (by simp))

private theorem given_roleOf (role : Role) (n c : Node) : Given role n c (roleOf role n c) := by
  cases role with
  | plain => exact given_plainPart n c
  | parameterList =>
    rw [roleOf]
    split
    · exact .parameter rfl
    · exact .ignored
  | parameter =>
    rw [roleOf]
    rcases parameterPart_cases n c with heq | ⟨heq, -⟩
    · exact heq ▸ .ignored
    · exact heq ▸ .plain
  | functionBlock => exact .plain
  | transparent => exact .plain
  | declarator hoisted =>
    rw [roleOf]
    split
    · exact .plain
    · exact .ignored
  | ignored => exact .ignored

namespace Visit

variable {root : Node} {u v w : Visit}

/-- A function is visited for its own sake, or is ignored, or stands in the place of a parameter. -/
theorem role_of_isFunction (hroot : root.WellFormed)
    (hparts : ∀ n ∈ root.walk, n.partsFit = true) (hu : (ofRoot root).Leads u)
    (hfunction : u.place.node.isFunction = true) :
    u.role = .plain ∨ u.role = .ignored ∨ u.role = .parameter := by
  have hno {k : Kind} (hk : functionKinds.contains k = false) : ¬u.place.node.is k = true := by
    intro his
    rw [Node.isFunction_eq_false_of_is his hk] at hfunction
    cases hfunction
  rcases eq_ofRoot_or_child hu with rfl | ⟨x, d, hx, hd, rfl⟩
  · exact absurd hroot.program (hno rfl)
  · have hfit := List.all_eq_true.1 (hparts _ (isIn hx).mem_walk) d hd
    have hd' : d.isFunction = true := hfunction
    have hgiven : Given x.role x.place.node d (x.child d).role := given_roleOf _ _ _
    generalize (x.child d).role = r at hgiven
    cases hgiven with
    | plain => exact .inl rfl
    | ignored => exact .inr (.inl rfl)
    | parameter _ => exact .inr (.inr rfl)
    | parameterList _ _ hfield => simp [hd', hfield] at hfit
    | functionBlock hblock => exact absurd hblock (hno rfl)
    | transparent hclause hfield => simp [hd', hclause, hfield] at hfit
    | declarator _ hdeclarator => exact absurd hdeclarator (hno rfl)

/-- A function with anything visited inside of it is visited for its own sake. -/
theorem role_eq_plain (hroot : root.WellFormed) (hparts : ∀ n ∈ root.walk, n.partsFit = true)
    (hu : (ofRoot root).Leads u) (hfunction : u.place.node.isFunction = true)
    (hv : (ofRoot root).Leads v) (hinside : u.place ∈ Focus.ofAbove v.place.above)
    (hrole : v.role ≠ .ignored) : u.role = .plain := by
  have hvisited {w : Visit} (hw : (ofRoot root).Leads w) (hmem : w.place ∈ v.place.outward) :
      w.role ≠ .ignored := fun hwrole => hrole (ignored_of_mem_outward hv hw hwrole hmem)
  rcases role_of_isFunction hroot hparts hu hfunction with hplain | hignored | hparameter
  · exact hplain
  · exact absurd hignored (hvisited hu (List.mem_cons_of_mem _ hinside))
  · -- Nothing inside of a function is visited that stands in the place of a parameter.
    obtain ⟨e, he, hmem⟩ := (isIn hv).exists_child_of_mem_ofAbove hinside
    refine absurd ?_ (hvisited (hu.child he) hmem)
    change roleOf u.role u.place.node e = .ignored
    rw [hparameter, roleOf]
    exact (parameterPart_cases _ e).resolve_right fun h => by simp [hfunction] at h

/-! ## Scopes inside a function -/

theorem inner_of_isFunction (hrole : u.role = .plain) (h : u.place.node.isFunction = true) :
    u.inner = u.place.node :: u.scopes := by
  obtain ⟨role, scopes, f⟩ := u
  obtain rfl : role = .plain := hrole
  have hf : f.node.isFunction = true := h
  simp [inner, enter, enterPlain, hf]

/-- The nearest scope of a function is not outside of one that is open. -/
theorem exists_function_eq_of_isFunction {m : Node} (hm : m.isFunction = true)
    (l rest : List Node) :
    ∃ n ∈ l ++ [m], OpenScopes.function (l ++ m :: rest) = n.id := by
  induction l with
  | nil => cases rest <;> exact ⟨m, by simp, by simp [OpenScopes.function, hm]⟩
  | cons k l ih =>
    have hstep : OpenScopes.function (k :: (l ++ m :: rest)) =
        if k.isFunction then k.id else OpenScopes.function (l ++ m :: rest) := by
      cases l <;> rfl
    rw [List.cons_append, List.cons_append, hstep]
    split
    · exact ⟨k, by simp, rfl⟩
    · obtain ⟨n, hn, heq⟩ := ih
      exact ⟨n, by simpa using .inr (by simpa using hn), heq⟩

/-- What is declared inside a function belongs to a scope opened there, imports apart. -/
theorem Declares.exists_opener_inside (hroot : root.WellFormed)
    (hparts : ∀ n ∈ root.walk, n.partsFit = true) (hu : (ofRoot root).Leads u)
    (hfunction : u.place.node.isFunction = true) (hv : (ofRoot root).Leads v) {σ : Symbol}
    (hσ : v.Declares σ) (hkind : σ.kind ≠ .imported)
    (hinside : u.place ∈ Focus.ofAbove v.place.above) :
    ∃ g : Focus, u.place ∈ g.outward ∧ g.IsIn root ∧ σ.scope = g.id := by
  have hplain := role_eq_plain hroot hparts hu hfunction hv hinside hσ.role_ne_ignored
  obtain ⟨l, hl, hopen⟩ := exists_scopes_eq_append hu hv hinside
  rw [inner_of_isFunction hplain hfunction] at hl
  have hmember {n : Node} (hn : n ∈ l ++ [u.place.node]) (hscope : σ.scope = n.id) :
      ∃ g : Focus, u.place ∈ g.outward ∧ g.IsIn root ∧ σ.scope = g.id := by
    rcases List.mem_append.1 hn with hn | hn
    · obtain ⟨g, hgv, hg, rfl⟩ := hopen n hn
      exact ⟨g, List.mem_cons_of_mem _ hg, (isIn hv).of_mem_outward hgv, hscope⟩
    · obtain rfl := List.mem_singleton.1 hn
      exact ⟨u.place, Focus.mem_outward_self _, isIn hu, hscope⟩
  have hself (hscope : σ.scope = v.place.id) :
      ∃ g : Focus, u.place ∈ g.outward ∧ g.IsIn root ∧ σ.scope = g.id :=
    ⟨v.place, List.mem_cons_of_mem _ hinside, isIn hv, hscope⟩
  have hcurrent (hscope : σ.scope = v.scopes.current) :
      ∃ g : Focus, u.place ∈ g.outward ∧ g.IsIn root ∧ σ.scope = g.id := by
    rw [hl] at hscope
    cases l with
    | nil => exact hmember (by simp) hscope
    | cons n l => exact hmember (by simp) hscope
  cases hσ with
  | functionName _ _ _ _ _ hscope =>
    split at hscope
    · exact hcurrent hscope
    · exact hself hscope
  | singleParameter _ _ _ _ _ hscope => exact hself hscope
  | typeName _ _ _ _ _ _ hscope => exact hcurrent hscope
  | imported _ _ himported _ _ _ => exact absurd himported hkind
  | head _ _ _ _ _ _ hscope => exact hself hscope
  | parameter _ _ _ _ hscope => exact hcurrent hscope
  | declarator hoisted _ _ _ _ hscope =>
    cases hoisted with
    | false => exact hcurrent hscope
    | true =>
      obtain ⟨n, hn, heq⟩ := exists_function_eq_of_isFunction hfunction l u.scopes
      rw [if_pos rfl, hl] at hscope
      exact hmember hn (hscope.trans heq)

end Visit

/-! ## Parameters -/

/-- Around the pattern of a parameter there are no functions but those around the parameter. -/
theorem parameterPattern?_free {f p : Focus} (h : parameterPattern? f = some p) :
    ∀ g ∈ Focus.ofAbove p.above, g ∈ Focus.ofAbove f.above ∨ g.node.isFunction = false := by
  have hchild {k : Kind} {part : Field} (hk : functionKinds.contains k = false)
      (hlabel : f.node.label = .rule k) (hpattern : f.child? part = some p) :
      ∀ g ∈ Focus.ofAbove p.above, g ∈ Focus.ofAbove f.above ∨ g.node.isFunction = false := by
    obtain ⟨n, -, -, rfl⟩ := Visit.exists_of_child? hpattern
    intro g hg
    rcases List.mem_cons.1 hg with rfl | hg
    · exact .inr (by rw [isFunction_of_kind? (kind?_eq_some_iff.2 hlabel), hk])
    · exact .inl hg
  have hpattern := (Option.filter_eq_some_iff.1 h).1
  split at hpattern
  next hlabel => exact hchild rfl hlabel hpattern
  next hlabel => exact hchild rfl hlabel hpattern
  next hlabel => exact hchild rfl hlabel hpattern
  next => exact Option.some.inj hpattern ▸ fun g hg => .inl hg

/-- A parameter binds names by its pattern. -/
theorem exists_bound_of_role {v : Visit} {σ : Symbol} {spaces : List Namespace}
    (hrole : v.role = .parameter) (h : .declared σ spaces ∈ v.events) :
    ∃ p, parameterPattern? v.place = some p ∧ ∃ b ∈ p.bindings, σ.binding = b.place := by
  obtain ⟨role, scopes, f⟩ := v
  obtain rfl : role = .parameter := hrole
  obtain ⟨b, hb, heq⟩ := List.mem_map.1 h
  obtain ⟨p, hp, hb⟩ := List.mem_flatMap.1 hb
  exact ⟨p, Option.mem_toList.1 hp, b, hb, by rw [Visit.declare_eq heq]⟩

/-- A parameter stands in the list of a function, whose scope is the innermost one there. -/
theorem Visit.exists_function_of_role {root : Node} {v : Visit} (hv : (ofRoot root).Leads v)
    (hrole : v.role = .parameter) :
    ∃ (x : Visit) (d c : Node), (ofRoot root).Leads x ∧ x.place.node.isFunction = true ∧
      d ∈ x.place.node.children ∧ d.field = some .parameters ∧
      v.place = (x.place.down d).down c ∧ v.scopes.current = x.place.id := by
  rcases eq_ofRoot_or_child hv with rfl | ⟨w, c, hw, -, rfl⟩
  · cases hrole
  have hgiven : Given w.role w.place.node c (w.child c).role := given_roleOf _ _ _
  rw [hrole] at hgiven
  cases hgiven with
  | parameter hlist =>
    rcases eq_ofRoot_or_child hw with rfl | ⟨x, d, hx, hd, rfl⟩
    · cases hlist
    have hgiven : Given x.role x.place.node d (x.child d).role := given_roleOf _ _ _
    rw [hlist] at hgiven
    cases hgiven with
    | parameterList hplain hfunction hfield =>
      refine ⟨x, d, c, hx, hfunction, hd, hfield, rfl, ?_⟩
      have hscopes : ((x.child d).child c).scopes = x.inner := by
        change (x.child d).inner = x.inner
        rw [inner, hlist]
        rfl
      rw [hscopes, inner_of_isFunction hplain hfunction]
      rfl

/-- A name that is neither a parameter nor imported is declared where its visit stands. -/
theorem Visit.Declares.declaration_eq {v : Visit} {σ : Symbol} (h : v.Declares σ)
    (hparameter : σ.kind ≠ .parameter) (himported : σ.kind ≠ .imported) :
    σ.declaration = v.place := by
  cases h <;> simp_all

namespace DeclaredIn

variable {root : Node} {σ : Symbol}

/-- Imports belong to the module. -/
theorem scope_eq_of_imported (h : DeclaredIn root σ) (hkind : σ.kind = .imported) :
    σ.scope = root.id := by
  obtain ⟨v, hv, hσ⟩ := h.exists_visit
  cases hσ with
  | imported _ _ _ _ _ hscope => exact hscope.trans (Visit.root_scopes hv)
  | typeName _ _ _ hkinds => simp [hkind] at hkinds
  | head _ _ _ hkinds => simp [hkind] at hkinds
  | _ => simp_all

/-- The function that declares a name is the nearest one around it. -/
theorem eq_of_declaringFunction? (hkind : σ.kind ≠ .function) {f g : Focus}
    (hf : σ.declaringFunction? = some f) (hg : g ∈ σ.binding.outward)
    (hfunction : g.node.isFunction = true)
    (hnearest : ∀ h ∈ σ.binding.outward, g ∈ Focus.ofAbove h.above → h.node.isFunction = false) :
    f = g := by
  rw [Symbol.declaringFunction?, if_neg hkind] at hf
  have hmem := Focus.mem_outward_of_findUp? hf hg hfunction
  rcases Focus.mem_outward_iff.1 hmem with heq | hmem
  · exact heq.symm
  · have hno := hnearest f (List.mem_of_find?_eq_some hf) hmem
    rw [List.find?_some hf] at hno
    cases hno

/-- A parameter belongs to the scope of the function that declares it. -/
theorem scope_eq_of_parameter (hparts : ∀ n ∈ root.walk, n.partsFit = true)
    (hσ : DeclaredIn root σ) (hkind : σ.kind = .parameter) {f : Focus}
    (hf : σ.declaringFunction? = some f) : σ.scope = f.id := by
  obtain ⟨spaces, h⟩ := hσ
  rcases mem_ofModule_iff.1 h with h | ⟨v, hv, h⟩
  · cases h
  have hne : σ.kind ≠ .function := by simp [hkind]
  have hfit {x : Visit} (hx : (Visit.ofRoot root).Leads x) {d : Node}
      (hd : d ∈ x.place.node.children)
      (hfield : d.field = some .parameter ∨ d.field = some .parameters) : d.isFunction = false := by
    have hfit := List.all_eq_true.1 (hparts _ (Visit.isIn hx).mem_walk) d hd
    rcases hfield with hfield | hfield <;> simpa [hfield] using hfit
  have hdeclares := (Visit.declares_of_mem h).1
  have hmem := hdeclares.binding_mem
  cases hdeclares with
  | singleParameter hrole hfunction _ _ hbinding hscope =>
    obtain ⟨c, hc, hfield, heq⟩ := Visit.exists_of_child? hbinding
    have haround : v.place ∈ σ.binding.outward :=
      heq ▸ List.mem_cons_of_mem _ (Focus.mem_outward_self _)
    rw [hscope, eq_of_declaringFunction? hne hf haround hfunction]
    intro g hg hinside
    rw [heq] at hg
    rcases List.mem_cons.1 hg with rfl | hg
    · exact hfit hv hc (.inl hfield)
    · exact absurd hinside (Focus.not_mem_ofAbove_of_mem_outward hg)
  | parameter hrole _ _ _ hscope =>
    obtain ⟨x, d, c, hx, hfunction, hd, hfield, hplace, hcurrent⟩ :=
      Visit.exists_function_of_role hv hrole
    obtain ⟨p, hp, b, hb, hbinding⟩ := exists_bound_of_role hrole h
    have haround : x.place ∈ σ.binding.outward := by
      refine Focus.mem_outward_trans (Focus.mem_outward_of_mem_walk hmem) ?_
      rw [hplace]
      exact List.mem_cons_of_mem _ (List.mem_cons_of_mem _ (Focus.mem_outward_self _))
    rw [hscope, hcurrent, eq_of_declaringFunction? hne hf haround hfunction]
    intro g hg hinside
    -- From the name up there are its pattern, the parameter, the list and then the function.
    rcases (Focus.binds_of_mem_bindings hb).mem_ofAbove_or (hbinding ▸ hg) with hmem | hfree
    · rcases parameterPattern?_free hp g hmem with hmem | hfree
      · rw [hplace] at hmem
        rcases List.mem_cons.1 hmem with rfl | hmem
        · exact hfit hx hd (.inr hfield)
        · exact absurd hinside (Focus.not_mem_ofAbove_of_mem_outward hmem)
      · exact hfree
    · exact hfree
  | _ => simp_all

end DeclaredIn

end Event

/-! ## Names in the block of a function -/

namespace ScopeTree

open Event (Visit)

variable {root : Node}

/-- A block of a function opens no scope of its own. -/
theorem opener_ne_body {u : Visit} (hu : (Visit.ofRoot root).Leads u)
    (hplain : u.role = .plain) (hfunction : u.place.node.isFunction = true) {body : Node}
    (hbody : body ∈ u.place.node.children) (hfield : body.field = some .body)
    (hblock : body.is .statementBlock = true) {s : Scope} (hs : s ∈ (ofModule root).scopes) :
    s.opener ≠ u.place.down body := by
  intro heq
  rcases opened_cases (opened_of_mem_scopes hs) with ⟨hopener, -⟩ | ⟨v, hv, hrole, hopener, -⟩
  · cases congrArg Focus.above (heq.symm.trans hopener)
  · obtain rfl := Visit.eq_of_place_eq hv (hu.child hbody) (hopener.symm.trans heq)
    have hbodyRole : (u.child body).role = .functionBlock := by
      simp [Visit.child, Event.roleOf, hplain, Event.plainPart, hfunction, Event.functionPart,
        hfield, hblock]
    rw [hrole] at hbodyRole
    cases hbodyRole

/-- A name that is declared in one statement of a block has no scope that is opened in another. -/
theorem scope_ne_of_statement_ne (hroot : root.WellFormed) {v : Visit}
    (hv : (Visit.ofRoot root).Leads v) {σ : Symbol} (hσ : v.Declares σ) {block f g : Focus}
    (hf : f.IsIn root) {c : Node} (hc : block.down c ∈ v.place.outward)
    (hnot : block.down c ∉ f.outward) (hg : g ∈ f.outward)
    (hinside : block ∈ Focus.ofAbove g.above) : σ.scope ≠ g.id := by
  intro hscope
  have hgin := hf.of_mem_outward hg
  obtain ⟨opener, hopener, hopenerIn, hid⟩ := hσ.exists_opener hv
  obtain rfl := hopenerIn.eq_of_id_eq hroot hgin (hid.symm.trans hscope)
  obtain ⟨d, -, hd⟩ := hgin.exists_child_of_mem_ofAbove hinside
  obtain rfl := Focus.child_eq_of_mem_outward hc (Focus.mem_outward_trans hopener hd)
  exact hnot (Focus.mem_outward_trans hg hd)

/-- A name declared inside a function that is visible from its block belongs to the function. -/
theorem scope_eq_of_lookup_body (hroot : root.WellFormed)
    (hparts : ∀ n ∈ root.walk, n.partsFit = true) {u v : Visit}
    (hu : (Visit.ofRoot root).Leads u) (hfunction : u.place.node.isFunction = true) {body : Node}
    (hbody : body ∈ u.place.node.children) (hfield : body.field = some .body)
    (hblock : body.is .statementBlock = true) (hv : (Visit.ofRoot root).Leads v) {σ : Symbol}
    (hσ : v.Declares σ) (hkind : σ.kind ≠ .imported)
    (hinside : u.place ∈ Focus.ofAbove v.place.above) {name : String}
    (h : (ofModule root).lookup (u.place.down body) name .value = some σ) :
    σ.scope = u.place.id := by
  have hplain := Visit.role_eq_plain hroot hparts hu hfunction hv hinside hσ.role_ne_ignored
  have hbodyIn := (Visit.isIn hu).down hbody
  obtain ⟨-, -, s, hs, hid, -⟩ := exists_of_lookup h
  have hopener : s.opener ∈ u.place.outward :=
    (List.mem_cons.1 (opener_mem_outward hroot hbodyIn hs)).resolve_left
      (opener_ne_body hu hplain hfunction hbody hfield hblock
        (mem_scopes_of_mem_chainFor hs))
  -- The scope is opened around the function as well as inside of it.
  obtain ⟨g, hg, hgin, hscope⟩ :=
    hσ.exists_opener_inside hroot hparts hu hfunction hv hkind hinside
  have hopenerIn := (Visit.isIn hu).of_mem_outward hopener
  obtain rfl := hgin.eq_of_id_eq hroot hopenerIn (hscope.symm.trans hid)
  rw [hscope, Focus.mem_outward_antisymm hopener hg]

end ScopeTree

end StableProps
