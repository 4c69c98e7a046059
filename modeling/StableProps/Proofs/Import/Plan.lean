import StableProps.Proofs.Module.Query
import StableProps.Props.Binding

/-!
# What a plan asks for

A plan goes through the declarations of a type one after the other. Each of them is there already,
is asked for under the name by which the module will know it, or cannot be imported. A name that is
asked for is bound nowhere at the top of the module.
-/

namespace StableProps

open MonadAttach (CanReturn)

namespace ImportPlan

/-- A plan has the requests it had before and the new one. -/
theorem mem_requests_add {p : ImportPlan} {r s : ImportRequest} (h : s ∈ (p.add r).requests) :
    s ∈ p.requests ∨ s = r := by
  rw [add] at h
  split at h
  · exact .inl h
  · rcases List.mem_append.1 h with h | h
    · exact .inl h
    · exact .inr (List.mem_singleton.1 h)

private theorem requests_subset_add (p : ImportPlan) (r : ImportRequest) :
    p.requests ⊆ (p.add r).requests := by
  rw [add]
  split
  · exact List.Subset.refl _
  · exact List.subset_append_left _ _

/-- A plan that a request is added to has one for its name and module. -/
theorem exists_mem_add (p : ImportPlan) (r : ImportRequest) :
    ∃ s ∈ (p.add r).requests, s.moduleKey = r.moduleKey ∧ s.localName = r.localName := by
  rw [add]
  split
  next h =>
    obtain ⟨s, hs, hsame⟩ := List.any_eq_true.1 h
    rw [Bool.and_eq_true, beq_iff_eq, beq_iff_eq] at hsame
    exact ⟨s, hs, hsame⟩
  · exact ⟨r, List.mem_append_right _ List.mem_cons_self, rfl, rfl⟩

/-- The requests of a merged plan are those of both. -/
theorem mem_requests_merge {p q : ImportPlan} {r : ImportRequest} (h : r ∈ (p.merge q).requests) :
    r ∈ p.requests ∨ r ∈ q.requests := by
  refine List.foldlRecOn (motive := fun (plan : ImportPlan) =>
    r ∈ plan.requests → r ∈ p.requests ∨ r ∈ q.requests) q.requests add .inl ?_ h
  intro plan ih s hs hr
  rcases mem_requests_add hr with hr | rfl
  · exact ih hr
  · exact .inr hs

@[simp] theorem satisfied_add (p : ImportPlan) (r : ImportRequest) :
    (p.add r).satisfied = p.satisfied := by
  rw [add]
  split <;> rfl

@[simp] theorem unreachable_add (p : ImportPlan) (r : ImportRequest) :
    (p.add r).unreachable = p.unreachable := by
  rw [add]
  split <;> rfl

end ImportPlan

/-! ## One declaration -/

namespace ModuleIndex

/-- The name by which a module knows a declaration once it is imported. -/
def localName (i : ModuleIndex) (d : TypeDeclaration) : String :=
  if d.modulePath = some i.path then d.name else d.spelling

/-- A declaration of another module is known by its own name if it is the default export there, and
by the name of its export if not. -/
theorem name_eq_localName {i : ModuleIndex} {d : TypeDeclaration} {o : Origin}
    (hother : d.modulePath ≠ some i.path) (hexport : d.exportName = some o.exportName) :
    (if o.isDefault then d.name else o.exportName) = i.localName d := by
  rw [localName, if_neg hother, TypeDeclaration.spelling, hexport, Origin.isDefault]
  simp

/-- A request for a declaration under the name by which the module will know it. -/
structure Asks (i : ModuleIndex) (d : TypeDeclaration) (r : ImportRequest) : Prop where
  localName : r.localName = i.localName d
  imported : d.exportName = some r.imported
  /-- It names the module of the declaration, by its file or by its specifier. -/
  module : d.modulePath.isSome = true ∧ r.resolved = d.modulePath ∨
    d.modulePath = none ∧ d.moduleSpecifier = some r.specifier
  /-- The name is bound nowhere at the top of the module. -/
  isFree : r.localName ∉ i.names

/-- What becomes of a plan that a declaration is added to. -/
inductive Plans (i : ModuleIndex) (d : TypeDeclaration) (plan : ImportPlan) : ImportPlan → Prop
  | blocked (name : String) : Plans i d plan (plan.block name)
  | satisfied (h : d.kind ≠ .typeParameter) : Plans i d plan (plan.satisfy (i.localName d))
  | asked {r : ImportRequest} (h : d.kind ≠ .typeParameter) (asks : i.Asks d r) :
      Plans i d plan (plan.add r)

end ModuleIndex

namespace Planner

variable {m : Type → Type} [Monad m] [LawfulMonad m] [MonadAttach m] [LawfulMonadAttach m]
variable {p : Planner m} {d : TypeDeclaration} {plan plan' : ImportPlan}

/-- A declaration is imported from its module under the name it is exported by. -/
theorem of_originOf? {o : Origin} (h : CanReturn (p.originOf? d) (some o)) :
    d.exportName = some o.exportName ∧ (d.modulePath.isSome = true ∧ o.path = d.modulePath ∨
      d.modulePath = none ∧ d.moduleSpecifier = some o.specifier) := by
  rw [originOf?] at h
  split at h
  · cases eq_of_canReturn_pure h
  · cases eq_of_canReturn_pure h
  next exportName hexport _ =>
    rw [hexport]
    split at h
    next path _ hpath =>
      obtain ⟨specifier, -, h⟩ := canReturn_bind h
      cases eq_of_canReturn_pure h
      exact ⟨rfl, .inl ⟨by rw [hpath]; rfl, hpath.symm⟩⟩
    next specifier hpath hspecifier =>
      obtain ⟨resolved, -, h⟩ := canReturn_bind h
      cases eq_of_canReturn_pure h
      exact ⟨rfl, .inr ⟨hpath, hspecifier⟩⟩
    · cases eq_of_canReturn_pure h

/-- A name for which a declaration is asked is free. -/
theorem not_mem_names_of_stateOf {o : Origin} {name : String}
    (h : CanReturn (p.stateOf d o name) .free) : name ∉ p.main.names := by
  rw [stateOf] at h
  split at h
  · -- An import that binds the name either brings the declaration in or clashes with it.
    have hbound : ∀ same : Bool,
        ¬CanReturn (pure (if same then .satisfied else .clash) : m NameState) .free := by
      intro same h
      have hstate := eq_of_canReturn_pure h
      cases same <;> cases hstate
    split at h
    · obtain ⟨bound, -, h⟩ := canReturn_bind h
      split at h
      · obtain ⟨key, -, h⟩ := canReturn_bind h
        obtain ⟨key', -, h⟩ := canReturn_bind h
        obtain ⟨same, -, h⟩ := canReturn_bind h
        exact absurd h (hbound same)
      · obtain ⟨same, -, h⟩ := canReturn_bind h
        exact absurd h (hbound same)
    · obtain ⟨same, -, h⟩ := canReturn_bind h
      exact absurd h (hbound same)
  · have hstate := eq_of_canReturn_pure h
    split at hstate
    · cases hstate
    next hnames => simpa using hnames

/-- Adding a declaration to a plan does one of three things. -/
theorem plans_of_planDeclaration (h : CanReturn (p.planDeclaration plan d) plan') :
    p.main.Plans d plan plan' := by
  rw [planDeclaration] at h
  split at h
  · obtain rfl := eq_of_canReturn_pure h
    exact .blocked d.name
  next hkind =>
    split at h
    next hown =>
      obtain rfl := eq_of_canReturn_pure h
      have hname : d.name = p.main.localName d := by rw [ModuleIndex.localName, if_pos hown]
      rw [hname]
      exact .satisfied hkind
    next hother =>
      obtain ⟨origin, horigin, h⟩ := canReturn_bind h
      split at h
      · obtain rfl := eq_of_canReturn_pure h
        exact .blocked d.name
      next o =>
        obtain ⟨hexport, hmodule⟩ := of_originOf? horigin
        rw [ModuleIndex.name_eq_localName hother hexport] at h
        obtain ⟨state, hstate, h⟩ := canReturn_bind h
        cases state with
        | satisfied =>
          obtain rfl := eq_of_canReturn_pure h
          exact .satisfied hkind
        | clash =>
          obtain rfl := eq_of_canReturn_pure h
          exact .blocked _
        | free =>
          obtain rfl := eq_of_canReturn_pure h
          exact .asked hkind ⟨rfl, hexport, hmodule, not_mem_names_of_stateOf hstate⟩

end Planner

/-! ## All declarations of a type -/

namespace ModuleIndex

/-- What becomes of a plan that several declarations are added to. -/
inductive PlansAll (i : ModuleIndex) : List TypeDeclaration → ImportPlan → ImportPlan → Prop
  | nil (plan : ImportPlan) : PlansAll i [] plan plan
  | cons {d : TypeDeclaration} {ds : List TypeDeclaration} {plan plan' plan'' : ImportPlan}
      (h : i.Plans d plan plan') (hs : PlansAll i ds plan' plan'') :
      PlansAll i (d :: ds) plan plan''

/-- A plan has a name for a declaration: one that is there, or one that it asks the module of the
declaration for. -/
def Binds (i : ModuleIndex) (plan : ImportPlan) (d : TypeDeclaration) : Prop :=
  i.localName d ∈ plan.satisfied ∨ ∃ r ∈ plan.requests, ∃ s, i.Asks d s ∧
    r.moduleKey = s.moduleKey ∧ r.localName = s.localName

variable {i : ModuleIndex} {d : TypeDeclaration} {ds : List TypeDeclaration}
variable {plan plan' : ImportPlan}

/-- Nothing that a plan has is taken back. -/
theorem Plans.mono (h : i.Plans d plan plan') : plan.requests ⊆ plan'.requests ∧
    plan.satisfied ⊆ plan'.satisfied ∧ (plan'.unreachable = [] → plan.unreachable = []) := by
  cases h with
  | blocked name =>
    refine ⟨List.Subset.refl _, List.Subset.refl _, fun hnone => ?_⟩
    have hname : name ∈ (plan.block name).unreachable :=
      mem_distinct.2 (List.mem_append_right _ List.mem_cons_self)
    rw [hnone] at hname
    cases hname
  | satisfied _ =>
    exact ⟨List.Subset.refl _, fun n hn => mem_distinct.2 (List.mem_append_left _ hn), id⟩
  | asked _ _ => exact ⟨plan.requests_subset_add _, by simp, by simp⟩

/-- Planning takes nothing away. -/
theorem PlansAll.mono (h : i.PlansAll ds plan plan') : plan.requests ⊆ plan'.requests ∧
    plan.satisfied ⊆ plan'.satisfied ∧ (plan'.unreachable = [] → plan.unreachable = []) := by
  induction h with
  | nil plan => exact ⟨List.Subset.refl _, List.Subset.refl _, id⟩
  | cons h _ ih =>
    obtain ⟨hrequests, hsatisfied, hunreachable⟩ := h.mono
    obtain ⟨hrequests', hsatisfied', hunreachable'⟩ := ih
    exact ⟨List.Subset.trans hrequests hrequests', List.Subset.trans hsatisfied hsatisfied',
      hunreachable ∘ hunreachable'⟩

/-- What is bound stays bound when more is planned. -/
theorem Binds.mono (h : i.Binds plan d) (hrequests : plan.requests ⊆ plan'.requests)
    (hsatisfied : plan.satisfied ⊆ plan'.satisfied) : i.Binds plan' d := by
  rcases h with h | ⟨r, hr, hasked⟩
  · exact .inl (hsatisfied h)
  · exact .inr ⟨r, hrequests hr, hasked⟩

/-- A declaration that can be imported is bound, and no type parameter can. -/
theorem Plans.binds (h : i.Plans d plan plan') (himportable : plan'.unreachable = []) :
    d.kind ≠ .typeParameter ∧ i.Binds plan' d := by
  cases h with
  | blocked name =>
    have hname : name ∈ (plan.block name).unreachable :=
      mem_distinct.2 (List.mem_append_right _ List.mem_cons_self)
    rw [himportable] at hname
    cases hname
  | satisfied hkind =>
    exact ⟨hkind, .inl (mem_distinct.2 (List.mem_append_right _ List.mem_cons_self))⟩
  | @asked r hkind asks =>
    obtain ⟨s, hs, hsame⟩ := plan.exists_mem_add r
    exact ⟨hkind, .inr ⟨s, hs, r, asks, hsame⟩⟩

/-- If all that is planned for can be imported, it is bound. -/
theorem PlansAll.binds (h : i.PlansAll ds plan plan') (himportable : plan'.unreachable = []) :
    ∀ d ∈ ds, d.kind ≠ .typeParameter ∧ i.Binds plan' d := by
  induction h with
  | nil plan => simp
  | cons h hs ih =>
    intro d hd
    obtain ⟨hrequests, hsatisfied, hunreachable⟩ := hs.mono
    rcases List.mem_cons.1 hd with rfl | hd
    · obtain ⟨hkind, hbinds⟩ := h.binds (hunreachable himportable)
      exact ⟨hkind, hbinds.mono hrequests hsatisfied⟩
    · exact ih himportable d hd

/-- What is new in a plan is asked for under a free name. -/
theorem Plans.isFree (h : i.Plans d plan plan') {r : ImportRequest} (hr : r ∈ plan'.requests) :
    r ∈ plan.requests ∨ r.localName ∉ i.names := by
  cases h with
  | blocked name => exact .inl hr
  | satisfied _ => exact .inl hr
  | asked _ asks =>
    rcases ImportPlan.mem_requests_add hr with hr | rfl
    · exact .inl hr
    · exact .inr asks.isFree

/-- A new request has a local name that the module does not have. -/
theorem PlansAll.isFree (h : i.PlansAll ds plan plan') {r : ImportRequest}
    (hr : r ∈ plan'.requests) : r ∈ plan.requests ∨ r.localName ∉ i.names := by
  induction h with
  | nil plan => exact .inl hr
  | cons h _ ih =>
    rcases ih hr with hr | hfree
    · exact h.isFree hr
    · exact .inr hfree

end ModuleIndex

namespace Planner

variable {m : Type → Type} [Monad m] [LawfulMonad m] [MonadAttach m] [LawfulMonadAttach m]
variable {p : Planner m}

/-- What is planned for several declarations is planned for one after the other. -/
theorem plansAll_of_foldlM {ds : List TypeDeclaration} {plan plan' : ImportPlan}
    (h : CanReturn (ds.foldlM p.planDeclaration plan) plan') : p.main.PlansAll ds plan plan' := by
  induction ds generalizing plan with
  | nil =>
    rw [List.foldlM_nil] at h
    obtain rfl := eq_of_canReturn_pure h
    exact .nil _
  | cons d ds ih =>
    rw [List.foldlM_cons] at h
    obtain ⟨plan₁, hd, h⟩ := canReturn_bind h
    exact .cons (plans_of_planDeclaration hd) (ih h)

/-! ## The plan of a new binding -/

/-- The plan of a hook asks for no other name than that of the hook, to stand in braces. -/
theorem requests_of_planHook {hook : String} {plan : ImportPlan}
    (h : CanReturn (p.planHook {} hook) plan) :
    ∀ r ∈ plan.requests, r.localName = hook ∧ r.kind = .named := by
  intro r hr
  rw [planHook] at h
  obtain ⟨found, -, h⟩ := canReturn_bind h
  split at h
  · obtain rfl := eq_of_canReturn_pure h
    cases hr
  · obtain ⟨resolved, -, h⟩ := canReturn_bind h
    obtain rfl := eq_of_canReturn_pure h
    rcases ImportPlan.mem_requests_add hr with hr | rfl
    · cases hr
    · exact ⟨rfl, rfl⟩

/-- An indexed access is marked as one and has the plan for it, or there is no type. -/
theorem indexedBinding_cases {s : Site} {callback : Bool} {declared : TypeExpr} {b : BindingType}
    (h : CanReturn (p.indexedBinding s callback declared) b) :
    b = {} ∨ b.isIndexed = true ∧ ∃ text, CanReturn (p.indexedType s) (some (text, b.plan)) := by
  rw [indexedBinding] at h
  obtain ⟨indexed, hindexed, h⟩ := canReturn_bind h
  split at h
  · exact .inl (eq_of_canReturn_pure h)
  next text plan =>
    right
    split at h <;> obtain ⟨fits, -, h⟩ := canReturn_bind h <;>
      obtain rfl := eq_of_canReturn_pure h <;> exact ⟨rfl, text, hindexed⟩

/-- The requests of an indexed access have free names. -/
private theorem isFree_of_indexedType {s : Site} {text : String} {plan : ImportPlan}
    (h : CanReturn (p.indexedType s) (some (text, plan))) :
    ∀ r ∈ plan.requests, r.localName ∉ p.main.names := by
  intro r hr
  rw [indexedType] at h
  split at h
  · obtain ⟨plan₁, hplan₁, h⟩ := canReturn_bind h
    split at h
    · cases eq_of_canReturn_pure h
      exact ((plans_of_planDeclaration hplan₁).isFree hr).resolve_left (by simp)
    · cases eq_of_canReturn_pure h
  · cases eq_of_canReturn_pure h
    cases hr

/-- What looking for the declared type of a prop gives; a failure gives nothing. -/
def declaredType [MonadExceptOf Failure m] (p : Planner m) (s : Site) :
    m (Except PropFault (Option PropType)) :=
  tryCatchThe Failure (p.ask fun q => q.project.propType q.main s.tag s.attributeName)
    fun _ => return .ok none

/-- A binding is annotated by a type: the declared type of the prop, of which a callback keeps the
callable part. -/
structure Annotates [MonadExceptOf Failure m] (p : Planner m) (s : Site) (callback : Bool)
    (t : TypeExpr) (b : BindingType) : Prop where
  declared : ∃ d : PropType, CanReturn (p.declaredType s) (.ok (some d)) ∧
    if callback then
      CanReturn (p.ask fun q => d.type.filteredUnion? q.project.isCallable) (some t)
    else t = d.type
  text : b.text = some t.render
  plan : CanReturn (p.ask (·.planType {} t)) b.plan
  isImportable : b.plan.unreachable = []
  isIndexed : b.isIndexed = false

/-- The type of a new binding, given the part of the declared type that is wanted for it. -/
def bindingFor (p : Planner m) (s : Site) (callback : Bool) (declared : TypeExpr) :
    Option TypeExpr → m BindingType
  | none => p.indexedBinding s callback declared
  | some t => do
    let plan ← p.planType {} t
    if !plan.isImportable || (!plan.hasNewImports && plan.satisfied.isEmpty) then
      p.indexedBinding s callback declared
    else return { text := t.render, plan }

omit [LawfulMonad m] [MonadAttach m] [LawfulMonadAttach m] in
/-- A callback is bound by the callable members of the declared type. -/
private theorem bindingOf_eq (p : Planner m) (s : Site) (callback : Bool) (declared : TypeExpr) :
    p.bindingOf s callback declared =
      (if callback then declared.filteredUnion? p.project.isCallable else pure (some declared)) >>=
        p.bindingFor s callback declared := by
  cases callback <;>
    exact bind_congr (m := m) fun wanted => by cases wanted <;> rfl

/-- A type that is wanted is written if it can be imported, with the plan for it. -/
theorem bindingFor_cases {s : Site} {callback : Bool} {declared : TypeExpr}
    {wanted : Option TypeExpr} {b : BindingType}
    (h : CanReturn (p.ask (·.bindingFor s callback declared wanted)) b) :
    CanReturn (p.ask (·.indexedBinding s callback declared)) b ∨
      ∃ t, wanted = some t ∧ b.text = some t.render ∧ CanReturn (p.ask (·.planType {} t)) b.plan ∧
        b.plan.unreachable = [] ∧ b.isIndexed = false := by
  cases wanted with
  | none => exact .inl h
  | some t =>
    rw [ask, bindingFor, Query.run_bind] at h
    obtain ⟨plan, hplan, h⟩ := canReturn_bind h
    split at h
    · exact .inl h
    next hneeded =>
      obtain rfl := eq_of_canReturn_pure h
      have himportable : plan.unreachable = [] := by
        simp only [ImportPlan.isImportable, Bool.or_eq_true, not_or, Bool.not_eq_true,
          Bool.not_eq_false', List.isEmpty_iff] at hneeded
        exact hneeded.1
      exact .inr ⟨t, rfl, rfl, hplan, himportable, rfl⟩

/-- A binding has no type, is typed by an indexed access, or is annotated by a type. -/
theorem bindingType_cases [MonadExceptOf Failure m] {s : Site} {callback : Bool} {b : BindingType}
    (h : CanReturn (p.bindingType s callback) b) :
    b = {} ∨ (∃ d : PropType, CanReturn (p.declaredType s) (.ok (some d)) ∧
        CanReturn (p.ask (·.indexedBinding s callback d.type)) b) ∨
      ∃ t, p.Annotates s callback t b := by
  rw [bindingType] at h
  obtain ⟨declared, hdeclared, h⟩ := canReturn_bind h
  split at h
  next d =>
    right
    rw [ask, bindingOf_eq, Query.run_bind] at h
    obtain ⟨wanted, hwanted, h⟩ := canReturn_bind h
    rcases bindingFor_cases h with h | ⟨t, rfl, htext, hplan, himportable, hindexed⟩
    · exact .inl ⟨d, hdeclared, h⟩
    · refine .inr ⟨t, ⟨d, hdeclared, ?_⟩, htext, hplan, himportable, hindexed⟩
      cases callback with
      | true => exact hwanted
      | false => exact Option.some.inj (eq_of_canReturn_pure hwanted)
  · exact .inl (eq_of_canReturn_pure h)

/-- A binding with a type that is no indexed access is annotated by a type. -/
theorem exists_annotates [MonadExceptOf Failure m] {s : Site} {callback : Bool} {b : BindingType}
    (h : CanReturn (p.bindingType s callback) b) (htext : b.text ≠ none)
    (hindexed : b.isIndexed = false) : ∃ t, p.Annotates s callback t b := by
  rcases bindingType_cases h with rfl | ⟨d, -, hbinding⟩ | ⟨t, ht⟩
  · exact absurd rfl htext
  · rcases indexedBinding_cases (Query.canReturn_of_run hbinding) with rfl | ⟨hmarked, -⟩
    · exact absurd rfl htext
    · rw [hindexed] at hmarked
      cases hmarked
  · exact ⟨t, ht⟩

/-- All names that the type of a new binding asks for are free. -/
theorem isFree_of_bindingType [MonadExceptOf Failure m] {s : Site} {callback : Bool}
    {b : BindingType} (h : CanReturn (p.bindingType s callback) b) :
    ∀ r ∈ b.plan.requests, r.localName ∉ p.main.names := by
  intro r hr
  rcases bindingType_cases h with rfl | ⟨d, -, hindexed⟩ | ⟨t, ht⟩
  · cases hr
  · rcases indexedBinding_cases (Query.canReturn_of_run hindexed) with rfl | ⟨-, text, htype⟩
    · cases hr
    · exact isFree_of_indexedType htype r hr
  · have hplans := plansAll_of_foldlM (Query.canReturn_of_run ht.plan)
    exact (hplans.isFree hr).resolve_left (by simp)

end Planner

end StableProps
