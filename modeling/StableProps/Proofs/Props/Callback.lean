import StableProps.Lift.Fix
import StableProps.Proofs.Import.Plan
import StableProps.Proofs.Props.UnionMember

/-!
# Types of callbacks

A new binding for a callback gets the callable members of the declared type of the prop. The
declared type is a flat union, so that leaving members out of it leaves a flat union again, and the
type that is written has exactly the members that were kept. It is the type that is judged and the
one that is planned for. An indexed access cannot leave members out, so it is restricted to
functions if the declared type is not callable as a whole.
-/

namespace StableProps

open MonadAttach (CanReturn)

/-! ## Flat unions -/

namespace TypeExpr

variable {t u : TypeExpr} {ts : List TypeExpr}

/-- Of a flat union the members that satisfy a test are kept, at least one, each rendering once. -/
theorem unionMembers_of_filteredUnion? {ε : Type} [DecidableEq ε] {test : TypeExpr → Except ε Bool}
    (ht : t.HasPlainMembers) (h : t.filteredUnion? test = .ok (some u)) :
    u.unionMembers = distinctBy render (t.unionMembers.filter fun v => test v = .ok true) := by
  rw [filteredUnion?] at h
  obtain ⟨kept, hkept, h⟩ := bind_eq_ok.1 h
  rw [← eq_filter_of_filterM hkept]
  have hplain : ∀ v ∈ kept, v.isUnion = false := by
    intro v hv
    rw [eq_filter_of_filterM hkept] at hv
    exact ht v (List.mem_of_mem_filter hv)
  split at h
  · cases Except.ok.inj h
  next hsome =>
    split at h
    · obtain rfl := Option.some.inj (Except.ok.inj h)
      rw [unionMembers_unionOf fun v hv => hasPlainMembers_of_isUnion_eq_false (hplain v hv),
        membersOf_of_forall_isUnion_eq_false hplain]
    next hunion =>
      -- The only member is the type itself, so it is what was kept.
      obtain rfl := Option.some.inj (Except.ok.inj h)
      have hone := unionMembers_of_isUnion_eq_false (Bool.eq_false_iff.2 hunion)
      have hsub : kept.Sublist [t] := by
        rw [eq_filter_of_filterM hkept, hone]
        exact List.filter_sublist
      rcases List.sublist_singleton.1 hsub with rfl | rfl
      · exact absurd rfl hsome
      · exact hone

end TypeExpr

/-! ## Declared types -/

namespace Project

variable {m : Type → Type} [Monad m] [LawfulMonad m] [MonadAttach m] [LawfulMonadAttach m]
variable {p : Project m} {t u : TypeExpr}

/-- An alias is followed to types that are no unions. -/
theorem isUnion_of_followAlias {fuel : Nat} {opened : Opened} (ht : t.isUnion = false)
    (h : CanReturn (p.followAlias fuel opened t) u) : u.isUnion = false := by
  induction fuel generalizing opened t with
  | zero => exact eq_of_canReturn_pure h ▸ ht
  | succ fuel ih =>
    unfold followAlias at h
    split at h
    · split at h
      · split at h
        · exact eq_of_canReturn_pure h ▸ ht
        · obtain ⟨i, -, h⟩ := canReturn_bind h
          split at h
          · obtain ⟨target, -, h⟩ := canReturn_bind h
            split at h
            · exact ih rfl h
            · exact eq_of_canReturn_pure h ▸ ht
          · exact eq_of_canReturn_pure h ▸ ht
      · exact eq_of_canReturn_pure h ▸ ht
    · exact eq_of_canReturn_pure h ▸ ht

mutual

/-- With its aliases replaced a type is a flat union. -/
theorem hasPlainMembers_of_collapse (t : TypeExpr) {u : TypeExpr}
    (h : CanReturn (p.collapse t) u) : u.HasPlainMembers := by
  match t with
  | .union _ members =>
    rw [collapse] at h
    obtain ⟨us, hus, h⟩ := canReturn_bind h
    rw [eq_of_canReturn_pure h]
    exact TypeExpr.hasPlainMembers_unionOf (hasPlainMembers_of_collapseAll members hus)
  | .reference .. | .intersection .. | .function .. | .object .. | .array .. | .tuple ..
  | .keyword _ | .literal _ | .indexed .. | .query _ | .raw .. =>
    exact TypeExpr.hasPlainMembers_of_isUnion_eq_false (isUnion_of_followAlias rfl h)

private theorem hasPlainMembers_of_collapseAll (ts : List TypeExpr) {us : List TypeExpr}
    (h : CanReturn (p.collapseAll ts) us) : ∀ u ∈ us, u.HasPlainMembers := by
  match ts with
  | [] =>
    rw [eq_of_canReturn_pure h]
    exact List.forall_mem_nil _
  | t :: ts =>
    rw [collapseAll] at h
    obtain ⟨v, hv, h⟩ := canReturn_bind h
    obtain ⟨vs, hvs, h⟩ := canReturn_bind h
    rw [eq_of_canReturn_pure h, List.forall_mem_cons]
    exact ⟨hasPlainMembers_of_collapse t hv, hasPlainMembers_of_collapseAll ts hvs⟩

end

end Project

/-- The names of the library refer to no declarations that are read. -/
theorem Intrinsic.finds_bind :
    TypeExpr.Finds (.canReturn Id) bind fun d => d.place = none := by
  intro name qualifier found hfound e he
  obtain rfl : bind name qualifier = found := hfound
  rw [bind] at he
  split at he
  · obtain rfl := Option.some.inj he
    rfl
  · cases he

/-- The types of the library refer to no declarations that are read. -/
theorem Intrinsic.isBuilt_of_type? {text : String} {t : TypeExpr} (h : type? text = some t) :
    t.IsBuilt fun d => d.place = none := by
  rw [type?] at h
  obtain ⟨root, -, h⟩ := Option.bind_eq_some_iff.1 h
  obtain ⟨value, -, h⟩ := Option.bind_eq_some_iff.1 h
  exact TypeExpr.isBuilt_build (.canReturn Id) finds_bind value t (Option.some.inj h)

theorem PropType.type_ofType (t : TypeExpr) : (ofType t).type = t := by
  rw [ofType]
  split <;> rfl

/-- The declared type of a prop is a flat union. -/
theorem Project.hasPlainMembers_of_propType {m : Type → Type} [Monad m] [LawfulMonad m]
    [MonadAttach m] [LawfulMonadAttach m] {p : Project m} {i : ModuleIndex} {tag : Focus}
    {prop : String} {d : PropType} (h : CanReturn (p.propType i tag prop) (.ok (some d))) :
    d.type.HasPlainMembers := by
  rw [propType] at h
  split at h
  · obtain ⟨t, ht, rfl⟩ := Option.map_eq_some_iff.1 (Except.ok.inj (eq_of_canReturn_pure h)).symm
    obtain ⟨text, -, htext⟩ := Option.bind_eq_some_iff.1 ht
    exact (Intrinsic.isBuilt_of_type? htext).hasPlainMembers.withOptional
  · obtain ⟨declaration, -, h⟩ := canReturn_bind h
    split at h
    · cases eq_of_canReturn_pure h
    · obtain ⟨props, -, h⟩ := canReturn_bind h
      split at h
      · cases eq_of_canReturn_pure h
      · obtain ⟨found, -, h⟩ := canReturn_bind h
        split at h
        · cases eq_of_canReturn_pure h
        · obtain ⟨collapsed, hcollapsed, h⟩ := canReturn_bind h
          obtain rfl := Option.some.inj (Except.ok.inj (eq_of_canReturn_pure h))
          rw [PropType.type_ofType]
          exact hasPlainMembers_of_collapse _ hcollapsed

/-! ## Callable unions -/

private theorem TypeExpr.allCallable_eq_allM {m : Type → Type} [Monad m] [LawfulMonad m]
    (jump : TypeDeclaration → m Bool) (ts : List TypeExpr) :
    allCallable jump ts = ts.allM (callableVia jump) := by
  induction ts with
  | nil => rfl
  | cons t ts ih => rw [allCallable, List.allM_cons, ih]

namespace Project

variable {m : Type → Type} [Monad m] [LawfulMonad m]

/-- A union is callable if all of its members are. -/
theorem isCallable_union (p : Project m) (text : String) (parts : List TypeExpr) :
    p.isCallable (.union text parts) = parts.allM p.isCallable := by
  have hinside : ∀ fuel opened, p.isCallableInside fuel opened (.union text parts) =
      parts.allM (p.isCallableInside fuel opened) := by
    intro fuel opened
    cases fuel <;> exact TypeExpr.allCallable_eq_allM _ parts
  exact hinside p.bound []

/-- The two ways to judge a type as a whole agree. -/
theorem isAssignableToCallable_eq (p : Project m) (t : TypeExpr) :
    p.isAssignableToCallable t = p.isCallable t := by
  cases hunion : t.isUnion with
  | true =>
    cases t with
    | union text parts => exact (p.isCallable_union text parts).symm
    | _ => cases hunion
  | false =>
    rw [isAssignableToCallable, TypeExpr.unionMembers_of_isUnion_eq_false hunion, List.allM_cons]
    conv_rhs => rw [← bind_pure (p.isCallable t)]
    refine bind_congr fun b => ?_
    cases b <;> rfl

end Project

/-! ## The type of a callback -/

namespace Planner

/-- Whether a type is callable, as the project of a module tells. -/
def isCallable {m : Type → Type} [Monad m] (p : Planner m) (t : TypeExpr) : m Bool :=
  p.ask (·.project.isCallable t)

section

variable {m : Type → Type} [Monad m] [LawfulMonad m]

private theorem ask_bind {α β : Type} (p : Planner m) (f : Planner Query → Query α)
    (g : Planner Query → α → Query β) :
    p.ask (fun q => f q >>= g q) = p.ask f >>= fun a => p.ask (g · a) :=
  Query.run_bind ..

private theorem isCallable_eq_allM (p : Planner m) (t : TypeExpr) :
    p.isCallable t = t.unionMembers.allM p.isCallable := by
  rw [isCallable, ask, ← Project.isAssignableToCallable_eq]
  exact Query.run_allM ..

theorem ask_filteredUnion? (p : Planner m) (t : TypeExpr) :
    p.ask (fun q => t.filteredUnion? q.project.isCallable) = t.filteredUnion? p.isCallable := by
  simp only [TypeExpr.filteredUnion?]
  rw [ask_bind, ask, Query.run_filterM]
  refine bind_congr fun kept => ?_
  split
  · rfl
  · split <;> rfl

end

variable {p : Planner (Except Failure)} {s : Site} {callback : Bool} {b : BindingType}

private theorem hasPlainMembers_of_declaredType {d : PropType}
    (h : p.declaredType s = .ok (.ok (some d))) : d.type.HasPlainMembers := by
  rw [declaredType] at h
  cases hprop : p.ask fun q => q.project.propType q.main s.tag s.attributeName with
  | error f =>
    rw [hprop] at h
    cases h
  | ok found =>
    rw [hprop] at h
    obtain rfl := Except.ok.inj h
    exact Project.hasPlainMembers_of_propType (Query.canReturn_of_run (m := Except Failure) hprop)

/-- What annotates a callback is callable: all callable members of the declared type, in order. -/
theorem isCallable_of_filteredUnion? {t u : TypeExpr} (ht : t.HasPlainMembers)
    (h : p.ask (fun q => t.filteredUnion? q.project.isCallable) = .ok (some u)) :
    p.isCallable u = .ok true ∧ u.unionMembers =
      distinctBy TypeExpr.render (t.unionMembers.filter fun v => p.isCallable v = .ok true) := by
  rw [ask_filteredUnion?] at h
  have hmembers := TypeExpr.unionMembers_of_filteredUnion? ht h
  refine ⟨?_, hmembers⟩
  rw [isCallable_eq_allM, allM_eq_ok_true, hmembers]
  intro v hv
  exact of_decide_eq_true (List.mem_filter.1 (mem_of_mem_distinctBy hv)).2

/-- An indexed access for a callback is restricted to functions unless the declared type is
callable. -/
theorem text_of_indexedBinding {declared : TypeExpr}
    (h : p.ask (·.indexedBinding s callback declared) = .ok b) :
    b = {} ∨ b.isIndexed = true ∧ ∃ indexed,
      p.ask (·.indexedType s) = .ok (some (indexed, b.plan)) ∧
        b.text = some (if callback ∧ p.isCallable declared ≠ .ok true
          then "(" ++ indexed ++ ") & Function" else indexed) := by
  simp only [indexedBinding] at h
  rw [ask_bind] at h
  obtain ⟨answer, hanswer, h⟩ := bind_eq_ok.1 h
  cases answer with
  | none => exact .inl (Except.ok.inj h).symm
  | some access =>
    right
    cases callback with
    | false =>
      obtain rfl := Except.ok.inj h
      exact ⟨rfl, access.1, hanswer, by simp⟩
    | true =>
      simp only [if_true] at h
      rw [ask_bind] at h
      obtain ⟨fits, hfits, h⟩ := bind_eq_ok.1 h
      obtain rfl := Except.ok.inj h
      simp only [Project.isAssignableToCallable_eq] at hfits
      refine ⟨rfl, access.1, hanswer, ?_⟩
      rw [isCallable, hfits]
      cases fits <;> simp

/-- A new binding that is annotated by a type of its own can name all declarations of the type. For
a callback the type is callable, and its members are the callable members of the declared type of
the prop, in order and each rendering once. An indexed access for a callback is restricted to
functions unless the declared type as a whole is callable. -/
theorem isCallable_of_bindingType (p : Planner (Except Failure)) (s : Site) (callback : Bool)
    {b : BindingType} (h : p.bindingType s callback = .ok b) :
    (b.isIndexed = false → b.plan.unreachable = [] ∧ (b.text ≠ none →
      ∃ (d : PropType) (t : TypeExpr), p.declaredType s = .ok (.ok (some d)) ∧
        b.text = some t.render ∧ p.ask (·.planType {} t) = .ok b.plan ∧
        (∀ e ∈ t.declarations, e.kind ≠ .typeParameter ∧ p.main.Binds b.plan e) ∧
        if callback then p.isCallable t = .ok true ∧ t.unionMembers =
            distinctBy TypeExpr.render (d.type.unionMembers.filter (p.isCallable · = .ok true))
          else t = d.type)) ∧
    (b.isIndexed = true →
      ∃ (d : PropType) (indexed : String), p.declaredType s = .ok (.ok (some d)) ∧
        p.ask (·.indexedType s) = .ok (some (indexed, b.plan)) ∧
        b.text = some (if callback ∧ p.isCallable d.type ≠ .ok true
          then "(" ++ indexed ++ ") & Function" else indexed)) := by
  rcases bindingType_cases (m := Except Failure) h with rfl | ⟨d, hd, hindexed⟩ | ⟨t, ht⟩
  · exact ⟨fun _ => ⟨rfl, fun htext => absurd rfl htext⟩, nofun⟩
  · rcases text_of_indexedBinding hindexed with rfl | ⟨hmarked, indexed, htype, htext⟩
    · exact ⟨fun _ => ⟨rfl, fun htext => absurd rfl htext⟩, nofun⟩
    · exact ⟨fun hnot => absurd (hmarked.symm.trans hnot) nofun,
        fun _ => ⟨d, indexed, hd, htype, htext⟩⟩
  · refine ⟨fun _ => ⟨ht.isImportable, fun _ => ?_⟩,
      fun hmarked => absurd (hmarked.symm.trans ht.isIndexed) nofun⟩
    obtain ⟨d, hd, hwanted⟩ := ht.declared
    have hplans := plansAll_of_foldlM (Query.canReturn_of_run ht.plan)
    refine ⟨d, t, hd, ht.text, ht.plan, hplans.binds ht.isImportable, ?_⟩
    cases callback with
    | true => exact isCallable_of_filteredUnion? (hasPlainMembers_of_declaredType hd) hwanted
    | false => exact hwanted

/-- The module of a component with two callbacks, one of which is declared as no callable type. -/
def handlerTypes : FileTree := .ofEntries [
  ("b.tsx", "export type F = () => void;\n" ++
    "export type G = () => void;\n" ++
    "export function A(p: \x7b f: F | 0 | (G | F); g: 0 \x7d) \x7b return null; \x7d\n")]

/-- A module that draws the component with fresh callbacks. -/
def freshHandlers : Source :=
  .parsed (FileTree.resolve (.ofText "a.tsx")) .tsx
    ("import \x7b A \x7d from './b';\n" ++
      "function C() \x7b return <A f=\x7b() => 0\x7d g=\x7b() => 0\x7d />; \x7d\n")

set_option maxRecDepth 100000 in
/-- The one callback is annotated by its callable members, the other one by an indexed access. -/
theorem bindingType_freshHandlers :
    ∃ p, (Workspace.fresh ⟨handlerTypes, none⟩).planner freshHandlers = .ok p ∧
      (∃ s ∈ Site.all freshHandlers {} (IgnoreList.ofEntries []), ∃ b,
        p.bindingType s true = .ok b ∧ b.isIndexed = false ∧ b.text = some "F | G") ∧
      ∃ s ∈ Site.all freshHandlers {} (IgnoreList.ofEntries []), ∃ b,
        p.bindingType s true = .ok b ∧ b.isIndexed = true ∧
          b.text = some "(Parameters<typeof A>[0][\"g\"]) & Function" := by
  decide +kernel

/-- Both callbacks of the module are annotated by what is callable. -/
theorem isCallable_freshHandlers :
    ∃ p, (Workspace.fresh ⟨handlerTypes, none⟩).planner freshHandlers = .ok p ∧
      (∃ s b, p.bindingType s true = .ok b ∧ b.isIndexed = false ∧ b.plan.unreachable = [] ∧
        ∃ (d : PropType) (t : TypeExpr), p.declaredType s = .ok (.ok (some d)) ∧
          t.render = "F | G" ∧ p.isCallable t = .ok true ∧ t.unionMembers =
            distinctBy TypeExpr.render (d.type.unionMembers.filter (p.isCallable · = .ok true))) ∧
      ∃ s b, p.bindingType s true = .ok b ∧ b.isIndexed = true ∧
        ∃ (d : PropType) (indexed : String), p.declaredType s = .ok (.ok (some d)) ∧
          "(Parameters<typeof A>[0][\"g\"]) & Function" =
            if p.isCallable d.type ≠ .ok true then "(" ++ indexed ++ ") & Function"
              else indexed := by
  obtain ⟨p, hp, ⟨s, -, b, hb, hplain, htext⟩, s', -, b', hb', hindexed, htext'⟩ :=
    bindingType_freshHandlers
  refine ⟨p, hp, ⟨s, b, hb, hplain, ?_⟩, s', b', hb', hindexed, ?_⟩
  · obtain ⟨himportable, hannotated⟩ := (isCallable_of_bindingType p s true hb).1 hplain
    obtain ⟨d, t, hd, hrender, -, -, hcallable⟩ := hannotated (by simp [htext])
    rw [htext] at hrender
    rw [if_pos rfl] at hcallable
    exact ⟨himportable, d, t, hd, (Option.some.inj hrender).symm, hcallable⟩
  · obtain ⟨d, indexed, hd, -, hrender⟩ := (isCallable_of_bindingType p s' true hb').2 hindexed
    rw [htext'] at hrender
    exact ⟨d, indexed, hd, by simpa using hrender⟩

end Planner

end StableProps
