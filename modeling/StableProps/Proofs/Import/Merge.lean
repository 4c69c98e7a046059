import StableProps.Lift.Fix
import StableProps.Proofs.Distinct
import StableProps.Proofs.Import.Plan

/-!
# Plans are merged in any grouping

A plan is made from the empty one by asking for names, by planning for declarations, types and
hooks, and by merging. None of these steps lets a plan ask twice for one name of one module, or note
a name twice. So merging is the same in any grouping, and a plan merged with itself stays as it is:
what a merged plan asks for are the first requests of all that the plans ask for.
-/

namespace StableProps

open MonadAttach (CanReturn)

/-- What tells requests apart: the module and the local name. -/
def ImportRequest.identity (r : ImportRequest) : String × String := (r.moduleKey, r.localName)

namespace ImportPlan

/-- A plan asks for every name once and notes every name once. -/
structure IsDistinct (p : ImportPlan) : Prop where
  requests : (p.requests.map ImportRequest.identity).Nodup
  satisfied : p.satisfied.Nodup
  unreachable : p.unreachable.Nodup

variable {p q r : ImportPlan} {m : Type → Type} [Monad m] [MonadAttach m]

/-! ## Steps -/

/-- A request is found by its module and local name, that is by its identity. -/
private theorem any_identity_iff (rs : List ImportRequest) (r : ImportRequest) :
    (rs.any fun s => s.moduleKey == r.moduleKey && s.localName == r.localName) = true ↔
      r.identity ∈ rs.map ImportRequest.identity := by
  simp only [List.any_eq_true, Bool.and_eq_true, beq_iff_eq, List.mem_map, ImportRequest.identity,
    Prod.mk.injEq]

/-- A plan is asked for a name as if the request came behind all others. -/
theorem requests_add (h : (p.requests.map ImportRequest.identity).Nodup) (r : ImportRequest) :
    (p.add r).requests = distinctBy ImportRequest.identity (p.requests ++ [r]) := by
  rw [add]
  by_cases hin : r.identity ∈ p.requests.map ImportRequest.identity
  · rw [if_pos ((any_identity_iff _ _).2 hin), distinctBy_append_of_subset, distinctBy_eq_self h]
    exact List.cons_subset.2 ⟨hin, List.nil_subset _⟩
  · rw [if_neg fun hany => hin ((any_identity_iff _ _).1 hany), distinctBy_append,
      distinctBy_eq_self h]
    change p.requests ++ [r] = p.requests ++ List.filter _ [r]
    rw [List.filter_cons_of_pos (by simpa using hin), List.filter_nil]

/-- Nothing is requested twice in an empty plan. -/
private theorem isDistinct_empty : empty.IsDistinct := ⟨.nil, .nil, .nil⟩

/-- A request that is added again changes nothing, so all stay distinct. -/
theorem IsDistinct.add (h : p.IsDistinct) (r : ImportRequest) : (p.add r).IsDistinct where
  requests := by
    rw [requests_add h.requests]
    exact nodup_map_distinctBy _ _
  satisfied := by
    rw [satisfied_add]
    exact h.satisfied
  unreachable := by
    rw [unreachable_add]
    exact h.unreachable

/-- A name that is satisfied is noted once. -/
theorem IsDistinct.satisfy (h : p.IsDistinct) (name : String) : (p.satisfy name).IsDistinct :=
  ⟨h.requests, nodup_distinct _, h.unreachable⟩

/-- A name that cannot be reached is noted once. -/
theorem IsDistinct.block (h : p.IsDistinct) (name : String) : (p.block name).IsDistinct :=
  ⟨h.requests, h.satisfied, nodup_distinct _⟩

/-- Requests that are added in turn come behind those there are, each identity once. -/
private theorem requests_foldl_add (h : p.IsDistinct) (rs : List ImportRequest) :
    (rs.foldl ImportPlan.add p).requests =
      distinctBy ImportRequest.identity (p.requests ++ rs) := by
  induction rs generalizing p with
  | nil => rw [List.append_nil, distinctBy_eq_self h.requests, List.foldl_nil]
  | cons r rs ih =>
    rw [List.foldl_cons, ih (h.add r), requests_add h.requests, distinctBy_distinctBy_append,
      List.append_assoc, List.singleton_append]

/-- A merged plan asks for what either plan asks for, the first time that it is asked for. -/
theorem requests_merge (h : p.IsDistinct) (q : ImportPlan) :
    (p.merge q).requests = distinctBy ImportRequest.identity (p.requests ++ q.requests) :=
  requests_foldl_add h q.requests

/-- Plans without repetitions have none when merged. -/
theorem IsDistinct.merge (h : p.IsDistinct) (q : ImportPlan) : (p.merge q).IsDistinct where
  requests := by
    rw [requests_merge h]
    exact nodup_map_distinctBy _ _
  satisfied := nodup_distinct _
  unreachable := nodup_distinct _

/-! ## Laws of merging -/

/-- An empty plan is a left unit. -/
private theorem empty_merge (h : p.IsDistinct) : empty.merge p = p := by
  have hrequests : (empty.merge p).requests = p.requests := by
    rw [requests_merge isDistinct_empty]
    exact distinctBy_eq_self h.requests
  calc empty.merge p
      = ⟨(empty.merge p).requests, distinct p.satisfied, distinct p.unreachable⟩ := rfl
    _ = p := by rw [hrequests, distinct_eq_self h.satisfied, distinct_eq_self h.unreachable]

/-- An empty plan is a right unit. -/
private theorem merge_empty (h : p.IsDistinct) : p.merge empty = p := by
  calc p.merge empty
      = ⟨p.requests, distinct (p.satisfied ++ []), distinct (p.unreachable ++ [])⟩ := rfl
    _ = p := by
      rw [List.append_nil, List.append_nil, distinct_eq_self h.satisfied,
        distinct_eq_self h.unreachable]

/-- A plan that is merged with itself stays as it is. -/
theorem merge_self (h : p.IsDistinct) : p.merge p = p := by
  have hrequests : (p.merge p).requests = p.requests := by
    rw [requests_merge h, distinctBy_append_self, distinctBy_eq_self h.requests]
  calc p.merge p
      = ⟨(p.merge p).requests, distinctBy id (p.satisfied ++ p.satisfied),
          distinctBy id (p.unreachable ++ p.unreachable)⟩ := rfl
    _ = ⟨p.requests, distinct p.satisfied, distinct p.unreachable⟩ := by
      rw [hrequests, distinctBy_append_self, distinctBy_append_self]
      rfl
    _ = p := by rw [distinct_eq_self h.satisfied, distinct_eq_self h.unreachable]

/-- It does not matter which of two appends drops the repetitions first. -/
private theorem distinct_append_assoc {α : Type} [DecidableEq α] (as bs cs : List α) :
    distinct (distinct (as ++ bs) ++ cs) = distinct (as ++ distinct (bs ++ cs)) := by
  change distinctBy id (distinctBy id _ ++ cs) = distinctBy id (as ++ distinctBy id _)
  rw [distinctBy_distinctBy_append, distinctBy_append_distinctBy, List.append_assoc]

/-- It does not matter which of two merges is made first. -/
theorem merge_assoc (hp : p.IsDistinct) (hq : q.IsDistinct) (r : ImportPlan) :
    (p.merge q).merge r = p.merge (q.merge r) := by
  have hrequests : ((p.merge q).merge r).requests = (p.merge (q.merge r)).requests := by
    rw [requests_merge (hp.merge q), requests_merge hp, requests_merge hp, requests_merge hq,
      distinctBy_distinctBy_append, distinctBy_append_distinctBy, List.append_assoc]
  calc (p.merge q).merge r
      = ⟨((p.merge q).merge r).requests,
          distinct (distinct (p.satisfied ++ q.satisfied) ++ r.satisfied),
          distinct (distinct (p.unreachable ++ q.unreachable) ++ r.unreachable)⟩ := rfl
    _ = ⟨(p.merge (q.merge r)).requests,
          distinct (p.satisfied ++ distinct (q.satisfied ++ r.satisfied)),
          distinct (p.unreachable ++ distinct (q.unreachable ++ r.unreachable))⟩ := by
      rw [hrequests, distinct_append_assoc, distinct_append_assoc]
    _ = p.merge (q.merge r) := rfl

/-- A merged plan can be imported exactly if both can. -/
private theorem isImportable_merge (p q : ImportPlan) :
    (p.merge q).isImportable = (p.isImportable && q.isImportable) := by
  rw [Bool.eq_iff_iff, Bool.and_eq_true]
  simp only [isImportable, List.isEmpty_iff]
  exact distinctBy_eq_nil_iff.trans List.append_eq_nil_iff

/-- A merged plan adds imports exactly if one of the two does. -/
private theorem hasNewImports_merge (h : p.IsDistinct) (q : ImportPlan) :
    (p.merge q).hasNewImports = (p.hasNewImports || q.hasNewImports) := by
  have hnone : (p.merge q).requests = [] ↔ p.requests = [] ∧ q.requests = [] := by
    rw [requests_merge h, distinctBy_eq_nil_iff, List.append_eq_nil_iff]
  rw [Bool.eq_iff_iff, Bool.or_eq_true]
  simp only [hasNewImports, Bool.not_eq_true', List.isEmpty_eq_false_iff, ne_eq, hnone]
  exact not_and_or

/-! ## Plans that are made -/

/-- The plans that are made from the empty one, by any planner. -/
inductive IsMade (m : Type → Type) [Monad m] [MonadAttach m] : ImportPlan → Prop
  | empty : IsMade m .empty
  | add {plan : ImportPlan} (made : IsMade m plan) (r : ImportRequest) : IsMade m (plan.add r)
  | merge {plan other : ImportPlan} (made : IsMade m plan) (made' : IsMade m other) :
      IsMade m (plan.merge other)
  | declaration {plan plan' : ImportPlan} (made : IsMade m plan) {p : Planner m}
      {d : TypeDeclaration} (planned : CanReturn (p.planDeclaration plan d) plan') : IsMade m plan'
  | type {plan plan' : ImportPlan} (made : IsMade m plan) {p : Planner m} {t : TypeExpr}
      (planned : CanReturn (p.planType plan t) plan') : IsMade m plan'
  | hook {plan plan' : ImportPlan} (made : IsMade m plan) {p : Planner m} {hook : String}
      (planned : CanReturn (p.planHook plan hook) plan') : IsMade m plan'

/-- Planning for a declaration repeats nothing. -/
private theorem IsDistinct.plans {i : ModuleIndex} {d : TypeDeclaration} {plan plan' : ImportPlan}
    (h : plan.IsDistinct) (hplans : i.Plans d plan plan') : plan'.IsDistinct := by
  cases hplans with
  | blocked name => exact h.block name
  | satisfied _ => exact h.satisfy _
  | asked _ _ => exact h.add _

/-- Planning for several declarations repeats nothing. -/
private theorem IsDistinct.plansAll {i : ModuleIndex} {ds : List TypeDeclaration}
    {plan plan' : ImportPlan} (h : plan.IsDistinct) (hplans : i.PlansAll ds plan plan') :
    plan'.IsDistinct := by
  induction hplans with
  | nil plan => exact h
  | cons hd _ ih => exact ih (h.plans hd)

variable [LawfulMonad m] [LawfulMonadAttach m]

/-- Planning for a hook repeats nothing. -/
theorem IsDistinct.planHook {p : Planner m} {hook : String} {plan plan' : ImportPlan}
    (h : plan.IsDistinct) (hplanned : CanReturn (p.planHook plan hook) plan') :
    plan'.IsDistinct := by
  rw [Planner.planHook] at hplanned
  obtain ⟨found, -, hplanned⟩ := canReturn_bind hplanned
  split at hplanned
  · obtain rfl := eq_of_canReturn_pure hplanned
    exact h.satisfy hook
  · obtain ⟨resolved, -, hplanned⟩ := canReturn_bind hplanned
    obtain rfl := eq_of_canReturn_pure hplanned
    exact h.add _

/-- Every plan that is made asks for each name once and notes each name once. -/
theorem IsMade.isDistinct {plan : ImportPlan} (h : IsMade m plan) : plan.IsDistinct := by
  induction h with
  | empty => exact isDistinct_empty
  | add _ r ih => exact ih.add r
  | merge _ _ ih _ => exact ih.merge _
  | declaration _ planned ih => exact ih.plans (Planner.plans_of_planDeclaration planned)
  | type _ planned ih => exact ih.plansAll (Planner.plansAll_of_foldlM planned)
  | hook _ planned ih => exact ih.planHook planned

/-- Plans that are made are an idempotent monoid: merging is the same in any grouping, the empty
plan changes nothing, and neither does a plan merged with itself. A merged plan asks for the first
of all requests for each name, and can be imported exactly if both plans can. -/
theorem merge_isIdempotentMonoid :
    (∀ p, IsMade m p → p.IsDistinct ∧ empty.merge p = p ∧ p.merge empty = p ∧ p.merge p = p) ∧
    (∀ p q r, IsMade m p → IsMade m q → IsMade m r →
      (p.merge q).merge r = p.merge (q.merge r)) ∧
    ∀ p q, IsMade m p → IsMade m q →
      (p.merge q).requests = distinctBy ImportRequest.identity (p.requests ++ q.requests) ∧
      (p.merge q).isImportable = (p.isImportable && q.isImportable) ∧
      (p.merge q).hasNewImports = (p.hasNewImports || q.hasNewImports) := by
  refine ⟨fun p hp => ?_, fun p q r hp hq _ => ?_, fun p q hp _ => ?_⟩
  · have h := hp.isDistinct
    exact ⟨h, empty_merge h, merge_empty h, merge_self h⟩
  · exact merge_assoc hp.isDistinct hq.isDistinct r
  · have h := hp.isDistinct
    exact ⟨requests_merge h q, isImportable_merge p q, hasNewImports_merge h q⟩

/-- A request for a type of the rendering library, by the package or by that of its typings. -/
def componentType (specifier : String) : ImportRequest :=
  { specifier, imported := "FC", kind := .named, localName := "FC" }

/-- A module without imports. -/
def plainCard : Source :=
  .parsed (Language.snippetPath .tsx) .tsx "function Card() \x7b return null; \x7d\n"

set_option maxRecDepth 100000 in
/-- The types package of a module does not stand for the module when a hook is requested. -/
private theorem planHook_plainCard :
    ∃ p, (Workspace.fresh ⟨.empty, none⟩).planner plainCard = .ok p ∧
      ∃ plan, p.planHook (empty.add (componentType "react")) "useMemo" = .ok plan ∧
        (distinctBy ImportRequest.identity (componentType "@types/react" :: plan.requests)).map
            (fun r => (r.specifier, r.localName)) =
          [("@types/react", "FC"), ("react", "useMemo")] := by
  decide +kernel

/-- The typings of a package and the package itself are one module, so its type is asked for
once, by the specifier that came first. -/
theorem requests_merge_typings :
    ∃ plan, IsMade (Except Failure) plan ∧
      IsMade (Except Failure) (empty.add (componentType "@types/react")) ∧
      ((empty.add (componentType "@types/react")).merge plan).requests =
        distinctBy ImportRequest.identity (componentType "@types/react" :: plan.requests) ∧
      ((empty.add (componentType "@types/react")).merge plan).requests.map
        (fun r => (r.specifier, r.localName)) = [("@types/react", "FC"), ("react", "useMemo")] := by
  obtain ⟨p, -, plan, hplan, hnames⟩ := planHook_plainCard
  have htypings : IsMade (Except Failure) (empty.add (componentType "@types/react")) :=
    .add .empty _
  have hmade : IsMade (Except Failure) plan :=
    .hook (.add .empty (componentType "react")) hplan
  have hmerge := (merge_isIdempotentMonoid (m := Except Failure)).2.2 _ plan htypings hmade
  refine ⟨plan, hmade, htypings, hmerge.1, ?_⟩
  rw [hmerge.1]
  exact hnames

end ImportPlan

end StableProps
