import StableProps.Distinct
import StableProps.Proofs.Scope.Recorded
import StableProps.Syntax.Parse

/-!
# Scopes of the places around

A node may have a scope: one that it opens, or, as the block of a function, that of the function.
The scopes around a place are the scopes of its node and of those around it, innermost first and
each once, and the last of them is that of the module. Thus a name is looked up by asking the nodes
around a place one after the other, and what is found belongs to a node around the place.
-/

namespace StableProps

/-- Removing what a search passes over changes nothing. -/
theorem findSome?_filter_of_eq_none {α β : Type} {g : α → Option β} {keep : α → Bool}
    {as : List α} (h : ∀ a ∈ as, keep a = false → g a = none) :
    (as.filter keep).findSome? g = as.findSome? g := by
  induction as with
  | nil => rfl
  | cons a as ih =>
    have htail := ih fun b hb => h b (List.mem_cons_of_mem _ hb)
    by_cases hkeep : keep a = true
    · rw [List.filter_cons_of_pos hkeep, List.findSome?_cons, List.findSome?_cons, htail]
    · rw [List.filter_cons_of_neg hkeep, List.findSome?_cons,
        h a List.mem_cons_self (Bool.eq_false_iff.2 hkeep), htail]

/-- A search finds the same among first occurrences, if equal keys stand for equal elements. -/
theorem findSome?_distinctBy {α β κ : Type} [DecidableEq κ] {key : α → κ} {as : List α}
    (g : α → Option β) (h : ∀ a ∈ as, ∀ b ∈ as, key a = key b → a = b) :
    (distinctBy key as).findSome? g = as.findSome? g := by
  induction as with
  | nil => rfl
  | cons a as ih =>
    have htail := ih fun b hb c hc =>
      h b (List.mem_cons_of_mem _ hb) c (List.mem_cons_of_mem _ hc)
    rw [distinctBy, List.findSome?_cons, List.findSome?_cons]
    cases ha : g a with
    | some b => rfl
    | none =>
      refine (findSome?_filter_of_eq_none ?_).trans htail
      intro b hb hkey
      have heq : key b = key a := by simpa using hkey
      rw [h b (List.mem_cons_of_mem _ (mem_of_mem_distinctBy hb)) a List.mem_cons_self heq]
      exact ha

/-- A search among what a partial function gives asks it for each element in turn. -/
theorem findSome?_filterMap {α β γ : Type} (f : α → Option β) (g : β → Option γ) (as : List α) :
    (as.filterMap f).findSome? g = as.findSome? fun a => (f a).bind g := by
  induction as with
  | nil => rfl
  | cons a as ih =>
    rw [List.filterMap_cons, List.findSome?_cons]
    cases f a with
    | none => exact ih
    | some b => rw [List.findSome?_cons, ih, Option.bind_some]

namespace ScopeTree

open Event (Visit)

/-- The scope that the node at a place has itself. -/
def ownScope? (t : ScopeTree) (g : Focus) : Option Scope := (t.homes.lookup g.id).bind t.scope?

variable {root : Node} {v : Visit}

/-- A visited node has the innermost scope that is open below it, or none and opens none. -/
theorem lookup_homes_place (hroot : root.WellFormed) (hv : (Visit.ofRoot root).Leads v) :
    (ofModule root).homes.lookup v.place.id = some v.inner.current ∨
      (ofModule root).homes.lookup v.place.id = none ∧ v.inner = v.scopes := by
  cases hlookup : (ofModule root).homes.lookup v.place.id with
  | some id =>
    obtain ⟨l₁, l₂, heq, -⟩ := List.lookup_eq_some_iff.1 hlookup
    have hmem : (v.place.id, id) ∈ (ofModule root).homes := by simp [heq]
    exact .inl (congrArg some (eq_current_of_mem_homes hroot hv hmem))
  | none =>
    refine .inr ⟨rfl, ?_⟩
    by_contra hne
    obtain ⟨id, hid⟩ := exists_mem_homes_of_inner_ne hv hne
    have hnone := List.lookup_eq_none_iff.1 hlookup _ hid
    simp at hnone

/-- The scopes around a visited place are the innermost one there and others of other numbers. -/
theorem ofOpen_inner_eq_cons (hroot : root.WellFormed) (hv : (Visit.ofRoot root).Leads v) :
    ∃ s rest, (ofModule root).scope? v.inner.current = some s ∧
      (ofModule root).ofOpen v.inner = s :: rest := by
  obtain ⟨s, hs, hchain⟩ := chain_of_nested hroot (Visit.nested_inner hv)
  exact ⟨s, _, hs, hchain.symm⟩

/-- The scopes that are open below a visited place are those of the nodes around it. -/
theorem distinctBy_ownScope?_place (hroot : root.WellFormed) (hv : (Visit.ofRoot root).Leads v) :
    distinctBy Scope.id (v.place.outward.filterMap (ofModule root).ownScope?) =
      (ofModule root).ofOpen v.inner := by
  induction hv with
  | refl =>
    obtain ⟨r, -, -, -, hr⟩ := exists_rootScope root
    have hhome : (ofModule root).homes.lookup root.id = some root.id := by
      rw [homes_ofModule, Event.ofModule, List.filterMap_cons]
      exact List.lookup_cons_self
    simp [Focus.outward, Visit.ofRoot, Node.focus, Focus.ofAbove, ownScope?, Focus.id, hhome, hr,
      Visit.inner, Event.enter, ofOpen, distinctBy]
  | @child u c hu hc ih =>
    have hw := hu.child hc
    have houtward : (u.child c).place.outward = (u.child c).place :: u.place.outward := rfl
    rw [houtward, List.filterMap_cons, ownScope?]
    rcases lookup_homes_place hroot hw with hlookup | ⟨hlookup, hinner⟩
    · obtain ⟨s, rest, hs, hopen⟩ := ofOpen_inner_eq_cons hroot hw
      rw [hlookup, Option.bind_some, hs]
      simp only [distinctBy]
      rw [ih]
      rcases (u.child c).inner_cases with heq | ⟨-, -, -, heq⟩
      · -- The node stands for the scope that is open already.
        have hsame : (ofModule root).ofOpen u.inner = s :: rest := by
          rw [← hopen, heq]
          rfl
        have hapart := pairwise_distinctBy Scope.id
          (u.place.outward.filterMap (ofModule root).ownScope?)
        rw [ih, hsame] at hapart
        rw [hopen, hsame, List.filter_cons_of_neg (by simp), List.filter_eq_self.2]
        intro x hx
        simpa using (List.rel_of_pairwise_cons hapart hx).symm
      · -- The node opens a scope, which none of those around it is.
        obtain ⟨hmem, hid⟩ := mem_of_scope? hs
        have hsid : s.id = (u.child c).place.id := by
          rw [hid, heq]
          rfl
        have hrest : rest = (ofModule root).ofOpen u.inner := by
          rw [heq] at hopen hs
          rw [ofOpen, List.filterMap_cons, show (ofModule root).scope? (u.child c).place.node.id =
            some s from hs] at hopen
          exact (List.cons.inj hopen).2.symm
        rw [hopen, hrest, List.filter_eq_self.2]
        intro x hx
        rw [decide_eq_true_eq]
        intro hx'
        rw [← chainFor_place hroot hu] at hx
        have hxmem := mem_scopes_of_mem_chainFor hx
        have hopener : x.opener = (u.child c).place :=
          (opener_isIn hxmem).eq_of_id_eq hroot (Visit.isIn hw) (hx'.trans hsid)
        have haround := opener_mem_outward hroot (Visit.isIn hu) hx
        rw [hopener] at haround
        exact Focus.not_mem_ofAbove_of_mem_outward haround (Focus.mem_outward_self u.place)
    · rw [hlookup, Option.bind_none, ih, hinner]
      rfl

/-- The scopes around a place are those of the nodes around it. -/
theorem chainFor_eq_distinctBy (hroot : root.WellFormed) {f : Focus} (hf : f.IsIn root) :
    (ofModule root).chainFor f =
      distinctBy Scope.id (f.outward.filterMap (ofModule root).ownScope?) := by
  obtain ⟨v, hv, rfl⟩ := Visit.exists_leads_of_isIn hf
  rw [chainFor_place hroot hv, distinctBy_ownScope?_place hroot hv]

/-- A name is looked up by asking the nodes around a place for their scopes, innermost first. -/
theorem lookup_eq_findSome? (hroot : root.WellFormed) {f : Focus} (hf : f.IsIn root)
    (name : String) (space : Namespace) :
    (ofModule root).lookup f name space = f.outward.findSome? fun g =>
      ((ofModule root).ownScope? g).bind fun s => (s.table space).lookup name := by
  rw [lookup, chainFor_eq_distinctBy hroot hf, findSome?_distinctBy, findSome?_filterMap]
  intro a ha b hb hid
  obtain ⟨g, -, hg⟩ := List.mem_filterMap.1 ha
  obtain ⟨h, -, hh⟩ := List.mem_filterMap.1 hb
  obtain ⟨i, -, hi⟩ := Option.bind_eq_some_iff.1 hg
  obtain ⟨j, -, hj⟩ := Option.bind_eq_some_iff.1 hh
  have hij : i = j := (mem_of_scope? hi).2.symm.trans (hid.trans (mem_of_scope? hj).2)
  subst hij
  exact Option.some.inj (hi.symm.trans hj)

/-- What is found by looking up belongs to the scope of a place around. -/
theorem exists_opener_of_lookup (hroot : root.WellFormed) {f : Focus} (hf : f.IsIn root)
    {name : String} {space : Namespace} {σ : Symbol}
    (h : (ofModule root).lookup f name space = some σ) :
    σ.name = name ∧ ∃ s ∈ (ofModule root).scopes, s.opener ∈ f.outward ∧ s.id = σ.scope ∧
      (s.table space).lookup name = some σ := by
  obtain ⟨hname, -, s, hs, hscope, hlookup⟩ := exists_of_lookup h
  exact ⟨hname, s, mem_scopes_of_mem_chainFor hs, opener_mem_outward hroot hf hs, hscope.symm,
    hlookup⟩

/-- The names that a list of scopes declares are those for which some of them has a symbol. -/
theorem mem_visibleNames_iff (t : ScopeTree) (f : Focus) (name : String) :
    name ∈ t.visibleNames f ↔
      (t.lookup f name .value).isSome = true ∨ (t.lookup f name .type).isSome = true := by
  rw [visibleNames, List.mem_flatMap, lookup, lookup, List.findSome?_isSome_iff,
    List.findSome?_isSome_iff]
  simp only [List.mem_append, ← Scope.has_iff]
  constructor
  · rintro ⟨s, hs, hname | hname⟩
    · exact .inl ⟨s, hs, hname⟩
    · exact .inr ⟨s, hs, hname⟩
  · rintro (⟨s, hs, hname⟩ | ⟨s, hs, hname⟩)
    · exact ⟨s, hs, .inl hname⟩
    · exact ⟨s, hs, .inr hname⟩

/-- Look-up from a place goes by the nodes around it. -/
structure FollowsTree (root : Node) (f : Focus) : Prop where
  /-- The scopes around the place are those of its node and of the nodes around it, each once and
  innermost first. -/
  chain : (ofModule root).chainFor f =
    distinctBy Scope.id (f.outward.filterMap (ofModule root).ownScope?)
  /-- The last of them is the scope of the module, opened by the root and inside no other one. -/
  ends : ∃ r, ((ofModule root).chainFor f).getLast? = some r ∧ r.opener = root.focus ∧ r.outer = []
  /-- A name is found in the innermost of these scopes that has it, and in none if none has it. -/
  lookup : ∀ name space, (ofModule root).lookup f name space = f.outward.findSome? fun g =>
    ((ofModule root).ownScope? g).bind fun s => (s.table space).lookup name
  /-- A name that declares nothing refers to the value that is found. -/
  resolve : (ofModule root).declaredAt? f = none →
    (ofModule root).resolve f = (ofModule root).lookup f f.node.text .value
  /-- What such a name refers to belongs to a scope around the place. -/
  encloses : (ofModule root).declaredAt? f = none → ∀ σ, (ofModule root).resolve f = some σ →
    σ.name = f.node.text ∧ ∃ s ∈ (ofModule root).scopes, s.opener ∈ f.outward ∧ s.id = σ.scope ∧
      s.values.lookup f.node.text = some σ
  /-- The visible names are those that can be found among values or among types. -/
  visible : ∀ name, name ∈ (ofModule root).visibleNames f ↔
    ((ofModule root).lookup f name .value).isSome = true ∨
      ((ofModule root).lookup f name .type).isSome = true

/-- From every place of a tree, look-up goes by the nodes around it. -/
theorem followsTree_of_isIn (root : Node) (hroot : root.WellFormed) (f : Focus)
    (hf : f.IsIn root) : FollowsTree root f := by
  have hresolve (h : (ofModule root).declaredAt? f = none) :
      (ofModule root).resolve f = (ofModule root).lookup f f.node.text .value := by
    rw [ScopeTree.resolve, h]
  refine ⟨chainFor_eq_distinctBy hroot hf, ?_, lookup_eq_findSome? hroot hf, hresolve, ?_,
    mem_visibleNames_iff _ f⟩
  · obtain ⟨r, hr, hchain, -⟩ := chainFor_eq hroot hf
    obtain ⟨r', hr', hopener, houter, -⟩ := exists_rootScope root
    obtain rfl := Option.some.inj (hr.symm.trans hr')
    exact ⟨r, by rw [hchain, List.getLast?_concat], hopener, houter⟩
  · intro hnone σ hσ
    rw [hresolve hnone] at hσ
    exact exists_opener_of_lookup hroot hf hσ

/-- A function with a loop in which a `var` is declared by a name of the loop. -/
def varInLoop : Node :=
  parse .tsx "function C(xs) \x7b for (const y of xs) \x7b var z = y; \x7d return z; \x7d\n"

set_option maxRecDepth 100000 in
/-- The name of the loop is found in the second of the four scopes around its use. -/
theorem followsTree_varInLoop :
    ∃ f, ((f.IsIn varInLoop ∧ f.node.text = "y" ∧
        f.parent?.any (·.node.is .variableDeclarator) = true ∧
        (ofModule varInLoop).declaredAt? f = none) ∧
      ((ofModule varInLoop).chainFor f).map (·.opener.node.label.name) =
        ["statement_block", "for_in_statement", "function_declaration", "program"] ∧
      ((ofModule varInLoop).resolve f).map (·.scope) =
        ((ofModule varInLoop).chainFor f)[1]?.map Scope.id) ∧ FollowsTree varInLoop f := by
  have hfound : ∃ f ∈ varInLoop.focus.walk,
      (f.node.text = "y" ∧ f.parent?.any (·.node.is .variableDeclarator) = true ∧
      (ofModule varInLoop).declaredAt? f = none) ∧
      ((ofModule varInLoop).chainFor f).map (·.opener.node.label.name) =
        ["statement_block", "for_in_statement", "function_declaration", "program"] ∧
      ((ofModule varInLoop).resolve f).map (·.scope) =
        ((ofModule varInLoop).chainFor f)[1]?.map Scope.id := by
    decide +kernel
  obtain ⟨f, hf, hplace, hchain⟩ := hfound
  have hin := Focus.mem_walk_iff.1 hf
  exact ⟨f, ⟨⟨hin, hplace⟩, hchain⟩, followsTree_of_isIn _ (wellFormed_parse _ _) f hin⟩

end ScopeTree

end StableProps
