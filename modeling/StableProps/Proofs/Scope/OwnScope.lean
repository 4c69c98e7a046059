import StableProps.Proofs.Scope.Enclosing
import StableProps.Proofs.Scope.Function
import StableProps.Syntax.Parse

/-!
# The scope of a function

A function that the visit reaches for its own sake has a scope, which holds the names of its
parameters, so what refers to them inside is found inside. The visit does not go everywhere: of
patterns, heads of loops and clauses that catch it takes the names only, so a function in a default
there has no scope. And a name of a parameter that stands behind dots that a comment follows is not
declared.
-/

namespace StableProps

namespace Event

/-! ## Where the visit does not go -/

/-- A child is the default of a parameter, which has a pattern other than `this`. -/
def IsDefault (n c : Node) : Prop :=
  (parameterPattern? ⟨n, []⟩).isSome = true ∧
    (n.isOneOf [.requiredParameter, .optionalParameter] = true ∧ c.field = some .value ∨
      n.is .assignmentPattern = true ∧ c.field = some .right)

/-- The parts of a visited place that are passed over. -/
inductive Visit.Omits (u : Visit) (c : Node) : Prop where
  /-- Of a function all but the list of its parameters and its body: its name, its types and a
  parameter without parentheses. -/
  | ofFunction (role : u.role = .plain) (node : u.place.node.isFunction = true)
      (part : c.field ≠ some .parameters ∧ c.field ≠ some .body)
  /-- Of a declaration of variables what is none of them. -/
  | ofDeclaration (role : u.role = .plain)
      (node : ∃ k ∈ [Kind.lexicalDeclaration, .variableDeclaration], u.place.node.kind? = some k)
      (part : c.is .variableDeclarator = false)
  /-- All of an import, a type or an enumeration. -/
  | ofStatement (role : u.role = .plain)
      (node : ∃ k ∈ [Kind.importStatement, .interfaceDeclaration, .typeAliasDeclaration,
        .enumDeclaration], u.place.node.kind? = some k)
  /-- The head of a loop over keys or values, apart from what it runs through. -/
  | ofLoop (role : u.role = .plain) (node : u.place.node.kind? = some .forInStatement)
      (part : c.field ≠ some .right ∧ c.field ≠ some .body)
  /-- What a clause catches. -/
  | ofClause (role : u.role = .plain) (node : u.place.node.kind? = some .catchClause)
      (part : c.field ≠ some .body)
  /-- The marks in a list of parameters. -/
  | ofParameters (role : u.role = .parameterList) (part : c.isNamed = false)
  /-- Of a parameter all but its default. -/
  | ofParameter (role : u.role = .parameter) (part : ¬IsDefault u.place.node c)
  /-- Of a variable all but its value. -/
  | ofDeclarator (hoisted : Bool) (role : u.role = .declarator hoisted)
      (part : c.field ≠ some .value)

namespace Visit

variable {root : Node} {u v w : Visit} {c : Node}

private theorem parameterPart_eq_ignored_iff {n c : Node} :
    parameterPart n c = .ignored ↔ ¬IsDefault n c := by
  simp only [parameterPart, IsDefault, Node.isOneOf, Node.is]
  cases (parameterPattern? ⟨n, []⟩).isSome with
  | false => simp
  | true =>
    cases hlabel : n.label with
    | token t => simp
    | rule k => cases k <;> simp

private theorem functionPart_eq_ignored_iff {c : Node} :
    functionPart c = .ignored ↔ c.field ≠ some .parameters ∧ c.field ≠ some .body := by
  rw [functionPart]
  split
  next hfield => simp [hfield]
  next hlist =>
    split
    next hfield => split <;> simp [hfield]
    next hbody => exact iff_of_true rfl ⟨hlist, hbody⟩

/-- Below a visit that is no function exactly the omitted parts are ignored. -/
theorem omits_of_plainPart {c : Node} (hrole : u.role = .plain)
    (h : plainPart u.place.node c = .ignored) : u.Omits c := by
  rw [plainPart] at h
  split at h
  next hfunction => exact .ofFunction hrole hfunction (functionPart_eq_ignored_iff.1 h)
  next =>
    split at h
    next hkind =>
      refine .ofDeclaration hrole ⟨_, by simp, hkind⟩ ?_
      by_contra hpart
      simp [hpart] at h
    next hkind =>
      refine .ofDeclaration hrole ⟨_, by simp, hkind⟩ ?_
      by_contra hpart
      simp [hpart] at h
    next hkind => exact .ofStatement hrole ⟨_, by simp, hkind⟩
    next hkind => exact .ofStatement hrole ⟨_, by simp, hkind⟩
    next hkind => exact .ofStatement hrole ⟨_, by simp, hkind⟩
    next hkind => exact .ofStatement hrole ⟨_, by simp, hkind⟩
    next hkind =>
      refine .ofLoop hrole hkind (not_or.1 fun hpart => ?_)
      rw [if_pos hpart] at h
      cases h
    next hkind =>
      refine .ofClause hrole hkind fun hpart => ?_
      rw [if_pos hpart] at h
      cases h
    next => cases h

/-- Below a visit the omitted parts are ignored, and no other ones. -/
theorem role_child_eq_ignored_iff (hrole : u.role ≠ .ignored) :
    (u.child c).role = .ignored ↔ u.Omits c := by
  constructor
  · intro h
    change roleOf u.role u.place.node c = .ignored at h
    cases hr : u.role with
    | plain =>
      rw [hr] at h
      exact omits_of_plainPart hr h
    | parameterList =>
      simp only [hr, roleOf] at h
      refine .ofParameters hr ?_
      by_contra hnamed
      simp [hnamed] at h
    | parameter =>
      rw [hr] at h
      exact .ofParameter hr (parameterPart_eq_ignored_iff.1 h)
    | functionBlock | transparent =>
      rw [hr] at h
      cases h
    | declarator hoisted =>
      simp only [hr, roleOf] at h
      refine .ofDeclarator hoisted hr fun hfield => ?_
      simp [hfield] at h
    | ignored => exact absurd hr hrole
  · intro h
    change roleOf u.role u.place.node c = .ignored
    have hother {k : Kind} (hk : functionKinds.contains k = false)
        (hkind : u.place.node.kind? = some k) : ¬u.place.node.isFunction = true := by
      rw [isFunction_of_kind? hkind, hk]
      exact Bool.false_ne_true
    cases h with
    | ofFunction hr hfunction hpart =>
      rw [hr, roleOf, plainPart, if_pos hfunction]
      exact functionPart_eq_ignored_iff.2 hpart
    | ofDeclaration hr hnode hpart =>
      obtain ⟨k, hk, hkind⟩ := hnode
      simp only [List.mem_cons, List.not_mem_nil, or_false] at hk
      rcases hk with rfl | rfl <;>
        simp [hr, roleOf, plainPart, hother rfl hkind, hkind, hpart]
    | ofStatement hr hnode =>
      obtain ⟨k, hk, hkind⟩ := hnode
      simp only [List.mem_cons, List.not_mem_nil, or_false] at hk
      rcases hk with rfl | rfl | rfl | rfl <;>
        simp [hr, roleOf, plainPart, hother rfl hkind, hkind]
    | ofLoop hr hkind hpart => simp [hr, roleOf, plainPart, hother rfl hkind, hkind, hpart]
    | ofClause hr hkind hpart => simp [hr, roleOf, plainPart, hother rfl hkind, hkind, hpart]
    | ofParameters hr hpart => simp [hr, roleOf, hpart]
    | ofParameter hr hpart =>
      rw [hr]
      exact parameterPart_eq_ignored_iff.2 hpart
    | ofDeclarator hoisted hr hpart => simp [hr, roleOf, hpart]

/-- A place is ignored exactly if it lies in an omitted part of a visited one. -/
theorem role_eq_ignored_iff (hv : (ofRoot root).Leads v) :
    v.role = .ignored ↔ ∃ (u : Visit) (c : Node), (ofRoot root).Leads u ∧
      c ∈ u.place.node.children ∧ u.Omits c ∧ u.place.down c ∈ v.place.outward := by
  constructor
  · intro h
    induction hv with
    | refl => cases h
    | @child w c hw hc ih =>
      by_cases hrole : w.role = .ignored
      · obtain ⟨u, d, hu, hd, homits, hmem⟩ := ih hrole
        exact ⟨u, d, hu, hd, homits, List.mem_cons_of_mem _ hmem⟩
      · exact ⟨w, c, hw, hc, (role_child_eq_ignored_iff hrole).1 h, Focus.mem_outward_self _⟩
  · rintro ⟨u, c, hu, hc, homits, hmem⟩
    have hrole : u.role ≠ .ignored := by cases homits <;> simp_all
    exact ignored_of_mem_outward hv (hu.child hc) ((role_child_eq_ignored_iff hrole).2 homits) hmem

end Visit

end Event

/-! ## Parameters -/

/-- The pattern of a place in a list of parameters: a part of the place if types may be written
there, else the place itself. -/
inductive Focus.IsPatternOf (q : Focus) : Focus → Prop where
  | typed {p : Focus} (kind : q.node.isOneOf [.requiredParameter, .optionalParameter] = true)
      (child : q.child? .pattern = some p) : IsPatternOf q p
  | untyped (kind : q.node.isOneOf [.requiredParameter, .optionalParameter] = false) :
      IsPatternOf q q

/-- A pattern by which a function takes a parameter. -/
inductive Focus.HasParameter (f : Focus) : Focus → Prop where
  /-- A name without parentheses. -/
  | single {p : Focus} (child : f.child? .parameter = some p)
      (name : p.node.is .identifier = true) : HasParameter f p
  /-- The pattern of a place in the list of parameters. -/
  | listed {list param : Node} {p : Focus} (mem : list ∈ f.node.children)
      (field : list.field = some .parameters) (param_mem : param ∈ list.children)
      (named : param.isNamed = true) (pattern : ((f.down list).down param).IsPatternOf p) :
      HasParameter f p

namespace Event

open Focus (IsPatternOf HasParameter)

variable {p q n : Focus}

private theorem is_thisKeyword_of_binds (h : p.Binds n) : p.node.is .thisKeyword = false := by
  by_contra hthis
  rw [Bool.not_eq_false] at hthis
  have hkind := h.isOneOf
  rw [Node.isOneOf, eq_of_beq hthis] at hkind
  cases hkind

/-- The names that the pattern of a parameter binds are those of the pattern that the visit takes,
which leaves out a default. -/
theorem exists_parameterPattern? (h : q.IsPatternOf p) (hn : p.Binds n) :
    ∃ p', parameterPattern? q = some p' ∧ p'.Binds n ∧ (p'.Hides n ↔ p.Hides n) := by
  cases h with
  | typed hkind hchild =>
    refine ⟨p, Option.filter_eq_some_iff.2 ⟨?_, by simp [is_thisKeyword_of_binds hn]⟩, hn, Iff.rfl⟩
    cases hlabel : q.node.label with
    | token t => simp [Node.isOneOf, hlabel] at hkind
    | rule k =>
      simp only [Node.isOneOf, hlabel, List.contains_cons, List.contains_nil, Bool.or_false,
        Bool.or_eq_true, beq_iff_eq] at hkind
      rcases hkind with rfl | rfl <;> exact hchild
  | untyped hkind =>
    rw [Node.isOneOf] at hkind
    by_cases hdefault : p.node.label = .rule .assignmentPattern
    · cases hn with
      | name hname => simp [Node.isOneOf, hdefault] at hname
      | @part _ p' _ hpart hrest =>
        have hhides := hpart.hides_iff hrest
        cases hpart with
        | target _ hchild =>
          refine ⟨p', Option.filter_eq_some_iff.2 ⟨?_, by simp [is_thisKeyword_of_binds hrest]⟩,
            hrest, ?_⟩
          · rw [hdefault]
            exact hchild
          · rw [hhides, or_iff_right]
            rintro ⟨hdots, -⟩
            simp [Node.is, hdefault] at hdots
        | entry hother | value hother | element hother | rest hother =>
          simp [Node.is, hdefault] at hother
    · refine ⟨p, Option.filter_eq_some_iff.2 ⟨?_, by simp [is_thisKeyword_of_binds hn]⟩, hn,
        Iff.rfl⟩
      split <;> simp_all

namespace Visit

variable {root : Node} {u v : Visit}

/-- A parameter keeps the names of its pattern. -/
theorem keeps_of_parameterPattern? (hrole : u.role = .parameter)
    (hp : parameterPattern? u.place = some p) (hn : n ∈ p.walk) : u.Keeps n := by
  have hchild (c : Node) : (u.child c).role = parameterPart u.place.node c := by
    rw [child, hrole]
    rfl
  rcases parameterPattern?_cases hp with ⟨rfl, hignored⟩ | ⟨c, hc, rfl, hignored⟩
  · rw [Focus.walk, Focus.walkFrom_eq] at hn
    rcases List.mem_cons.1 hn with heq | hn
    · exact .inl ⟨heq, hrole⟩
    · obtain ⟨c, hc, hn⟩ := Focus.mem_walkAll.1 hn
      exact .inr ⟨c, hc, hn, (hchild c).trans (hignored c)⟩
  · exact .inr ⟨c, hc, hn, (hchild c).trans hignored⟩

/-- A place in the list of parameters is visited as a parameter, in the scope of the function. -/
theorem parameter_of_function (hrole : v.role = .plain) (hfunction : v.place.node.isFunction = true)
    {list param : Node} (hfield : list.field = some .parameters) (hnamed : param.isNamed = true) :
    ((v.child list).child param).role = .parameter ∧
      ((v.child list).child param).scopes.current = v.place.id := by
  have hlist : (v.child list).role = .parameterList := by
    rw [child, hrole, roleOf, plainPart, if_pos hfunction, functionPart, if_pos hfield]
  constructor
  · change roleOf (v.child list).role list param = .parameter
    rw [hlist, roleOf, if_pos hnamed]
  · have hscopes : ((v.child list).child param).scopes = v.inner := by
      change (v.child list).inner = v.inner
      rw [inner, hlist]
      rfl
    rw [hscopes, inner_of_isFunction hrole hfunction]
    rfl

end Visit

/-- The name at a place is declared as a parameter, in the scope of a number. -/
structure IsParameter (root : Node) (scope : Nat) (n : Focus) : Prop where
  symbol : ∃ σ, (ScopeTree.ofModule root).declaredAt? n = some σ ∧ σ.binding = n ∧
    σ.name = n.node.text ∧ σ.kind = .parameter ∧ σ.scope = scope
  entry : (ScopeTree.ofModule root).HasAt scope .value n.node.text

namespace Visit

variable {root : Node} {v : Visit}

/-- The parameter without parentheses is declared. -/
theorem isParameter_of_single (hroot : root.WellFormed) (hv : (ofRoot root).Leads v)
    (hrole : v.role = .plain) (hfunction : v.place.node.isFunction = true)
    (hchild : v.place.child? .parameter = some p) : IsParameter root v.place.id p := by
  obtain ⟨c, hc, hfield, rfl⟩ := exists_of_child? hchild
  have hkeeps : v.Keeps (v.place.down c) := by
    refine .inr ⟨c, hc, Focus.mem_walk_self _, ?_⟩
    rw [child, hrole, roleOf, plainPart, if_pos hfunction]
    exact functionPart_eq_ignored_iff.2 (by simp [hfield])
  have hevent : declare v.place.id .parameter (v.place.down c) [.value] ⟨v.place.down c, []⟩ ∈
      ofModule root := by
    refine mem_ofModule_iff.2 (.inr ⟨v, hv, ?_⟩)
    rw [events, hrole, enter, enterPlain, if_pos hfunction, hchild]
    exact List.mem_append_right _ (List.mem_singleton_self _)
  obtain ⟨σ, hσ⟩ := ScopeTree.exists_declaredAt? ⟨_, hevent⟩
  obtain ⟨hbinding, spaces, hmem⟩ := hkeeps.of_declaredAt? hroot hv (by simp [hrole]) hσ
  obtain ⟨hdeclares, hname⟩ := declares_of_mem hmem
  refine ⟨⟨σ, hσ, hbinding, hbinding ▸ hname, ?_⟩,
    ScopeTree.hasAt_of_declared hevent (List.mem_singleton_self _)⟩
  cases hdeclares with
  | singleParameter _ _ hkind _ _ hscope => exact ⟨hkind, hscope⟩
  | functionName _ _ _ _ hother _ =>
    obtain ⟨d, -, hdfield, hd⟩ := exists_of_child? hother
    obtain rfl : c = d := congrArg Focus.node (hbinding.symm.trans hd)
    rw [hfield] at hdfield
    cases hdfield
  | typeName _ hno => simp [hfunction] at hno
  | imported _ hno =>
    rw [isFunction_of_kind? hno] at hfunction
    cases hfunction
  | head _ _ hno =>
    rcases hno with ⟨hno, -⟩ | ⟨hno, -⟩ <;>
    · rw [isFunction_of_kind? hno] at hfunction
      cases hfunction
  | parameter hno | declarator _ hno =>
    rw [hrole] at hno
    cases hno

/-- A function declares the names of its parameters, except behind dots that a comment follows. -/
theorem isParameter_of_hasParameter (hroot : root.WellFormed) (hv : (ofRoot root).Leads v)
    (hrole : v.role = .plain) (hfunction : v.place.node.isFunction = true)
    (h : v.place.HasParameter p) (hn : p.Binds n) :
    (p.Hides n → (ScopeTree.ofModule root).declaredAt? n = none) ∧
      (¬p.Hides n → IsParameter root v.place.id n) := by
  cases h with
  | single hchild hname =>
    have hself : n = p := by
      cases hn with
      | name => rfl
      | part hpart _ =>
        have hkind := hpart.isOneOf
        rw [Node.isOneOf, eq_of_beq hname] at hkind
        cases hkind
    obtain ⟨-, hopen⟩ := (Focus.binds_and_not_hides_iff_of_name (n := p)
      (by rw [Node.isOneOf, eq_of_beq hname]; rfl)).2 rfl
    rw [hself]
    exact ⟨fun hhides => absurd hhides hopen,
      fun _ => isParameter_of_single hroot hv hrole hfunction hchild⟩
  | @listed list param _ hlist hfield hparam hnamed hpattern =>
    obtain ⟨hparameter, hcurrent⟩ := parameter_of_function hrole hfunction hfield hnamed
    obtain ⟨p', hp', hbinds, hhides⟩ := exists_parameterPattern? hpattern hn
    have hu := (hv.child hlist).child hparam
    have hevents : ((v.child list).child param).events = p'.bindings.map
        (declare v.place.id .parameter ((v.place.down list).down param) [.value]) := by
      rw [events, hparameter, enter, hcurrent]
      change ((parameterPattern? ((v.place.down list).down param)).toList.flatMap
        Focus.bindings).map _ = _
      rw [hp', Option.toList_some, List.flatMap_singleton]
      rfl
    obtain ⟨hnone, hsome⟩ := (keeps_of_parameterPattern? hparameter hp'
      hbinds.mem_walk).declaredAt?_of_pattern hroot hu (by simp [hparameter]) hevents hbinds
    rw [hhides] at hnone hsome
    refine ⟨hnone, fun hopen => ?_⟩
    obtain ⟨⟨path, hσ⟩, hentry⟩ := hsome hopen
    exact ⟨⟨_, hσ, rfl, rfl, rfl, rfl⟩, hentry⟩

end Visit

end Event

/-! ## Scopes of functions -/

namespace ScopeTree

open Event (Visit IsParameter)

variable {root : Node} {v : Visit} {f : Focus}

/-- A function that is visited for its own sake has a scope of its own. -/
theorem exists_ownScope? (hroot : root.WellFormed) (hv : (Visit.ofRoot root).Leads v)
    (hrole : v.role = .plain) (hfunction : v.place.node.isFunction = true) :
    ∃ s, (ofModule root).ownScope? v.place = some s ∧ s.opener = v.place ∧
      (ofModule root).scope? v.place.id = some s := by
  have hinner := Visit.inner_of_isFunction hrole hfunction
  obtain ⟨rest, hevents⟩ :=
    Visit.exists_events_eq_cons hrole (Event.opensScope_of_isFunction hfunction)
  have hopened : .opened v.place (v.scopes.map Node.id) ∈ Event.ofModule root :=
    Event.mem_ofModule_iff.2 (.inr ⟨v, hv, hevents ▸ List.mem_cons_self⟩)
  obtain ⟨s, hs, hopener, -⟩ := exists_scope?_eq hroot hopened
  refine ⟨s, ?_, hopener, hs⟩
  rcases lookup_homes_place hroot hv with hlookup | ⟨-, hsame⟩
  · rw [ownScope?, hlookup, hinner]
    exact hs
  · rw [hinner] at hsame
    exact absurd hsame (List.cons_ne_self _ _)

/-- A name that the scope of a function has is found inside the function from all places there. -/
theorem exists_opener_inside_of_resolve (hroot : root.WellFormed)
    (hv : (Visit.ofRoot root).Leads v) (hrole : v.role = .plain)
    (hfunction : v.place.node.isFunction = true) {g : Focus} (hg : g ∈ v.place.walk)
    (hentry : (ofModule root).HasAt v.place.id .value g.node.text)
    (hnone : (ofModule root).declaredAt? g = none) :
    ∃ σ s, (ofModule root).resolve g = some σ ∧ (ofModule root).scope? σ.scope = some s ∧
      v.place ∈ s.opener.outward := by
  obtain ⟨w, hw, rfl⟩ := Visit.exists_leads_of_mem_walk hg
  have hwroot := hv.trans hw
  obtain ⟨l, hl, hopen⟩ := Visit.exists_inner_eq_inner hw
  rw [Visit.inner_of_isFunction hrole hfunction, List.append_cons] at hl
  -- The scopes around the place are those opened in the function, its own included, and outer ones.
  have hinside : ∀ n ∈ l ++ [v.place.node], ∃ h ∈ w.place.outward, v.place ∈ h.outward ∧
      h.node = n := by
    intro n hn
    rcases List.mem_append.1 hn with hn | hn
    · obtain ⟨h, hh, hstrict, heq⟩ := hopen n hn
      exact ⟨h, hh, List.mem_cons_of_mem _ hstrict, heq⟩
    · exact ⟨v.place, Visit.place_mem_outward hw, Focus.mem_outward_self _,
        (List.mem_singleton.1 hn).symm⟩
  obtain ⟨own, hown, hhas⟩ := hentry
  have hmem : own ∈ (ofModule root).ofOpen (l ++ [v.place.node]) :=
    List.mem_filterMap.2 ⟨v.place.node, by simp, hown⟩
  have hsome : (((ofModule root).ofOpen (l ++ [v.place.node])).findSome? fun s =>
      (s.table .value).lookup w.place.node.text).isSome = true :=
    List.findSome?_isSome_iff.2 ⟨own, hmem, Scope.has_iff.1 hhas⟩
  obtain ⟨σ, hσ⟩ := Option.isSome_iff_exists.1 hsome
  have hresolve : (ofModule root).resolve w.place = some σ := by
    rw [resolve, hnone]
    change (ofModule root).lookup w.place w.place.node.text .value = some σ
    rw [lookup, chainFor_place hroot hwroot, hl, ofOpen, List.filterMap_append,
      List.findSome?_append]
    exact Option.or_eq_some_iff.2 (.inl hσ)
  obtain ⟨s, hs, hfound⟩ := List.exists_of_findSome?_eq_some hσ
  obtain ⟨n, hn, hscope⟩ := List.mem_filterMap.1 hs
  obtain ⟨hsmem, hid⟩ := mem_of_scope? hscope
  obtain ⟨-, hsymbol, -⟩ := sound_ofModule root s hsmem .value _ (mem_of_lookup hfound)
  obtain ⟨h, hh, hin, rfl⟩ := hinside n hn
  have hopener : s.opener = h :=
    (opener_isIn hsmem).eq_of_id_eq hroot ((Visit.isIn hwroot).of_mem_outward hh) hid
  refine ⟨σ, s, hresolve, ?_, hopener ▸ hin⟩
  rw [show σ.scope = h.node.id from hsymbol.trans hid]
  exact hscope

/-- The visit passes a function over: it lies in an omitted part of a visited place, or stands in
the place of a parameter. -/
inductive IsOverlooked (root : Node) (f : Focus) : Prop where
  | omitted {g : Focus} {c : Node} (isIn : g.IsIn root) (mem : c ∈ g.node.children)
      (omits : (Visit.ofPlace root g).Omits c) (around : g.down c ∈ f.outward)
  | parameter (role : (Visit.ofPlace root f).role = .parameter)

/-- A function has a scope that holds the names of its parameters, and what refers to them inside of
the function is found inside. -/
structure HasOwnScope (root : Node) (f : Focus) : Prop where
  /-- There is a scope that the function opens. -/
  scope : ∃ s, (ofModule root).ownScope? f = some s ∧ s.opener = f
  /-- The names that its parameters bind are parameters of this scope. -/
  parameters : ∀ p, f.HasParameter p → ∀ n, p.Binds n → IsParameter root f.id n
  /-- Inside of the function such a name means nothing outside of it. -/
  references : ∀ p, f.HasParameter p → ∀ n, p.Binds n → ∀ g ∈ f.walk, g.node.text = n.node.text →
    (ofModule root).declaredAt? g = none → ∃ σ s, (ofModule root).resolve g = some σ ∧
      (ofModule root).scope? σ.scope = some s ∧ f ∈ s.opener.outward

private theorem isOverlooked_iff (hroot : root.WellFormed)
    (hparts : ∀ n ∈ root.walk, n.partsFit = true)
    (hf : f.IsIn root) (hfunction : f.node.isFunction = true) :
    IsOverlooked root f ↔ (Visit.ofPlace root f).role ≠ .plain := by
  have hv := Visit.leads_ofPlace hf
  have hplace := Visit.place_ofPlace hf
  constructor
  · rintro (⟨hg, hc, homits, hmem⟩ | hrole) hplain
    · have hignored := (Visit.role_eq_ignored_iff hv).2 ⟨_, _, Visit.leads_ofPlace hg,
        by rwa [Visit.place_ofPlace hg], homits, by rwa [Visit.place_ofPlace hg, hplace]⟩
      rw [hplain] at hignored
      cases hignored
    · rw [hplain] at hrole
      cases hrole
  · intro hrole
    rcases Visit.role_of_isFunction hroot hparts hv (by rwa [hplace]) with
      hplain | hignored | hparam
    · exact absurd hplain hrole
    · obtain ⟨u, c, hu, hc, homits, hmem⟩ := (Visit.role_eq_ignored_iff hv).1 hignored
      have hself : Visit.ofPlace root u.place = u :=
        Visit.eq_of_place_eq (Visit.leads_ofPlace (Visit.isIn hu)) hu
          (Visit.place_ofPlace (Visit.isIn hu))
      rw [hplace] at hmem
      exact .omitted (Visit.isIn hu) hc (hself.symm ▸ homits) hmem
    · exact .parameter hparam

/-- Only functions that are visited for their own sake have scopes of their own. -/
theorem HasOwnScope.role_eq_plain (hf : f.IsIn root) (hfunction : f.node.isFunction = true)
    (hroot : root.WellFormed) (h : HasOwnScope root f) : (Visit.ofPlace root f).role = .plain := by
  obtain ⟨s, hs, hopener⟩ := h.scope
  obtain ⟨id, -, hid⟩ := Option.bind_eq_some_iff.1 hs
  rcases opened_cases (opened_of_mem_scopes (mem_of_scope? hid).1) with ⟨heq, -⟩ | ⟨v, hv, hrole,
    heq, -⟩
  · have hno := Node.isFunction_eq_false_of_is hroot.program rfl
    rw [← hopener, heq] at hfunction
    rw [show root.focus.node = root from rfl, hno] at hfunction
    cases hfunction
  · have hplace : (Visit.ofPlace root f).place = v.place :=
      (Visit.place_ofPlace hf).trans (hopener.symm.trans heq)
    rw [Visit.eq_of_place_eq (Visit.leads_ofPlace hf) hv hplace]
    exact hrole

/-- A function that the visit reaches has a scope that holds its parameters exactly if none of
their names stands behind dots that a comment follows. -/
theorem hasOwnScope_iff_of_role (hroot : root.WellFormed) (hv : (Visit.ofRoot root).Leads v)
    (hrole : v.role = .plain) (hfunction : v.place.node.isFunction = true) :
    HasOwnScope root v.place ↔
      ∀ p, v.place.HasParameter p → ∀ n, p.Binds n → ¬p.Hides n := by
  constructor
  · intro h p hp n hn hhides
    obtain ⟨σ, hσ, -⟩ := (h.parameters p hp n hn).symbol
    rw [(Visit.isParameter_of_hasParameter hroot hv hrole hfunction hp hn).1 hhides] at hσ
    cases hσ
  · intro hopen
    have hparameter {p n : Focus} (hp : v.place.HasParameter p) (hn : p.Binds n) :
        IsParameter root v.place.id n :=
      (Visit.isParameter_of_hasParameter hroot hv hrole hfunction hp hn).2 (hopen p hp n hn)
    obtain ⟨s, hs, hopener, -⟩ := exists_ownScope? hroot hv hrole hfunction
    refine ⟨⟨s, hs, hopener⟩, fun p hp n hn => hparameter hp hn, ?_⟩
    intro p hp n hn g hg htext hnone
    refine exists_opener_inside_of_resolve hroot hv hrole hfunction hg ?_ hnone
    rw [htext]
    exact (hparameter hp hn).entry

/-- In a tree of the shape that a parser gives it, a function has a scope that holds its parameters
exactly if the visit does not pass it over and no name of a parameter stands behind dots that a
comment follows. -/
theorem hasOwnScope_iff_of_partsFit (hroot : root.WellFormed)
    (hparts : ∀ n ∈ root.walk, n.partsFit = true) (hf : f.IsIn root)
    (hfunction : f.node.isFunction = true) :
    HasOwnScope root f ↔
      ¬IsOverlooked root f ∧ ∀ p, f.HasParameter p → ∀ n, p.Binds n → ¬p.Hides n := by
  have hplace := Visit.place_ofPlace hf
  have hiff (hrole : (Visit.ofPlace root f).role = .plain) :=
    hasOwnScope_iff_of_role hroot (Visit.leads_ofPlace hf) hrole (by rwa [hplace])
  rw [isOverlooked_iff hroot hparts hf hfunction, not_not]
  rw [hplace] at hiff
  constructor
  · intro h
    have hrole := h.role_eq_plain hf hfunction hroot
    exact ⟨hrole, (hiff hrole).1 h⟩
  · rintro ⟨hrole, hopen⟩
    exact (hiff hrole).2 hopen

/-- A function of a module has a scope that holds its parameters exactly if the visit does not pass
it over and no name of a parameter stands behind dots that a comment follows. -/
theorem hasOwnScope_iff (language : Language) (text : String) (f : Focus)
    (hf : f.IsIn (parse language text)) (hfunction : f.node.isFunction = true) :
    HasOwnScope (parse language text) f ↔
      ¬IsOverlooked (parse language text) f ∧
        ∀ p, f.HasParameter p → ∀ n, p.Binds n → ¬p.Hides n :=
  hasOwnScope_iff_of_partsFit (wellFormed_parse language text) (partsFit_parse language text) hf
    hfunction

private theorem mem_walk_of_hasParameter {p : Focus} (h : f.HasParameter p) : p ∈ f.walk := by
  have hchild {g : Focus} {part : Field} (hg : g ∈ f.walk) (hp : g.child? part = some p) :
      p ∈ f.walk := by
    obtain ⟨c, hc, rfl⟩ := Option.map_eq_some_iff.1 hp
    exact Focus.down_mem_walk hg (Node.mem_of_child? hc)
  cases h with
  | single hp _ => exact hchild (Focus.mem_walk_self f) hp
  | listed hlist _ hparam _ hpattern =>
    have hmem := Focus.down_mem_walk (Focus.down_mem_walk (Focus.mem_walk_self f) hlist) hparam
    cases hpattern with
    | typed _ hp => exact hchild hmem hp
    | untyped _ => exact hmem

/-- A component with a function that takes a parameter of its own. -/
def nestedFunction : Node :=
  parse .tsx "function C(\x7b xs, y \x7d) \x7b return xs.map((x) => x + y); \x7d\n"

set_option maxRecDepth 100000 in
/-- The function in the component has a scope with its parameter. -/
theorem hasOwnScope_nestedFunction :
    ∃ f p, f.node.is .arrowFunction = true ∧ f.HasParameter p ∧ p.Binds p ∧ p.node.text = "x" ∧
      HasOwnScope nestedFunction f := by
  have hfound : ∃ f ∈ nestedFunction.focus.walk,
      (f.node.is .arrowFunction = true ∧ (Visit.ofPlace nestedFunction f).role = .plain) ∧
      ∃ list ∈ f.node.children, list.field = some .parameters ∧
        ∃ param ∈ list.children, (param.isNamed = true ∧
          param.isOneOf [.requiredParameter, .optionalParameter] = true) ∧
          ∃ p ∈ (((f.down list).down param).child? .pattern).toList,
            p.node.isOneOf [.identifier, .shorthandPropertyIdentifierPattern] = true ∧
              p.node.text = "x" := by
    decide +kernel
  have hdots : ∀ r ∈ nestedFunction.focus.walk,
      ¬(r.node.is .restPattern = true ∧ r.node.firstNamed?.any (·.is .comment) = true) := by
    decide +kernel
  obtain ⟨f, hf, ⟨hkind, hrole⟩, list, hlist, hfield, param, hparam, ⟨hnamed, htyped⟩, p, hp,
    hname, htext⟩ := hfound
  have hin := Focus.mem_walk_iff.1 hf
  have hfunction : f.node.isFunction = true := by
    rw [Event.isFunction_of_kind? (Event.kind?_eq_some_iff.2 (eq_of_beq hkind))]
    rfl
  have hparameter : f.HasParameter p :=
    .listed hlist hfield hparam hnamed (.typed htyped (Option.mem_toList.1 hp))
  refine ⟨f, p, hkind, hparameter, .name hname, htext, ?_⟩
  refine (hasOwnScope_iff .tsx _ f hin hfunction).2 ⟨?_, ?_⟩
  · intro hoverlooked
    have hroot : nestedFunction.WellFormed := wellFormed_parse _ _
    exact (isOverlooked_iff hroot (partsFit_parse _ _) hin hfunction).1 hoverlooked hrole
  · rintro q hq n hn ⟨r, hr, -, hcomment⟩
    have hnin : n.IsIn nestedFunction :=
      Focus.isIn_of_mem_walk hin (Focus.mem_walk_trans hn.mem_walk (mem_walk_of_hasParameter hq))
    exact hdots r (Focus.mem_walk_iff.2 (hnin.of_mem_outward hr)) hcomment

/-- A declaration with a function as the default of a name. -/
def functionInDefault : Node := parse .tsx "const \x7b a = b => b \x7d = c;\n"

set_option maxRecDepth 100000 in
/-- Not every function outside of imports and types has a scope. -/
theorem not_forall_hasOwnScope :
    ¬∀ (language : Language) (text : String) (f : Focus), f.IsIn (parse language text) →
      f.node.isFunction = true →
        (∀ g ∈ f.outward, g.node.isOneOf [.importStatement, .interfaceDeclaration,
          .typeAliasDeclaration, .enumDeclaration] = false) →
          HasOwnScope (parse language text) f := by
  intro hall
  have hfound : ∃ f ∈ functionInDefault.focus.walk, (f.node.isFunction = true ∧
      (Visit.ofPlace functionInDefault f).role = .ignored) ∧
      ∀ g ∈ f.outward, g.node.isOneOf [.importStatement, .interfaceDeclaration,
        .typeAliasDeclaration, .enumDeclaration] = false := by
    decide +kernel
  obtain ⟨f, hf, ⟨hfunction, hrole⟩, houtside⟩ := hfound
  have hin := Focus.mem_walk_iff.1 hf
  have hplain := (hall .tsx _ f hin hfunction houtside).role_eq_plain hin hfunction
    (wellFormed_parse _ _)
  rw [hrole] at hplain
  cases hplain

end ScopeTree

end StableProps
