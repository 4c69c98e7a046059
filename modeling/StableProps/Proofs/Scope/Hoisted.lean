import StableProps.Proofs.Scope.Function
import StableProps.Proofs.Scope.Recorded
import StableProps.Syntax.Parse

/-!
# Variables of functions

A name that is declared with `var` means the same in the whole function around it, or in the whole
module if there is none. The visit gives it to this scope wherever the declaration stands, in
blocks, loops and clauses that catch, with two exceptions: the head of a loop over keys or values
keeps its names for the loop, and a name behind dots that a comment follows is not declared at all.
-/

namespace StableProps

/-- The nearest function around a place, or else the whole module. -/
def Focus.functionAround (root : Node) (f : Focus) : Focus :=
  (f.findUp? (·.node.isFunction)).getD root.focus

namespace Focus

private theorem functionAround_of_isFunction {root : Node} {f : Focus}
    (h : f.node.isFunction = true) : f.functionAround root = f := by
  have hfound : f.findUp? (·.node.isFunction) = some f := List.find?_cons_of_pos h
  rw [functionAround, hfound]
  rfl

private theorem functionAround_down {root : Node} {f : Focus} {c : Node}
    (h : c.isFunction = false) : (f.down c).functionAround root = f.functionAround root := by
  rw [functionAround, findUp?, outward, List.find?_cons_of_neg (by simp [down, h])]
  rfl

/-- Two places without a function in between have the same one around them. -/
theorem functionAround_eq {root : Node} {f g : Focus} (hg : g ∈ f.outward)
    (hfree : ∀ h ∈ f.outward, g ∈ ofAbove h.above → h.node.isFunction = false) :
    f.functionAround root = g.functionAround root := by
  obtain ⟨n, above⟩ := f
  induction above generalizing n with
  | nil => rw [List.mem_singleton.1 hg]
  | cons p ps ih =>
    rcases List.mem_cons.1 hg with rfl | hg
    · rfl
    · have hself : n.isFunction = false := hfree _ (mem_outward_self _) hg
      have hstep : (Focus.down ⟨p, ps⟩ n).functionAround root =
          (⟨p, ps⟩ : Focus).functionAround root := functionAround_down hself
      exact hstep.trans (ih p hg fun h hh => hfree h (List.mem_cons_of_mem _ hh))

private theorem functionAround_mem_outward {root : Node} {f : Focus} (hf : f.IsIn root) :
    f.functionAround root ∈ f.outward := by
  rw [functionAround]
  cases hfound : f.findUp? (·.node.isFunction) with
  | none => exact hf.root_mem_outward
  | some g => exact List.mem_of_find?_eq_some hfound

/-- The function around a place is a function, or the module. -/
theorem functionAround_cases (root : Node) (f : Focus) :
    f.functionAround root = root.focus ∨ (f.functionAround root).node.isFunction = true := by
  rw [functionAround]
  cases hfound : f.findUp? (·.node.isFunction) with
  | none => exact .inl rfl
  | some g => exact .inr (List.find?_some (p := fun g : Focus => g.node.isFunction) hfound)

end Focus

namespace Event.Visit

variable {root : Node} {u v : Visit} {n p : Focus}

private theorem function_cons {m : Node} {scopes : OpenScopes} (h : scopes ≠ []) :
    OpenScopes.function (m :: scopes) = if m.isFunction then m.id else scopes.function := by
  cases scopes with
  | nil => exact absurd rfl h
  | cons s rest => rfl

private theorem scopes_ne_nil (hv : (ofRoot root).Leads v) : v.scopes ≠ [] := by
  obtain ⟨l, hl, -⟩ := exists_scopes_eq hv
  simp [hl]

/-- Where something inside is visited, the nearest open scope of a function is that of the function
around the place. -/
theorem function_inner (hroot : root.WellFormed) (hparts : ∀ n ∈ root.walk, n.partsFit = true)
    (hv : (ofRoot root).Leads v) {c : Node} (hc : c ∈ v.place.node.children)
    (hrole : (v.child c).role ≠ .ignored) :
    v.inner.function = (v.place.functionAround root).id := by
  induction hv generalizing c with
  | refl =>
    have hself : (ofRoot root).place.functionAround root = root.focus :=
      List.mem_singleton.1 (Focus.functionAround_mem_outward .root)
    rw [hself]
    rfl
  | @child w d hw hd ih =>
    have hu := hw.child hd
    have hnonempty := scopes_ne_nil hu
    cases hfunction : (w.child d).place.node.isFunction with
    | true =>
      have hplain := role_eq_plain hroot hparts hu hfunction (hu.child hc)
        List.mem_cons_self hrole
      rw [inner_of_isFunction hplain hfunction, function_cons hnonempty, if_pos hfunction,
        Focus.functionAround_of_isFunction hfunction]
      rfl
    | false =>
      have hrole' : (w.child d).role ≠ .ignored := by
        intro hignored
        exact hrole (ignored_of_mem_outward (hu.child hc) hu hignored
          (List.mem_cons_of_mem _ (Focus.mem_outward_self _)))
      have haround : (w.child d).place.functionAround root = w.place.functionAround root :=
        Focus.functionAround_down hfunction
      rw [haround, ← ih hd hrole']
      rcases (w.child d).inner_cases with heq | ⟨-, -, -, heq⟩
      · rw [heq]
        rfl
      · rw [heq, function_cons hnonempty, if_neg (by simp [hfunction])]
        rfl

end Event.Visit

namespace ScopeTree

open Event (Visit)

variable {root : Node} {n p d : Focus}

/-- A place declares names with `var`, by a pattern, where the visit reaches it. -/
inductive IsVarPattern (root : Node) (p : Focus) : Focus → Prop where
  /-- A variable of a declaration. -/
  | declarator {f : Focus} {c : Node} (isIn : f.IsIn root)
      (reached : (Visit.ofPlace root f).role = .plain)
      (node : f.node.is .variableDeclaration = true) (mem : c ∈ f.node.children)
      (kind : c.is .variableDeclarator = true) (pattern : (f.down c).child? .name = some p) :
      IsVarPattern root p (f.down c)
  /-- The head of a loop over keys or values. -/
  | head {f word : Focus} (isIn : f.IsIn root) (reached : (Visit.ofPlace root f).role = .plain)
      (node : f.node.is .forInStatement = true) (kind : f.child? .kind = some word)
      (var : word.node.isToken "var" = true) (pattern : f.child? .left = some p) :
      IsVarPattern root p f

/-- A name belongs to the nearest function around it, or to the module if there is none. -/
structure IsHoisted (root : Node) (n : Focus) : Prop where
  /-- The symbol that the name declares belongs to the scope of the function. -/
  symbol : ∃ σ, (ofModule root).declaredAt? n = some σ ∧ σ.binding = n ∧ σ.name = n.node.text ∧
    σ.scope = (n.functionAround root).id
  /-- The function has such a scope, and there is an entry for the name among its values. -/
  entry : ∃ s, (ofModule root).scope? (n.functionAround root).id = some s ∧
    s.opener = n.functionAround root ∧ s.DeclaresValue n.node.text

/-- A declarator of a visited declaration keeps the names of its pattern. -/
theorem keeps_declarator {v : Visit} {c e : Node} (hrole : v.role = .plain)
    (hnode : v.place.node.is .variableDeclaration = true) (hkind : c.is .variableDeclarator = true)
    (he : e ∈ c.children) (hfield : e.field = some .name) {n : Focus}
    (hn : n ∈ ((v.place.down c).down e).walk) :
    (v.child c).role = .declarator true ∧ (v.child c).Keeps n := by
  have hfunction : v.place.node.isFunction = false := Node.isFunction_eq_false_of_is hnode rfl
  have hkind? : v.place.node.kind? = some .variableDeclaration :=
    Event.kind?_eq_some_iff.2 (eq_of_beq hnode)
  have hdeclarator : (v.child c).role = .declarator true := by
    simp [Visit.child, Event.roleOf, hrole, Event.plainPart, hfunction, hkind?, hkind]
  refine ⟨hdeclarator, .inr ⟨e, he, hn, ?_⟩⟩
  change Event.roleOf (v.child c).role c e = .ignored
  rw [hdeclarator]
  simp [Event.roleOf, hfield]

/-- From a name of a declaration up to the declaration there are no functions. -/
theorem functionAround_eq_of_mem_bindings {v : Visit} {c e : Node}
    (hkind : c.is .variableDeclarator = true) {b : Bound}
    (hb : b ∈ ((v.place.down c).down e).bindings) :
    b.place.functionAround root = v.place.functionAround root := by
  have hbinds := Focus.binds_of_mem_bindings hb
  have hmem : v.place ∈ b.place.outward :=
    Focus.mem_outward_trans hbinds.mem_outward
      (List.mem_cons_of_mem _ (List.mem_cons_of_mem _ (Focus.mem_outward_self _)))
  refine Focus.functionAround_eq hmem fun g hg hinside => ?_
  refine (hbinds.mem_ofAbove_or hg).elim (fun habove => ?_) id
  rcases List.mem_cons.1 habove with rfl | habove
  · exact Node.isFunction_eq_false_of_is hkind rfl
  · exact absurd hinside (Focus.not_mem_ofAbove_of_mem_outward habove)

/-- A variable of a declaration is hoisted unless it stands behind dots that a comment follows. -/
theorem isHoisted_iff_of_declarator (hroot : root.WellFormed)
    (hparts : ∀ n ∈ root.walk, n.partsFit = true) {v : Visit} {c : Node}
    (hv : (Visit.ofRoot root).Leads v) (hrole : v.role = .plain)
    (hnode : v.place.node.is .variableDeclaration = true) (hc : c ∈ v.place.node.children)
    (hkind : c.is .variableDeclarator = true)
    (hpattern : (v.place.down c).child? .name = some p) (hn : p.Binds n) :
    IsHoisted root n ↔ ¬p.Hides n := by
  obtain ⟨e, he, hfield, rfl⟩ := Visit.exists_of_child? hpattern
  obtain ⟨hdeclarator, hkeeps⟩ := keeps_declarator hrole hnode hkind he hfield hn.mem_walk
  have hu := hv.child hc
  have hignored : (v.child c).role ≠ .ignored := by simp [hdeclarator]
  have hevents : (v.child c).events = ((v.place.down c).down e).bindings.map
      (Event.declare v.inner.function .plain (v.place.down c) [.value]) := by
    rw [Visit.events, hdeclarator]
    change (((v.place.down c).child? .name).toList.flatMap Focus.bindings).map _ = _
    rw [hpattern, Option.toList_some, List.flatMap_singleton]
    rfl
  have hfunction := Visit.function_inner hroot hparts hv hc hignored
  obtain ⟨hnone, hsome⟩ := hkeeps.declaredAt?_of_pattern hroot hu hignored hevents hn
  constructor
  · rintro ⟨⟨σ, hσ, -⟩, -⟩ hhides
    rw [hnone hhides] at hσ
    cases hσ
  · intro hhides
    obtain ⟨b, hb, hplace⟩ := Focus.mem_places_iff.2 ⟨hn, hhides⟩
    have haround : n.functionAround root = v.place.functionAround root :=
      hplace ▸ functionAround_eq_of_mem_bindings hkind hb
    obtain ⟨⟨path, hσ⟩, s, hs, hhas⟩ := hsome hhides
    refine ⟨⟨_, hσ, rfl, rfl, ?_⟩, s, ?_, ?_, hhas⟩ <;> rw [haround]
    · exact hfunction
    · rw [← hfunction]
      exact hs
    · refine (opener_isIn (mem_of_scope? hs).1).eq_of_id_eq hroot ?_
        ((mem_of_scope? hs).2.trans hfunction)
      exact (Visit.isIn hv).of_mem_outward (Focus.functionAround_mem_outward (Visit.isIn hv))

/-- The head of a loop keeps its names for the loop. -/
theorem not_isHoisted_of_head (hroot : root.WellFormed) {v : Visit}
    (hv : (Visit.ofRoot root).Leads v) (hrole : v.role = .plain)
    (hnode : v.place.node.is .forInStatement = true) (hpattern : v.place.child? .left = some p)
    (hn : p.Binds n) : ¬IsHoisted root n := by
  rintro ⟨⟨σ, hσ, -, -, hscope⟩, -⟩
  obtain ⟨c, hc, hfield, rfl⟩ := Visit.exists_of_child? hpattern
  have hfunction : v.place.node.isFunction = false := Node.isFunction_eq_false_of_is hnode rfl
  have hkind : v.place.node.kind? = some .forInStatement :=
    Event.kind?_eq_some_iff.2 (eq_of_beq hnode)
  have hkeeps : v.Keeps n := by
    refine .inr ⟨c, hc, hn.mem_walk, ?_⟩
    simp [Visit.child, Event.roleOf, hrole, Event.plainPart, hfunction, hkind, hfield]
  obtain ⟨-, spaces, hevent⟩ := hkeeps.of_declaredAt? hroot hv (by simp [hrole]) hσ
  have hloop : σ.scope = v.place.id := by
    cases (Visit.declares_of_mem hevent).1 with
    | head _ _ _ _ _ _ hscope => exact hscope
    | typeName _ _ hname =>
      obtain ⟨k, hk, hname⟩ := hname
      rw [hkind] at hname
      obtain rfl := Option.some.inj hname
      simp [Visit.typeNameKinds] at hk
    | _ => simp_all
  have hin := (Visit.isIn hv).of_mem_outward (Focus.mem_outward_self _)
  have hnin := Focus.isIn_of_mem_walk (Visit.isIn hv) hkeeps.mem_walk
  have hplace : n.functionAround root = v.place :=
    (hnin.of_mem_outward (Focus.functionAround_mem_outward hnin)).eq_of_id_eq hroot hin
      (hscope.symm.trans hloop)
  rcases Focus.functionAround_cases root n with heq | hfunction'
  · have habove := Event.DeclaredIn.above_ne_nil_of_role hv hrole
    rw [← hplace, heq] at habove
    exact habove rfl
  · rw [hplace, hfunction] at hfunction'
    cases hfunction'

/-- In a tree of the shape that a parser gives it, the names of a `var` that a visit reaches belong
to the function around them, except in the head of a loop over keys or values and behind dots that a
comment follows. -/
theorem isHoisted_iff_of_partsFit (hroot : root.WellFormed)
    (hparts : ∀ n ∈ root.walk, n.partsFit = true) {d p n : Focus}
    (hvar : IsVarPattern root p d) (hn : p.Binds n) :
    IsHoisted root n ↔ d.node.is .forInStatement = false ∧ ¬p.Hides n := by
  cases hvar with
  | @declarator f c hf hreached hnode hc hkind hpattern =>
    have hv := Visit.leads_ofPlace hf
    have hplace := Visit.place_ofPlace hf
    have hother : c.is .forInStatement = false := by
      rw [Node.is, eq_of_beq hkind]
      rfl
    rw [isHoisted_iff_of_declarator hroot hparts hv hreached
      (by rwa [hplace]) (by rwa [hplace]) hkind (by rwa [hplace]) hn]
    exact (and_iff_right hother).symm
  | head hf hreached hnode _ _ hpattern =>
    have hplace := Visit.place_ofPlace hf
    refine iff_of_false ?_ fun h => by simp [hnode] at h
    exact not_isHoisted_of_head hroot (Visit.leads_ofPlace hf) hreached (by rwa [hplace])
      (by rwa [hplace]) hn

/-- Where a visit of a module reaches a `var`, its names belong to the function around them, except
in the head of a loop over keys or values and behind dots that a comment follows. -/
theorem isHoisted_iff (language : Language) (text : String) (d p n : Focus)
    (hvar : IsVarPattern (parse language text) p d) (hn : p.Binds n) :
    IsHoisted (parse language text) n ↔ d.node.is .forInStatement = false ∧ ¬p.Hides n :=
  isHoisted_iff_of_partsFit (wellFormed_parse language text) (partsFit_parse language text) hvar hn

/-- A component that declares a variable in a block of its own, by a pattern. -/
def varInBlock : Node :=
  parse .tsx "function C(a) \x7b if (a) \x7b var \x7b b \x7d = a; \x7d return b; \x7d\n"

set_option maxRecDepth 100000 in
/-- The variable of the block belongs to the component. -/
theorem isHoisted_varInBlock :
    ∃ f n, n.node.text = "b" ∧ f.node.is .functionDeclaration = true ∧
      n.functionAround varInBlock = f ∧ IsHoisted varInBlock n := by
  have hfound : ∃ f ∈ varInBlock.focus.walk,
      ((Visit.ofPlace varInBlock f).role = .plain ∧ f.node.is .variableDeclaration = true) ∧
      ∃ c ∈ f.node.children, c.is .variableDeclarator = true ∧
        ∃ p ∈ ((f.down c).child? .name).toList, p.node.is .objectPattern = true ∧
          ∃ e ∈ p.node.children, e.is .shorthandPropertyIdentifierPattern = true ∧
            e.text = "b" ∧
              ((p.down e).functionAround varInBlock).node.is .functionDeclaration = true ∧
                ∀ r ∈ (p.down e).outward, r.node.is .restPattern = false := by
    decide +kernel
  obtain ⟨f, hf, ⟨hreached, hnode⟩, c, hc, hkind, p, hp, hobject, e, he, hname, htext, hfunction,
    hrest⟩ := hfound
  have hentry : e.isOneOf [.shorthandPropertyIdentifierPattern, .objectAssignmentPattern,
      .restPattern] = true := by
    rw [Node.isOneOf, eq_of_beq hname]
    rfl
  have hleaf : (p.down e).node.isOneOf [.identifier, .shorthandPropertyIdentifierPattern] =
      true := by
    change e.isOneOf _ = true
    rw [Node.isOneOf, eq_of_beq hname]
    rfl
  refine ⟨_, p.down e, htext, hfunction, rfl, ?_⟩
  refine (isHoisted_iff .tsx _ (f.down c) p (p.down e) (.declarator (Focus.mem_walk_iff.1 hf)
    hreached hnode hc hkind (Option.mem_toList.1 hp))
    (.part (.entry hobject he hentry) (.name hleaf))).2 ⟨?_, ?_⟩
  · change c.is .forInStatement = false
    rw [Node.is, eq_of_beq hkind]
    rfl
  · rintro ⟨r, hr, -, hdots, -⟩
    rw [hrest r hr] at hdots
    cases hdots

/-- A loop over values whose head declares its variable with `var`. -/
def varInHead : Node := parse .tsx "for (var x of xs) \x7b\x7d\n"

set_option maxRecDepth 100000 in
/-- Not all names that are declared with `var` belong to the function around them. -/
theorem not_forall_isHoisted :
    ¬∀ (language : Language) (text : String) (d p n : Focus),
      IsVarPattern (parse language text) p d → p.Binds n → IsHoisted (parse language text) n := by
  intro hall
  have hfound : ∃ f ∈ varInHead.focus.walk,
      ((Visit.ofPlace varInHead f).role = .plain ∧ f.node.is .forInStatement = true) ∧
      (∃ word ∈ (f.child? .kind).toList, word.node.isToken "var" = true) ∧
        ∃ p ∈ (f.child? .left).toList,
          p.node.isOneOf [.identifier, .shorthandPropertyIdentifierPattern] = true := by
    decide +kernel
  obtain ⟨f, hf, ⟨hreached, hnode⟩, ⟨word, hword, hvar⟩, p, hp, hname⟩ := hfound
  have hin := Focus.mem_walk_iff.1 hf
  have hpattern := Option.mem_toList.1 hp
  have hplace := Visit.place_ofPlace hin
  have hroot : varInHead.WellFormed := wellFormed_parse _ _
  refine not_isHoisted_of_head hroot (Visit.leads_ofPlace hin) hreached (by rwa [hplace])
    (by rw [hplace]; exact hpattern) (.name hname) ?_
  exact hall .tsx _ f p p (.head hin hreached hnode (Option.mem_toList.1 hword) hvar hpattern)
    (.name hname)

end ScopeTree

end StableProps
