import Mathlib.Data.List.Induction
import Mathlib.Data.List.TakeWhile
import StableProps.Proofs.Distinct
import StableProps.Proofs.Lift.References
import StableProps.Proofs.Patch.Imports
import StableProps.Proofs.Scope.Chain
import StableProps.Proofs.Site.Place

/-!
# Exact references

An expression uses the symbols that its names stand for. Those bound outside of it are its
references: each of them once, in the order of first use, no two under the same name. The expression
is left where it is exactly if another function than the component declares one of them. All this
holds as far as types are known. A symbol of the component is classed by its type, so a type that
cannot be told leaves the expression without an answer.
-/

namespace StableProps

/-! ## First uses -/

/-- A list keeps what another one uses: each element once, in the order of first use. -/
inductive FirstUses {α : Type} : List α → List α → Prop where
  | nil : FirstUses [] []
  /-- What was not used before is kept. -/
  | new {uses kept : List α} {a : α} :
      FirstUses uses kept → a ∉ uses → FirstUses (uses ++ [a]) (kept ++ [a])
  /-- What was used before is not kept again. -/
  | again {uses kept : List α} {a : α} :
      FirstUses uses kept → a ∈ uses → FirstUses (uses ++ [a]) kept

/-- The last element is reached if nothing stops before it. -/
theorem mem_takeWhile_append_singleton {α : Type} (passes : α → Bool) (as : List α) (a b : α) :
    a ∈ (as ++ [b]).takeWhile passes ↔
      a ∈ as.takeWhile passes ∨ a = b ∧ passes b = true ∧ ∀ c ∈ as, passes c = true := by
  induction as with
  | nil => by_cases h : passes b = true <;> simp [h]
  | cons c as ih =>
    by_cases h : passes c = true
    · simp [h, ih, or_assoc]
    · simp [h]

namespace FirstUses

variable {α : Type} {uses kept : List α} {a : α}

theorem mem_iff (h : FirstUses uses kept) : a ∈ kept ↔ a ∈ uses := by
  induction h with
  | nil => rfl
  | new _ _ ih => simp [ih]
  | again _ hb ih =>
    rw [ih, List.mem_append, List.mem_singleton]
    exact ⟨.inl, fun h => h.elim id (· ▸ hb)⟩

/-- What is used before anything stops can be told from the first uses. -/
theorem mem_takeWhile_iff (h : FirstUses uses kept) (passes : α → Bool) :
    a ∈ kept.takeWhile passes ↔ a ∈ uses.takeWhile passes := by
  induction h with
  | nil => rfl
  | new h _ ih => simp only [mem_takeWhile_append_singleton, ih, h.mem_iff]
  | @again uses kept b h hb ih =>
    rw [ih, mem_takeWhile_append_singleton]
    refine ⟨.inl, ?_⟩
    rintro (hmem | ⟨rfl, -, hall⟩)
    · exact hmem
    · rwa [List.takeWhile_eq_self_iff.2 hall]

end FirstUses

/-- Where the key tells elements apart, the distinct ones are the first uses. -/
theorem firstUses_distinctBy {α β : Type} [DecidableEq β] {key : α → β} {as : List α}
    (hkey : ∀ a ∈ as, ∀ b ∈ as, key a = key b → a = b) : FirstUses as (distinctBy key as) := by
  induction as using List.reverseRecOn with
  | nil => exact .nil
  | append_singleton as a ih =>
    have has := ih fun b hb c hc =>
      hkey b (List.mem_append_left _ hb) c (List.mem_append_left _ hc)
    by_cases hused : key a ∈ as.map key
    · obtain ⟨b, hb, heq⟩ := List.mem_map.1 hused
      obtain rfl := hkey b (List.mem_append_left _ hb) a (by simp) heq
      rw [distinctBy_append_of_subset (by simpa using hused)]
      exact .again has hb
    · have hlast : distinctBy key (as ++ [a]) = distinctBy key as ++ [a] := by
        rw [distinctBy_append]
        simpa [distinctBy] using hused
      rw [hlast]
      exact .new has fun hmem => hused (List.mem_map_of_mem hmem)

/-! ## The symbols of an expression -/

namespace ScopeTree

variable {root : Node} {expression : Focus}

/-- The symbols bound outside of an expression that its names stand for, one for each name, in the
order of the text. -/
def outerUses (t : ScopeTree) (expression : Focus) : List Symbol :=
  expression.walk.filterMap fun f =>
    if f.node.isOneOf [.identifier, .shorthandPropertyIdentifier] then
      (t.resolve f).filter fun s => !s.binding.isWithin expression
    else none

private theorem mem_outerUses {t : ScopeTree} {σ : Symbol} :
    σ ∈ t.outerUses expression ↔ ∃ f ∈ expression.walk,
      f.node.isOneOf [.identifier, .shorthandPropertyIdentifier] = true ∧
        t.resolve f = some σ ∧ σ.binding.isWithin expression = false := by
  simp [outerUses, List.mem_filterMap, Option.filter_eq_some_iff]

/-- The symbols around an expression are those it uses, told apart by where they are bound. -/
theorem outerSymbols_eq (t : ScopeTree) (expression : Focus) :
    t.outerSymbols expression = distinctBy (·.binding.id) (t.outerUses expression) := by
  rw [outerSymbols, outerUses, List.filterMap_filter, List.filter_filterMap]
  congr 2
  funext f
  split <;> rfl

/-- A symbol that an expression uses is found in the scopes around the expression. -/
theorem lookupIn_of_mem_outerUses (hroot : root.WellFormed) {v : Event.Visit}
    (hv : (Event.Visit.ofRoot root).Leads v) {σ : Symbol}
    (h : σ ∈ (ofModule root).outerUses v.place) :
    Event.DeclaredIn root σ ∧
      lookupIn ((ofModule root).ofOpen v.scopes) σ.name = some σ := by
  obtain ⟨f, hf, -, hresolve, houter⟩ := mem_outerUses.1 h
  have hfound := lookup_of_resolve hroot (Event.Visit.isIn hv) hf hresolve houter
  obtain ⟨hname, hdeclared, -⟩ := exists_of_lookup hfound
  rw [hname]
  exact ⟨hdeclared, lookupIn_of_lookup hroot hv hf hfound houter⟩

/-- Two uses of a name in an expression mean the same symbol if it is bound outside. -/
theorem eq_of_name_eq (hroot : root.WellFormed) (hexpression : expression.IsIn root) {σ τ : Symbol}
    (hσ : σ ∈ (ofModule root).outerUses expression) (hτ : τ ∈ (ofModule root).outerUses expression)
    (h : σ.name = τ.name) : σ = τ := by
  obtain ⟨v, hv, rfl⟩ := Event.Visit.exists_leads_of_isIn hexpression
  have hsame := (lookupIn_of_mem_outerUses hroot hv hτ).2
  rw [← h, (lookupIn_of_mem_outerUses hroot hv hσ).2] at hsame
  exact Option.some.inj hsame

/-- Symbols that an expression uses are told apart by where they are bound. -/
theorem eq_of_binding_id_eq (hroot : root.WellFormed) (hexpression : expression.IsIn root)
    {σ τ : Symbol} (hσ : σ ∈ (ofModule root).outerUses expression)
    (hτ : τ ∈ (ofModule root).outerUses expression) (h : σ.binding.id = τ.binding.id) :
    σ = τ := by
  obtain ⟨v, hv, rfl⟩ := Event.Visit.exists_leads_of_isIn hexpression
  have hσin := (lookupIn_of_mem_outerUses hroot hv hσ).1
  have hτin := (lookupIn_of_mem_outerUses hroot hv hτ).1
  refine eq_of_name_eq hroot hexpression hσ hτ ?_
  rw [hσin.name_eq, hτin.name_eq, hσin.binding_isIn.eq_of_id_eq hroot hτin.binding_isIn h]

/-- The symbols around an expression are its first uses. -/
theorem firstUses_outerSymbols (hroot : root.WellFormed) (hexpression : expression.IsIn root) :
    FirstUses ((ofModule root).outerUses expression)
      ((ofModule root).outerSymbols expression) := by
  rw [outerSymbols_eq]
  exact firstUses_distinctBy fun σ hσ τ hτ => eq_of_binding_id_eq hroot hexpression hσ hτ

/-- No two symbols around an expression have the same name. -/
theorem nodup_names_outerSymbols (hroot : root.WellFormed) (hexpression : expression.IsIn root) :
    (((ofModule root).outerSymbols expression).map Symbol.name).Nodup := by
  rw [List.Nodup, List.pairwise_map]
  have hdistinct := pairwise_distinctBy (fun s : Symbol => s.binding.id)
    ((ofModule root).outerUses expression)
  rw [← outerSymbols_eq] at hdistinct
  refine hdistinct.imp_of_mem fun hσ hτ hne hname => hne ?_
  have hmem {σ : Symbol} := (firstUses_outerSymbols hroot hexpression).mem_iff (a := σ)
  rw [eq_of_name_eq hroot hexpression (hmem.1 hσ) (hmem.1 hτ) hname]

end ScopeTree

/-! ## Classes of symbols -/

namespace Symbol

/-- Whether a function declares a symbol. -/
def isDeclaredBy (s : Symbol) (f : Focus) : Bool := s.declaringFunction?.any (·.id == f.id)

theorem isDeclaredBy_iff {s : Symbol} {f : Focus} :
    s.isDeclaredBy f = true ↔ ∃ g, s.declaringFunction? = some g ∧ g.id = f.id := by
  cases h : s.declaringFunction? <;> simp [isDeclaredBy, h]

/-- Whether another function than a given one declares a symbol. -/
def isForeignTo (s : Symbol) (f : Focus) : Bool := s.declaringFunction?.any (·.id != f.id)

end Symbol

namespace Project

variable {p : Project (Except Failure)} {i : ModuleIndex} {component : Focus}

/-- A symbol of no function is external, one of the component is classed by its type, and one of
another function is a reason against the value. -/
theorem classify_cases (p : Project (Except Failure)) (i : ModuleIndex) (component : Focus)
    (s : Symbol) :
    (s.isForeignTo component = false ∧ s.isDeclaredBy component = false ∧
      p.classify i component s = .ok (.ok .external)) ∨
    (s.isForeignTo component = false ∧ s.isDeclaredBy component = true ∧
      p.classify i component s = (fun t => .ok (.ofType t)) <$> p.symbolType i s) ∨
    (s.isForeignTo component = true ∧ s.isDeclaredBy component = false ∧
      ∃ reason, p.classify i component s = .ok (.error reason)) := by
  rw [Symbol.isForeignTo, Symbol.isDeclaredBy, classify]
  cases s.declaringFunction? with
  | none => exact .inl ⟨rfl, rfl, rfl⟩
  | some f =>
    by_cases hid : f.id = component.id
    · exact .inr (.inl ⟨by simp [hid], by simp [hid], by simp [hid]⟩)
    · refine .inr (.inr ⟨by simpa using hid, by simpa using hid, ?_⟩)
      simp only [if_neg hid]
      split
      · exact ⟨_, rfl⟩
      · exact ⟨_, rfl⟩

/-- The types are known of all symbols of a component that come before one of another function. -/
def KnowsTypes (p : Project (Except Failure)) (i : ModuleIndex) (component : Focus)
    (symbols : List Symbol) : Prop :=
  ∀ s ∈ symbols.takeWhile (!·.isForeignTo component), s.isDeclaredBy component = true →
    (p.symbolType i s).isOk = true

instance (symbols : List Symbol) : Decidable (p.KnowsTypes i component symbols) :=
  inferInstanceAs (Decidable (∀ s ∈ symbols.takeWhile (!·.isForeignTo component),
    s.isDeclaredBy component = true → (p.symbolType i s).isOk = true))

private theorem knowsTypes_cons {s : Symbol} {symbols : List Symbol}
    (h : s.isForeignTo component = false) : p.KnowsTypes i component (s :: symbols) ↔
      (s.isDeclaredBy component = true → (p.symbolType i s).isOk = true) ∧
        p.KnowsTypes i component symbols := by
  simp [KnowsTypes, h]

/-! One symbol after the other. -/

section

variable {s : Symbol} {symbols : List Symbol}

private theorem classifyAll_of_error {e : Failure} (h : p.classify i component s = .error e) :
    p.classifyAll i component (s :: symbols) = .error e := by
  rw [classifyAll, h]
  rfl

private theorem classifyAll_of_reason {reason : SkipReason}
    (h : p.classify i component s = .ok (.error reason)) :
    p.classifyAll i component (s :: symbols) = .ok (.error reason) := by
  rw [classifyAll, h]
  rfl

private theorem classifyAll_of_class {c : ReferenceClass}
    (h : p.classify i component s = .ok (.ok c)) : p.classifyAll i component (s :: symbols) =
      (fun answer => answer.map (⟨s, c⟩ :: ·)) <$> p.classifyAll i component symbols := by
  rw [classifyAll, h]
  rcases p.classifyAll i component symbols with e | (reason | references) <;> rfl

end

private theorem isOk_map {ε α β : Type} (f : α → β) (x : Except ε α) : (f <$> x).isOk = x.isOk := by
  cases x <;> rfl

/-- Symbols are classed, or there is a reason against one, exactly if types are known. -/
theorem isOk_classifyAll_iff (symbols : List Symbol) :
    (p.classifyAll i component symbols).isOk = true ↔ p.KnowsTypes i component symbols := by
  induction symbols with
  | nil => simp [KnowsTypes, classifyAll, pure, Except.pure, Except.isOk, Except.toBool]
  | cons s symbols ih =>
    rcases p.classify_cases i component s with ⟨hs, hown, heq⟩ | ⟨hs, hown, heq⟩ | ⟨hs, -, r, heq⟩
    · rw [classifyAll_of_class heq, isOk_map, ih, knowsTypes_cons hs]
      simp [hown]
    · rw [knowsTypes_cons hs, ← ih]
      cases htype : p.symbolType i s with
      | error e =>
        rw [htype] at heq
        rw [classifyAll_of_error heq]
        simp [hown, Except.isOk, Except.toBool]
      | ok type =>
        rw [htype] at heq
        rw [classifyAll_of_class heq, isOk_map]
        simp [Except.isOk, Except.toBool]
    · rw [classifyAll_of_reason heq]
      simp [KnowsTypes, hs, Except.isOk, Except.toBool]

/-- What several symbols come to, the first of them apart. -/
theorem classifyAll_cons_cases {s : Symbol} {symbols : List Symbol}
    {answer : Except SkipReason (List Reference)}
    (h : p.classifyAll i component (s :: symbols) = .ok answer) :
    (∃ reason, p.classify i component s = .ok (.error reason) ∧ answer = .error reason) ∨
      ∃ c rest, p.classify i component s = .ok (.ok c) ∧
        p.classifyAll i component symbols = .ok rest ∧ answer = rest.map (⟨s, c⟩ :: ·) := by
  rcases hs : p.classify i component s with e | (reason | c)
  · rw [classifyAll_of_error hs] at h
    cases h
  · rw [classifyAll_of_reason hs] at h
    exact .inl ⟨reason, rfl, (Except.ok.inj h).symm⟩
  · rw [classifyAll_of_class hs] at h
    obtain ⟨rest, hrest, h⟩ := bind_eq_ok.1 h
    exact .inr ⟨c, rest, rfl, hrest, (Except.ok.inj h).symm⟩

/-- A reason against a symbol is that another function declares it. -/
theorem exists_isForeignTo {symbols : List Symbol} {reason : SkipReason}
    (h : p.classifyAll i component symbols = .ok (.error reason)) :
    ∃ s ∈ symbols, s.isForeignTo component = true := by
  induction symbols with
  | nil => cases h
  | cons s symbols ih =>
    rcases classifyAll_cons_cases h with ⟨reason, hs, -⟩ | ⟨c, rest, -, hrest, heq⟩
    · refine ⟨s, List.mem_cons_self, ?_⟩
      rcases p.classify_cases i component s with ⟨-, -, heq⟩ | ⟨-, -, heq⟩ | ⟨hforeign, -⟩
      · cases hs.symm.trans heq
      · obtain ⟨type, -, h⟩ := bind_eq_ok.1 (heq.symm.trans hs)
        cases h
      · exact hforeign
    · cases rest with
      | ok references => cases heq
      | error reason' =>
        obtain ⟨τ, hτ, hforeign⟩ := ih (hrest.trans (congrArg _ heq.symm))
        exact ⟨τ, List.mem_cons_of_mem _ hτ, hforeign⟩

/-- References have the classes of their symbols. -/
theorem classify_of_classifyAll {symbols : List Symbol} {references : List Reference}
    (h : p.classifyAll i component symbols = .ok (.ok references)) :
    references.map Reference.symbol = symbols ∧
      ∀ r ∈ references, p.classify i component r.symbol = .ok (.ok r.sort) := by
  induction symbols generalizing references with
  | nil =>
    obtain rfl := Except.ok.inj (Except.ok.inj h)
    simp
  | cons s symbols ih =>
    rcases classifyAll_cons_cases h with ⟨reason, -, heq⟩ | ⟨c, rest, hs, hrest, heq⟩
    · cases heq
    · cases rest with
      | error reason => cases heq
      | ok rest =>
        obtain rfl := Except.ok.inj heq
        obtain ⟨hsymbols, hclasses⟩ := ih hrest
        exact ⟨by rw [List.map_cons, hsymbols], List.forall_mem_cons.2 ⟨hs, hclasses⟩⟩

/-- A reference counts as external exactly if neither the component nor another function declares
it. -/
theorem isDeclaredBy_of_classify {s : Symbol} {c : ReferenceClass}
    (h : p.classify i component s = .ok (.ok c)) :
    s.isForeignTo component = false ∧ (s.isDeclaredBy component = true ↔ c ≠ .external) := by
  rcases p.classify_cases i component s with ⟨hs, hown, heq⟩ | ⟨hs, hown, heq⟩ | ⟨-, -, reason, heq⟩
  · obtain rfl := Except.ok.inj (Except.ok.inj (h.symm.trans heq))
    simp [hs, hown]
  · obtain ⟨type, -, h⟩ := bind_eq_ok.1 (heq.symm.trans h)
    obtain rfl := Except.ok.inj (Except.ok.inj h)
    simp [hs, hown, ofType_ne_external]
  · cases h.symm.trans heq

/-- Symbols that come to an answer are classed, or another function declares one of them. -/
theorem reason_iff_of_isOk {symbols : List Symbol}
    (h : (p.classifyAll i component symbols).isOk = true) :
    (∃ reason, p.classifyAll i component symbols = .ok (.error reason)) ↔
      ∃ s ∈ symbols, s.isForeignTo component = true := by
  constructor
  · rintro ⟨reason, heq⟩
    exact exists_isForeignTo heq
  · rintro ⟨s, hs, hforeign⟩
    rcases hanswer : p.classifyAll i component symbols with e | (reason | references)
    · rw [hanswer] at h
      cases h
    · exact ⟨reason, rfl⟩
    · obtain ⟨hsymbols, hclasses⟩ := classify_of_classifyAll hanswer
      rw [← hsymbols] at hs
      obtain ⟨r, hr, rfl⟩ := List.mem_map.1 hs
      rw [(isDeclaredBy_of_classify (hclasses r hr)).1] at hforeign
      cases hforeign

end Project

/-! ## Exactness -/

/-- The references of an expression in a component are told exactly. -/
structure Reference.AreExact (uses : List Symbol) (component : Focus)
    (references : List Reference) : Prop where
  /-- They are the symbols that the expression uses, each once, in the order of first use. -/
  symbols : FirstUses uses (references.map Reference.symbol)
  /-- Hooks depend on those that the component declares, if they are neither state setters nor
  handles. -/
  hookDependencies : hookDependencies references =
    (references.filter fun r => r.symbol.isDeclaredBy component && r.sort != .stateSetter &&
      r.sort != .refHandle).map (·.symbol.name)
  /-- No two of them have the same name. -/
  names : (references.map (·.symbol.name)).Nodup

namespace Project

/-- What becomes of an expression follows from the symbols it uses. -/
structure IsExact (p : Project (Except Failure)) (i : ModuleIndex) (expression component : Focus) :
    Prop where
  /-- There is a reason against the expression exactly if another function than the component
  declares one of them. -/
  reason_iff : (∃ reason, p.references i expression component = .ok (.error reason)) ↔
    ∃ s ∈ i.scopes.outerUses expression, s.isForeignTo component = true
  /-- Otherwise they are the references. -/
  references : (∀ s ∈ i.scopes.outerUses expression, s.isForeignTo component = false) →
    ∃ references, p.references i expression component = .ok (.ok references) ∧
      Reference.AreExact (i.scopes.outerUses expression) component references

variable {p : Project (Except Failure)} {i : ModuleIndex} {expression component : Focus}

/-- Exact references are an answer. -/
theorem IsExact.isOk (h : p.IsExact i expression component) :
    (p.references i expression component).isOk = true := by
  by_cases hforeign : ∃ s ∈ i.scopes.outerUses expression, s.isForeignTo component = true
  · obtain ⟨reason, heq⟩ := h.reason_iff.2 hforeign
    rw [heq]
    rfl
  · obtain ⟨found, heq, -⟩ := h.references (by simpa using hforeign)
    rw [heq]
    rfl

/-- Hooks depend on the references that can change in a component. -/
theorem hookDependencies_eq {symbols : List Symbol} {references : List Reference}
    (h : p.classifyAll i component symbols = .ok (.ok references)) :
    Reference.hookDependencies references =
      (references.filter fun r => r.symbol.isDeclaredBy component && r.sort != .stateSetter &&
        r.sort != .refHandle).map (·.symbol.name) := by
  rw [Reference.hookDependencies]
  congr 1
  refine List.filter_congr fun r hr => ?_
  have hown := (isDeclaredBy_of_classify ((classify_of_classifyAll h).2 r hr)).2
  cases hsort : r.sort <;> simp [hsort] at hown ⊢ <;> simp [hown]

/-- What becomes of an expression follows from the symbols it uses exactly if the types are known of
all symbols of the component that it uses before one of another function. -/
theorem isExact_iff_knowsTypes (source : Source)
    (resolve : String → Path → Except Failure (Option Path)) (i : ModuleIndex)
    (hindex : ModuleIndex.ofSource resolve source = .ok i) (p : Project (Except Failure))
    (expression : Focus) (hexpression : expression.IsIn source.root) (component : Focus) :
    p.IsExact i expression component ↔
      p.KnowsTypes i component (i.scopes.outerUses expression) := by
  have hscopes := (ModuleIndex.isOf_ofSource hindex).scopes
  have huses := ScopeTree.firstUses_outerSymbols source.wellFormed hexpression
  have hnames := ScopeTree.nodup_names_outerSymbols source.wellFormed hexpression
  rw [← hscopes] at huses hnames
  have hknows : p.KnowsTypes i component (i.scopes.outerUses expression) ↔
      (p.references i expression component).isOk = true := by
    rw [references, isOk_classifyAll_iff]
    simp only [KnowsTypes, huses.mem_takeWhile_iff]
  rw [hknows]
  refine ⟨IsExact.isOk, fun hok => ?_⟩
  have hreason := reason_iff_of_isOk hok
  simp only [huses.mem_iff] at hreason
  refine ⟨hreason, fun hnone => ?_⟩
  rcases hanswer : p.references i expression component with e | (reason | found)
  · rw [hanswer] at hok
    cases hok
  · obtain ⟨s, hs, hforeign⟩ := hreason.1 ⟨reason, hanswer⟩
    rw [hnone s hs] at hforeign
    cases hforeign
  · obtain ⟨hsymbols, -⟩ := classify_of_classifyAll hanswer
    rw [← hsymbols] at huses hnames
    rw [List.map_map] at hnames
    exact ⟨found, rfl, huses, hookDependencies_eq hanswer, hnames⟩

end Project

/-- A component that has a type from another module and draws a list. -/
def listWithImportedType : Source :=
  .parsed (FileTree.resolve (.ofText "a.tsx")) .tsx
    ("import \x7b T \x7d from './b';\n" ++
      "function C(t: T) \x7b return xs.map(x => <A b=\x7b[t, x]\x7d />); \x7d\n")

/-- The module with the type, which imports a package with a manifest. -/
def treeWithManifest (manifest : String) : FileTree :=
  (FileTree.empty.write (.ofText "b.ts") "import 'p';\nexport type T = number;\n").write
    (.ofText "node_modules/p/package.json") manifest

namespace Project

set_option maxRecDepth 100000 in
/-- With a manifest that is an object the type is known, and the item of the list is declared by
a callback. -/
theorem isExact_listWithImportedType :
    ∃ i, ModuleIndex.ofSource (Resolver.resolve ⟨treeWithManifest "\x7b\x7d", none⟩)
        listWithImportedType = .ok i ∧
      ∃ s ∈ Site.all listWithImportedType {} (IgnoreList.ofEntries []),
        (∃ σ ∈ i.scopes.outerUses s.expression, σ.isForeignTo s.component = true) ∧
          (Resolver.project ⟨treeWithManifest "\x7b\x7d", none⟩).IsExact i s.expression
            s.component := by
  have hknows : ∃ i, ModuleIndex.ofSource (Resolver.resolve ⟨treeWithManifest "\x7b\x7d", none⟩)
        listWithImportedType = .ok i ∧
      ∃ s ∈ Site.all listWithImportedType {} (IgnoreList.ofEntries []),
        (∃ σ ∈ i.scopes.outerUses s.expression, σ.isForeignTo s.component = true) ∧
          (Resolver.project ⟨treeWithManifest "\x7b\x7d", none⟩).KnowsTypes i s.component
            (i.scopes.outerUses s.expression) := by
    decide +kernel
  obtain ⟨i, hindex, s, hs, hforeign, hknows⟩ := hknows
  have hexpression := (Site.standsIn_of_mem_all hs).expression_isIn
  exact ⟨i, hindex, s, hs, hforeign, (isExact_iff_knowsTypes listWithImportedType _ i hindex _
    s.expression hexpression s.component).2 hknows⟩

set_option maxRecDepth 100000 in
/-- With a manifest that is no object the type of a parameter cannot be told, and there is no
answer. -/
theorem not_forall_isExact :
    ¬∀ (tree : FileTree) (source : Source) (i : ModuleIndex),
      ModuleIndex.ofSource (Resolver.resolve ⟨tree, none⟩) source = .ok i →
        ∀ s ∈ Site.all source {} (IgnoreList.ofEntries []),
          (Resolver.project ⟨tree, none⟩).IsExact i s.expression s.component := by
  have hfails : ∃ i, ModuleIndex.ofSource (Resolver.resolve ⟨treeWithManifest "[]", none⟩)
        listWithImportedType = .ok i ∧
      ∃ s ∈ Site.all listWithImportedType {} (IgnoreList.ofEntries []),
        ((Resolver.project ⟨treeWithManifest "[]", none⟩).references i s.expression
          s.component).isOk = false := by
    decide +kernel
  obtain ⟨i, hindex, s, hs, hfails⟩ := hfails
  intro hall
  rw [(hall _ _ i hindex s hs).isOk] at hfails
  cases hfails

end Project

end StableProps
