import StableProps.Lift.Dependencies
import StableProps.Proofs.Outcome
import StableProps.Proofs.Scope.Resolution

/-!
# References of a value

The names in a value that are bound outside of it are found by looking them up, so they are declared
by the module. They become the references of the value, of which exactly those count as external
that no function declares. A value may become a constant exactly if all of them are external.
-/

namespace StableProps

open MonadAttach (CanReturn)

namespace Project

variable {m : Type → Type} [Monad m] [LawfulMonad m] [MonadAttach m] [LawfulMonadAttach m]
variable {p : Project m} {i : ModuleIndex} {component : Focus}

theorem ofType_ne_external (t : Option TypeExpr) : ReferenceClass.ofType t ≠ .external := by
  cases t with
  | none => simp [ReferenceClass.ofType]
  | some t =>
    rw [ReferenceClass.ofType]
    split
    · simp
    · split <;> simp

/-- A name is external exactly if no function declares it. -/
theorem eq_external_iff_of_classify {s : Symbol} {c : ReferenceClass}
    (h : CanReturn (p.classify i component s) (.ok c)) :
    c = .external ↔ s.declaringFunction? = none := by
  rw [classify] at h
  split at h
  next hnone =>
    obtain rfl := Except.ok.inj (eq_of_canReturn_pure h)
    exact ⟨fun _ => hnone, fun _ => rfl⟩
  next f hf =>
    split at h
    · obtain ⟨t, -, h⟩ := canReturn_bind h
      obtain rfl := Except.ok.inj (eq_of_canReturn_pure h)
      exact ⟨fun hsort => absurd hsort (ofType_ne_external t), by simp [hf]⟩
    · split at h <;> cases eq_of_canReturn_pure h

/-- There is a reason against a name only if a function declares it. -/
theorem declaringFunction?_ne_none_of_classify {s : Symbol} {reason : SkipReason}
    (h : CanReturn (p.classify i component s) (.error reason)) : s.declaringFunction? ≠ none := by
  rw [classify] at h
  split at h
  · cases eq_of_canReturn_pure h
  next f hf => simp [hf]

/-- The references of a list of symbols are these symbols, of which exactly those are external that
no function declares. -/
theorem references_of_classifyAll {symbols : List Symbol} {references : List Reference}
    (h : CanReturn (p.classifyAll i component symbols) (.ok references)) :
    references.map Reference.symbol = symbols ∧
      ∀ r ∈ references, r.sort = .external ↔ r.symbol.declaringFunction? = none := by
  induction symbols generalizing references with
  | nil =>
    obtain rfl := Except.ok.inj (eq_of_canReturn_pure h)
    simp
  | cons s symbols ih =>
    rw [classifyAll] at h
    obtain ⟨c, hc, h⟩ := canReturn_bind h
    cases c with
    | error reason => cases eq_of_canReturn_pure h
    | ok c =>
      obtain ⟨rest, hrest, h⟩ := canReturn_bind h
      cases rest with
      | error reason => cases eq_of_canReturn_pure h
      | ok rest =>
        obtain rfl := Except.ok.inj (eq_of_canReturn_pure h)
        obtain ⟨hsymbols, hexternal⟩ := ih hrest
        refine ⟨by rw [List.map_cons, hsymbols], ?_⟩
        exact List.forall_mem_cons.2 ⟨eq_external_iff_of_classify hc, hexternal⟩

/-- There is a reason against a list of symbols only if a function declares one of them. -/
theorem exists_declaringFunction?_of_classifyAll {symbols : List Symbol} {reason : SkipReason}
    (h : CanReturn (p.classifyAll i component symbols) (.error reason)) :
    ∃ s ∈ symbols, s.declaringFunction? ≠ none := by
  induction symbols with
  | nil => cases eq_of_canReturn_pure h
  | cons s symbols ih =>
    rw [classifyAll] at h
    obtain ⟨c, hc, h⟩ := canReturn_bind h
    cases c with
    | error reason' => exact ⟨s, List.mem_cons_self, declaringFunction?_ne_none_of_classify hc⟩
    | ok c =>
      obtain ⟨rest, hrest, h⟩ := canReturn_bind h
      cases rest with
      | ok rest => cases eq_of_canReturn_pure h
      | error reason' =>
        obtain rfl := Except.error.inj (eq_of_canReturn_pure h)
        obtain ⟨t, ht, hdeclared⟩ := ih hrest
        exact ⟨t, List.mem_cons_of_mem _ ht, hdeclared⟩

end Project

/-- A value may become a constant exactly if all its references are external. -/
theorem Strategy.constant_mem_choose_iff {c : Category} {references : List Reference} :
    .constant ∈ choose c references ↔ ∀ r ∈ references, r.sort = .external := by
  have hown : (Reference.ownNames references).isEmpty = true ↔
      ∀ r ∈ references, r.sort = .external := by
    simp [Reference.ownNames, List.isEmpty_iff]
  rw [← hown, choose]
  cases (Reference.ownNames references).isEmpty with
  | false => simp
  | true => by_cases hfunction : c = .function <;> simp [hfunction]

namespace ScopeTree

variable {root : Node}

/-- A name that stands for a symbol declared elsewhere is found by looking it up. -/
theorem lookup_of_resolve (hroot : root.WellFormed) {f expression : Focus}
    (hexpression : expression.IsIn root) (hf : f ∈ expression.walk) {σ : Symbol}
    (h : (ofModule root).resolve f = some σ) (houter : σ.binding.isWithin expression = false) :
    (ofModule root).lookup f f.node.text .value = some σ := by
  have hfin := Focus.isIn_of_mem_walk hexpression hf
  rw [resolve] at h
  split at h
  next τ hτ =>
    -- The name would be bound where it stands, which is inside the expression.
    obtain rfl := Option.some.inj h
    obtain ⟨l₁, l₂, heq, -⟩ := List.lookup_eq_some_iff.1 hτ
    have hmem : (f.id, τ) ∈ (ofModule root).symbols := by simp [heq]
    rw [symbols_ofModule] at hmem
    obtain ⟨e, he, heq⟩ := List.mem_filterMap.1 hmem
    cases e with
    | declared symbol spaces =>
      obtain ⟨hid, rfl⟩ := Prod.mk.inj (Option.some.inj heq)
      have hdeclared : Event.DeclaredIn root symbol := ⟨spaces, he⟩
      have hbinding := hdeclared.binding_isIn.eq_of_id_eq hroot hfin hid
      rw [hbinding, (hfin.isWithin_iff hroot hexpression).2 (Focus.mem_outward_of_mem_walk hf)]
        at houter
      cases houter
    | opened opener outer => cases heq
    | shared block scope => cases heq
  next => exact h

/-- The symbols around an expression are declared by the module. -/
theorem declaredIn_of_mem_outerSymbols (hroot : root.WellFormed) {expression : Focus}
    (hexpression : expression.IsIn root) {σ : Symbol}
    (h : σ ∈ (ofModule root).outerSymbols expression) : Event.DeclaredIn root σ := by
  obtain ⟨hmem, houter⟩ := List.mem_filter.1 (mem_of_mem_distinctBy h)
  obtain ⟨f, hf, hresolve⟩ := List.mem_filterMap.1 hmem
  have hwalk := (List.mem_filter.1 hf).1
  have hlookup := lookup_of_resolve hroot hexpression hwalk hresolve (by simpa using houter)
  exact (exists_of_lookup hlookup).2.1

/-- A name in an expression that is declared outside of it is among the symbols around the
expression, at least as far as the place goes where it is bound. -/
theorem exists_mem_outerSymbols {t : ScopeTree} {f expression : Focus} (hf : f ∈ expression.walk)
    (hname : f.node.isOneOf [.identifier, .shorthandPropertyIdentifier] = true) {σ : Symbol}
    (h : t.resolve f = some σ) (houter : σ.binding.isWithin expression = false) :
    ∃ τ ∈ t.outerSymbols expression, τ.binding.id = σ.binding.id := by
  refine exists_mem_distinctBy (fun s : Symbol => s.binding.id) ?_
  refine List.mem_filter.2 ⟨List.mem_filterMap.2 ⟨f, ?_, h⟩, by simpa using houter⟩
  exact List.mem_filter.2 ⟨hf, hname⟩

end ScopeTree

end StableProps
