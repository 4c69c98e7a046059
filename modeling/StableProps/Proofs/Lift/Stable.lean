import StableProps.Proofs.Lift.Uses
import StableProps.Proofs.Types.Rendered

/-!
# Names that never change

A name of a component is left out of the dependencies of a hook if its type says that it never
changes: it sets a state, or is a handle. The type is judged by its text. Hence a name is left out
with reason unless its type is mistaken, that is, unless the text of another type holds that of
a setter or a handle somewhere inside. This happens to every type that is written with one as
a part.
-/

namespace StableProps

/-! ## Searching a text -/

/-- A text holds an opening and, behind it on the same line, a closing. -/
def Spans (opening closing text : List Char) : Prop :=
  ∃ before inside after, text = before ++ opening ++ inside ++ closing ++ after ∧ '\n' ∉ inside

private theorem occursIn_iff {part text : List Char} :
    occursIn part text = true ↔ part <:+: text := by
  induction text with
  | nil => simp [occursIn, List.infix_nil]
  | cons c text ih => rw [occursIn, Bool.or_eq_true, ih, List.isPrefixOf_iff_prefix,
      List.infix_cons_iff]

/-- On the rest of a line a closing occurs if no end of a line stands before it. -/
theorem occursIn_takeWhile_iff {closing text : List Char} (hclosing : '\n' ∉ closing) :
    occursIn closing (text.takeWhile (· != '\n')) = true ↔
      ∃ inside after, text = inside ++ closing ++ after ∧ '\n' ∉ inside := by
  rw [occursIn_iff]
  constructor
  · rintro ⟨inside, rest, heq⟩
    refine ⟨inside, rest ++ text.dropWhile (· != '\n'), ?_, ?_⟩
    · rw [← List.append_assoc, heq, List.takeWhile_append_dropWhile]
    · intro hmem
      have hline : '\n' ∈ text.takeWhile (· != '\n') := by simp [← heq, hmem]
      simpa using List.mem_takeWhile_imp hline
  · rintro ⟨inside, after, rfl, hinside⟩
    refine ⟨inside, after.takeWhile (· != '\n'), ?_⟩
    have hline : ∀ c ∈ inside ++ closing, (c != '\n') = true := by
      intro c hc
      rcases List.mem_append.1 hc with hc | hc
      · simpa using ne_of_mem_of_not_mem hc hinside
      · simpa using ne_of_mem_of_not_mem hc hclosing
    rw [List.takeWhile_append_of_pos hline]

/-- A span stands at the front of a text or further behind. -/
theorem spans_cons_iff {opening closing text : List Char} {c : Char} :
    Spans opening closing (c :: text) ↔
      (∃ rest, opening ++ rest = c :: text ∧
        ∃ inside after, rest = inside ++ closing ++ after ∧ '\n' ∉ inside) ∨
      Spans opening closing text := by
  constructor
  · rintro ⟨before, inside, after, heq, hinside⟩
    cases before with
    | nil => exact .inl ⟨_, by simp [heq], inside, after, rfl, hinside⟩
    | cons b before => exact .inr ⟨before, inside, after, (List.cons.inj heq).2, hinside⟩
  · rintro (⟨rest, heq, inside, after, rfl, hinside⟩ | ⟨before, inside, after, rfl, hinside⟩)
    · exact ⟨[], inside, after, by simp [← heq], hinside⟩
    · exact ⟨c :: before, inside, after, rfl, hinside⟩

private theorem holdsAround_iff {opening closing text : List Char} (hopening : opening ≠ [])
    (hclosing : '\n' ∉ closing) :
    holdsAround opening closing text = true ↔ Spans opening closing text := by
  induction text with
  | nil => simp [holdsAround, Spans, hopening]
  | cons c text ih =>
    rw [holdsAround, Bool.or_eq_true, Bool.and_eq_true, ih, occursIn_takeWhile_iff hclosing,
      List.isPrefixOf_iff_prefix, spans_cons_iff]
    refine or_congr_left ⟨?_, ?_⟩
    · rintro ⟨⟨rest, heq⟩, hrest⟩
      rw [← heq, List.drop_left] at hrest
      exact ⟨rest, heq, hrest⟩
    · rintro ⟨rest, heq, hrest⟩
      refine ⟨⟨rest, heq⟩, ?_⟩
      rwa [← heq, List.drop_left]

/-- A text spans what a part of it spans. -/
theorem Spans.of_part {opening closing part text : List Char} (h : Spans opening closing part)
    (hpart : part <:+: text) : Spans opening closing text := by
  obtain ⟨before, inside, after, rfl, hinside⟩ := h
  obtain ⟨front, back, rfl⟩ := hpart
  exact ⟨front ++ before, inside, after ++ back, by simp, hinside⟩

/-! ## Types that say so -/

namespace TypeExpr

/-- The text of a type holds that of a function that sets a state. -/
def ShowsSetter (t : TypeExpr) : Prop :=
  Spans "Dispatch<SetStateAction<".toList ">>".toList t.render.toList

/-- The text of a type holds that of a handle. -/
def ShowsHandle (t : TypeExpr) : Prop := Spans "RefObject<".toList ">".toList t.render.toList

private theorem showsSetter_iff {t : TypeExpr} :
    isStateSetterText t.render = true ↔ t.ShowsSetter :=
  holdsAround_iff (by decide) (by decide)

private theorem showsHandle_iff {t : TypeExpr} : isRefHandleText t.render = true ↔ t.ShowsHandle :=
  holdsAround_iff (by decide) (by decide)

/-- Whether a type is that of a missing value. -/
def isMissing : TypeExpr → Bool
  | .keyword name => name == "null" || name == "undefined"
  | _ => false

/-- Whether a type refers to functions that set a state. -/
def isSetterReference : TypeExpr → Bool
  | .reference text name [.reference text' name' (_ :: _) d'] d =>
    spelled text name d == "Dispatch" && spelled text' name' d' == "SetStateAction"
  | _ => false

/-- Whether a type refers to handles. -/
def isHandleReference : TypeExpr → Bool
  | .reference text name (_ :: _) d =>
    spelled text name d == "RefObject" || spelled text name d == "MutableRefObject"
  | _ => false

/-- Whether a type passes a test, or is a union of one that does with missing values. -/
def isApartFromMissing (test : TypeExpr → Bool) (t : TypeExpr) : Bool :=
  match t.unionMembers.filter (!·.isMissing) with
  | [r] => test r
  | _ => false

/-- Whether a type is that of functions that set a state, missing values apart. -/
def isStateSetter (t : TypeExpr) : Bool := t.isApartFromMissing isSetterReference

/-- Whether a type is that of handles, missing values apart. -/
def isRefHandle (t : TypeExpr) : Bool := t.isApartFromMissing isHandleReference

/-- A type is taken for that of something that never changes, and says nothing of the sort. -/
inductive IsMistaken (t : TypeExpr) : Prop where
  | stateSetter (shows : t.ShowsSetter) (other : t.isStateSetter = false)
  | refHandle (setter : ¬t.ShowsSetter) (shows : t.ShowsHandle) (other : t.isRefHandle = false)

/-! ## Types inside a text -/

/-- The only member of a union besides missing values stands in its text. -/
theorem exists_of_isApartFromMissing {test : TypeExpr → Bool} {t : TypeExpr}
    (h : t.isApartFromMissing test = true) : ∃ r, test r = true ∧ r.RenderedIn t := by
  rw [isApartFromMissing] at h
  split at h
  next r hr =>
    have hmem : r ∈ t.unionMembers := (List.mem_filter.1 (hr ▸ List.mem_singleton_self r)).1
    refine ⟨r, h, ?_⟩
    cases t with
    | union text members => exact .unionMember hmem .self
    | _ =>
      obtain rfl := List.mem_singleton.1 hmem
      exact .self
  next => cases h

private theorem spans_of_eq (before : List Char) {opening closing text : List Char}
    (inside : List Char) (h : text = before ++ opening ++ inside ++ closing) (hline : '\n' ∉ text) :
    Spans opening closing text :=
  ⟨before, inside, [], by simp [h], fun hmem => hline (by simp [h, hmem])⟩

/-- The type of functions that set a state is known by its text, if that is a single line. -/
theorem showsSetter_of_isStateSetter {t : TypeExpr} (h : t.isStateSetter = true)
    (hline : '\n' ∉ t.render.toList) : t.ShowsSetter := by
  obtain ⟨r, hr, hin⟩ := exists_of_isApartFromMissing h
  refine Spans.of_part ?_ hin.occurs
  have hline : '\n' ∉ r.render.toList := fun hmem => hline (hin.occurs.subset hmem)
  unfold isSetterReference at hr
  split at hr
  next text name text' name' a as d' d =>
    rw [Bool.and_eq_true, beq_iff_eq, beq_iff_eq] at hr
    refine spans_of_eq [] (String.intercalate ", " ((a :: as).map render)).toList ?_ hline
    rw [render_reference (by simp), List.map_singleton, String.intercalate_singleton,
      render_reference (by simp), hr.1, hr.2]
    simp
  next => cases hr

/-- The type of handles is known by its text, if that is a single line. -/
theorem showsHandle_of_isRefHandle {t : TypeExpr} (h : t.isRefHandle = true)
    (hline : '\n' ∉ t.render.toList) : t.ShowsHandle := by
  obtain ⟨r, hr, hin⟩ := exists_of_isApartFromMissing h
  refine Spans.of_part ?_ hin.occurs
  have hline : '\n' ∉ r.render.toList := fun hmem => hline (hin.occurs.subset hmem)
  unfold isHandleReference at hr
  split at hr
  next text name a as d =>
    rw [Bool.or_eq_true, beq_iff_eq, beq_iff_eq] at hr
    rcases hr with hr | hr
    · refine spans_of_eq [] (String.intercalate ", " ((a :: as).map render)).toList ?_ hline
      rw [render_reference (by simp), hr]
      simp
    · refine spans_of_eq "Mutable".toList (String.intercalate ", " ((a :: as).map render)).toList ?_
        hline
      rw [render_reference (by simp), hr]
      simp
  next => cases hr

/-- A type is mistaken that is written with one of something that never changes. -/
theorem isMistaken_of_renderedIn {part t : TypeExpr} (h : part.RenderedIn t)
    (hpart : part.isStateSetter = true ∨ part.isRefHandle = true)
    (hline : '\n' ∉ part.render.toList) (hsetter : t.isStateSetter = false)
    (hhandle : t.isRefHandle = false) : t.IsMistaken := by
  by_cases hshows : t.ShowsSetter
  · exact .stateSetter hshows hsetter
  · rcases hpart with hpart | hpart
    · exact absurd ((showsSetter_of_isStateSetter hpart hline).of_part h.occurs) hshows
    · exact .refHandle hshows ((showsHandle_of_isRefHandle hpart hline).of_part h.occurs) hhandle

end TypeExpr

/-! ## Names left out of dependencies -/

namespace ReferenceClass

private theorem ofType_eq_stateSetter_iff {t : TypeExpr} :
    ofType (some t) = .stateSetter ↔ t.ShowsSetter := by
  rw [ofType, ← TypeExpr.showsSetter_iff]
  split
  next h => simp [h]
  next h => split <;> simp [h]

private theorem ofType_eq_refHandle_iff {t : TypeExpr} :
    ofType (some t) = .refHandle ↔ ¬t.ShowsSetter ∧ t.ShowsHandle := by
  rw [ofType, ← TypeExpr.showsSetter_iff, ← TypeExpr.showsHandle_iff]
  split
  next h => simp [h]
  next h => split <;> simp [*]

end ReferenceClass

namespace Project

/-- A symbol is left out of the dependencies of a hook only if its type says that it never
changes. -/
structure KeepsStable (p : Project (Except Failure)) (i : ModuleIndex) (component : Focus)
    (s : Symbol) : Prop where
  /-- It sets a state. -/
  stateSetter : p.classify i component s = .ok (.ok .stateSetter) →
    ∃ t, p.symbolType i s = .ok (some t) ∧ t.isStateSetter = true
  /-- It is a handle. -/
  refHandle : p.classify i component s = .ok (.ok .refHandle) →
    ∃ t, p.symbolType i s = .ok (some t) ∧ t.isRefHandle = true

variable {p : Project (Except Failure)} {i : ModuleIndex} {component : Focus} {s : Symbol}

/-- The class of a symbol that is left out is that of its type in the component. -/
theorem classify_eq_iff {c : ReferenceClass} (hexternal : c ≠ .external)
    (hlocal : c ≠ .componentLocal) :
    p.classify i component s = .ok (.ok c) ↔ s.isDeclaredBy component = true ∧
      ∃ t, p.symbolType i s = .ok (some t) ∧ ReferenceClass.ofType (some t) = c := by
  rcases p.classify_cases i component s with ⟨-, hown, heq⟩ | ⟨-, hown, heq⟩ | ⟨-, hown, r, heq⟩
  · simp [heq, hown, hexternal.symm]
  · rw [heq]
    constructor
    · intro h
      obtain ⟨t, ht, hc⟩ := bind_eq_ok.1 h
      obtain rfl := Except.ok.inj (Except.ok.inj hc)
      cases t with
      | none => exact absurd rfl hlocal
      | some t => exact ⟨hown, t, ht, rfl⟩
    · rintro ⟨-, t, ht, rfl⟩
      rw [ht]
      rfl
  · simp [heq, hown]

/-- A symbol counts as a setter exactly if the text of its type shows one. -/
theorem classify_eq_stateSetter_iff :
    p.classify i component s = .ok (.ok .stateSetter) ↔ s.isDeclaredBy component = true ∧
      ∃ t, p.symbolType i s = .ok (some t) ∧ t.ShowsSetter := by
  simp only [classify_eq_iff (c := .stateSetter) (by decide) (by decide),
    ReferenceClass.ofType_eq_stateSetter_iff]

/-- A symbol counts as a handle exactly if the text of its type shows one and no setter. -/
theorem classify_eq_refHandle_iff :
    p.classify i component s = .ok (.ok .refHandle) ↔ s.isDeclaredBy component = true ∧
      ∃ t, p.symbolType i s = .ok (some t) ∧ ¬t.ShowsSetter ∧ t.ShowsHandle := by
  simp only [classify_eq_iff (c := .refHandle) (by decide) (by decide),
    ReferenceClass.ofType_eq_refHandle_iff]

/-- A symbol is left out of the dependencies of a hook with reason unless the component declares it
with a mistaken type. Mistaken is every type that is written with a setter or a handle, on one line,
and is neither itself. -/
theorem keepsStable_iff_not_isMistaken (p : Project (Except Failure)) (i : ModuleIndex)
    (component : Focus) (s : Symbol) :
    (p.KeepsStable i component s ↔ ∀ t, s.isDeclaredBy component = true →
      p.symbolType i s = .ok (some t) → ¬t.IsMistaken) ∧
    ∀ part t : TypeExpr, part.RenderedIn t →
      (part.isStateSetter = true ∨ part.isRefHandle = true) → '\n' ∉ part.render.toList →
        t.isStateSetter = true ∨ t.isRefHandle = true ∨ t.IsMistaken := by
  refine ⟨⟨?_, ?_⟩, ?_⟩
  · intro h t hown ht hmistaken
    cases hmistaken with
    | stateSetter shows other =>
      obtain ⟨t', ht', hsetter⟩ :=
        h.stateSetter (classify_eq_stateSetter_iff.2 ⟨hown, t, ht, shows⟩)
      obtain rfl := Option.some.inj (Except.ok.inj (ht.symm.trans ht'))
      rw [other] at hsetter
      cases hsetter
    | refHandle setter shows other =>
      obtain ⟨t', ht', hhandle⟩ :=
        h.refHandle (classify_eq_refHandle_iff.2 ⟨hown, t, ht, setter, shows⟩)
      obtain rfl := Option.some.inj (Except.ok.inj (ht.symm.trans ht'))
      rw [other] at hhandle
      cases hhandle
  · intro h
    constructor
    · intro hclass
      obtain ⟨hown, t, ht, shows⟩ := classify_eq_stateSetter_iff.1 hclass
      refine ⟨t, ht, ?_⟩
      by_contra hother
      exact h t hown ht (.stateSetter shows (Bool.not_eq_true _ ▸ hother))
    · intro hclass
      obtain ⟨hown, t, ht, setter, shows⟩ := classify_eq_refHandle_iff.1 hclass
      refine ⟨t, ht, ?_⟩
      by_contra hother
      exact h t hown ht (.refHandle setter shows (Bool.not_eq_true _ ▸ hother))
  · intro part t hin hpart hline
    by_cases hsetter : t.isStateSetter = true
    · exact .inl hsetter
    · by_cases hhandle : t.isRefHandle = true
      · exact .inr (.inl hhandle)
      · exact .inr (.inr (TypeExpr.isMistaken_of_renderedIn hin hpart hline
          (Bool.not_eq_true _ ▸ hsetter) (Bool.not_eq_true _ ▸ hhandle)))

end Project

/-- A component that calls a setter through an object. -/
def setterInObject : Source :=
  .parsed (Language.snippetPath .tsx) .tsx
    ("function C(\x7b s \x7d) \x7b " ++
      "const h: \x7b set: Dispatch<SetStateAction<number>> \x7d = s; " ++
      "return <A b=\x7b() => h.set(1)\x7d />; \x7d\n")

set_option maxRecDepth 100000 in
/-- The object counts as a setter though its type is none. -/
theorem Project.not_forall_keepsStable :
    ¬∀ (source : Source) (i : ModuleIndex),
      ModuleIndex.ofSource (Resolver.resolve ⟨.empty, none⟩) source = .ok i →
        ∀ s ∈ Site.all source {} (IgnoreList.ofEntries []),
          ∀ σ ∈ i.scopes.outerSymbols s.expression,
            (Resolver.project ⟨.empty, none⟩).KeepsStable i s.component σ := by
  have hobject : ∃ i, ModuleIndex.ofSource (Resolver.resolve ⟨.empty, none⟩) setterInObject =
        .ok i ∧
      ∃ s ∈ Site.all setterInObject {} (IgnoreList.ofEntries []),
        ∃ σ ∈ i.scopes.outerSymbols s.expression,
          (∃ answer, (Resolver.project ⟨.empty, none⟩).classify i s.component σ = .ok answer ∧
            ∃ c, answer = .ok c ∧ c = .stateSetter) ∧
          ∃ t, (Resolver.project ⟨.empty, none⟩).symbolType i σ = .ok t ∧
            t.any (·.isStateSetter) = false := by
    decide +kernel
  obtain ⟨i, hindex, s, hs, σ, hσ, ⟨_, hclass, _, rfl, rfl⟩, type, htype, hother⟩ := hobject
  intro hall
  obtain ⟨t, ht, hsetter⟩ := (hall _ i hindex s hs σ hσ).stateSetter hclass
  obtain rfl := Except.ok.inj (htype.symm.trans ht)
  rw [Option.any_some, hsetter] at hother
  cases hother

end StableProps
