import StableProps.Proofs.Import.Additions
import StableProps.Proofs.Lift.Pass

/-!
# Suggestions without types

A suggestion is untyped if it writes nothing that only a language with types understands: no type
at the name that it declares, and no import but that of the hook it calls. Whether it is depends on
the type that was found for the new binding alone. The language of the source does not matter, so
that types are written into sources whose language has none.
-/

namespace StableProps

open MonadAttach (CanReturn)

/-- A text starts with another one, apart from white space. -/
def Text.OpensWith (s start : String) : Prop := start.toList <+: s.toList.dropWhile Text.isBlank

instance (s start : String) : Decidable (Text.OpensWith s start) :=
  inferInstanceAs (Decidable (start.toList <+: s.toList.dropWhile Text.isBlank))

/-- How the declaration of a name starts if no type is written at it. -/
def Keeping.untypedStart (name : String) : Keeping → String
  | .hook h => "const " ++ name ++ " = " ++ h.name ++ "("
  | .constant => "const " ++ name ++ " = "

/-- Whether the type of a new binding must be callable. -/
def Keeping.isCallback : Keeping → Bool
  | .hook h => h == .callback
  | .constant => false

/-- A suggestion that writes nothing that needs a language with types. -/
structure Suggestion.IsUntyped (x : Suggestion) : Prop where
  /-- No type stands at a name that is declared. -/
  declarations : ∀ i ∈ x.parts.insertions, Text.OpensWith i.text (x.keeping.untypedStart x.name)
  /-- No name is imported but that of the hook. -/
  imports : ∀ e ∈ x.parts.imports, ∀ name ∈ e.addedNames,
    ∃ h, x.keeping = .hook h ∧ name = h.name

/-! ## Texts around a declaration -/

namespace Bytes

/-- Bytes of white space are read as white space. -/
theorem isBlank_of_mem_chars {bs : Bytes} (h : ∀ b ∈ bs, isIndent b = true) :
    ∀ c ∈ bs.chars, Text.isBlank c = true := by
  induction bs with
  | nil => simp [chars]
  | cons b rest ih =>
    have hb := h b List.mem_cons_self
    have hread : readChar b rest = (Char.ofNat b.toNat, 0) ∧
        Text.isBlank (Char.ofNat b.toNat) = true := by
      simp only [isIndent, Bool.or_eq_true, beq_iff_eq] at hb
      rcases hb with rfl | rfl <;> exact ⟨rfl, by decide⟩
    intro c hc
    rw [chars, hread.1] at hc
    rcases List.mem_cons.1 hc with rfl | hc
    · exact hread.2
    · exact ih (fun x hx => h x (List.mem_cons_of_mem _ hx)) c hc

/-- The indentation of a line is blank. -/
private theorem isBlank_of_mem_lineIndent {bs : Bytes} {offset : Nat} :
    ∀ c ∈ (bs.lineIndent offset).toList, Text.isBlank c = true := by
  rw [lineIndent, text, String.toList_ofList]
  refine isBlank_of_mem_chars fun b hb => ?_
  exact List.mem_takeWhile_imp hb

end Bytes

/-- An insertion holds a declaration behind nothing but white space. -/
def Insertion.Holds (i : Insertion) (declaration : String) : Prop :=
  ∃ lead trail, i.text = lead ++ declaration ++ trail ∧ ∀ c ∈ lead.toList, Text.isBlank c = true

private theorem isBlank_lineBreak : ∀ c ∈ "\n".toList, Text.isBlank c = true := by
  simp [Text.isBlank]

namespace HookAnchor

/-- The indentation of an anchor in a block is blank. -/
private theorem isBlank_indent_of_inBlock? {bs : Bytes} {block : Node} {expression : Focus}
    {references : List Reference} {a : HookAnchor}
    (h : inBlock? bs block expression references = some a) :
    ∀ c ∈ a.indent.toList, Text.isBlank c = true := by
  simp only [inBlock?, bind, Option.bind_eq_some_iff] at h
  obtain ⟨first, -, declaring, -, h⟩ := h
  split at h
  · obtain rfl := Option.some.inj h
    exact Bytes.isBlank_of_mem_lineIndent
  · split at h
    · cases h
    · obtain rfl := Option.some.inj h
      exact Bytes.isBlank_of_mem_lineIndent

/-- The insertion at an anchor holds the declaration. -/
private theorem holds_insertion {bs : Bytes} {component expression : Focus}
    {references : List Reference}
    {a : HookAnchor} (h : find? bs component expression references = some a)
    (declaration : String) : (a.insertion declaration).Holds declaration := by
  have hindent : a.wrap = none → ∀ c ∈ a.indent.toList, Text.isBlank c = true := by
    intro hwrap
    rw [find?] at h
    split at h
    · cases h
    · split at h
      · cases h
      · split at h
        · exact isBlank_indent_of_inBlock? h
        · rw [← Option.some.inj h] at hwrap
          cases hwrap
  rw [insertion]
  split
  · exact ⟨"", "", by simp, by simp⟩
  next hwrap =>
    split
    · refine ⟨"\n" ++ a.indent, "", by simp, ?_⟩
      intro c hc
      rw [String.toList_append] at hc
      rcases List.mem_append.1 hc with hc | hc
      · exact isBlank_lineBreak c hc
      · exact hindent hwrap c hc
    · exact ⟨"", "\n" ++ a.indent, by simp [String.append_assoc], by simp⟩

end HookAnchor

/-- The insertion of a constant holds its declaration. -/
private theorem Source.holds_constantInsertion (s : Source) (declaration : String)
    (position : Position) : (s.constantInsertion declaration position).Holds declaration := by
  cases position with
  | start =>
    rw [constantInsertion]
    split
    · exact ⟨"", "\n\n", by simp, by simp⟩
    · exact ⟨"\n", "", by simp, isBlank_lineBreak⟩
  | «end» => exact ⟨"\n", "", by simp [constantInsertion], isBlank_lineBreak⟩

/-! ## Types at declarations -/

/-- Two texts with a common front: the one that starts with a mark is at the front of the other one
if that goes on with the mark. -/
theorem Insertion.Holds.opensWith_iff {i : Insertion} {front rest : String}
    (h : i.Holds ("const " ++ (front ++ rest))) (mark : String) :
    ∃ trail, Text.OpensWith i.text ("const " ++ (front ++ mark)) ↔
      mark.toList <+: rest.toList ++ trail := by
  obtain ⟨lead, trail, htext, hlead⟩ := h
  refine ⟨trail.toList, ?_⟩
  have hopen : i.text.toList.dropWhile Text.isBlank =
      "const ".toList ++ (front.toList ++ (rest.toList ++ trail.toList)) := by
    simp only [htext, String.toList_append, List.append_assoc]
    rw [List.dropWhile_append_of_pos hlead]
    rfl
  rw [Text.OpensWith, hopen, String.toList_append, String.toList_append,
    List.prefix_append_right_inj, List.prefix_append_right_inj]

/-- The call of a hook opens without a type exactly if there is no type to write. -/
theorem Declaration.opensWith_hook_iff {i : Insertion} {name : String} {h : Hook}
    {annotated : Option String} {expression : String} {dependencies : List String}
    (hi : i.Holds (hook name h annotated expression dependencies)) :
    Text.OpensWith i.text ((Keeping.hook h).untypedStart name) ↔ annotated.getD "" = "" := by
  obtain ⟨rest, hparts⟩ : ∃ rest, hook name h annotated expression dependencies =
      "const " ++ ((name ++ (" = " ++ h.name)) ++ (typeArgument annotated ++ ("(" ++ rest))) := by
    unfold hook
    simp only [String.append_assoc]
    exact ⟨_, rfl⟩
  obtain ⟨trail, hiff⟩ := (hparts ▸ hi).opensWith_iff "("
  have hstart : (Keeping.hook h).untypedStart name =
      "const " ++ ((name ++ (" = " ++ h.name)) ++ "(") := by
    simp only [Keeping.untypedStart, String.append_assoc]
  rw [hstart, hiff]
  cases annotated with
  | none => simp [typeArgument]
  | some t =>
    rw [typeArgument]
    split <;> simp [*]

/-- A constant opens without a type exactly if there is no type to write. -/
theorem Declaration.opensWith_constant_iff {i : Insertion} {name : String}
    {annotated : Option String} {expression : String}
    (hi : i.Holds (constant name annotated expression)) :
    Text.OpensWith i.text (Keeping.constant.untypedStart name) ↔ annotated.getD "" = "" := by
  have hparts : constant name annotated expression =
      "const " ++ (name ++ (typeNote annotated ++ (" = " ++ (expression ++ ";")))) := by
    simp [constant, String.append_assoc]
  obtain ⟨trail, hiff⟩ := (hparts ▸ hi).opensWith_iff " = "
  have hstart : Keeping.constant.untypedStart name = "const " ++ (name ++ " = ") := by
    rw [Keeping.untypedStart, String.append_assoc]
  rw [hstart, hiff]
  cases annotated with
  | none => simp [typeNote]
  | some t =>
    rw [typeNote]
    split <;> simp [*]

/-! ## Types of new bindings -/

section

variable {m : Type → Type} [Monad m] [LawfulMonad m] [MonadAttach m] [LawfulMonadAttach m]

/-- An indexed access without a text binds nothing. -/
private theorem Planner.indexedBinding_eq_empty {p : Planner m} {s : Site} {callback : Bool}
    {declared : TypeExpr} {b : BindingType} (h : CanReturn (p.indexedBinding s callback declared) b)
    (htext : b.text = none) : b = {} := by
  rw [indexedBinding] at h
  obtain ⟨indexed, -, h⟩ := canReturn_bind h
  split at h
  · exact eq_of_canReturn_pure h
  · split at h
    all_goals
      obtain ⟨fits, -, h⟩ := canReturn_bind h
      rw [eq_of_canReturn_pure h] at htext
      split at htext <;> cases htext

/-- A new binding without a type to write needs no imports. -/
theorem Planner.eq_empty_of_text_eq_none [MonadExceptOf Failure m] {p : Planner m} {s : Site}
    {callback : Bool} {b : BindingType} (h : CanReturn (p.bindingType s callback) b)
    (htext : b.text = none) : b = {} := by
  rcases bindingType_cases h with rfl | ⟨d, -, hindexed⟩ | ⟨t, ht⟩
  · rfl
  · exact indexedBinding_eq_empty (Query.canReturn_of_run hindexed) htext
  · rw [ht.text] at htext
    cases htext

variable [MonadExceptOf Failure m] {a : Analysis m} {sites : List Site} {s : Site}

/-- A binding without a type has nothing to import. -/
private theorem Analysis.eq_empty_of_text_eq_none {callback : Bool} {b : BindingType}
    (h : CanReturn (a.bindingType s callback) b) (htext : b.text = none) : b = {} := by
  rw [bindingType] at h
  split at h
  · exact Planner.eq_empty_of_text_eq_none h htext
  · exact eq_of_canReturn_pure h

/-- If types are switched off, no new binding has one. -/
theorem Analysis.eq_empty_of_not_typeDefinitions {callback : Bool} {b : BindingType}
    (h : CanReturn (a.bindingType s callback) b) (hoff : a.options.typeDefinitions = false) :
    b = {} := by
  rw [bindingType, hoff] at h
  exact eq_of_canReturn_pure h

/-- The entries for a plan add names that it asks for, in the form in which it does. -/
theorem ImportEntry.exists_request_of_mem_addedNames {existing : List ExistingImport}
    {plan : ImportPlan} {e : ImportEntry} (he : e ∈ ofPlan existing plan) {name : String}
    (hname : name ∈ e.addedNames) : ∃ r ∈ plan.requests, r.localName = name := by
  obtain ⟨host, asked, -, hasked, hderived⟩ := derived_of_mem_ofPlan he
  rw [addedNames, List.mem_append, Option.mem_toList] at hname
  rcases hname with hdefault | hnamed
  · obtain ⟨r, hr, -, hlocal⟩ := hderived.exists_request.1 name hdefault
    exact ⟨r, hasked hr, hlocal⟩
  · obtain ⟨r, hr, -, hlocal⟩ := hderived.exists_request.2 name hnamed
    exact ⟨r, hasked hr, hlocal⟩

/-- A suggestion with one declaration is untyped if no type is written there and none imported. -/
theorem Suggestion.isUntyped_of_insertions {x : Suggestion} {i : Insertion} {b : BindingType}
    (hi : x.parts.insertions = [i])
    (hopens : Text.OpensWith i.text (x.keeping.untypedStart x.name) ↔ b.text.getD "" = "")
    (himports : b.text = none →
      ∀ e ∈ x.parts.imports, ∀ name ∈ e.addedNames, ∃ h, x.keeping = .hook h ∧ name = h.name) :
    (b.text = none → x.IsUntyped) ∧ (x.IsUntyped → b.text.getD "" = "") := by
  constructor
  · intro htext
    refine ⟨fun j hj => ?_, himports htext⟩
    rw [hi] at hj
    obtain rfl := List.mem_singleton.1 hj
    rw [hopens, htext]
    rfl
  · intro huntyped
    exact hopens.1 (huntyped.declarations i (hi ▸ List.mem_singleton_self i))

/-- A draft reuses a constant and is untyped, or a type was asked for at its site, or for a constant
at a site with the same text. It is untyped if there is none, and only if there is none to write. -/
theorem Analysis.Writes.isUntyped_iff {x : Suggestion} (h : a.Writes sites s x.toDraft)
    (hs : s ∈ sites) :
    x.parts.insertions = [] ∧ x.IsUntyped ∨
      ∃ t ∈ sites, t.expression.node.text = s.expression.node.text ∧
        ∃ b, CanReturn (a.bindingType t x.keeping.isCallback) b ∧
          (b.text = none → x.IsUntyped) ∧ (x.IsUntyped → b.text.getD "" = "") := by
  cases h with
  | hook anchor references expression dependencies b plan keeping found typed planned insertions
      imports =>
    have hcallback : x.keeping.isCallback = (s.hook == .callback) := by rw [keeping]; rfl
    refine .inr ⟨s, hs, rfl, b, hcallback ▸ typed,
      Suggestion.isUntyped_of_insertions insertions ?_ ?_⟩
    · rw [keeping]
      exact Declaration.opensWith_hook_iff (HookAnchor.holds_insertion found _)
    · intro htext e he name hname
      obtain rfl := eq_empty_of_text_eq_none typed htext
      rw [imports] at he
      obtain ⟨r, hr, hlocal⟩ := ImportEntry.exists_request_of_mem_addedNames he hname
      have hplan : r ∈ plan.requests :=
        (ImportPlan.mem_requests_merge hr).resolve_right List.not_mem_nil
      have hhook := Planner.requests_of_planHook (Query.canReturn_of_run planned) r hplan
      exact ⟨s.hook, keeping, hlocal.symm.trans hhook.1⟩
  | existing keeping insertions imports =>
    refine .inl ⟨insertions, ?_, ?_⟩
    · rw [insertions]
      simp
    · rw [imports]
      simp
  | made t mem text expression b keeping typed insertions imports =>
    have hcallback : x.keeping.isCallback = false := by rw [keeping]; rfl
    refine .inr ⟨t, mem, text, b, hcallback ▸ typed,
      Suggestion.isUntyped_of_insertions insertions ?_ ?_⟩
    · rw [keeping]
      exact Declaration.opensWith_constant_iff (Source.holds_constantInsertion _ _ _)
    · intro htext e he
      obtain rfl := eq_empty_of_text_eq_none typed htext
      rw [imports] at he
      cases he

end

namespace Workspace

variable {m : Type → Type} [Monad m] [LawfulMonad m] [MonadExceptOf Failure m] [MonadAttach m]
variable [LawfulMonadAttach m] [LawfulFailure m]

/-- Whatever the language of a source, a suggestion is untyped if types are switched off. If they
are not, it uses a constant that the module has, or it declares a name and is untyped exactly if no
type was found for the value: that of its site, or the same value at another one. -/
theorem isUntyped_iff_no_type (w : Workspace m) (o : Options) (source : Source)
    (findings : List Finding) (h : CanReturn (w.findings o source) findings) (f : Finding)
    (hf : f ∈ findings) (x : Suggestion) (hx : x ∈ f.suggestions) :
    (o.typeDefinitions = false → x.IsUntyped) ∧
      ∃ s ∈ Site.all source o (IgnoreList.ofEntries o.ignored),
        x.parts.replacements = [Analysis.replacement s x.name] ∧
        (x.parts.insertions = [] ∧ x.IsUntyped ∨
          ∃ t ∈ Site.all source o (IgnoreList.ofEntries o.ignored),
            t.expression.node.text = s.expression.node.text ∧
            ∃ planner b, CanReturn (w.planner source) planner ∧
              CanReturn (Analysis.bindingType ⟨planner, o⟩ t x.keeping.isCallback) b ∧
              (b.text = none → x.IsUntyped) ∧ (x.IsUntyped → b.text.getD "" = "")) := by
  rw [Workspace.findings] at h
  obtain ⟨planner, hplanner, hfindings⟩ := canReturn_bind h
  have hindex := isOf_of_planner hplanner
  have hsource : Analysis.source ⟨planner, o⟩ = source := hindex.source
  obtain ⟨earlier, s, later, hsites, hreports⟩ :=
    (Analysis.reports_of_findings (hsource ▸ hindex) hfindings).2 f hf
  have hmet : earlier ++ [s] ⊆ Site.all source o (IgnoreList.ofEntries o.ignored) := by
    rw [← hsource]
    change earlier ++ [s] ⊆ Analysis.allSites ⟨planner, o⟩
    rw [hsites]
    simp
  have hdrafts := (hreports.suggestions x hx).drafts
  have huntyped := hdrafts.writes.isUntyped_iff (by simp)
  refine ⟨fun hoff => ?_, s, hmet (by simp), hdrafts.replaces, ?_⟩
  · rcases huntyped with ⟨-, h⟩ | ⟨t, -, -, b, hb, h, -⟩
    · exact h
    · exact h (congrArg _ (Analysis.eq_empty_of_not_typeDefinitions hb hoff))
  · rcases huntyped with hreused | ⟨t, ht, htext, b, hb, hiff⟩
    · exact .inl hreused
    · exact .inr ⟨t, hmet ht, htext, planner, b, hplanner, hb, hiff⟩

end Workspace

/-- A component of a language without types that passes a fresh style to a plain element. -/
def plainStyle : Source :=
  .parsed (Language.snippetPath .javascript) .javascript
    "function C() \x7b return <div style=\x7b\x7b a: 1 \x7d\x7d />; \x7d\n"

set_option maxRecDepth 100000 in
private theorem findings_plainStyle :
    ∃ findings, (Workspace.fresh ⟨.empty, none⟩).findings {} plainStyle = .ok findings ∧
      ∃ f ∈ findings, ∃ x ∈ f.suggestions, ∃ i ∈ x.parts.insertions,
        ¬Text.OpensWith i.text (x.keeping.untypedStart x.name) := by
  decide +kernel

namespace Workspace

/-- The new constant for the style gets a type, as one was found for it. -/
theorem exists_type_plainStyle :
    ∃ findings, (fresh ⟨.empty, none⟩).findings {} plainStyle = .ok findings ∧
      ∃ f ∈ findings, ∃ x ∈ f.suggestions, ¬x.IsUntyped ∧
        ∃ t planner b, (fresh ⟨.empty, none⟩).planner plainStyle = .ok planner ∧
          Analysis.bindingType ⟨planner, {}⟩ t x.keeping.isCallback = .ok b ∧ b.text ≠ none := by
  obtain ⟨findings, hfindings, f, hf, x, hx, i, hi, hopens⟩ := findings_plainStyle
  have htyped : ¬x.IsUntyped := fun h => hopens (h.declarations i hi)
  refine ⟨findings, hfindings, f, hf, x, hx, htyped, ?_⟩
  obtain ⟨-, s, -, -, ⟨-, huntyped⟩ | ⟨t, -, -, planner, b, hplanner, hb, huntyped, -⟩⟩ :=
    isUntyped_iff_no_type (fresh ⟨.empty, none⟩) {} plainStyle findings hfindings f hf x hx
  · exact absurd huntyped htyped
  · exact ⟨t, planner, b, hplanner, hb, fun htext => htyped (huntyped htext)⟩

/-- Suggestions for a source whose language has no types can write types. -/
theorem not_forall_isUntyped :
    ¬∀ (o : Options) (source : Source) (findings : List Finding),
      source.language.hasTypes = false → (fresh ⟨.empty, none⟩).findings o source = .ok findings →
        ∀ f ∈ findings, ∀ x ∈ f.suggestions, x.IsUntyped := by
  intro hall
  obtain ⟨findings, hfindings, f, hf, x, hx, i, hi, hopens⟩ := findings_plainStyle
  exact hopens ((hall _ _ findings rfl hfindings f hf x hx).declarations i hi)

end Workspace

end StableProps
