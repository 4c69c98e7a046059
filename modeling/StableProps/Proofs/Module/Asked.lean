import StableProps.Proofs.Module.DeclaredTypes

/-!
# Asking for names

Whoever asks a project through look-ups is told the same as the project tells itself: names are
followed through exports and imports, and bound to declarations, alike. So the names at a place of a
known module are bound to what stands in known modules or is not read, also when they are asked for.
-/

namespace StableProps

namespace Project

section

variable {m : Type → Type} [Monad m] [LawfulMonad m] (p : Project m)

/-- To ask for an index and to run the question is to look it up. -/
theorem run_index (path : Path) : ((asking p.bound).index path).run p = p.index path := bind_pure _

/-- To ask for a module and to run the question is to resolve it. -/
private theorem run_resolve (specifier : String) (file : Path) :
    ((asking p.bound).resolve specifier file).run p = p.resolve specifier file :=
  bind_pure _

/-- To ask for the index of a path, if there is one, and to run the question is to look it up. -/
theorem run_index? (path : Option Path) :
    ((asking p.bound).index? path).run p = p.index? path := by
  cases path with
  | none => rfl
  | some path => exact p.run_index path

/-- The module behind a specifier is the one that is asked for. -/
private theorem run_target? (i : ModuleIndex) (specifier : String) :
    ((asking p.bound).target? i specifier).run p = p.target? i specifier := by
  rw [target?, Query.run_bind, run_resolve]
  exact bind_congr p.run_index?

/-- The first answer of several modules is the same if each of them answers alike. -/
private theorem run_firstAnswer {α : Type} (i : ModuleIndex) {ask : ModuleIndex → Query (Option α)}
    {ask' : ModuleIndex → m (Option α)} (hask : ∀ j, (ask j).run p = ask' j)
    (specifiers : List String) :
    ((asking p.bound).firstAnswer i ask specifiers).run p = p.firstAnswer i ask' specifiers := by
  induction specifiers with
  | nil => rfl
  | cons specifier rest ih =>
    rw [firstAnswer, firstAnswer, Query.run_bind, run_target?]
    refine bind_congr fun target => ?_
    cases target with
    | none => exact ih
    | some j =>
      dsimp only
      rw [Query.run_bind, hask]
      refine bind_congr fun answer => ?_
      cases answer with
      | none => exact ih
      | some a => rfl

/-- An export is followed alike if the way onward is. -/
private theorem run_followVia {onward : ModuleIndex → String → Query (Option Declared)}
    {onward' : ModuleIndex → String → m (Option Declared)}
    (honward : ∀ j name, (onward j name).run p = onward' j name) (i : ModuleIndex)
    (name : String) :
    ((asking p.bound).followVia onward i name).run p = p.followVia onward' i name := by
  rw [followVia, followVia]
  split
  · rw [Query.run_bind, run_index?]
    refine bind_congr fun target => ?_
    cases target with
    | none => rfl
    | some j => exact honward j _
  · rfl

/-- An export is followed alike. -/
theorem run_resolveExportFrom (fuel : Nat) (passed : List (Path × String)) (i : ModuleIndex)
    (name : String) :
    ((asking p.bound).resolveExportFrom fuel passed i name).run p =
      p.resolveExportFrom fuel passed i name := by
  induction fuel generalizing passed i name with
  | zero => rfl
  | succ fuel ih =>
    rw [resolveExportFrom, resolveExportFrom]
    split
    · rfl
    · dsimp only
      split
      · split
        · rw [Query.run_bind, run_target?]
          refine bind_congr fun target => ?_
          cases target with
          | none => rfl
          | some j => exact ih _ _ _
        · rfl
        · rw [Query.run_bind, run_followVia p (ih _)]
          refine bind_congr fun found => ?_
          cases found <;> rfl
      · split
        · rfl
        · exact p.run_firstAnswer i (ih _ · name) _

/-- An export that is asked for is the one that the project resolves. -/
theorem run_resolveExport (i : ModuleIndex) (name : String) :
    ((asking p.bound).resolveExport i name).run p = p.resolveExport i name :=
  p.run_resolveExportFrom _ _ _ _

/-- An import is followed alike. -/
theorem run_followImport (i : ModuleIndex) (name : String) :
    ((asking p.bound).followImport i name).run p = p.followImport i name :=
  p.run_followVia p.run_resolveExport i name

/-- A type that is asked for by its export is the one that the project finds. -/
private theorem run_exportedType? (i : ModuleIndex) (exported : String) :
    ((asking p.bound).exportedType? i exported).run p = p.exportedType? i exported := by
  rw [exportedType?, exportedType?, Query.run_bind, run_resolveExport]
  refine bind_congr fun found => ?_
  cases found <;> rfl

/-- A type that is asked for by its import is the one that the project finds. -/
private theorem run_importedType? (i : ModuleIndex) (name : String) :
    ((asking p.bound).importedType? i name).run p = p.importedType? i name := by
  rw [importedType?, importedType?]
  split
  · rw [Query.run_bind, run_index?]
    refine bind_congr fun target => ?_
    cases target with
    | none => rfl
    | some j =>
      dsimp only
      rw [Query.run_bind, run_exportedType?]
      refine bind_congr fun found => ?_
      cases found <;> rfl
  · rfl

/-- A declaration that is asked for is the one that the project finds. -/
private theorem run_declareType (i : ModuleIndex) (name : String) (context : Option Focus) :
    ((asking p.bound).declareType i name context).run p = p.declareType i name context := by
  rw [declareType, declareType]
  split
  · rfl
  · split
    · rfl
    · exact p.run_importedType? i name

/-- A declaration that is asked for by a qualified name is the one that the project finds. -/
private theorem run_declareQualified (i : ModuleIndex) (qualifier name : String) :
    ((asking p.bound).declareQualified i qualifier name).run p =
      p.declareQualified i qualifier name := by
  rw [declareQualified, declareQualified]
  split
  · rfl
  · split
    · rfl
    · rw [Query.run_bind, run_index?]
      refine bind_congr fun target => ?_
      cases target with
      | none => rfl
      | some j =>
        dsimp only
        rw [Query.run_bind, run_exportedType?]
        refine bind_congr fun found => ?_
        cases found <;> rfl

/-- A name is bound alike. -/
theorem run_binder (i : ModuleIndex) (context : Focus) (name : String)
    (qualifier : Option String) :
    ((asking p.bound).binder i context name qualifier).run p =
      p.binder i context name qualifier := by
  cases qualifier with
  | none => exact p.run_declareType i name (some context)
  | some q => exact p.run_declareQualified i q name

end

/-- What a look-up returns in a project has a property. -/
def asked (p : Project (Except Failure)) : OutcomeLogic Query where
  Ensures P q := ∀ a, q.run p = .ok a → P a
  pure h _ ha := Except.ok.inj ha ▸ h
  bind hx hf b hb := by
    rw [Query.run_bind] at hb
    obtain ⟨a, ha, hb⟩ := bind_eq_ok.1 hb
    exact hf a (hx a ha) b hb
  imp h himp a ha := himp a (h a ha)

end Project

end StableProps
