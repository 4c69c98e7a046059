import Mathlib.Data.List.Infix
import StableProps.Import.Specifier

/-!
# Names of packages of typings

The typings of a package in a scope are named by the scope and the package with two underscores
between them, and the name is read back at the first pair of underscores. So it leads back to the
package exactly if the pair that was written is the first one: the scope must not hold a pair, and
must not end in an underscore, which would make a pair with the next one. A package without a scope
keeps its name, which must not hold a pair at all.
-/

namespace StableProps.Specifier

variable {cs before after : List Char}

/-- There are two underscores in a row. -/
def HasPair (cs : List Char) : Prop := ['_', '_'] <:+: cs

private theorem not_hasPair_nil : ¬HasPair [] := by
  rw [HasPair, List.infix_nil]
  nofun

private theorem hasPair_cons (c : Char) (cs : List Char) :
    HasPair (c :: cs) ↔ (c = '_' ∧ cs.head? = some '_') ∨ HasPair cs := by
  rw [HasPair, List.infix_cons_iff, List.cons_prefix_cons]
  refine or_congr (and_congr eq_comm ?_) Iff.rfl
  cases cs with
  | nil => simp
  | cons d ds => simp [eq_comm]

/-- An underscore behind a list makes a pair only with one at its end. -/
theorem hasPair_concat (cs : List Char) : HasPair (cs ++ ['_']) ↔ HasPair cs ∨ ['_'] <:+ cs := by
  induction cs with
  | nil => simp [hasPair_cons, not_hasPair_nil]
  | cons c cs ih =>
    rw [List.cons_append, hasPair_cons, hasPair_cons, ih, List.suffix_cons_iff, or_assoc]
    cases cs with
    | nil => simp [not_hasPair_nil, eq_comm]
    | cons d ds => simp

/-- A list is cut nowhere exactly if it holds no pair. -/
theorem splitAtUnderscores_eq_none_iff : splitAtUnderscores cs = none ↔ ¬HasPair cs := by
  fun_induction splitAtUnderscores cs with
  | case1 => simp [not_hasPair_nil]
  | case2 rest => simp [hasPair_cons]
  | case3 c rest hnot ih =>
    have hhead : ¬(c = '_' ∧ rest.head? = some '_') := by
      rintro ⟨rfl, hhead⟩
      obtain ⟨ds, rfl⟩ := List.head?_eq_some_iff.1 hhead
      exact hnot ds rfl rfl
    rw [Option.map_eq_none_iff, ih, hasPair_cons, or_iff_right hhead]

/-- A list is cut at a pair, and what stands before it makes no pair, not even with its first
underscore. -/
theorem of_splitAtUnderscores (h : splitAtUnderscores cs = some (before, after)) :
    cs = before ++ '_' :: '_' :: after ∧ ¬HasPair (before ++ ['_']) := by
  fun_induction splitAtUnderscores cs generalizing before with
  | case1 => cases h
  | case2 rest =>
    obtain ⟨rfl, rfl⟩ := Prod.mk.inj (Option.some.inj h)
    exact ⟨rfl, by simp [hasPair_cons, not_hasPair_nil]⟩
  | case3 c rest hnot ih =>
    obtain ⟨⟨front, back⟩, hcut, hpair⟩ := Option.map_eq_some_iff.1 h
    obtain ⟨rfl, rfl⟩ := Prod.mk.inj hpair
    obtain ⟨rfl, hfront⟩ := ih hcut
    refine ⟨rfl, ?_⟩
    rw [List.cons_append, hasPair_cons, or_iff_left hfront]
    rintro ⟨rfl, hhead⟩
    cases front with
    | nil => exact hnot _ rfl rfl
    | cons d front =>
      obtain rfl := Option.some.inj hhead
      exact hnot _ rfl rfl

/-- The first pair is the one at which a list is cut. -/
theorem splitAtUnderscores_append (h : ¬HasPair (before ++ ['_'])) :
    splitAtUnderscores (before ++ '_' :: '_' :: after) = some (before, after) := by
  induction before with
  | nil => rfl
  | cons c before ih =>
    rw [List.cons_append, hasPair_cons, not_or] at h
    rw [List.cons_append, splitAtUnderscores, ih h.2]
    · rfl
    · rintro ds rfl hds
      refine h.1 ⟨rfl, ?_⟩
      cases before with
      | nil => rfl
      | cons d before => exact congrArg List.head? hds

private theorem slashesToUnderscores_eq_self (h : '/' ∉ cs) : slashesToUnderscores cs = cs := by
  induction cs with
  | nil => rfl
  | cons c cs ih =>
    rw [List.mem_cons, not_or] at h
    rw [slashesToUnderscores, if_neg (Ne.symm h.1), ih h.2]

private theorem slashesToUnderscores_append (h : '/' ∉ before) :
    slashesToUnderscores (before ++ '/' :: after) =
      before ++ '_' :: '_' :: slashesToUnderscores after := by
  induction before with
  | nil => rfl
  | cons c before ih =>
    rw [List.mem_cons, not_or] at h
    rw [List.cons_append, slashesToUnderscores, if_neg (Ne.symm h.1), ih h.2]
    rfl

/-- A package in a scope. -/
def inScope (scope name : String) : String := "@" ++ scope ++ "/" ++ name

private theorem toList_inScope (scope name : String) :
    (inScope scope name).toList = '@' :: (scope.toList ++ '/' :: name.toList) := by
  simp [inScope]

/-- The typings of a package in a scope are named by both, with two underscores between them. -/
theorem toList_typesPackage_inScope {scope name : String} (hscope : '/' ∉ scope.toList)
    (hname : '/' ∉ name.toList) : (typesPackage (inScope scope name)).toList =
      scope.toList ++ '_' :: '_' :: name.toList := by
  have hat : Text.startsWith (inScope scope name) "@" = true := by
    rw [Text.startsWith, toList_inScope]
    rfl
  rw [typesPackage, if_pos hat, String.toList_ofList, toList_inScope, List.drop_one, List.tail_cons,
    slashesToUnderscores_append hscope, slashesToUnderscores_eq_self hname]

/-- The name of a package of typings is read back at its first pair of underscores. -/
theorem runtime_typings (name : String) : runtime (typings ++ name) =
    match splitAtUnderscores name.toList with
    | some (scope, package) => inScope (String.ofList scope) (String.ofList package)
    | none => name := by
  have htypings : Text.startsWith (typings ++ name) typings = true := by
    rw [Text.startsWith, String.toList_append, List.isPrefixOf_iff_prefix]
    exact List.prefix_append ..
  have hname : dropFirst (typings ++ name) typings.length = name := by
    rw [dropFirst, String.toList_append, ← String.length_toList, List.drop_left,
      String.ofList_toList]
  rw [runtime, if_pos htypings]
  dsimp only
  rw [hname]
  rfl

/-- A package in a scope is read back exactly if the name of its typings is cut between both. -/
theorem runtime_typings_eq_inScope_iff {typed scope name : String} (htyped : '/' ∉ typed.toList) :
    runtime (typings ++ typed) = inScope scope name ↔
      splitAtUnderscores typed.toList = some (scope.toList, name.toList) := by
  rw [runtime_typings, ← String.toList_inj, toList_inScope]
  split
  next before after hcut =>
    obtain ⟨hbefore, hafter⟩ : '/' ∉ before ∧ '/' ∉ after := by
      rw [(of_splitAtUnderscores hcut).1] at htyped
      simpa using htyped
    rw [toList_inScope, String.toList_ofList, String.toList_ofList, hcut, List.cons_inj_right,
      List.append_cons_inj_of_notMem hbefore hafter]
    simp
  next hcut =>
    -- Without a slash, the name of the typings is no package in a scope.
    refine iff_of_false ?_ (by simp [hcut])
    intro heq
    rw [heq] at htyped
    simp at htyped

/-- The name of the typings of a package in a scope leads back to the package exactly if the scope
holds no two underscores in a row and does not end in one. That of a package without a scope does so
exactly if the package holds no two underscores in a row. -/
theorem runtime_typesPackage_eq_iff :
    (∀ scope name : String, '/' ∉ scope.toList → '/' ∉ name.toList →
      (runtime (typings ++ typesPackage ("@" ++ scope ++ "/" ++ name)) =
          "@" ++ scope ++ "/" ++ name ↔
        ¬"__".toList <:+: scope.toList ∧ endsWith scope "_" = false)) ∧
    ∀ package : String, Text.startsWith package "@" = false →
      (runtime (typings ++ typesPackage package) = package ↔
        ¬"__".toList <:+: package.toList) := by
  refine ⟨fun scope name hscope hname => ?_, fun package hpackage => ?_⟩
  · have htyped := toList_typesPackage_inScope hscope hname
    have hslash : '/' ∉ (typesPackage (inScope scope name)).toList := by
      rw [htyped]
      simp [hscope, hname]
    have hend : endsWith scope "_" = false ↔ ¬['_'] <:+ scope.toList := by
      rw [endsWith, ← Bool.not_eq_true, List.isSuffixOf_iff_suffix]
      rfl
    have hpair : ¬"__".toList <:+: scope.toList ∧ endsWith scope "_" = false ↔
        ¬HasPair (scope.toList ++ ['_']) := by
      rw [hasPair_concat, not_or, hend]
      rfl
    rw [hpair, ← inScope, runtime_typings_eq_inScope_iff hslash, htyped]
    constructor
    · exact fun hcut => (of_splitAtUnderscores hcut).2
    · exact splitAtUnderscores_append
  · have htyped : typesPackage package = package := by rw [typesPackage, hpackage]; rfl
    change _ ↔ ¬HasPair package.toList
    rw [htyped, runtime_typings, ← splitAtUnderscores_eq_none_iff]
    split
    next before after hcut =>
      -- What is read back is a package in a scope, which the package is not.
      refine iff_of_false ?_ (by simp [hcut])
      rintro heq
      rw [← heq, Text.startsWith, toList_inScope] at hpackage
      cases hpackage
    next hcut => simp [hcut]

/-- Of the packages `@babel/core`, `@babel_/core` and `lodash_es` the second is not found again: the
underscore at the end of the scope and the next one are taken for the pair. -/
theorem runtime_typesPackage_babel :
    runtime (typings ++ typesPackage ("@" ++ "babel" ++ "/" ++ "core")) =
        "@" ++ "babel" ++ "/" ++ "core" ∧
      runtime (typings ++ typesPackage ("@" ++ "babel_" ++ "/" ++ "core")) ≠
        "@" ++ "babel_" ++ "/" ++ "core" ∧
      runtime (typings ++ typesPackage "lodash_es") = "lodash_es" := by
  obtain ⟨hscoped, hplain⟩ := runtime_typesPackage_eq_iff
  refine ⟨(hscoped "babel" "core" (by decide) (by decide)).2 ⟨by decide, by decide⟩, ?_,
    (hplain "lodash_es" (by decide)).2 (by decide)⟩
  intro heq
  have hend := ((hscoped "babel_" "core" (by decide) (by decide)).1 heq).2
  exact absurd hend (by decide)

end StableProps.Specifier
