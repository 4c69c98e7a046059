import Mathlib.Data.List.MinMax
import StableProps.Proofs.Module.Relative

/-!
# Patterns with a star

A pattern is cut at its star. A specifier fits it by what the star stands for, and with the star
replaced by that the pattern is the specifier again. A path that is mapped to such a pattern ends
with its star, so that what the star stands for is read as the way from the directory in front.
-/

namespace StableProps

/-! ## Cutting and filling -/

private theorem splitAtStar_eq_none_iff {cs : List Char} : splitAtStar cs = none ↔ '*' ∉ cs := by
  fun_induction splitAtStar cs with
  | case1 => simp
  | case2 rest => simp
  | case3 c rest hc ih =>
    rw [Option.map_eq_none_iff, ih, List.mem_cons, not_or]
    exact (and_iff_right fun h => hc h.symm).symm

/-- A list is cut at its first star. -/
theorem splitAtStar_eq_some_iff {cs before after : List Char} :
    splitAtStar cs = some (before, after) ↔ cs = before ++ '*' :: after ∧ '*' ∉ before := by
  fun_induction splitAtStar cs generalizing before after with
  | case1 => simp
  | case2 rest =>
    constructor
    · rintro ⟨⟩
      exact ⟨rfl, List.not_mem_nil⟩
    · rintro ⟨hcut, hbefore⟩
      cases before with
      | nil => rw [(List.cons.inj hcut).2]
      | cons c before => exact absurd ((List.cons.inj hcut).1 ▸ List.mem_cons_self) hbefore
  | case3 c rest hc ih =>
    rw [Option.map_eq_some_iff]
    constructor
    · rintro ⟨⟨front, back⟩, hrest, ⟨⟩⟩
      obtain ⟨rfl, hfront⟩ := ih.1 hrest
      exact ⟨rfl, fun hmem => (List.mem_cons.1 hmem).elim (fun h => hc h.symm) hfront⟩
    · rintro ⟨hcut, hbefore⟩
      cases before with
      | nil => exact absurd (List.cons.inj hcut).1 hc
      | cons d before =>
        obtain ⟨rfl, hrest⟩ := List.cons.inj hcut
        exact ⟨(before, after), ih.2 ⟨hrest, fun h => hbefore (List.mem_cons_of_mem _ h)⟩, rfl⟩

namespace Resolver

/-- A specifier fits a pattern by what stands between the parts around the star. -/
theorem starOf?_eq_some_iff {before after specifier star : List Char} :
    starOf? before after specifier = some star ↔ specifier = before ++ star ++ after := by
  rw [starOf?]
  constructor
  · intro h
    split at h
    next hfits =>
      rw [Bool.and_eq_true, Bool.and_eq_true, List.isPrefixOf_iff_prefix,
        List.isSuffixOf_iff_suffix, decide_eq_true_eq] at hfits
      obtain ⟨⟨⟨front, rfl⟩, back, hback⟩, hlength⟩ := hfits
      rw [List.length_append] at hlength
      have hsuffix : after <:+ front := by
        refine List.suffix_of_suffix_length_le ⟨back, hback⟩ (List.suffix_append _ _) (by omega)
      obtain ⟨middle, rfl⟩ := hsuffix
      obtain rfl := Option.some.inj h
      simp
    · cases h
  · rintro rfl
    rw [if_pos]
    · simp
    · rw [Bool.and_eq_true, Bool.and_eq_true, List.isPrefixOf_iff_prefix,
        List.isSuffixOf_iff_suffix, decide_eq_true_eq]
      refine ⟨⟨?_, List.suffix_append _ _⟩, by simp only [List.length_append]; omega⟩
      rw [List.append_assoc]
      exact List.prefix_append _ _

/-- A list without stars has none to replace. -/
theorem flatMap_star_of_not_mem {star cs : List Char} (h : '*' ∉ cs) :
    (cs.flatMap fun c => if c = '*' then star else [c]) = cs := by
  induction cs with
  | nil => rfl
  | cons c cs ih =>
    rw [List.mem_cons, not_or] at h
    rw [List.flatMap_cons, if_neg (Ne.symm h.1), ih h.2, List.singleton_append]

/-- A text with one star is filled by what the star stands for. -/
theorem toList_fillStars {target : String} {before after : List Char}
    (h : target.toList = before ++ '*' :: after) (hbefore : '*' ∉ before) (hafter : '*' ∉ after)
    (star : List Char) : (fillStars star target).toList = before ++ star ++ after := by
  rw [fillStars, String.toList_ofList, h, List.flatMap_append, List.flatMap_cons, if_pos rfl,
    flatMap_star_of_not_mem hbefore, flatMap_star_of_not_mem hafter, List.append_assoc]

/-- A text with one star has none on either side of it. -/
theorem exists_cut {cs : List Char} (hmem : '*' ∈ cs) (hcount : cs.count '*' ≤ 1) :
    ∃ before after, cs = before ++ '*' :: after ∧ '*' ∉ before ∧ '*' ∉ after := by
  cases hcut : splitAtStar cs with
  | none => exact absurd hmem (splitAtStar_eq_none_iff.1 hcut)
  | some parts =>
    obtain ⟨before, after⟩ := parts
    obtain ⟨rfl, hbefore⟩ := splitAtStar_eq_some_iff.1 hcut
    refine ⟨before, after, rfl, hbefore, List.count_eq_zero.1 ?_⟩
    rw [List.count_append, List.count_cons_self] at hcount
    omega

theorem fillFirstStar_eq {pattern : String} {before after : List Char}
    (h : pattern.toList = before ++ '*' :: after) (hbefore : '*' ∉ before) (filling : String) :
    fillFirstStar pattern filling = String.ofList (before ++ filling.toList ++ after) := by
  rw [fillFirstStar, splitAtStar_eq_some_iff.2 ⟨h, hbefore⟩]

variable {root p : Path} {specifier pattern : String} {targets : List String} {paths : List Path}

/-- A pattern with one star gives paths for a specifier exactly if the specifier is the pattern with
the star replaced, and then the same stands for the stars of the paths. -/
theorem exists_candidatesOf?_iff (hmem : '*' ∈ pattern.toList)
    (hcount : pattern.toList.count '*' ≤ 1) :
    (∃ n, candidatesOf? root specifier pattern targets = some (n, paths)) ↔
      ∃ star, fillStars star pattern = specifier ∧
        paths = targets.map fun t => root.append (fillStars star t) := by
  obtain ⟨before, after, hcut, hbefore, hafter⟩ := exists_cut hmem hcount
  have hfill (star : List Char) : fillStars star pattern = specifier ↔
      starOf? before after specifier.toList = some star := by
    rw [starOf?_eq_some_iff, ← toList_fillStars hcut hbefore hafter, String.toList_inj, eq_comm]
  rw [candidatesOf?, splitAtStar_eq_some_iff.2 ⟨hcut, hbefore⟩]
  simp only [Option.map_eq_some_iff, Prod.mk.injEq, hfill]
  constructor
  · rintro ⟨n, star, hstar, -, rfl⟩
    exact ⟨star, hstar, rfl⟩
  · rintro ⟨star, hstar, rfl⟩
    exact ⟨_, star, hstar, rfl, rfl⟩

/-- A pattern without a star gives paths for itself. -/
theorem candidatesOf?_self (hnot : '*' ∉ pattern.toList) :
    candidatesOf? root pattern pattern targets =
      some (pattern.length + 1, targets.map root.append) := by
  rw [candidatesOf?, splitAtStar_eq_none_iff.2 hnot]
  exact if_pos rfl

/-- The paths for a specifier are those that the patterns give. -/
theorem mem_aliasCandidates_iff {c : Config} : p ∈ aliasCandidates c specifier ↔
    ∃ pattern targets, (pattern, targets) ∈ c.paths ∧ ∃ n paths,
      candidatesOf? c.aliasRoot specifier pattern targets = some (n, paths) ∧ p ∈ paths := by
  rw [aliasCandidates]
  simp only [List.mem_flatMap, List.mem_mergeSort, List.mem_filterMap, Prod.exists]
  constructor
  · rintro ⟨n, paths, ⟨pattern, targets, hmem, hfits⟩, hp⟩
    exact ⟨pattern, targets, hmem, n, paths, hfits, hp⟩
  · rintro ⟨pattern, targets, hmem, n, paths, hfits, hp⟩
    exact ⟨n, paths, ⟨pattern, targets, hmem, hfits⟩, hp⟩

/-! ## The most specific mapping -/

/-- Of several candidates, the first of the greatest is taken. -/
theorem mostSpecific_eq_argmax (found : List (Nat × String)) :
    mostSpecific found = found.argmax Prod.fst := by
  refine congrArg (fun step => found.foldl step none) ?_
  funext best c
  cases best <;> rfl

end Resolver

namespace Config

/-- A pattern is mapped to a path. -/
def Maps (c : Config) (pattern mapped : String) : Prop :=
  ∃ targets, (pattern, targets) ∈ c.paths ∧ mapped ∈ targets

/-- What stands in front of the star of a mapped path: nothing, or directories with a slash behind
them. -/
def IsFront (front : String) : Prop :=
  '*' ∉ front.toList ∧ (front = "" ∨ Specifier.endsWith front "/" = true)

/-- Patterns that start with neither a dot nor a slash and have one star at most. Those with a star
are mapped to paths that end with their only star, which nothing or a slash stands in front of. -/
structure HasPlainPatterns (c : Config) : Prop where
  start : ∀ entry ∈ c.paths,
    Text.startsWith entry.1 "." = false ∧ Text.startsWith entry.1 "/" = false
  count : ∀ entry ∈ c.paths, entry.1.toList.count '*' ≤ 1
  mapped : ∀ entry ∈ c.paths, '*' ∈ entry.1.toList → ∀ mapped ∈ entry.2,
    mapped.toList.count '*' = 1 ∧ (mapped = "*" ∨ Specifier.endsWith mapped "/*" = true)

instance (c : Config) : Decidable c.HasPlainPatterns :=
  decidable_of_iff
    ((∀ entry ∈ c.paths,
        Text.startsWith entry.1 "." = false ∧ Text.startsWith entry.1 "/" = false) ∧
      (∀ entry ∈ c.paths, entry.1.toList.count '*' ≤ 1) ∧
      ∀ entry ∈ c.paths, '*' ∈ entry.1.toList → ∀ mapped ∈ entry.2,
        mapped.toList.count '*' = 1 ∧ (mapped = "*" ∨ Specifier.endsWith mapped "/*" = true))
    ⟨fun ⟨hstart, hcount, hmapped⟩ => ⟨hstart, hcount, hmapped⟩,
      fun h => ⟨h.start, h.count, h.mapped⟩⟩

/-- A path that ends with its only star is that star behind a front. -/
theorem exists_front {mapped : String} (hcount : mapped.toList.count '*' = 1)
    (h : mapped = "*" ∨ Specifier.endsWith mapped "/*" = true) :
    ∃ front, IsFront front ∧ mapped = front ++ "*" := by
  rcases h with rfl | hends
  · exact ⟨"", ⟨by simp, .inl rfl⟩, rfl⟩
  · obtain ⟨cs, hcs⟩ := Specifier.endsWith_iff.1 hends
    obtain rfl : mapped = String.ofList cs ++ "/" ++ "*" := by
      rw [← String.toList_inj, ← hcs]
      simp
    refine ⟨_, ⟨?_, .inr ?_⟩, rfl⟩
    · rw [String.toList_append, List.count_append] at hcount
      have hstar : "*".toList.count '*' = 1 := rfl
      exact List.count_eq_zero.1 (by omega)
    · rw [Specifier.endsWith_iff, String.toList_append]
      exact List.suffix_append _ _

theorem HasPlainPatterns.exists_front {c : Config} {pattern mapped : String}
    (h : c.HasPlainPatterns) (hmaps : c.Maps pattern mapped) (hstar : '*' ∈ pattern.toList) :
    ∃ front, IsFront front ∧ mapped = front ++ "*" := by
  obtain ⟨targets, hentry, hmapped⟩ := hmaps
  obtain ⟨hcount, hends⟩ := h.mapped _ hentry hstar mapped hmapped
  exact Config.exists_front hcount hends

end Config

private theorem FileTree.leadsTo_iff {t : FileTree} {base target : Path} :
    t.leadsTo base target = true ↔ t.moduleAt? base = .ok (some target) := by
  rw [leadsTo]
  split
  next found hfound => rw [hfound, beq_iff_eq, Except.ok.injEq]
  next hfound => exact ⟨nofun, fun h => nomatch hfound.symm.trans h⟩

namespace Resolver

variable {r : Resolver} {c : Config} {t : FileTree} {root target : Path}
  {pattern mapped front specifier : String}

/-- The alias of a module comes from a mapping that is at least as specific as the others. -/
theorem exists_of_aliasFor?_eq_some (hconfig : r.config = some c)
    (h : r.aliasFor? target = some specifier) :
    ∃ n pattern mapped, c.Maps pattern mapped ∧
      aliasBy? r.tree c.aliasRoot target pattern mapped = some (n, specifier) ∧
      ∀ pattern' mapped' n' specifier', c.Maps pattern' mapped' →
        aliasBy? r.tree c.aliasRoot target pattern' mapped' = some (n', specifier') → n' ≤ n := by
  have hmem (found : Nat × String) :
      (found ∈ c.paths.flatMap fun entry =>
        entry.2.filterMap (aliasBy? r.tree c.aliasRoot target entry.1)) ↔
        ∃ pattern mapped, c.Maps pattern mapped ∧
          aliasBy? r.tree c.aliasRoot target pattern mapped = some found := by
    simp only [List.mem_flatMap, List.mem_filterMap, Prod.exists]
    constructor
    · rintro ⟨pattern, targets, hpaths, mapped, hmapped, hfound⟩
      exact ⟨pattern, mapped, ⟨targets, hpaths, hmapped⟩, hfound⟩
    · rintro ⟨pattern, mapped, ⟨targets, hpaths, hmapped⟩, hfound⟩
      exact ⟨pattern, targets, hpaths, mapped, hmapped, hfound⟩
  rw [aliasFor?, hconfig] at h
  obtain ⟨_, ⟨⟩, hfound⟩ := Option.bind_eq_some_iff.1 h
  obtain ⟨⟨n, best⟩, hbest, hspecifier⟩ := Option.bind_eq_some_iff.1 hfound
  obtain rfl := Option.some.inj hspecifier
  rw [mostSpecific_eq_argmax] at hbest
  obtain ⟨pattern, mapped, hmaps, hfound⟩ := (hmem _).1 (List.argmax_mem hbest)
  refine ⟨n, pattern, mapped, hmaps, hfound, fun pattern' mapped' n' other hmaps' hfound' => ?_⟩
  exact List.le_of_mem_argmax ((hmem _).2 ⟨pattern', mapped', hmaps', hfound'⟩) hbest

/-- A pattern without a star stands for the module that it is mapped to. -/
theorem aliasBy?_of_not_mem (hnot : '*' ∉ pattern.toList) {found : Nat × String} :
    aliasBy? t root target pattern mapped = some found ↔
      t.moduleAt? (root.append mapped) = .ok (some target) ∧
        found = (target.parts.length + 2, pattern) := by
  rw [aliasBy?, if_neg (by rwa [List.contains_iff_mem]), ← FileTree.leadsTo_iff]
  split
  next h => exact ⟨fun heq => ⟨h, (Option.some.inj heq).symm⟩, fun ⟨_, heq⟩ => heq ▸ rfl⟩
  next h => exact ⟨nofun, fun ⟨hleads, _⟩ => absurd hleads h⟩

/-- A pattern with a star stands for the modules in the directory that it is mapped to. -/
theorem aliasBy?_of_mem (hmem : '*' ∈ pattern.toList) :
    aliasBy? t root target pattern (front ++ "*") =
      (target.below? (root.append front).normalized).map fun rest =>
        ((root.append front).normalized.parts.length + 1,
          fillFirstStar pattern (Specifier.stripExtension (Path.text ⟨false, rest⟩))) := by
  have hends : Specifier.endsWith (front ++ "*") "*" = true := by
    rw [Specifier.endsWith_iff, String.toList_append]
    exact List.suffix_append _ _
  have hdrop : Specifier.dropLast (front ++ "*") "*".length = front :=
    Specifier.dropLast_eq_of_toList String.toList_append
  rw [show "*".length = 1 from rfl] at hdrop
  rw [aliasBy?, if_pos (by rwa [List.contains_iff_mem]), if_pos hends, hdrop]

end Resolver

/-! ## The way behind a star -/

namespace Path

private theorem split_append_slash (front text : String) :
    Text.split '/' (front ++ "/" ++ text) = Text.split '/' front ++ Text.split '/' text :=
  Text.split_append rfl front text

/-- What is written behind directories is a way that starts there. -/
theorem append_front (p : Path) {front text : String} (hfront : Config.IsFront front)
    (htext : Text.startsWith text "/" = false) :
    p.append (front ++ text) = ⟨(p.append front).rooted, (p.append front).parts ++
      (ofText text).parts⟩ := by
  have hread : ofText (front ++ text) =
      ⟨(ofText front).rooted, (ofText front).parts ++ (ofText text).parts⟩ := by
    obtain rfl | hslash := hfront.2
    · rw [String.empty_append, ofText, htext]
      rfl
    · obtain ⟨cs, hcs⟩ := Specifier.endsWith_iff.1 hslash
      obtain rfl : front = String.ofList cs ++ "/" := by
        rw [← String.toList_inj, String.toList_append, String.toList_ofList]
        exact hcs.symm
      have hempty : Text.split '/' (String.ofList cs ++ "/") =
          Text.split '/' (String.ofList cs) ++ [""] := by
        have hsplit := split_append_slash (String.ofList cs) ""
        rwa [String.append_empty] at hsplit
      rw [ofText, ofText, ofText, split_append_slash, hempty]
      simp only [List.filter_append]
      congr 1
      · rw [Text.startsWith, Text.startsWith]
        cases cs <;> simp [List.isPrefixOf]
      · simp
  rw [append, hread, append, join, join]
  dsimp only
  split <;> simp [List.append_assoc]

theorem below?_eq_some_iff {p directory : Path} {rest : List String} :
    p.below? directory = some rest ↔ p = ⟨directory.rooted, directory.parts ++ rest⟩ := by
  rw [below?]
  constructor
  · intro h
    split at h
    next hbelow =>
      obtain ⟨hrooted, hprefix⟩ := hbelow
      obtain ⟨after, hafter⟩ := List.isPrefixOf_iff_prefix.1 hprefix
      obtain rfl := Option.some.inj h
      rw [← hafter, List.drop_left, hafter, ← hrooted]
    · cases h
  · rintro rfl
    rw [if_pos ⟨rfl, List.isPrefixOf_iff_prefix.2 (List.prefix_append _ _)⟩, List.drop_left]

end Path

end StableProps
