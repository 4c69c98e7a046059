import StableProps.Proofs.Module.Inherited
import StableProps.Proofs.Module.Star

/-!
# Aliases that lead back

A file that a pattern covers is imported by an alias: the pattern itself, if it is mapped to the
file, or else the pattern of a directory around the file that lies as deep as possible, the star
standing for the way from there. The path that the pattern gives for the alias stands for the file
again, exactly if the mapped directory can be walked to as it is written and the name without
extension is no single dot. An alias that starts with a dot is taken for a path, though.
-/

namespace StableProps

namespace Path

private theorem rooted_append {p : Path} (h : p.rooted = true) (s : String) :
    (p.append s).rooted = true := by
  rw [append, join]
  split
  next hrooted => exact hrooted
  · exact h

/-- Files that a path may stand for, apart from the path itself, are elsewhere. -/
theorem normalized_ne_of_mem_moduleFiles {base p : Path} (hp : p ∈ base.moduleFiles)
    (hne : p ≠ base) : p.normalized ≠ base.normalized := by
  intro heq
  have hparts := congrArg Path.parts heq
  rcases of_mem_moduleFiles hp with rfl | ⟨e, he, rfl | rfl⟩
  · exact hne rfl
  · have hlong : ∀ e ∈ moduleExtensions, 3 ≤ e.length := by decide
    have hlength := hlong e he
    have hdots : base.name ++ e ≠ ".." := by
      intro h
      have hshort : (base.name ++ e).length = 2 := congrArg String.length h
      rw [String.length_append] at hshort
      omega
    rw [addSuffix, normalized, foldl_step_concat hdots, normalized] at hparts
    rcases List.eq_nil_or_concat' base.parts with hnil | ⟨before, last, hconcat⟩
    · rw [hnil] at hparts
      cases hparts
    · have hname : base.name = last := by rw [name, hconcat]; simp
      rw [hconcat, List.dropLast_concat] at hparts
      by_cases hlast : last = ".."
      · have hup := congrArg List.length hparts
        rw [hlast, List.foldl_append, List.foldl_cons, List.foldl_nil, normalized.step, if_pos rfl,
          List.length_append, List.length_reverse, List.length_reverse, List.length_drop,
          List.length_singleton] at hup
        omega
      · rw [foldl_step_concat hlast] at hparts
        have hsame := List.singleton_inj.1 (List.append_cancel_left hparts)
        have hlengths := congrArg String.length hsame
        rw [String.length_append, hname] at hlengths
        omega
  · have hdots : ∀ e ∈ moduleExtensions, "index" ++ e ≠ ".." := by decide
    rw [append_index he, normalized, foldl_step_concat (hdots e he), normalized] at hparts
    exact absurd hparts (by simp)

end Path

namespace Config

variable {c : Config} {t : FileTree}

/-- All paths of a configuration start at the root. -/
structure IsRooted (c : Config) : Prop where
  path : c.path.rooted = true
  base : ∀ p, c.baseUrl = some p → p.rooted = true
  paths : ∀ p, c.pathsBase = some p → p.rooted = true

theorem IsRooted.override {path : Path} {inherited : Option Config} (hpath : path.rooted = true)
    (hinherited : ∀ c, inherited = some c → c.IsRooted) (options : Json) :
    (override path inherited options).IsRooted := by
  have hown (base : String) : (path.parent.append base).normalized.rooted = true :=
    Path.rooted_append (by exact hpath) base
  have hbase : ∀ p, inherited.bind (·.baseUrl) = some p → p.rooted = true := by
    intro p hp
    obtain ⟨c, hc, hp⟩ := Option.bind_eq_some_iff.1 hp
    exact (hinherited c hc).base p hp
  have hpaths : ∀ p, inherited.bind (·.pathsBase) = some p → p.rooted = true := by
    intro p hp
    obtain ⟨c, hc, hp⟩ := Option.bind_eq_some_iff.1 hp
    exact (hinherited c hc).paths p hp
  rw [Config.override]
  cases (options.get? "baseUrl").bind Json.string? <;> cases patterns? options
  · exact ⟨hpath, hbase, hpaths⟩
  · exact ⟨hpath, hbase, fun p hp => Option.some.inj hp ▸ hpath⟩
  · exact ⟨hpath, fun p hp => Option.some.inj hp ▸ hown _, hpaths⟩
  · exact ⟨hpath, fun p hp => Option.some.inj hp ▸ hown _, fun p hp => Option.some.inj hp ▸ hpath⟩

theorem Lineage.rooted {passed line : List Path} {path : Path} (h : Lineage t passed path line)
    (hpath : path.rooted = true) : ∀ p ∈ line, p.rooted = true := by
  induction h with
  | ends _ => exact fun p hp => List.mem_singleton.1 hp ▸ hpath
  | goesOn hnext _ _ ih =>
    intro p hp
    rcases List.mem_cons.1 hp with rfl | hp
    · exact hpath
    · exact ih (hnext.rooted hpath) p hp

private theorem IsRooted.of_settle {line : List Path} (hline : ∀ p ∈ line, p.rooted = true)
    (h : settle t line = .ok (some c)) : c.IsRooted := by
  induction line generalizing c with
  | nil => cases h
  | cons p rest ih =>
    obtain ⟨data, -, h⟩ := bind_eq_ok.1 h
    obtain ⟨next, -, h⟩ := bind_eq_ok.1 h
    obtain ⟨inherited, hinherited, h⟩ := bind_eq_ok.1 h
    obtain ⟨options, -, h⟩ := bind_eq_ok.1 h
    obtain rfl := Option.some.inj (Except.ok.inj h)
    refine .override (hline p List.mem_cons_self) (fun parent hparent => ?_) options
    exact ih (fun q hq => hline q (List.mem_cons_of_mem p hq)) (hparent ▸ hinherited)

private theorem IsRooted.of_load {path : Path} (h : load t path = .ok c) : c.IsRooted := by
  have hrooted := FileTree.rooted_resolve path
  obtain ⟨line, hline⟩ := exists_lineage t [] hrooted
  refine .of_settle (t := t) (hline.rooted hrooted) ?_
  rw [← loadFrom_eq_settle hline hrooted (Nat.add_le_add_right (remaining_le_length ..) 2)]
  exact congrArg (some <$> ·) h

/-- The directory that mapped paths start from is one from the root. -/
theorem rooted_aliasRoot_of_load {path : Path} (h : load t path = .ok c) :
    c.aliasRoot.rooted = true := by
  have hrooted := IsRooted.of_load h
  rw [aliasRoot]
  cases hbase : c.baseUrl with
  | some p => exact hrooted.base p hbase
  | none =>
    cases hpaths : c.pathsBase with
    | some p => exact hrooted.paths p hpaths
    | none => exact hrooted.path

end Config

/-- The files that a path may stand for include a file that exists. -/
def FileTree.StandsFor (t : FileTree) (base target : Path) : Prop :=
  ∃ p ∈ base.moduleFiles, t.isFile p = true ∧ FileTree.resolve p = target

theorem FileTree.StandsFor.of_moduleAt? {t : FileTree} {base target : Path}
    (h : t.moduleAt? base = .ok (some target)) : t.StandsFor base target := by
  obtain ⟨p, hp, hresolve⟩ := FileTree.of_moduleAt? h
  exact ⟨p, List.mem_of_find?_eq_some hp, List.find?_some hp, hresolve⟩

/-- Paths that stand for no file are passed by, up to one without a name. -/
theorem FileTree.firstModule?_append {t : FileTree} {before : List Path}
    (h : ∀ q ∈ before, ∀ p ∈ q.moduleFiles, t.isFile p = false) (after : List Path) :
    t.firstModule? (before ++ after) =
      match before.find? (·.name = "") with
      | some q => .error (.nameless q)
      | none => t.firstModule? after := by
  induction before with
  | nil => rfl
  | cons q before ih =>
    obtain ⟨hq, hbefore⟩ := List.forall_mem_cons.1 h
    rw [List.cons_append, firstModule?, List.findSomeM?_cons, moduleAt?, List.find?_cons]
    by_cases hname : q.name = ""
    · rw [if_pos hname, decide_eq_true hname]
      rfl
    · have hnone : q.moduleFiles.find? t.isFile = none :=
        List.find?_eq_none.2 fun p hp => by simp [hq p hp]
      rw [if_neg hname, decide_eq_false hname, hnone]
      exact ih hbefore

namespace Resolver.NamedByWay

variable {r : Resolver} {target folder : Path} {stem extension : String} {rest : List String}

/-- The text of the way to a file, as it stands for a star. -/
def way (rest : List String) : String := Specifier.stripExtension (Path.text ⟨false, rest⟩)

section

variable (h : NamedByWay r target stem extension)
include h

/-- What is below a directory that is above the target ends with its name. -/
theorem exists_parts_of_below {d : Path} (hbelow : target.below? d = some rest)
    (hrest : rest ≠ []) :
    ∃ parts, rest = parts ++ [stem ++ extension] ∧ Path.IsProper parts ∧
      d.parts ++ parts = target.parts.dropLast := by
  obtain ⟨parts, last, rfl⟩ := (List.eq_nil_or_concat' rest).resolve_left hrest
  have htarget : d.parts ++ parts ++ [last] = target.parts.dropLast ++ [stem ++ extension] := by
    rw [← h.parts_eq, Path.below?_eq_some_iff.1 hbelow, List.append_assoc]
  obtain ⟨hfront, hlast⟩ := List.append_inj' htarget rfl
  refine ⟨parts, by rw [List.singleton_inj.1 hlast], fun part hpart => h.proper part ?_, hfront⟩
  exact List.mem_of_mem_dropLast (hfront ▸ List.mem_append_right _ hpart)

/-- If the directory can be walked to as it is written, then the target is found behind it. -/
theorem find?_behind (hrooted : folder.rooted = true)
    (hbelow : target.below? folder.normalized = some rest) {e : Entry}
    (he : r.tree.find? folder = some e) :
    ∃ text, r.tree.find? ⟨true, folder.parts ++ rest⟩ = some (.file target text) := by
  obtain ⟨text, hfound⟩ := h.found
  obtain ⟨htrooted, hdots⟩ := FileTree.rooted_of_find? hfound
  have htarget := Path.below?_eq_some_iff.1 hbelow
  rw [FileTree.find?_of_rooted hrooted] at he
  have hentry : r.tree.entry? ⟨true, folder.normalized.parts⟩ = some e := FileTree.entry?_of_walk he
  have hnot : ".." ∉ folder.normalized.parts :=
    fun hmem => hdots (htarget ▸ List.mem_append_left rest hmem)
  have hplace : (folder.normalized.parts.foldl Path.normalized.step []).reverse =
      folder.normalized.parts := Path.parts_normalized_of_not_mem hnot
  have hwhole : r.tree.walk ⟨true, []⟩ (folder.normalized.parts ++ rest) =
      some (.file target text) := by
    rw [FileTree.find?_of_rooted htrooted, htarget] at hfound
    rw [hfound, htarget]
  refine ⟨text, ?_⟩
  rw [FileTree.find?_of_rooted rfl]
  by_cases hrest : rest = []
  · subst hrest
    have hfile := FileTree.entry?_of_walk hwhole
    rw [List.append_nil, List.reverse_nil, hplace, hentry] at hfile
    rw [List.append_nil, he, hfile]
  · obtain ⟨q, hq⟩ := FileTree.exists_folder_of_walk_append hwhole hrest
    have hfolder := FileTree.entry?_of_walk hq
    rw [List.reverse_nil, hplace, hentry] at hfolder
    rw [FileTree.walk_append (he.trans hfolder), ← FileTree.walk_append hq, hwhole]

/-- The way to a file below a directory is read as its waypoints. -/
theorem split_way {parts : List String} (hparts : Path.IsProper parts) :
    Text.split '/' (way (parts ++ [stem ++ extension])) = Specifier.waypoints parts stem := by
  have htext : Path.text ⟨false, parts ++ [stem ++ extension]⟩ =
      String.intercalate "/" (parts ++ [stem ++ extension]) := by simp [Path.text]
  rw [way, htext, Specifier.stripExtension_intercalate h.find?_endsWith h.slash_not_mem_stem]
  exact Text.split_intercalate (Specifier.waypoints_ne_nil parts stem)
    (Specifier.not_mem_of_mem_waypoints hparts h.slash_not_mem_stem)

/-- The way to a file is not empty and does not start at the root. -/
theorem exists_way_eq_cons {d : Path} (hbelow : target.below? d = some rest) :
    ∃ first cs, (way rest).toList = first :: cs ∧ first ≠ '/' := by
  by_cases hrest : rest = []
  · subst hrest
    exact ⟨'.', [], by decide, by decide⟩
  · obtain ⟨parts, rfl, hparts, -⟩ := h.exists_parts_of_below hbelow hrest
    have hempty : ∀ part ∈ Specifier.waypoints parts stem, part ≠ "" := by
      intro part hpart
      rw [Specifier.waypoints] at hpart
      split at hpart
      · exact (hparts part hpart).1
      · rcases List.mem_append.1 hpart with hpart | hpart
        · exact (hparts part hpart).1
        · exact List.mem_singleton.1 hpart ▸ h.stem_ne
    have hsplit := h.split_way hparts
    cases hway : (way (parts ++ [stem ++ extension])).toList with
    | nil =>
      rw [Text.split, hway] at hsplit
      exact absurd rfl (hempty "" (hsplit ▸ List.mem_cons_self))
    | cons first cs =>
      refine ⟨first, cs, rfl, ?_⟩
      rintro rfl
      rw [Text.split, hway] at hsplit
      exact hempty "" (hsplit ▸ List.mem_cons_self) rfl

private theorem startsWith_way {d : Path} (hbelow : target.below? d = some rest) :
    Text.startsWith (way rest) "/" = false := by
  obtain ⟨first, cs, hway, hfirst⟩ := h.exists_way_eq_cons hbelow
  rw [Text.startsWith, hway]
  simpa [List.isPrefixOf] using Ne.symm hfirst

/-- The path that a pattern gives for the way to a file goes from the mapped directory. -/
theorem append_way (root : Path) {front : String} (hfront : Config.IsFront front) {d : Path}
    (hbelow : target.below? d = some rest) :
    root.append (front ++ way rest) = ⟨(root.append front).rooted,
      (root.append front).parts ++ (Path.ofText (way rest)).parts⟩ :=
  Path.append_front root hfront (h.startsWith_way hbelow)

/-- A mapped directory that is the target itself, and that can be walked to, has the name of the
target. -/
theorem name_eq_of_find? (hrooted : folder.rooted = true) (htarget : target = folder.normalized)
    {p : Path} {text : String} (hfound : r.tree.find? folder = some (.file p text)) :
    folder.name = stem ++ extension := by
  have hlast := FileTree.getLast?_ne_of_find? hrooted hfound
  have hparts : (folder.parts.foldl Path.normalized.step []).reverse =
      target.parts.dropLast ++ [stem ++ extension] := by
    rw [← h.parts_eq, htarget]
    rfl
  rcases List.eq_nil_or_concat' folder.parts with hnil | ⟨before, last, hconcat⟩
  · rw [hnil] at hparts
    simp at hparts
  · have hdots : last ≠ ".." := fun hdots => hlast (by simp [hconcat, hdots])
    rw [hconcat, Path.foldl_step_concat hdots] at hparts
    rw [Path.name, hconcat, ← List.singleton_inj.1 (List.append_inj' hparts rfl).2]
    simp

/-- A mapped directory that is the target itself stands for it, if it can be walked to. -/
theorem standsFor_self_iff (hrooted : folder.rooted = true)
    (hself : target.below? folder.normalized = some []) :
    r.tree.StandsFor folder target ↔ ∃ e, r.tree.find? folder = some e := by
  have htarget : target = folder.normalized := by
    rw [Path.below?_eq_some_iff.1 hself, List.append_nil]
  constructor
  · rintro ⟨p, hp, hfile, hresolve⟩
    have hprooted : p.rooted = true := by
      rcases Path.of_mem_moduleFiles hp with rfl | ⟨e, -, rfl | rfl⟩
      · exact hrooted
      · exact hrooted
      · exact Path.rooted_append hrooted _
    have hplace : p.normalized = folder.normalized := by
      rw [← htarget, ← hresolve, FileTree.resolve, Path.join, if_pos hprooted]
    have hpath : p = folder := by
      by_contra hne
      exact Path.normalized_ne_of_mem_moduleFiles hp hne hplace
    subst hpath
    obtain ⟨text, hfound⟩ := FileTree.isFile_iff.1 hfile
    exact ⟨_, hfound⟩
  · rintro ⟨e, he⟩
    obtain ⟨text, hfound⟩ := h.find?_behind hrooted hself he
    have hfolder : (⟨true, folder.parts ++ []⟩ : Path) = folder := by
      rw [List.append_nil, ← hrooted]
    rw [hfolder] at hfound
    obtain ⟨hresolve, -⟩ := FileTree.of_find? hfound
    refine ⟨folder, ?_, FileTree.isFile_iff.2 ⟨text, hresolve ▸ hfound⟩, hresolve.symm⟩
    have hmodule : ∀ e ∈ Specifier.implied, e ∈ moduleExtensions := by decide
    have hends : moduleExtensions.any (Specifier.endsWith folder.name) = true := by
      refine List.any_eq_true.2 ⟨extension, hmodule _ h.extension_mem, ?_⟩
      rw [h.name_eq_of_find? hrooted htarget hfound, Specifier.endsWith_iff, String.toList_append]
      exact List.suffix_append _ _
    have hname : folder.name ≠ "" := by
      rw [h.name_eq_of_find? hrooted htarget hfound]
      exact fun hempty => h.stem_ne (String.append_eq_empty_iff.1 hempty).1
    rw [Path.moduleFiles, if_neg hname, if_pos hends]
    exact List.mem_append_left _ (List.mem_append_left _ (List.mem_singleton_self folder))

/-- The path behind a mapped directory stands for the target, exactly if the directory can be walked
to and the name of the target is no single dot. -/
theorem standsFor_behind_iff (hrooted : folder.rooted = true)
    (hbelow : target.below? folder.normalized = some rest) :
    r.tree.StandsFor ⟨true, folder.parts ++ (Path.ofText (way rest)).parts⟩ target ↔
      (rest = [] ∨ stem ≠ ".") ∧ ∃ e, r.tree.find? folder = some e := by
  by_cases hrest : rest = []
  · subst hrest
    have hway : (Path.ofText (way [])).parts = [] := by decide
    rw [hway, List.append_nil, ← hrooted]
    exact (h.standsFor_self_iff hrooted hbelow).trans (and_iff_right (.inl rfl)).symm
  · obtain ⟨parts, rfl, hparts, hdropLast⟩ := h.exists_parts_of_below hbelow hrest
    rw [Path.ofText, h.split_way hparts]
    constructor
    · rintro ⟨p, hp, hfile, hresolve⟩
      have hdot : stem ≠ "." := by
        rintro rfl
        rw [Specifier.filter_waypoints_dot hparts] at hp
        refine resolve_ne_of_dot rfl ?_ h.parts_eq h.extension_mem hp hresolve
        obtain ⟨-, hdots⟩ := FileTree.rooted_of_find? h.found.choose_spec
        have hnot : ".." ∉ parts := fun hmem => hdots
          (List.mem_of_mem_dropLast (hdropLast ▸ List.mem_append_right _ hmem))
        rw [← hdropLast, List.foldl_append, Path.foldl_step_of_not_mem hnot, List.reverse_append,
          List.reverse_reverse]
        rfl
      refine ⟨.inr hdot, ?_⟩
      obtain ⟨behind, hbehind, rfl⟩ :=
        Path.below_of_mem_moduleFiles (h.filter_waypoints_ne_nil hparts hdot) hp
      obtain ⟨text, hfound⟩ := FileTree.isFile_iff.1 hfile
      rw [FileTree.find?_of_rooted rfl] at hfound
      obtain ⟨q, hq⟩ := FileTree.exists_folder_of_walk_append hfound hbehind
      exact ⟨_, (FileTree.find?_of_rooted hrooted).trans hq⟩
    · rintro ⟨hdot, e, he⟩
      obtain ⟨text, hfound⟩ := h.find?_behind hrooted hbelow he
      obtain ⟨hresolve, -⟩ := FileTree.of_find? hfound
      exact ⟨_, h.mem_moduleFiles true folder.parts hparts (hdot.resolve_left hrest),
        FileTree.isFile_iff.2 ⟨text, hresolve ▸ hfound⟩, hresolve.symm⟩

end

end Resolver.NamedByWay

namespace Config

variable {c : Config} {target : Path} {pattern front mapped : String} {rest : List String}

/-- The directory in front of a star, as it is written. -/
def mappedFolder (c : Config) (front : String) : Path := c.aliasRoot.append front

/-- A pattern without a star is mapped to a module. -/
structure MapsTo (c : Config) (t : FileTree) (target : Path) (pattern mapped : String) : Prop where
  maps : c.Maps pattern mapped
  exact : '*' ∉ pattern.toList
  found : t.moduleAt? (c.aliasRoot.append mapped) = .ok (some target)

/-- A pattern with a star is mapped to a directory around a file, the way from there being given. -/
structure MapsAbove (c : Config) (target : Path) (pattern front : String) (rest : List String) :
    Prop where
  maps : c.Maps pattern (front ++ "*")
  star : '*' ∈ pattern.toList
  below : target.below? (c.mappedFolder front).normalized = some rest

end Config

namespace Resolver

variable {r : Resolver} {c : Config} {t : FileTree} {path target file : Path}
  {stem extension specifier pattern front mapped : String} {rest : List String}

/-- A file is named by an alias if the configuration has one for it. -/
theorem specifierFor_of_aliasFor? (h : NamedByWay { r with config := none } target stem extension)
    (halias : r.aliasFor? target = some specifier) (file : Path) :
    r.specifierFor target file = specifier := by
  rw [specifierFor, h.packageSpecifier?_eq_none, halias, Option.orElse_eq_orElse,
    Option.orElse_eq_or, Option.none_or, Option.getD_some]

private theorem eq_of_aliasBy?_exact {root : Path} {n : Nat} (hexact : '*' ∉ pattern.toList)
    (h : aliasBy? t root target pattern mapped = some (n, specifier)) :
    t.moduleAt? (root.append mapped) = .ok (some target) ∧ specifier = pattern := by
  obtain ⟨hfound, hpair⟩ := (aliasBy?_of_not_mem hexact).1 h
  exact ⟨hfound, (Prod.mk.inj hpair).2⟩

private theorem exists_of_aliasBy?_star {root : Path} {n : Nat} (hstar : '*' ∈ pattern.toList)
    (h : aliasBy? t root target pattern (front ++ "*") = some (n, specifier)) :
    ∃ rest, target.below? (root.append front).normalized = some rest ∧
      n = (root.append front).normalized.parts.length + 1 ∧
      specifier = fillFirstStar pattern (NamedByWay.way rest) := by
  rw [aliasBy?_of_mem hstar] at h
  obtain ⟨rest, hbelow, hfound⟩ := Option.map_eq_some_iff.1 h
  obtain ⟨hn, hspecifier⟩ := Prod.mk.inj hfound
  exact ⟨rest, hbelow, hn.symm, hspecifier.symm⟩

/-- An alias by a pattern without a star is resolved by what it is mapped to. -/
theorem mem_aliasCandidates_of_exact (hmaps : c.Maps pattern mapped)
    (hexact : '*' ∉ pattern.toList) :
    c.aliasRoot.append mapped ∈ aliasCandidates c pattern := by
  obtain ⟨targets, hentry, hmapped⟩ := hmaps
  exact mem_aliasCandidates_iff.2 ⟨pattern, targets, hentry, _, _, candidatesOf?_self hexact,
    List.mem_map_of_mem hmapped⟩

/-- An alias by a pattern with a star is resolved by the way behind the mapped directory. -/
theorem mem_aliasCandidates_of_star (hplain : c.HasPlainPatterns) (hfront : Config.IsFront front)
    (hmaps : c.Maps pattern (front ++ "*")) (hstar : '*' ∈ pattern.toList) (filling : String) :
    c.aliasRoot.append (front ++ filling) ∈ aliasCandidates c (fillFirstStar pattern filling) := by
  obtain ⟨targets, hentry, hmapped⟩ := hmaps
  have hcount := hplain.count _ hentry
  obtain ⟨before, after, hcut, hbefore, hafter⟩ := exists_cut hstar hcount
  have hspecifier : fillStars filling.toList pattern = fillFirstStar pattern filling := by
    rw [← String.toList_inj, toList_fillStars hcut hbefore hafter, fillFirstStar_eq hcut hbefore,
      String.toList_ofList]
  have hpath : fillStars filling.toList (front ++ "*") = front ++ filling := by
    have hlist : (front ++ "*").toList = front.toList ++ '*' :: [] := String.toList_append ..
    rw [← String.toList_inj, toList_fillStars hlist hfront.1 List.not_mem_nil, List.append_nil,
      String.toList_append]
  obtain ⟨n, hfits⟩ : ∃ n,
      candidatesOf? c.aliasRoot (fillFirstStar pattern filling) pattern targets =
        some (n, targets.map fun t => c.aliasRoot.append (fillStars filling.toList t)) :=
    (exists_candidatesOf?_iff hstar hcount).2 ⟨filling.toList, hspecifier, rfl⟩
  refine mem_aliasCandidates_iff.2 ⟨pattern, targets, hentry, n, _, hfits, ?_⟩
  exact List.mem_map.2 ⟨front ++ "*", hmapped, by rw [hpath]⟩

/-- An alias by a pattern with a star does not start with a slash. -/
theorem startsWith_fillFirstStar (hplain : c.HasPlainPatterns) (hmaps : c.Maps pattern mapped)
    (hstar : '*' ∈ pattern.toList) {filling : String} {first : Char} {cs : List Char}
    (hfilling : filling.toList = first :: cs) (hfirst : first ≠ '/') :
    Text.startsWith (fillFirstStar pattern filling) "/" = false := by
  obtain ⟨targets, hentry, -⟩ := hmaps
  have hslash := (hplain.start _ hentry).2
  obtain ⟨before, after, hcut, hbefore, -⟩ := exists_cut hstar (hplain.count _ hentry)
  rw [fillFirstStar_eq hcut hbefore, Text.startsWith, String.toList_ofList, hfilling]
  rw [Text.startsWith, hcut] at hslash
  cases before with
  | nil => simpa [List.isPrefixOf] using Ne.symm hfirst
  | cons _ before => simpa [List.isPrefixOf] using hslash

/-- An alias that starts with a dot is taken for a path. Others stand for what the first of the
paths stands for that the patterns give, unless an earlier one has no name. -/
theorem resolve_of_candidate (hconfig : r.config = some c)
    (hslash : Text.startsWith specifier "/" = false) {before after : List Path} {candidate : Path}
    (hcandidates : aliasCandidates c specifier = before ++ candidate :: after)
    (hearlier : ∀ q ∈ before, ∀ p ∈ q.moduleFiles, r.tree.isFile p = false)
    (hfound : r.tree.moduleAt? candidate = .ok (some target)) (file : Path) :
    r.resolve specifier file =
      if Text.startsWith specifier "." then r.tree.moduleAt? (file.parent.append specifier)
      else match before.find? (·.name = "") with
        | some q => .error (.nameless q)
        | none => .ok (some target) := by
  rw [resolve, hslash, Bool.or_false]
  split
  · rfl
  · have hfirst (rest : List Path) :
        r.tree.firstModule? (candidate :: rest) = .ok (some target) := by
      rw [FileTree.firstModule?, List.findSomeM?_cons, hfound]
      rfl
    rw [settingPaths, hconfig]
    dsimp only
    rw [hcandidates, List.append_assoc, FileTree.firstModule?_append hearlier, List.cons_append,
      hfirst]
    cases before.find? (·.name = "") <;> rfl

/-- No mapped directory around the target lies deeper than the target itself. -/
private theorem length_mappedFolder_le (habove : c.MapsAbove target pattern front rest) :
    (c.mappedFolder front).normalized.parts.length ≤ target.parts.length := by
  have hparts := congrArg (List.length ∘ Path.parts) (Path.below?_eq_some_iff.1 habove.below)
  simp only [Function.comp, List.length_append] at hparts
  exact hparts ▸ Nat.le_add_right _ _

/-- An alias comes from a pattern without a star, if one is mapped to the target, and otherwise from
one whose mapped directory lies as deep as possible around it. -/
theorem mapsTo_or_mapsAbove_of_aliasFor? (hconfig : r.config = some c)
    (hrooted : c.aliasRoot.rooted = true) (hplain : c.HasPlainPatterns)
    (h : NamedByWay { r with config := none } target stem extension)
    (halias : r.aliasFor? target = some specifier) :
    (∃ mapped, c.MapsTo r.tree target specifier mapped ∧
        c.aliasRoot.append mapped ∈ aliasCandidates c specifier ∧
        r.tree.StandsFor (c.aliasRoot.append mapped) target) ∨
      (∀ pattern mapped, ¬c.MapsTo r.tree target pattern mapped) ∧
      ∃ pattern front rest, c.MapsAbove target pattern front rest ∧
        (∀ pattern' front' rest', c.MapsAbove target pattern' front' rest' →
          (c.mappedFolder front').normalized.parts.length ≤
            (c.mappedFolder front).normalized.parts.length) ∧
        specifier = fillFirstStar pattern (NamedByWay.way rest) ∧
        c.aliasRoot.append (front ++ NamedByWay.way rest) ∈ aliasCandidates c specifier ∧
        (r.tree.StandsFor (c.aliasRoot.append (front ++ NamedByWay.way rest)) target ↔
          (rest = [] ∨ stem ≠ ".") ∧ ∃ e, r.tree.find? (c.mappedFolder front) = some e) := by
  obtain ⟨n, pattern, mapped, hmaps, hby, hgreatest⟩ := exists_of_aliasFor?_eq_some hconfig halias
  by_cases hstar : '*' ∈ pattern.toList
  · right
    obtain ⟨front, hfront, rfl⟩ := hplain.exists_front hmaps hstar
    obtain ⟨rest, hbelow, rfl, rfl⟩ := exists_of_aliasBy?_star hstar hby
    have habove : c.MapsAbove target pattern front rest := ⟨hmaps, hstar, hbelow⟩
    refine ⟨fun pattern' mapped hmapsTo => ?_, pattern, front, rest, habove,
      fun pattern' front' rest' habove' => ?_, rfl,
      mem_aliasCandidates_of_star hplain hfront hmaps hstar _, ?_⟩
    · -- A pattern without a star counts for more than any directory around the target.
      have hle := hgreatest pattern' mapped _ pattern' hmapsTo.maps
        ((aliasBy?_of_not_mem hmapsTo.exact).2 ⟨hmapsTo.found, rfl⟩)
      have hdepth := length_mappedFolder_le habove
      rw [Config.mappedFolder] at hdepth
      omega
    · have hle := hgreatest pattern' (front' ++ "*") _ _ habove'.maps
        ((aliasBy?_of_mem habove'.star).trans (congrArg _ habove'.below))
      exact Nat.le_of_succ_le_succ hle
    · have hfolder : (c.mappedFolder front).rooted = true := Path.rooted_append hrooted front
      rw [h.append_way c.aliasRoot hfront hbelow]
      rw [Config.mappedFolder] at hfolder ⊢
      rw [hfolder]
      exact h.standsFor_behind_iff hfolder hbelow
  · left
    obtain ⟨hfound, rfl⟩ := eq_of_aliasBy?_exact hstar hby
    exact ⟨mapped, ⟨hmaps, hstar, hfound⟩, mem_aliasCandidates_of_exact hmaps hstar,
      .of_moduleAt? hfound⟩

/-- An alias does not start with a slash. -/
theorem startsWith_slash_of_aliasFor? (hconfig : r.config = some c) (hplain : c.HasPlainPatterns)
    (h : NamedByWay { r with config := none } target stem extension)
    (halias : r.aliasFor? target = some specifier) : Text.startsWith specifier "/" = false := by
  obtain ⟨n, pattern, mapped, hmaps, hby, -⟩ := exists_of_aliasFor?_eq_some hconfig halias
  by_cases hstar : '*' ∈ pattern.toList
  · obtain ⟨front, hfront, rfl⟩ := hplain.exists_front hmaps hstar
    obtain ⟨rest, hbelow, -, rfl⟩ := exists_of_aliasBy?_star hstar hby
    obtain ⟨first, cs, hway, hfirst⟩ := h.exists_way_eq_cons hbelow
    exact startsWith_fillFirstStar hplain hmaps hstar hway hfirst
  · obtain ⟨-, rfl⟩ := eq_of_aliasBy?_exact hstar hby
    obtain ⟨targets, hentry, -⟩ := hmaps
    exact (hplain.start _ hentry).2

/-- An alias leads back. It comes from a pattern without a star, if one is mapped to the target, and
otherwise from one whose mapped directory lies as deep as possible around it. One of the paths that
the patterns give for the alias stands for the target, exactly if the mapped directory can be walked
to and the name of the target is no single dot. So the target is found, unless the alias starts with
a dot, an earlier path has no name or stands for something, or the path may stand for another file.
A pattern with a star gives paths for a specifier exactly if the specifier is the pattern with the
star replaced. There is no specifier if a pattern without a star is mapped to a path without a
name. -/
theorem specifierFor_alias_leads_back (r : Resolver) (c : Config) (t : FileTree)
    (path target file : Path) (stem extension specifier : String)
    (hload : Config.load t path = .ok c) (hconfig : r.config = some c)
    (hplain : c.HasPlainPatterns)
    (h : NamedByWay { r with config := none } target stem extension)
    (halias : r.aliasFor? target = some specifier) :
    (∀ given, r.specifier target file = .ok given ↔ r.HasNamedPatterns ∧ given = specifier) ∧
    ((∃ mapped, c.MapsTo r.tree target specifier mapped ∧
        c.aliasRoot.append mapped ∈ aliasCandidates c specifier ∧
        r.tree.StandsFor (c.aliasRoot.append mapped) target) ∨
      (∀ pattern mapped, ¬c.MapsTo r.tree target pattern mapped) ∧
      ∃ pattern front rest, c.MapsAbove target pattern front rest ∧
        (∀ pattern' front' rest', c.MapsAbove target pattern' front' rest' →
          (c.mappedFolder front').normalized.parts.length ≤
            (c.mappedFolder front).normalized.parts.length) ∧
        specifier = fillFirstStar pattern (NamedByWay.way rest) ∧
        c.aliasRoot.append (front ++ NamedByWay.way rest) ∈ aliasCandidates c specifier ∧
        (r.tree.StandsFor (c.aliasRoot.append (front ++ NamedByWay.way rest)) target ↔
          (rest = [] ∨ stem ≠ ".") ∧ ∃ e, r.tree.find? (c.mappedFolder front) = some e)) ∧
    (∀ before candidate after, aliasCandidates c specifier = before ++ candidate :: after →
      (∀ q ∈ before, ∀ p ∈ q.moduleFiles, r.tree.isFile p = false) →
      r.tree.StandsFor candidate target →
      (∀ p ∈ candidate.moduleFiles, r.tree.isFile p = true → FileTree.resolve p = target) →
      r.resolve specifier file =
        if Text.startsWith specifier "." then r.tree.moduleAt? (file.parent.append specifier)
        else match before.find? (·.name = "") with
          | some q => .error (.nameless q)
          | none => .ok (some target)) ∧
    ∀ specifier' pattern targets paths, (pattern, targets) ∈ c.paths → '*' ∈ pattern.toList →
      ((∃ n, candidatesOf? c.aliasRoot specifier' pattern targets = some (n, paths)) ↔
        ∃ star, fillStars star pattern = specifier' ∧
          paths = targets.map fun t => c.aliasRoot.append (fillStars star t)) := by
  have hgiven (given : String) : r.specifier target file = .ok given ↔
      r.HasNamedPatterns ∧ given = r.specifierFor target file :=
    specifier_eq_ok_iff h.packageSpecifier?_eq_none
  rw [specifierFor_of_aliasFor? h halias file] at hgiven
  refine ⟨hgiven, ?_, ?_, fun specifier' pattern targets paths
    hentry hstar => exists_candidatesOf?_iff hstar (hplain.count _ hentry)⟩
  · exact mapsTo_or_mapsAbove_of_aliasFor? hconfig (Config.rooted_aliasRoot_of_load hload) hplain h
      halias
  · intro before candidate after hcandidates hearlier hstands hother
    exact resolve_of_candidate hconfig (startsWith_slash_of_aliasFor? hconfig hplain h halias)
      hcandidates hearlier (FileTree.moduleAt?_eq_some hstands hother) file

/-- A project that maps two patterns to directories, one inside the other. -/
def mappedFolders : FileTree := .ofEntries [
  ("tsconfig.json", "\x7b \"compilerOptions\": \x7b \"paths\": \x7b " ++
    "\"@/*\": [\"src/*\"], \"@ui/*\": [\"src/ui/*\"] \x7d \x7d \x7d"),
  ("src/a.tsx", ""), ("src/ui/Card.tsx", "")]

/-- A file in the inner one. -/
def mappedCard : Path := FileTree.resolve (.ofText "src/ui/Card.tsx")

/-- A file in the outer one. -/
def mappedPage : Path := FileTree.resolve (.ofText "src/a.tsx")

set_option maxRecDepth 100000 in
private theorem namedByWay_mappedCard :
    NamedByWay { tree := mappedFolders, config := none } mappedCard "Card" ".tsx" where
  found := FileTree.exists_find?_of_isFile (FileTree.resolve_resolve _) (by decide +kernel)
  proper := Path.isProper_resolve_ofText _
  unaliased := rfl
  unpackaged := by decide +kernel
  name := by decide +kernel
  stem_ne := by decide
  extension := by decide +kernel

set_option maxRecDepth 100000 in
/-- The file is imported by the pattern of the inner directory, which leads to it. -/
theorem resolve_mappedCard : ∃ c, Config.load mappedFolders (.ofText "tsconfig.json") = .ok c ∧
    (⟨mappedFolders, some c⟩ : Resolver).specifier mappedCard mappedPage = .ok "@ui/Card" ∧
    (⟨mappedFolders, some c⟩ : Resolver).resolve "@ui/Card" mappedPage =
      .ok (some mappedCard) := by
  have hconfig : ∃ c, Config.load mappedFolders (.ofText "tsconfig.json") = .ok c ∧
      c.HasPlainPatterns ∧
      (⟨mappedFolders, some c⟩ : Resolver).aliasFor? mappedCard = some "@ui/Card" ∧
      (⟨mappedFolders, some c⟩ : Resolver).HasNamedPatterns ∧
      aliasCandidates c "@ui/Card" = [⟨true, ["proj", "src", "ui", "Card"]⟩] := by
    decide +kernel
  have hfound : ∃ p ∈ (⟨true, ["proj", "src", "ui", "Card"]⟩ : Path).moduleFiles,
      mappedFolders.isFile p = true ∧ FileTree.resolve p = mappedCard := by decide +kernel
  have hother : ∀ p ∈ (⟨true, ["proj", "src", "ui", "Card"]⟩ : Path).moduleFiles,
      mappedFolders.isFile p = true → FileTree.resolve p = mappedCard := by decide +kernel
  obtain ⟨c, hload, hplain, halias, hnamed, hcandidates⟩ := hconfig
  have hleads := specifierFor_alias_leads_back ⟨mappedFolders, some c⟩ c mappedFolders
    (.ofText "tsconfig.json") mappedCard mappedPage "Card" ".tsx" "@ui/Card" hload rfl
    hplain namedByWay_mappedCard halias
  exact ⟨c, hload, (hleads.1 _).2 ⟨hnamed, rfl⟩,
    hleads.2.2.1 [] _ [] hcandidates (by simp) hfound hother⟩

/-- A project that maps all names to a directory with a file whose name starts with a dot. -/
def hiddenFile : FileTree := .ofEntries [
  ("tsconfig.json",
    "\x7b \"compilerOptions\": \x7b \"paths\": \x7b \"*\": [\"src/*\"] \x7d \x7d \x7d"),
  ("a.ts", ""), ("src/.hidden.ts", "")]

/-- That file. -/
def hiddenPath : Path := FileTree.resolve (.ofText "src/.hidden.ts")

set_option maxRecDepth 100000 in
private theorem namedByWay_hiddenFile :
    NamedByWay { tree := hiddenFile, config := none } hiddenPath ".hidden" ".ts" where
  found := FileTree.exists_find?_of_isFile (FileTree.resolve_resolve _) (by decide +kernel)
  proper := Path.isProper_resolve_ofText _
  unaliased := rfl
  unpackaged := by decide +kernel
  name := by decide +kernel
  stem_ne := by decide
  extension := by decide +kernel

set_option maxRecDepth 100000 in
/-- An alias need not lead back, also if the first of its paths stands for the target only. -/
theorem not_forall_resolve_alias : ¬∀ (r : Resolver) (c : Config) (t : FileTree)
    (path target file candidate : Path) (after : List Path) (stem extension specifier : String),
    Config.load t path = .ok c → r.config = some c → c.HasPlainPatterns →
    NamedByWay { r with config := none } target stem extension →
    r.aliasFor? target = some specifier → r.specifier target file = .ok specifier →
    aliasCandidates c specifier = candidate :: after → r.tree.StandsFor candidate target →
    (∀ p ∈ candidate.moduleFiles, r.tree.isFile p = true → FileTree.resolve p = target) →
      r.resolve specifier file = .ok (some target) := by
  intro hall
  have hconfig : ∃ c, Config.load hiddenFile (.ofText "tsconfig.json") = .ok c ∧
      c.HasPlainPatterns ∧ (⟨hiddenFile, some c⟩ : Resolver).aliasFor? hiddenPath = some ".hidden" ∧
      (⟨hiddenFile, some c⟩ : Resolver).HasNamedPatterns ∧
      aliasCandidates c ".hidden" = [⟨true, ["proj", "src", ".hidden"]⟩] := by
    decide +kernel
  have hfound : ∃ p ∈ (⟨true, ["proj", "src", ".hidden"]⟩ : Path).moduleFiles,
      hiddenFile.isFile p = true ∧ FileTree.resolve p = hiddenPath := by decide +kernel
  have hother : ∀ p ∈ (⟨true, ["proj", "src", ".hidden"]⟩ : Path).moduleFiles,
      hiddenFile.isFile p = true → FileTree.resolve p = hiddenPath := by decide +kernel
  have hnone : (probes ".hidden" (FileTree.resolve (.ofText "a.ts"))).find? hiddenFile.isFile =
      none := by decide +kernel
  obtain ⟨c, hload, hplain, halias, hnamed, hcandidates⟩ := hconfig
  have hspecifier : (⟨hiddenFile, some c⟩ : Resolver).specifier hiddenPath
      (FileTree.resolve (.ofText "a.ts")) = .ok ".hidden" :=
    (specifier_eq_ok_iff namedByWay_hiddenFile.packageSpecifier?_eq_none).2
      ⟨hnamed, (specifierFor_of_aliasFor? namedByWay_hiddenFile halias _).symm⟩
  have hresolve := hall ⟨hiddenFile, some c⟩ c hiddenFile (.ofText "tsconfig.json") hiddenPath
    (FileTree.resolve (.ofText "a.ts")) _ [] ".hidden" ".ts" ".hidden" hload rfl hplain
    namedByWay_hiddenFile halias hspecifier hcandidates hfound hother
  rw [resolve, if_pos (by decide)] at hresolve
  obtain ⟨p, hp, -⟩ := FileTree.of_moduleAt? hresolve
  rw [probes] at hnone
  cases hnone.symm.trans hp

end Resolver

end StableProps
