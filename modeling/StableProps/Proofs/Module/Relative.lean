import Mathlib.Data.List.Infix
import Mathlib.Data.List.TakeWhile
import StableProps.Proofs.File.Walk
import StableProps.Proofs.File.Written

/-!
# Specifiers that lead back

A file that no alias covers, outside all packages, is imported by the way to it without extension.
That way leads back: the file is among those that its specifier may stand for, exactly if the
importing file is in a directory that exists and the name without extension is no single dot.
-/

namespace StableProps

namespace Path

/-- Reading a path that holds these parts neither drops nor cuts one of them. -/
def IsProper (parts : List String) : Prop :=
  ∀ part ∈ parts, part ≠ "" ∧ part ≠ "." ∧ '/' ∉ part.toList

/-- Reading a path keeps proper parts only. -/
theorem isProper_ofText (s : String) : IsProper (ofText s).parts := by
  intro part hpart
  obtain ⟨hmem, hkeep⟩ := List.mem_filter.1 hpart
  obtain ⟨hempty, hdot⟩ := Bool.and_eq_true_iff.1 hkeep
  exact ⟨bne_iff_ne.1 hempty, bne_iff_ne.1 hdot, Text.not_mem_of_mem_split hmem⟩

private theorem mem_of_mem_foldl_step {parts before : List String} {part : String}
    (h : part ∈ parts.foldl normalized.step before) : part ∈ before ∨ part ∈ parts := by
  induction parts generalizing before with
  | nil => exact .inl h
  | cons first parts ih =>
    rw [List.mem_cons]
    rcases ih h with hbefore | hparts
    · rw [normalized.step] at hbefore
      split at hbefore
      · exact .inl (List.mem_of_mem_drop hbefore)
      · exact (List.mem_cons.1 hbefore).symm.imp id .inl
    · exact .inr (.inr hparts)

/-- So a path from the root that was read has proper parts only. -/
theorem isProper_resolve_ofText (s : String) : IsProper (FileTree.resolve (ofText s)).parts := by
  intro part hpart
  have hjoin : IsProper (FileTree.workingFolder.join (ofText s)).parts := by
    rw [join]
    split
    · exact isProper_ofText s
    · intro part hpart
      rcases List.mem_append.1 hpart with hpart | hpart
      · obtain rfl := List.mem_singleton.1 hpart
        decide
      · exact isProper_ofText s part hpart
  rcases mem_of_mem_foldl_step (List.mem_reverse.1 hpart) with hnil | hmem
  · cases hnil
  · exact hjoin part hmem

private theorem filter_eq_of_isProper {parts : List String} (h : IsProper parts) :
    (parts.filter fun part => part != "" && part != ".") = parts := by
  refine List.filter_eq_self.2 fun part hpart => ?_
  obtain ⟨hempty, hdot, -⟩ := h part hpart
  simp [hempty, hdot]

private theorem foldl_step_replicate (before : List String) (k : Nat) :
    (List.replicate k "..").foldl normalized.step before = before.drop k := by
  induction k generalizing before with
  | zero => rfl
  | succ k ih =>
    rw [List.replicate_succ, List.foldl_cons, normalized.step, if_pos rfl, ih, List.drop_drop,
      Nat.add_comm]

theorem parts_normalized_of_not_mem {p : Path} (h : ".." ∉ p.parts) :
    p.normalized.parts = p.parts := by
  rw [normalized, foldl_step_of_not_mem h]
  simp

/-- The way from a directory to a path ends where the path does. -/
theorem foldl_step_relative {outer start : List String} {n : Nat} (hdots : ".." ∉ outer)
    (hshared : outer.take n = start.take n) (hn : n ≤ start.length) :
    (List.replicate (start.length - n) ".." ++ outer.drop n).foldl normalized.step start.reverse =
      outer.reverse := by
  have hup : start.reverse.drop (start.length - n) = (start.take n).reverse := by
    rw [List.drop_reverse, Nat.sub_sub_self hn]
  rw [List.foldl_append, foldl_step_replicate, hup, ← hshared,
    foldl_step_of_not_mem fun h => hdots (List.mem_of_mem_drop h), ← List.reverse_append,
    List.take_append_drop]

private theorem append_of_rooted_eq_false {s : String} (h : (ofText s).rooted = false) (p : Path) :
    p.append s = ⟨p.rooted, p.parts ++ (ofText s).parts⟩ := by
  rw [append, join, if_neg (by simp [h])]

/-- An index file of a directory. -/
theorem append_index {e : String} (he : e ∈ moduleExtensions) (p : Path) :
    p.append ("index" ++ e) = ⟨p.rooted, p.parts ++ ["index" ++ e]⟩ := by
  have hread : ∀ e ∈ moduleExtensions, ofText ("index" ++ e) = ⟨false, ["index" ++ e]⟩ := by
    decide
  rw [append_of_rooted_eq_false (by rw [hread e he]), hread e he]

/-- What a path stands for is the path itself, the path with an extension, or an index file. -/
theorem of_mem_moduleFiles {base p : Path} (h : p ∈ base.moduleFiles) :
    p = base ∨ ∃ e ∈ moduleExtensions, p = base.addSuffix e ∨ p = base.append ("index" ++ e) := by
  rw [moduleFiles] at h
  split at h
  · cases h
  rw [List.mem_append, List.mem_append] at h
  rcases h with (h | h) | h
  · split at h
    · exact .inl (List.mem_singleton.1 h)
    · cases h
  · obtain ⟨e, he, rfl⟩ := List.mem_map.1 h
    exact .inr ⟨e, he, .inl rfl⟩
  · obtain ⟨e, he, rfl⟩ := List.mem_map.1 h
    exact .inr ⟨e, he, .inr rfl⟩

/-- A path that ends with proper parts has a name. -/
theorem name_ne_of_isProper (rooted : Bool) (before : List String) {parts : List String}
    (hne : parts ≠ []) (h : IsProper parts) : name ⟨rooted, before ++ parts⟩ ≠ "" := by
  rw [name, List.getLast?_append_of_ne_nil _ hne, List.getLast?_eq_some_getLast hne]
  exact (h _ (List.getLast_mem hne)).1

/-- What a path below a directory stands for is below the directory as well. -/
theorem below_of_mem_moduleFiles {p : Path} {rooted : Bool} {outer inner : List String}
    (hinner : inner ≠ []) (h : p ∈ (⟨rooted, outer ++ inner⟩ : Path).moduleFiles) :
    ∃ parts, parts ≠ [] ∧ p = ⟨rooted, outer ++ parts⟩ := by
  rcases of_mem_moduleFiles h with rfl | ⟨e, he, rfl | rfl⟩
  · exact ⟨inner, hinner, rfl⟩
  · refine ⟨inner.dropLast ++ [name ⟨rooted, outer ++ inner⟩ ++ e], by simp, ?_⟩
    rw [addSuffix, List.dropLast_append_of_ne_nil hinner, List.append_assoc]
  · refine ⟨inner ++ ["index" ++ e], by simp, ?_⟩
    rw [append_index he, List.append_assoc]

/-- A part other than double dots is added to the parts so far. -/
theorem foldl_step_concat {parts : List String} {part : String} (h : part ≠ "..") :
    ((parts ++ [part]).foldl normalized.step []).reverse =
      (parts.foldl normalized.step []).reverse ++ [part] := by
  rw [List.foldl_append, List.foldl_cons, List.foldl_nil, normalized.step, if_neg h,
    List.reverse_cons]

end Path

/-- The parts of a path from the root, double dots being taken back. -/
theorem FileTree.parts_resolve {p : Path} (h : p.rooted = true) :
    (FileTree.resolve p).parts = (p.parts.foldl Path.normalized.step []).reverse := by
  rw [resolve, Path.join, if_pos h, Path.normalized]

/-- A path without a name stands for no file. -/
theorem Path.name_ne_of_mem_moduleFiles {base p : Path} (h : p ∈ base.moduleFiles) :
    base.name ≠ "" := by
  intro hname
  rw [moduleFiles, if_pos hname] at h
  cases h

/-- A path stands for a file, if all that it may stand for and that exists is that file. -/
theorem FileTree.moduleAt?_eq_some {t : FileTree} {base target : Path}
    (hfound : ∃ p ∈ base.moduleFiles, t.isFile p = true ∧ FileTree.resolve p = target)
    (hother : ∀ p ∈ base.moduleFiles, t.isFile p = true → FileTree.resolve p = target) :
    t.moduleAt? base = .ok (some target) := by
  obtain ⟨p, hp, hisFile, -⟩ := hfound
  obtain ⟨q, hq⟩ := Option.isSome_iff_exists.1 (List.find?_isSome.2 ⟨p, hp, hisFile⟩)
  rw [moduleAt?, if_neg (Path.name_ne_of_mem_moduleFiles hp), hq, Option.map_some,
    hother q (List.mem_of_find?_eq_some hq) (List.find?_some hq)]

namespace Specifier

theorem waypoints_ne_nil (parts : List String) (stem : String) : waypoints parts stem ≠ [] := by
  rw [waypoints]
  split
  next h => exact h.2
  · simp

theorem not_mem_of_mem_waypoints {parts : List String} {stem : String}
    (hparts : Path.IsProper parts) (hstem : '/' ∉ stem.toList) :
    ∀ part ∈ waypoints parts stem, '/' ∉ part.toList := by
  intro part hpart
  rw [waypoints] at hpart
  split at hpart
  · exact (hparts part hpart).2.2
  · rcases List.mem_append.1 hpart with hpart | hpart
    · exact (hparts part hpart).2.2
    · rwa [List.mem_singleton.1 hpart]

/-- A single dot is no waypoint. -/
theorem filter_waypoints_dot {parts : List String} (h : Path.IsProper parts) :
    ((waypoints parts ".").filter fun part => part != "" && part != ".") = parts := by
  rw [waypoints, if_neg (by simp), List.filter_append, Path.filter_eq_of_isProper h]
  simp

/-- A text that starts with a dot is read as a path that does not start at the root. -/
theorem rooted_ofText {s : String} (h : Text.startsWith s "." = true) :
    (Path.ofText s).rooted = false := by
  obtain ⟨rest, hrest⟩ := List.isPrefixOf_iff_prefix.1 h
  rw [Path.ofText, Text.startsWith, ← hrest]
  rfl

end Specifier

namespace Resolver

section

variable {target file : Path} {parts : List String} {stem extension : String}

/-- A specifier by the way to a file starts with a dot. -/
theorem startsWith_relativeSpecifier (target file : Path) :
    Text.startsWith (relativeSpecifier target file) "." = true := by
  rw [relativeSpecifier]
  split
  next h => exact h
  · simp [Text.startsWith]

/-- The specifier by the way to a file is read as the waypoints of the file. -/
theorem parts_ofText_relativeSpecifier
    (hway : target.relativeTo file.parent = ⟨false, parts ++ [stem ++ extension]⟩)
    (hextension : Specifier.implied.find? (Specifier.endsWith (stem ++ extension)) =
      some extension)
    (hparts : Path.IsProper parts) (hstem : '/' ∉ stem.toList) :
    (Path.ofText (relativeSpecifier target file)).parts =
      (Specifier.waypoints parts stem).filter fun part => part != "" && part != "." := by
  have hsplit := Text.split_intercalate (Specifier.waypoints_ne_nil parts stem)
    (Specifier.not_mem_of_mem_waypoints hparts hstem)
  have hpath : Specifier.stripExtension (target.relativeTo file.parent).text =
      String.intercalate "/" (Specifier.waypoints parts stem) := by
    rw [hway, ← Specifier.stripExtension_intercalate hextension hstem]
    simp [Path.text]
  rw [relativeSpecifier, hpath]
  split
  · rw [Path.ofText, hsplit]
  · have hdot : "./" ++ String.intercalate "/" (Specifier.waypoints parts stem) =
        String.intercalate "/" ("." :: Specifier.waypoints parts stem) := by
      rw [String.intercalate_cons_of_ne_nil (Specifier.waypoints_ne_nil parts stem)]
      rfl
    rw [hdot, Path.ofText, Text.split_intercalate (by simp)]
    · simp
    · intro part hpart
      rcases List.mem_cons.1 hpart with rfl | hpart
      · decide
      · exact Specifier.not_mem_of_mem_waypoints hparts hstem part hpart

/-- The files that a specifier in a file may stand for, if it is a path. -/
def probes (specifier : String) (file : Path) : List Path :=
  (file.parent.append specifier).moduleFiles

/-- Of the files that a path may stand for, the first that exists is taken. The path must have a
name. -/
theorem resolve_of_startsWith (r : Resolver) {specifier : String}
    (h : Text.startsWith specifier "." = true) (file : Path) :
    r.resolve specifier file =
      if (file.parent.append specifier).name = "" then
        .error (.nameless (file.parent.append specifier))
      else .ok (((probes specifier file).find? r.tree.isFile).map FileTree.resolve) := by
  rw [resolve, if_pos (by rw [h, Bool.true_or])]
  rfl

/-- All paths that patterns without a star are mapped to have names. -/
def HasNamedPatterns (r : Resolver) : Prop :=
  ∀ c, r.config = some c → ∀ p ∈ exactPaths c, p.name ≠ ""

instance (r : Resolver) : Decidable r.HasNamedPatterns :=
  decidable_of_iff (∀ p ∈ r.config.elim [] exactPaths, p.name ≠ "") <| by
    rw [HasNamedPatterns]
    cases r.config <;> simp

/-- Trying patterns fails only at a path without a name. -/
theorem tryPatterns_eq_ok_iff (r : Resolver) : r.tryPatterns = .ok () ↔ r.HasNamedPatterns := by
  have hlist (paths : List Path) :
      (paths.forM fun base => discard (r.tree.moduleAt? base)) = (.ok () : Except Failure Unit) ↔
        ∀ p ∈ paths, p.name ≠ "" := by
    induction paths with
    | nil => exact iff_of_true rfl (List.forall_mem_nil _)
    | cons base paths ih =>
      rw [List.forM, bind_eq_ok, List.forall_mem_cons, ← ih, FileTree.moduleAt?]
      by_cases hname : base.name = ""
      · rw [if_pos hname]
        constructor
        · rintro ⟨_, h, _⟩
          cases h
        · rintro ⟨h, _⟩
          exact absurd hname h
      · rw [if_neg hname]
        constructor
        · rintro ⟨_, _, h⟩
          exact ⟨hname, h⟩
        · rintro ⟨_, h⟩
          exact ⟨(), rfl, h⟩
  rw [tryPatterns, hlist, HasNamedPatterns]
  cases r.config <;> simp

/-- A module outside of packages has a specifier, unless trying the patterns fails. -/
theorem specifier_eq_ok_iff {r : Resolver} (h : packageSpecifier? target = none)
    {specifier : String} :
    r.specifier target file = .ok specifier ↔
      r.HasNamedPatterns ∧ specifier = r.specifierFor target file := by
  rw [← tryPatterns_eq_ok_iff, Resolver.specifier, h, if_pos Option.isNone_none, bind_eq_ok]
  constructor
  · rintro ⟨_, htry, hs⟩
    exact ⟨htry, (Except.ok.inj hs).symm⟩
  · rintro ⟨htry, rfl⟩
    exact ⟨_, htry, rfl⟩

/-- A directory does not stand for a file in it whose name is a dot and an extension. -/
theorem resolve_ne_of_dot {base p : Path} (hbase : base.rooted = true)
    (hoffset : (base.parts.foldl Path.normalized.step []).reverse = target.parts.dropLast)
    (htarget : target.parts = target.parts.dropLast ++ ["." ++ extension])
    (hextension : extension ∈ Specifier.implied) (hp : p ∈ base.moduleFiles) :
    FileTree.resolve p ≠ target := by
  intro heq
  have hparts (hrooted : p.rooted = true) : (p.parts.foldl Path.normalized.step []).reverse =
      target.parts.dropLast ++ ["." ++ extension] := by
    rw [← FileTree.parts_resolve hrooted, heq]
    exact htarget
  rcases Path.of_mem_moduleFiles hp with rfl | ⟨e, he, rfl | rfl⟩
  · have hparts := hparts hbase
    rw [hoffset] at hparts
    simp at hparts
  · have hlong : ∀ e ∈ moduleExtensions, 3 ≤ e.length := by decide
    have hdots : base.name ++ e ≠ ".." := by
      intro h
      have hlength : (base.name ++ e).length = 2 := congrArg String.length h
      rw [String.length_append] at hlength
      have := hlong e he
      omega
    have hparts := hparts hbase
    rw [Path.addSuffix, Path.foldl_step_concat hdots] at hparts
    obtain ⟨hfront, hlast⟩ := List.append_inj' hparts rfl
    obtain hlast := List.singleton_inj.1 hlast
    rcases List.eq_nil_or_concat' base.parts with hnil | ⟨before, part, hconcat⟩
    · have hname : base.name = "" := by rw [Path.name, hnil]; rfl
      have hne : ∀ e ∈ moduleExtensions, ∀ x ∈ Specifier.implied, "" ++ e ≠ "." ++ x := by decide
      exact hne e he extension hextension (hname ▸ hlast)
    · have hname : base.name = part := by rw [Path.name, hconcat]; simp
      rw [hconcat, List.dropLast_concat] at hfront
      by_cases hpart : part = ".."
      · have hne : ∀ e ∈ moduleExtensions, ∀ x ∈ Specifier.implied, ".." ++ e ≠ "." ++ x := by
          decide
        exact hne e he extension hextension (by rwa [hname, hpart] at hlast)
      · rw [hconcat, Path.foldl_step_concat hpart, ← hfront] at hoffset
        simp at hoffset
  · have hne : ∀ e ∈ moduleExtensions, ∀ x ∈ Specifier.implied, "index" ++ e ≠ "." ++ x := by
      decide
    have hdots : ∀ e ∈ moduleExtensions, "index" ++ e ≠ ".." := by decide
    rw [Path.append_index he] at hparts
    have hparts := hparts hbase
    rw [Path.foldl_step_concat (hdots e he), hoffset] at hparts
    exact hne e he extension hextension (List.singleton_inj.1 (List.append_inj' hparts rfl).2)

variable {r : Resolver} {text : String}

/-- A file of a tree that is imported by the way to it: no alias covers it, it is in no package, and
its name is a stem with an extension that specifiers leave out. -/
structure NamedByWay (r : Resolver) (target : Path) (stem extension : String) : Prop where
  found : ∃ text, r.tree.find? target = some (.file target text)
  proper : Path.IsProper target.parts
  unaliased : r.aliasFor? target = none
  unpackaged : "node_modules" ∉ target.parts
  name : target.name = stem ++ extension
  stem_ne : stem ≠ ""
  extension : Specifier.implied.find? (Specifier.endsWith target.name) = some extension

namespace NamedByWay

variable (h : NamedByWay r target stem extension)
include h

theorem parts_eq : target.parts = target.parts.dropLast ++ [stem ++ extension] := by
  have hne : target.parts ≠ [] := by
    intro hnil
    have hname := h.name
    rw [Path.name, hnil] at hname
    exact h.stem_ne (String.append_eq_empty_iff.1 hname.symm).1
  have hlast : target.name = target.parts.getLast hne := by
    rw [Path.name, List.getLast?_eq_some_getLast hne, Option.getD_some]
  rw [← h.name, hlast, List.dropLast_append_getLast]

theorem slash_not_mem_stem : '/' ∉ stem.toList := by
  have hname := (h.proper (stem ++ extension) (h.parts_eq ▸ List.mem_append_right _
    (List.mem_singleton_self _))).2.2
  rw [String.toList_append, List.mem_append, not_or] at hname
  exact hname.1

theorem find?_endsWith :
    Specifier.implied.find? (Specifier.endsWith (stem ++ extension)) = some extension :=
  h.name ▸ h.extension

theorem extension_mem : extension ∈ Specifier.implied := List.mem_of_find?_eq_some h.extension

/-- The target is in no package. -/
theorem packageSpecifier?_eq_none : packageSpecifier? target = none := by
  have hwhole : target.parts.reverse.takeWhile (· != "node_modules") = target.parts.reverse := by
    refine List.takeWhile_eq_self_iff.2 fun part hpart => bne_iff_ne.2 ?_
    rintro rfl
    exact h.unpackaged (List.mem_reverse.1 hpart)
  rw [packageSpecifier?, hwhole, List.reverse_reverse]
  simp

/-- The target is named by the way to it. -/
theorem specifierFor_eq (file : Path) :
    r.specifierFor target file = relativeSpecifier target file := by
  rw [specifierFor, h.packageSpecifier?_eq_none, h.unaliased, Option.orElse_eq_orElse,
    Option.orElse_eq_or, Option.or_none, Option.getD_none]

/-- The way to the target goes over directories to its name. -/
theorem exists_way (hfile : ¬target.parts <+: file.parent.normalized.parts) :
    ∃ parts, target.relativeTo file.parent = ⟨false, parts ++ [stem ++ extension]⟩ ∧
      Path.IsProper parts ∧
      ((file.parent.parts ++ parts).foldl Path.normalized.step []).reverse =
        target.parts.dropLast := by
  obtain ⟨text, hfound⟩ := h.found
  obtain ⟨-, hdots⟩ := FileTree.rooted_of_find? hfound
  set start := file.parent.normalized.parts with hstart
  set n := Path.sharedLength target.parts start with hn
  have htarget := Path.parts_normalized_of_not_mem hdots
  have hinit : n ≤ target.parts.dropLast.length := by
    have hle : n ≤ target.parts.length := Path.sharedLength_le_left _ _
    have hne : n ≠ target.parts.length := by
      intro heq
      have htake := Path.take_sharedLength target.parts start
      rw [← hn, heq, List.take_length] at htake
      exact hfile (htake ▸ List.take_prefix _ _)
    rw [List.length_dropLast]
    omega
  have hshared : target.parts.dropLast.take n = start.take n := by
    rw [← Path.take_sharedLength target.parts start, ← hn, h.parts_eq,
      List.take_append_of_le_length hinit, List.dropLast_concat]
  have hsub : ∀ part ∈ target.parts.dropLast.drop n, part ∈ target.parts :=
    fun part hpart => List.mem_of_mem_dropLast (List.mem_of_mem_drop hpart)
  refine ⟨List.replicate (start.length - n) ".." ++ target.parts.dropLast.drop n, ?_, ?_, ?_⟩
  · rw [Path.relativeTo, htarget, ← hstart, ← hn, List.append_assoc]
    congr 2
    conv_lhs => rw [h.parts_eq]
    rw [List.drop_append_of_le_length hinit]
  · intro part hpart
    rcases List.mem_append.1 hpart with hpart | hpart
    · obtain rfl := List.eq_of_mem_replicate hpart
      decide
    · exact h.proper part (hsub part hpart)
  · have hreverse : file.parent.parts.foldl Path.normalized.step [] = start.reverse := by
      rw [hstart, Path.normalized, List.reverse_reverse]
    rw [List.foldl_append, hreverse, Path.foldl_step_relative
      (fun hmem => hdots (List.mem_of_mem_dropLast hmem)) hshared
      (Path.sharedLength_le_right _ _), List.reverse_reverse]

/-- The way to the target leads to it from a directory that exists. -/
theorem isFile_of_way {file : Path} {parts : List String} (hrooted : file.rooted = true)
    (hfile : ¬target.parts <+: file.parent.normalized.parts)
    (hway : target.relativeTo file.parent = ⟨false, parts⟩)
    (hfolder : r.tree.isFolder file.parent = true) :
    r.tree.isFile ⟨file.rooted, file.parent.parts ++ parts⟩ = true ∧
      FileTree.resolve ⟨file.rooted, file.parent.parts ++ parts⟩ = target := by
  obtain ⟨text, hfound⟩ := h.found
  obtain ⟨-, hdots⟩ := FileTree.rooted_of_find? hfound
  obtain ⟨q, hq⟩ := FileTree.isFolder_iff.1 hfolder
  rw [FileTree.find?_of_rooted (by exact hrooted)] at hq
  obtain ⟨hfolders, hentry⟩ := (FileTree.hasFolders_root r.tree).of_walk hq
  have hqeq : q = ⟨true, file.parent.normalized.parts⟩ := FileTree.eq_of_walk_folder hq
  have hparts : parts =
      List.replicate (q.parts.length - Path.sharedLength target.parts q.parts) ".." ++
        target.parts.drop (Path.sharedLength target.parts q.parts) := by
    rw [hqeq, ← Path.parts_normalized_of_not_mem hdots]
    exact (congrArg Path.parts hway).symm
  have hend : r.tree.find? ⟨file.rooted, file.parent.parts ++ parts⟩ =
      some (.file target text) := by
    rw [FileTree.find?_of_rooted (by exact hrooted), FileTree.walk_append hq, hparts]
    exact FileTree.walk_relativeTo hfound hfolders hentry (by rw [hqeq]) (by rwa [hqeq])
  obtain ⟨heq, -⟩ := FileTree.of_find? hend
  exact ⟨FileTree.isFile_iff.2 ⟨text, heq ▸ hend⟩, heq.symm⟩

/-- The specifier may stand for what the waypoints of the target stand for. -/
theorem probes_eq {file : Path} {parts : List String}
    (hway : target.relativeTo file.parent = ⟨false, parts ++ [stem ++ extension]⟩)
    (hparts : Path.IsProper parts) :
    probes (r.specifierFor target file) file =
      Path.moduleFiles ⟨file.rooted, file.parent.parts ++
        (Specifier.waypoints parts stem).filter fun part => part != "" && part != "."⟩ := by
  rw [probes, h.specifierFor_eq, Path.append_of_rooted_eq_false
    (Specifier.rooted_ofText (startsWith_relativeSpecifier target file)),
    parts_ofText_relativeSpecifier hway h.find?_endsWith hparts h.slash_not_mem_stem]
  rfl

/-- Where the waypoints of a target lead, one of the files is at the end of the way to it. -/
theorem mem_moduleFiles (rooted : Bool) (outer : List String) {parts : List String}
    (hparts : Path.IsProper parts) (hdot : stem ≠ ".") :
    ⟨rooted, outer ++ (parts ++ [stem ++ extension])⟩ ∈
      Path.moduleFiles ⟨rooted, outer ++
        (Specifier.waypoints parts stem).filter fun part => part != "" && part != "."⟩ := by
  have hmodule : ∀ e ∈ Specifier.implied, e ∈ moduleExtensions := by decide
  have hextension := hmodule extension h.extension_mem
  rw [Specifier.waypoints, Path.moduleFiles]
  by_cases hindex : stem = "index" ∧ parts ≠ []
  · rw [if_pos hindex, Path.filter_eq_of_isProper hparts,
      if_neg (Path.name_ne_of_isProper rooted outer hindex.2 hparts)]
    refine List.mem_append_right _ (List.mem_map.2 ⟨extension, hextension, ?_⟩)
    rw [Path.append_index hextension, hindex.1, List.append_assoc]
  · have hproper : Path.IsProper (parts ++ [stem]) := by
      intro part hpart
      rcases List.mem_append.1 hpart with hpart | hpart
      · exact hparts part hpart
      · rw [List.mem_singleton.1 hpart]
        exact ⟨h.stem_ne, hdot, h.slash_not_mem_stem⟩
    rw [if_neg hindex, Path.filter_eq_of_isProper hproper,
      if_neg (Path.name_ne_of_isProper rooted outer (by simp) hproper)]
    refine List.mem_append_left _ (List.mem_append_right _
      (List.mem_map.2 ⟨extension, hextension, ?_⟩))
    rw [Path.addSuffix, Path.name]
    simp only [← List.append_assoc, List.dropLast_concat, List.getLast?_concat, Option.getD_some]

/-- One of the files that the specifier may stand for is at the end of the way. -/
theorem exists_mem_probes {file : Path} {parts : List String}
    (hway : target.relativeTo file.parent = ⟨false, parts ++ [stem ++ extension]⟩)
    (hparts : Path.IsProper parts) (hdot : stem ≠ ".") :
    ⟨file.rooted, file.parent.parts ++ (parts ++ [stem ++ extension])⟩ ∈
      probes (r.specifierFor target file) file := by
  rw [h.probes_eq hway hparts]
  exact h.mem_moduleFiles file.rooted file.parent.parts hparts hdot

/-- The waypoints of a target whose name is not a single dot are a way that goes somewhere. -/
theorem filter_waypoints_ne_nil {parts : List String} (hparts : Path.IsProper parts)
    (hdot : stem ≠ ".") :
    ((Specifier.waypoints parts stem).filter fun part => part != "" && part != ".") ≠ [] := by
  rw [Specifier.waypoints]
  split
  next hindex =>
    rw [Path.filter_eq_of_isProper hparts]
    exact hindex.2
  · rw [List.filter_append]
    simp [h.stem_ne, hdot]

end NamedByWay

/-- A file that is named by the way to it has a specifier, unless trying the patterns fails at a
path without a name. It is among the files that its specifier may stand for, exactly if the
importing file is in a directory and the name is no single dot in front of the extension. Then the
specifier leads to the file, unless it may stand for another file that exists. Paths start at the
root, and the importing file is not below the target, as if that were a directory. -/
theorem mem_probes_specifier_iff (r : Resolver) (target file : Path) (stem extension : String)
    (h : NamedByWay r target stem extension) (hrooted : file.rooted = true)
    (hfile : ¬target.parts <+: file.parent.normalized.parts) :
    ((∃ specifier, r.specifier target file = .ok specifier) ↔ r.HasNamedPatterns) ∧
    ∀ specifier, r.specifier target file = .ok specifier →
      (r.resolve specifier file =
        if (file.parent.append specifier).name = "" then
          .error (.nameless (file.parent.append specifier))
        else .ok (((probes specifier file).find? r.tree.isFile).map FileTree.resolve)) ∧
      ((∃ p ∈ probes specifier file, r.tree.isFile p = true ∧ FileTree.resolve p = target) ↔
        stem ≠ "." ∧ r.tree.isFolder file.parent = true) ∧
      (stem ≠ "." → r.tree.isFolder file.parent = true →
        (∀ p ∈ probes specifier file, r.tree.isFile p = true → FileTree.resolve p = target) →
        r.resolve specifier file = .ok (some target)) := by
  have hspecifier {specifier : String} : r.specifier target file = .ok specifier ↔
      r.HasNamedPatterns ∧ specifier = r.specifierFor target file :=
    specifier_eq_ok_iff h.packageSpecifier?_eq_none
  refine ⟨⟨fun ⟨_, hs⟩ => (hspecifier.1 hs).1, fun hnamed => ⟨_, hspecifier.2 ⟨hnamed, rfl⟩⟩⟩, ?_⟩
  intro specifier hs
  obtain rfl := (hspecifier.1 hs).2
  obtain ⟨parts, hway, hparts, hoffset⟩ := h.exists_way hfile
  have hstart : Text.startsWith (r.specifierFor target file) "." = true :=
    h.specifierFor_eq file ▸ startsWith_relativeSpecifier target file
  have hprobed (hdot : stem ≠ ".") (hfolder : r.tree.isFolder file.parent = true) :
      ∃ p ∈ probes (r.specifierFor target file) file,
        r.tree.isFile p = true ∧ FileTree.resolve p = target := by
    exact ⟨_, h.exists_mem_probes hway hparts hdot, h.isFile_of_way hrooted hfile hway hfolder⟩
  refine ⟨r.resolve_of_startsWith hstart file,
    ⟨?_, fun ⟨hdot, hfolder⟩ => hprobed hdot hfolder⟩, ?_⟩
  · rintro ⟨p, hp, hisFile, htarget⟩
    rw [h.probes_eq hway hparts] at hp
    have hdot : stem ≠ "." := by
      rintro rfl
      rw [Specifier.filter_waypoints_dot hparts] at hp
      exact resolve_ne_of_dot (by exact hrooted) hoffset h.parts_eq h.extension_mem hp htarget
    refine ⟨hdot, ?_⟩
    obtain ⟨rest, hrest, rfl⟩ :=
      Path.below_of_mem_moduleFiles (h.filter_waypoints_ne_nil hparts hdot) hp
    obtain ⟨text, hfound⟩ := FileTree.isFile_iff.1 hisFile
    rw [FileTree.find?_of_rooted (by exact hrooted)] at hfound
    obtain ⟨q, hq⟩ := FileTree.exists_folder_of_walk_append hfound hrest
    exact FileTree.isFolder_iff.2 ⟨q, (FileTree.find?_of_rooted (by exact hrooted)).trans hq⟩
  · intro hdot hfolder hother
    rw [resolve, if_pos (by rw [hstart, Bool.true_or])]
    exact FileTree.moduleAt?_eq_some (hprobed hdot hfolder) hother

end

/-- A project with typings in an index file above a page. -/
def indexAbove : Resolver where
  tree := (FileTree.empty.write (.ofText "src/index.d.ts") "").write (.ofText "src/pages/A.tsx") ""
  config := none

set_option maxRecDepth 100000 in
private theorem namedByWay_indexAbove :
    NamedByWay indexAbove (FileTree.resolve (.ofText "src/index.d.ts")) "index" ".d.ts" where
  found := ⟨"", by rfl⟩
  proper := Path.isProper_resolve_ofText _
  unaliased := rfl
  unpackaged := by decide +kernel
  name := by decide +kernel
  stem_ne := by decide
  extension := by decide +kernel

set_option maxRecDepth 100000 in
/-- The typings are imported as the directory above, which leads to them. -/
theorem resolve_indexAbove :
    indexAbove.specifier (FileTree.resolve (.ofText "src/index.d.ts"))
        (FileTree.resolve (.ofText "src/pages/A.tsx")) = .ok ".." ∧
      indexAbove.resolve ".." (FileTree.resolve (.ofText "src/pages/A.tsx")) =
        .ok (some (FileTree.resolve (.ofText "src/index.d.ts"))) := by
  have hall := mem_probes_specifier_iff indexAbove (FileTree.resolve (.ofText "src/index.d.ts"))
    (FileTree.resolve (.ofText "src/pages/A.tsx")) "index" ".d.ts" namedByWay_indexAbove
    (by decide +kernel) (by decide +kernel)
  have hspecifier : indexAbove.specifier (FileTree.resolve (.ofText "src/index.d.ts"))
      (FileTree.resolve (.ofText "src/pages/A.tsx")) = .ok ".." := by
    refine (specifier_eq_ok_iff namedByWay_indexAbove.packageSpecifier?_eq_none).2 ⟨?_, ?_⟩
    · decide
    · decide +kernel
  exact ⟨hspecifier, (hall.2 _ hspecifier).2.2 (by decide) (by decide +kernel) (by decide +kernel)⟩

/-- A project with a file whose name is a dot in front of the extension. -/
def dotFile : Resolver where
  tree := (FileTree.empty.write (.ofText "a.ts") "").write (.ofText "..ts") ""
  config := none

set_option maxRecDepth 100000 in
/-- A file that is named by the way to it need not be among those that its specifier may stand for,
also if the importing file exists. -/
theorem not_forall_mem_probes_specifier :
    ¬∀ (r : Resolver) (target file : Path) (stem extension : String),
      NamedByWay r target stem extension → r.tree.isFile file = true → file.rooted = true →
        ∃ specifier, r.specifier target file = .ok specifier ∧
          ∃ p ∈ probes specifier file, r.tree.isFile p = true ∧ FileTree.resolve p = target := by
  intro hall
  have hnamed : NamedByWay dotFile (FileTree.resolve (.ofText "..ts")) "." ".ts" :=
    { found := ⟨"", by rfl⟩
      proper := Path.isProper_resolve_ofText _
      unaliased := rfl
      unpackaged := by decide +kernel
      name := by decide +kernel
      stem_ne := by decide
      extension := by decide +kernel }
  have hnone : ¬∃ p ∈ probes (dotFile.specifierFor (FileTree.resolve (.ofText "..ts"))
      (FileTree.resolve (.ofText "a.ts"))) (FileTree.resolve (.ofText "a.ts")),
      dotFile.tree.isFile p = true ∧ FileTree.resolve p = FileTree.resolve (.ofText "..ts") := by
    decide +kernel
  obtain ⟨specifier, hspecifier, hprobed⟩ := hall dotFile _ (FileTree.resolve (.ofText "a.ts")) "."
    ".ts" hnamed (by decide +kernel) (by decide +kernel)
  obtain rfl := ((specifier_eq_ok_iff hnamed.packageSpecifier?_eq_none).1 hspecifier).2
  exact hnone hprobed

end Resolver

end StableProps
