import Mathlib.Data.Finset.Card
import StableProps.Proofs.Module.Files

/-!
# Inherited settings

The files that a configuration extends one after the other form its lineage, which ends where a file
extends none that exists, or only one that was passed before. Loading a configuration goes along its
lineage, however the files extend each other, and each setting is that of the first file that has
it. A file on the lineage without an object keeps the configuration from being loaded, and so does
one that extends the root directory, because there is no name to which an extension could be added.
-/

namespace StableProps

namespace FileTree

/-- A path from the root without double dots stays as it is. -/
theorem resolve_eq_self {p : Path} (hrooted : p.rooted = true) (hdots : ".." ∉ p.parts) :
    resolve p = p := by
  rw [resolve, Path.join, if_pos hrooted, Path.normalized, Path.foldl_step_of_not_mem hdots]
  simp

end FileTree

namespace Config

variable {t : FileTree} {passed line : List Path} {p q : Path}

/-! ## Lineages -/

/-- A file holds an object that extends another file. -/
def Extends (t : FileTree) (p q : Path) : Prop :=
  ∃ data, readObject t p = .ok data ∧ extended? p data = .ok (some q) ∧ t.isFile q = true

/-- The files that a file extends one after the other, itself included, some files being passed
already. They are followed while the next one exists and was not passed. -/
inductive Lineage (t : FileTree) : List Path → Path → List Path → Prop where
  | ends {passed : List Path} {p : Path} (h : ∀ q, Extends t p q → q ∈ p :: passed) :
      Lineage t passed p [p]
  | goesOn {passed rest : List Path} {p q : Path} (h : Extends t p q) (isNew : q ∉ p :: passed)
      (onward : Lineage t (p :: passed) q rest) : Lineage t passed p (p :: rest)

/-- A file extends one other file at most. -/
theorem Extends.unique {q' : Path} (h : Extends t p q) (h' : Extends t p q') : q = q' := by
  obtain ⟨data, hdata, hq, -⟩ := h
  obtain ⟨data', hdata', hq', -⟩ := h'
  obtain rfl := Except.ok.inj (hdata.symm.trans hdata')
  exact Option.some.inj (Except.ok.inj (hq.symm.trans hq'))

private theorem Lineage.head?_eq (h : Lineage t passed p line) : line.head? = some p := by
  cases h <;> rfl

/-- A file has one lineage. -/
theorem Lineage.unique {other : List Path} (h : Lineage t passed p line)
    (h' : Lineage t passed p other) : other = line := by
  induction h generalizing other with
  | ends h =>
    cases h' with
    | ends _ => rfl
    | goesOn hq isNew _ => exact absurd (h _ hq) isNew
  | goesOn hq isNew _ ih =>
    cases h' with
    | ends h => exact absurd (h _ hq) isNew
    | goesOn hq' _ onward =>
      obtain rfl := hq'.unique hq
      rw [ih onward]

/-- A configuration file is named by a path from the root, if the file that names it is. -/
theorem Extends.resolve_eq (h : Extends t p q) (hp : p.rooted = true) : FileTree.resolve q = q := by
  obtain ⟨data, -, hextended, -⟩ := h
  rw [extended?] at hextended
  split at hextended
  · cases hextended
  next target _ =>
    split at hextended
    · have hrooted : (p.parent.append target).normalized.rooted = true := by
        rw [Path.normalized, Path.append, Path.join]
        split
        next habsolute => exact habsolute
        · exact hp
      have hdots : ".." ∉ (p.parent.append target).normalized.parts := by
        rw [Path.normalized, List.mem_reverse]
        exact Path.not_mem_foldl_step _ List.not_mem_nil
      rw [withExtension] at hextended
      split at hextended
      · cases hextended
        exact FileTree.resolve_eq_self hrooted hdots
      · split at hextended
        · cases hextended
        · cases hextended
          refine FileTree.resolve_eq_self hrooted fun hmem => ?_
          rcases List.mem_append.1 hmem with hmem | hmem
          · exact hdots (List.dropLast_subset _ hmem)
          · have hlength := congrArg String.length (List.mem_singleton.1 hmem)
            rw [String.length_append] at hlength
            have hjson : ".json".length = 5 := rfl
            have hup : "..".length = 2 := rfl
            omega
    · cases hextended

/-- The paths of all files. -/
def filePaths (t : FileTree) : Finset Path := (t.files.map Prod.fst).toFinset

/-- What a file extends is one of the files. -/
theorem Extends.mem_filePaths (h : Extends t p q) (hp : p.rooted = true) : q ∈ filePaths t := by
  have hresolve := h.resolve_eq hp
  obtain ⟨data, -, -, hfile⟩ := h
  rw [FileTree.isFile] at hfile
  split at hfile
  next found text hfound =>
    obtain ⟨rfl, hmem⟩ := FileTree.of_find? hfound
    rw [filePaths, List.mem_toFinset, ← hresolve]
    exact List.mem_map.2 ⟨_, hmem, rfl⟩
  · cases hfile

/-- A file that is extended is found from the root. -/
theorem Extends.rooted (h : Extends t p q) (hp : p.rooted = true) : q.rooted = true := by
  rw [← h.resolve_eq hp]
  exact FileTree.rooted_resolve q

/-- All of a lineage are files, apart from where it starts. -/
theorem Lineage.mem_filePaths (h : Lineage t passed p line) (hp : p.rooted = true) :
    ∀ q ∈ line, q = p ∨ q ∈ filePaths t := by
  induction h with
  | ends _ => exact fun q hq => .inl (List.mem_singleton.1 hq)
  | goesOn hnext _ _ ih =>
    intro q hq
    rcases List.mem_cons.1 hq with rfl | hq
    · exact .inl rfl
    · rcases ih (hnext.rooted hp) q hq with rfl | hmem
      · exact .inr (hnext.mem_filePaths hp)
      · exact .inr hmem

/-- How many files can still be followed from a file. -/
def remaining (t : FileTree) (passed : List Path) (p : Path) : Nat :=
  (filePaths t \ (p :: passed).toFinset).card

/-- No more files are ahead than there are in all. -/
theorem remaining_le_length (t : FileTree) (passed : List Path) (p : Path) :
    remaining t passed p ≤ t.files.length :=
  calc remaining t passed p ≤ (filePaths t).card := Finset.card_le_card Finset.sdiff_subset
    _ ≤ (t.files.map Prod.fst).length := List.toFinset_card_le _
    _ = t.files.length := List.length_map _

/-- Each file that is followed leaves fewer of them. -/
theorem Extends.remaining_lt (h : Extends t p q) (hp : p.rooted = true) (isNew : q ∉ p :: passed) :
    remaining t (p :: passed) q < remaining t passed p := by
  have hmem : q ∈ filePaths t \ (p :: passed).toFinset :=
    Finset.mem_sdiff.2 ⟨h.mem_filePaths hp, fun hpassed => isNew (List.mem_toFinset.1 hpassed)⟩
  rw [remaining, remaining, List.toFinset_cons, Finset.sdiff_insert]
  exact Finset.card_erase_lt_of_mem hmem

/-- Each file has a lineage. -/
theorem exists_lineage (t : FileTree) (passed : List Path) (hp : p.rooted = true) :
    ∃ line, Lineage t passed p line := by
  induction hn : remaining t passed p using Nat.strongRecOn generalizing passed p with
  | ind n ih =>
    by_cases h : ∀ q, Extends t p q → q ∈ p :: passed
    · exact ⟨[p], .ends h⟩
    · push Not at h
      obtain ⟨q, hq, isNew⟩ := h
      obtain ⟨rest, hrest⟩ := ih _ (hn ▸ hq.remaining_lt hp isNew) (p :: passed) (hq.rooted hp) rfl
      exact ⟨p :: rest, .goesOn hq isNew hrest⟩

/-! ## Loading along a lineage -/

/-- The settings that the files of a lineage give, if there is a file. -/
def settle (t : FileTree) : List Path → Except Failure (Option Config)
  | [] => .ok none
  | p :: rest => do
    let data ← readObject t p
    let _ ← extended? p data
    let inherited ← settle t rest
    return some (override p inherited (← optionsOf data))

/-- A file that inherits from itself has the settings that it has alone. -/
theorem override_override (p : Path) (options : Json) :
    override p (some (override p none options)) options = override p none options := by
  rw [override, override]
  split <;> split <;> rfl

/-- A file whose next one was passed is loaded alone. -/
theorem loadFrom_of_passed {data : Json} (hdata : readObject t p = .ok data)
    (hextended : extended? p data = .ok (some q)) (hq : q ∈ passed) (fuel : Nat) :
    loadFrom t (fuel + 1) passed p = override p none <$> optionsOf data := by
  rw [loadFrom, hdata]
  simp only [bind, Except.bind, hextended, List.contains_iff_mem.2 hq, Bool.not_true,
    Bool.and_false, Bool.false_eq_true, if_false]
  cases optionsOf data <;> rfl

/-- Loading a file goes along its lineage, if there are enough steps. A file that extends itself is
loaded once more. -/
theorem loadFrom_eq_settle (h : Lineage t passed p line) (hp : p.rooted = true) {fuel : Nat}
    (hfuel : remaining t passed p + 2 ≤ fuel) :
    some <$> loadFrom t fuel passed p = settle t line := by
  induction h generalizing fuel with
  | @ends passed p h =>
    obtain ⟨fuel, rfl⟩ : ∃ n, fuel = n + 2 := ⟨fuel - 2, by omega⟩
    rw [loadFrom, settle, settle]
    cases hdata : readObject t p with
    | error f => rfl
    | ok data =>
      simp only [bind, Except.bind]
      cases hextended : extended? p data with
      | error f => rfl
      | ok next =>
        cases next with
        | none => cases optionsOf data <;> rfl
        | some q =>
          simp only
          split
          next hfollowed =>
            rw [Bool.and_eq_true, Bool.not_eq_true', ← Bool.not_eq_true,
              List.contains_iff_mem] at hfollowed
            -- The lineage ends here, so only the file itself can be the one that it extends.
            obtain ⟨hfile, hnew⟩ := hfollowed
            have hself : q = p :=
              (List.mem_cons.1 (h q ⟨data, hdata, hextended, hfile⟩)).resolve_right hnew
            subst hself
            rw [loadFrom_of_passed hdata hextended List.mem_cons_self]
            cases optionsOf data with
            | error f => rfl
            | ok options =>
              simp only [Functor.map, Except.map, pure, Except.pure, override_override]
          · cases optionsOf data <;> rfl
  | @goesOn passed rest p q hq isNew _ ih =>
    have hless := hq.remaining_lt hp isNew
    obtain ⟨fuel, rfl⟩ : ∃ n, fuel = n + 1 := ⟨fuel - 1, by omega⟩
    have hrest : some <$> loadFrom t fuel (p :: passed) q = settle t rest :=
      ih (hq.rooted hp) (by omega)
    obtain ⟨data, hdata, hextended, hfile⟩ := hq
    have hnew : passed.contains q = false := by
      rw [← Bool.not_eq_true, List.contains_iff_mem]
      exact fun hmem => isNew (List.mem_cons_of_mem p hmem)
    rw [loadFrom, settle, hdata, ← hrest]
    simp only [bind, Except.bind, hextended, hfile, hnew, Bool.not_false, Bool.and_true, if_true]
    cases loadFrom t fuel (p :: passed) q with
    | error f => rfl
    | ok c => cases optionsOf data <;> rfl

private theorem map_some_injective {x y : Except Failure Config} (h : some <$> x = some <$> y) :
    x = y := by
  cases x <;> cases y <;> cases h <;> rfl

private theorem map_some_eq_error {x : Except Failure Config} {f : Failure} :
    some <$> x = .error f ↔ x = .error f := by
  cases x with
  | ok c => exact ⟨nofun, nofun⟩
  | error e => exact ⟨fun h => congrArg Except.error (Except.error.inj h), fun h => congrArg _ h⟩

/-! ## What the files of a lineage set -/

/-- The settings inside a file. -/
def settings (t : FileTree) (p : Path) : Except Failure Json := readObject t p >>= optionsOf

/-- A file holds an object, and its settings are an object, or nothing. -/
def IsUsable (t : FileTree) (p : Path) : Prop := ∃ options, settings t p = .ok options

/-- A file holds no object. -/
def IsNoObject (t : FileTree) (p : Path) : Prop := ∀ data, readObject t p ≠ .ok data

/-- A file extends a path without a name, which is the root. -/
def ExtendsRoot (t : FileTree) (p : Path) : Prop :=
  ∃ data target, readObject t p = .ok data ∧
    (data.get? "extends").bind Json.string? = some target ∧ Text.startsWith target "." = true ∧
    (p.parent.append target).normalized.name = ""

/-- The base directory that a file sets, seen from its own directory. -/
def ownBase? (t : FileTree) (p : Path) : Option Path :=
  (((settings t p).toOption.bind (·.get? "baseUrl")).bind Json.string?).map fun base =>
    (p.parent.append base).normalized

/-- The patterns that a file sets, with its directory. -/
def ownPaths? (t : FileTree) (p : Path) : Option (List (String × List String) × Path) :=
  ((settings t p).toOption.bind patterns?).map fun paths => (paths, p.parent)

/-- The settings of a file, each from the first file of a lineage that has it. -/
def inherit (t : FileTree) (line : List Path) (p : Path) : Config where
  path := p
  baseUrl := line.findSome? (ownBase? t)
  paths := ((line.findSome? (ownPaths? t)).map (·.1)).getD []
  pathsBase := (line.findSome? (ownPaths? t)).map (·.2)

/-- What a file sets comes before what it inherits. -/
theorem override_inherit {options : Json} (h : settings t p = .ok options) (rest : List Path) :
    override p (rest.head?.map (inherit t rest)) options = inherit t (p :: rest) p := by
  have hbase : ownBase? t p =
      ((options.get? "baseUrl").bind Json.string?).map fun base =>
        (p.parent.append base).normalized := by
    rw [ownBase?, h]
    rfl
  have hpaths : ownPaths? t p = (patterns? options).map fun paths => (paths, p.parent) := by
    rw [ownPaths?, h]
    rfl
  rw [override, inherit, List.findSome?_cons, List.findSome?_cons, hbase, hpaths]
  cases (options.get? "baseUrl").bind Json.string? <;> cases patterns? options <;>
    cases rest <;> rfl

/-- An object names its next file, unless that would be the root. -/
theorem extended?_eq_error_iff {data : Json} (hdata : readObject t p = .ok data) :
    (∃ f, extended? p data = .error f) ↔ ExtendsRoot t p := by
  constructor
  · rintro ⟨f, hf⟩
    rw [extended?] at hf
    split at hf
    · cases hf
    next target htarget =>
      split at hf
      next hrelative =>
        refine ⟨data, target, hdata, htarget, hrelative, ?_⟩
        rw [withExtension] at hf
        split at hf
        · cases hf
        · split at hf
          next hname => exact hname
          · cases hf
      · cases hf
  · rintro ⟨data', target, hdata', htarget, hrelative, hname⟩
    obtain rfl := Except.ok.inj (hdata.symm.trans hdata')
    have hsuffix : Path.suffixOf "" ≠ ".json" := by decide
    refine ⟨.notAnObject (.nameless (p.parent.append target).normalized.text), ?_⟩
    rw [extended?, htarget]
    simp only [hrelative, if_true, withExtension, Path.suffix, hname, if_neg hsuffix]
    rfl

/-- Without a file that extends the root, each setting is that of the first file that has it. -/
theorem settle_eq_ok (husable : ∀ p ∈ line, IsUsable t p) (hroot : ∀ p ∈ line, ¬ExtendsRoot t p) :
    settle t line = .ok (line.head?.map (inherit t line)) := by
  induction line with
  | nil => rfl
  | cons p rest ih =>
    obtain ⟨options, hoptions⟩ := husable p List.mem_cons_self
    obtain ⟨data, hdata, hlookups⟩ := bind_eq_ok.1 hoptions
    have hrest := ih (fun q hq => husable q (List.mem_cons_of_mem p hq))
      fun q hq => hroot q (List.mem_cons_of_mem p hq)
    rw [settle, hdata, hrest, List.head?_cons, Option.map_some, ← override_inherit hoptions]
    cases hextended : extended? p data with
    | error f =>
      have hextends := (extended?_eq_error_iff hdata).1 ⟨f, hextended⟩
      exact absurd hextends (hroot p List.mem_cons_self)
    | ok next =>
      simp only [bind, Except.bind, hextended, hlookups]
      rfl

/-- A file that cannot be read is no malformed setting. -/
private theorem ne_malformedSetting_of_readObject {f : Failure} (h : readObject t p = .error f) :
    f ≠ .malformedSetting := by
  rw [readObject] at h
  split at h
  · cases h
    nofun
  · split at h <;> cases h <;> nofun

/-- A file that cannot be extended is no malformed setting. -/
private theorem ne_malformedSetting_of_extended? {data : Json} {f : Failure}
    (h : extended? p data = .error f) : f ≠ .malformedSetting := by
  rw [extended?] at h
  split at h
  · cases h
  · split at h
    · rw [withExtension] at h
      split at h
      · cases h
      · split at h <;> cases h
        nofun
    · cases h

/-- A file without an object, or one that extends the root, keeps the settings of a lineage from
being loaded, and for no reason that its settings are malformed. -/
theorem settle_eq_error (h : ∃ p ∈ line, IsNoObject t p ∨ ExtendsRoot t p) :
    ∃ f, settle t line = .error f ∧ f ≠ .malformedSetting := by
  induction line with
  | nil => simp at h
  | cons p rest ih =>
    rw [settle]
    cases hdata : readObject t p with
    | error f => exact ⟨f, rfl, ne_malformedSetting_of_readObject hdata⟩
    | ok data =>
      cases hextended : extended? p data with
      | error f =>
        exact ⟨f, by simp [bind, Except.bind, hextended],
          ne_malformedSetting_of_extended? hextended⟩
      | ok next =>
        have hrest : ∃ q ∈ rest, IsNoObject t q ∨ ExtendsRoot t q := by
          obtain ⟨q, hq, hbad⟩ := h
          rcases List.mem_cons.1 hq with rfl | hq
          · rcases hbad with hnone | hroot
            · exact absurd hdata (hnone data)
            · obtain ⟨f, hf⟩ := (extended?_eq_error_iff hdata).2 hroot
              rw [hextended] at hf
              cases hf
          · exact ⟨q, hq, hbad⟩
        obtain ⟨f, hf, hne⟩ := ih hrest
        exact ⟨f, by simp [bind, Except.bind, hextended, hf], hne⟩

/-- Loading a configuration ends after a bounded number of steps, also if files extend themselves or
each other. If all files on its lineage are usable, each setting is that of the first file that has
it, exactly unless a file extends the root. A file without an object and one that extends the root
keep the configuration from being loaded, and the projects that it belongs to are left without. -/
theorem load_inherits_along_lineage (t : FileTree) (path : Path) :
    ∃ line, (∀ other, Lineage t [] (FileTree.resolve path) other ↔ other = line) ∧
      (∀ steps, t.files.length + 2 ≤ steps →
        loadFrom t steps [] (FileTree.resolve path) = load t path) ∧
      ((∀ p ∈ line, IsUsable t p) →
        (load t path = .ok (inherit t line (FileTree.resolve path)) ↔
          ∀ p ∈ line, ¬ExtendsRoot t p)) ∧
      ((∃ p ∈ line, IsNoObject t p ∨ ExtendsRoot t p) →
        (∃ f, load t path = .error f) ∧
          ∀ file, find? t file = some path → forFile t file = .ok none) := by
  have hrooted := FileTree.rooted_resolve path
  obtain ⟨line, hline⟩ := exists_lineage t [] hrooted
  have hsteps (steps : Nat) (h : t.files.length + 2 ≤ steps) :
      some <$> loadFrom t steps [] (FileTree.resolve path) = settle t line :=
    loadFrom_eq_settle hline hrooted ((Nat.add_le_add_right (remaining_le_length ..) 2).trans h)
  have hload : some <$> load t path = settle t line := hsteps _ le_rfl
  have hfails (h : ∃ p ∈ line, IsNoObject t p ∨ ExtendsRoot t p) :
      ∃ f, load t path = .error f ∧ f ≠ .malformedSetting := by
    obtain ⟨f, hf, hne⟩ := settle_eq_error h
    rw [← hload] at hf
    exact ⟨f, map_some_eq_error.1 hf, hne⟩
  refine ⟨line, fun other => ⟨hline.unique, fun heq => heq ▸ hline⟩, fun steps h => ?_,
    fun husable => ⟨fun hok p hp hroot => ?_, fun hroot => ?_⟩, fun h => ?_⟩
  · exact map_some_injective ((hsteps steps h).trans hload.symm)
  · obtain ⟨f, hf, -⟩ := hfails ⟨p, hp, .inr hroot⟩
    rw [hok] at hf
    cases hf
  · refine map_some_injective (hload.trans ?_)
    rw [settle_eq_ok husable hroot, hline.head?_eq]
    rfl
  · obtain ⟨f, hf, hne⟩ := hfails h
    refine ⟨⟨f, hf⟩, fun file hfile => ?_⟩
    rw [forFile, hfile]
    simp only [hf]

/-- Two configurations that extend each other. -/
def circularConfigs : FileTree := .ofEntries [
  ("app/tsconfig.json",
    "\x7b \"extends\": \"../base\", \"compilerOptions\": \x7b \"baseUrl\": \"src\" \x7d \x7d"),
  ("base.json",
    "\x7b \"extends\": \"./app/tsconfig\", \"compilerOptions\": \x7b \"baseUrl\": \"b\", " ++
    "\"paths\": \x7b \"@/*\": [\"lib/*\"] \x7d \x7d \x7d")]

/-- The first of them. -/
def circularConfig : Path := FileTree.resolve (.ofText "app/tsconfig.json")

set_option maxRecDepth 100000 in
private theorem isOk_circularConfigs : ∀ p ∈ circularConfigs.files.map Prod.fst, ∃ data,
    readObject circularConfigs p = .ok data ∧
      (∃ next, extended? p data = .ok next ∧ True) ∧
        ∃ options, optionsOf data = .ok options ∧ True := by
  decide +kernel

set_option maxRecDepth 100000 in
/-- The one that is loaded has its own base directory, and takes the patterns from the other one. -/
theorem load_circularConfigs : ∃ line, Lineage circularConfigs [] circularConfig line ∧
    (∀ p ∈ line, IsUsable circularConfigs p) ∧ (∀ p ∈ line, ¬ExtendsRoot circularConfigs p) ∧
    load circularConfigs circularConfig = .ok (inherit circularConfigs line circularConfig) := by
  have hstart : circularConfig ∈ circularConfigs.files.map Prod.fst := by decide +kernel
  have hresolve : FileTree.resolve circularConfig = circularConfig := FileTree.resolve_resolve _
  obtain ⟨line, hline, -, hload, -⟩ := load_inherits_along_lineage circularConfigs circularConfig
  rw [hresolve] at hline hload
  have hlineage := (hline line).2 rfl
  have hfile (p : Path) (hp : p ∈ line) : p ∈ circularConfigs.files.map Prod.fst := by
    rcases hlineage.mem_filePaths (FileTree.rooted_resolve _) p hp with rfl | hmem
    · exact hstart
    · exact List.mem_toFinset.1 hmem
  have husable (p : Path) (hp : p ∈ line) : IsUsable circularConfigs p := by
    obtain ⟨data, hdata, -, options, hoptions, -⟩ := isOk_circularConfigs p (hfile p hp)
    exact ⟨options, bind_eq_ok.2 ⟨data, hdata, hoptions⟩⟩
  have hroot (p : Path) (hp : p ∈ line) : ¬ExtendsRoot circularConfigs p := by
    obtain ⟨data, hdata, ⟨next, hnext, -⟩, -⟩ := isOk_circularConfigs p (hfile p hp)
    rw [← extended?_eq_error_iff hdata, hnext]
    nofun
  exact ⟨line, hlineage, husable, hroot, (hload husable).2 hroot⟩

set_option maxRecDepth 100000 in
example : ∃ c, load circularConfigs circularConfig = .ok c ∧
    c.baseUrl = some ⟨true, ["proj", "app", "src"]⟩ ∧ c.paths = [("@/*", ["lib/*"])] ∧
      c.pathsBase = some ⟨true, ["proj"]⟩ := by
  decide +kernel

/-- A configuration that extends the root directory. -/
def rootConfig : FileTree := .ofEntries [("tsconfig.json",
  "\x7b \"extends\": \"../../..\", \"compilerOptions\": \x7b \"baseUrl\": \"src\" \x7d \x7d")]

/-- Its path. -/
def rootConfigPath : Path := FileTree.resolve (.ofText "tsconfig.json")

set_option maxRecDepth 100000 in
private theorem isOk_rootConfig : (load rootConfig rootConfigPath).isOk = false ∧
    ∃ data, readObject rootConfig rootConfigPath = .ok data ∧
      (extended? rootConfigPath data).isOk = false ∧
        ∃ options, optionsOf data = .ok options ∧ True := by
  decide +kernel

/-- A usable configuration need not be loaded. -/
theorem not_forall_load_eq_inherit : ¬∀ (t : FileTree) (path : Path) (line : List Path),
    Lineage t [] (FileTree.resolve path) line → (∀ p ∈ line, IsUsable t p) →
      load t path = .ok (inherit t line (FileTree.resolve path)) := by
  intro hall
  obtain ⟨hload, data, hdata, hextended, options, hoptions, -⟩ := isOk_rootConfig
  have hresolve : FileTree.resolve rootConfigPath = rootConfigPath := FileTree.resolve_resolve _
  have hline : Lineage rootConfig [] rootConfigPath [rootConfigPath] := by
    refine .ends fun q hq => ?_
    obtain ⟨data', hdata', hq, -⟩ := hq
    obtain rfl := Except.ok.inj (hdata.symm.trans hdata')
    rw [hq] at hextended
    cases hextended
  have husable : ∀ p ∈ [rootConfigPath], IsUsable rootConfig p := by
    intro p hp
    rw [List.mem_singleton.1 hp]
    exact ⟨options, bind_eq_ok.2 ⟨data, hdata, hoptions⟩⟩
  rw [hall rootConfig rootConfigPath _ (hresolve.symm ▸ hline) husable] at hload
  cases hload

end Config

end StableProps
