import StableProps.Proofs.Patch.Imports

/-!
# Import declarations lose nothing

The entry for a declaration is asked for names site by site, and the entries of several sites are
merged in any grouping. Whatever is done, the declaration keeps all that it imports, every name that
was asked for is among its names, and no local name stands there twice. So rendering, which leaves
out repeated names, leaves out nothing. Merging is associative, and merging an entry with itself
changes nothing.
-/

namespace StableProps

/-! ## Preferred specifiers and names -/

namespace Specifier

theorem prefer_self (s : String) : prefer s s = s := by
  rw [prefer]
  split <;> rfl

/-- The first of three specifiers that is there is preferred, however they are grouped. -/
theorem prefer_assoc (s t u : String) : prefer (prefer s t) u = prefer s (prefer t u) := by
  simp only [prefer]
  by_cases hs : Text.startsWith s typings = true <;>
    by_cases ht : Text.startsWith t typings = true <;>
      by_cases hu : Text.startsWith u typings = true <;> simp [hs, ht, hu]

end Specifier

namespace ImportEntry

theorem firstName_self (a : Option String) : firstName a a = a := by
  cases a with
  | none => rfl
  | some s => by_cases h : s = "" <;> simp [firstName, Option.filter, h]

/-- The first of three names that is there is taken, however they are grouped. -/
theorem firstName_assoc (a b c : Option String) :
    firstName (firstName a b) c = firstName a (firstName b c) := by
  cases a with
  | none => simp [firstName]
  | some s => by_cases h : s = "" <;> simp [firstName, Option.filter, h]

/-! ## Names that are added -/

/-- Names are added to a list if neither the list nor the declaration has them. -/
theorem foldl_addNew (named : List ImportedName) {names : List ImportedName}
    (h : (names.map (·.localName)).Nodup) (added : List ImportedName) :
    names.foldl (addNew named) added =
      added ++ names.filter fun n => n.localName ∉ (named ++ added).map (·.localName) := by
  induction names generalizing added with
  | nil => simp
  | cons n names ih =>
    obtain ⟨hn, hnames⟩ := List.nodup_cons.1 h
    have htaken : (named ++ added).any (·.localName == n.localName) = true ↔
        n.localName ∈ (named ++ added).map (·.localName) := by
      simp only [List.any_eq_true, beq_iff_eq, List.mem_map]
    rw [List.foldl_cons, ih hnames, addNew]
    by_cases hin : n.localName ∈ (named ++ added).map (·.localName)
    · rw [if_pos (htaken.2 hin), List.filter_cons, if_neg (by rwa [decide_eq_true_eq, not_not])]
    · rw [if_neg (htaken.not.2 hin), List.filter_cons, if_pos (decide_eq_true hin),
        List.append_assoc, List.singleton_append]
      -- The names behind differ from the one that was just added.
      refine congrArg (fun l => added ++ n :: l) (List.filter_congr fun k hk => ?_)
      have hne : k.localName ≠ n.localName := by
        intro heq
        exact hn (List.mem_map.2 ⟨k, hk, heq⟩)
      simp [hne]

/-- An entry merged with another one adds what it has not. -/
theorem added_merge (e : ImportEntry) {f : ImportEntry} (h : (f.added.map (·.localName)).Nodup) :
    (e.merge f).added = e.added ++ f.added.filter fun n => n.localName ∉ e.locals :=
  foldl_addNew e.named h e.added

/-- The local names of an entry are those of the declaration and those that are added. -/
private theorem mem_locals {e : ImportEntry} {name : String} :
    name ∈ e.locals ↔ name ∈ e.named.map (·.localName) ∨ name ∈ e.added.map (·.localName) := by
  rw [locals, List.map_append, List.mem_append]

private theorem locals_append_added (e : ImportEntry) (n : ImportedName) :
    ({ e with added := e.added ++ [n] } : ImportEntry).locals = e.locals ++ [n.localName] := by
  simp [locals]

/-- A request adds its name unless it is there. -/
theorem addRequest_cases (e : ImportEntry) (r : ImportRequest) :
    (r.kind = .default ∧ (e.addRequest r = e ∨ e.defaultName = none ∧ e.addedDefault = none ∧
      e.addRequest r = { e with addedDefault := some r.localName })) ∨
    r.kind ≠ .default ∧ (r.localName ∈ e.locals ∧ e.addRequest r = e ∨
      r.localName ∉ e.locals ∧ e.addRequest r =
        { e with added := e.added ++ [{ imported := r.imported, localName := r.localName }] }) := by
  rw [addRequest]
  by_cases hkind : r.kind = .default
  · rw [if_pos hkind]
    refine .inl ⟨hkind, ?_⟩
    split
    · exact .inl rfl
    next h =>
      simp only [Bool.or_eq_true, not_or, Bool.not_eq_true, Option.isSome_eq_false_iff,
        Option.isNone_iff_eq_none] at h
      exact .inr ⟨h.1, h.2, rfl⟩
  · rw [if_neg hkind]
    refine .inr ⟨hkind, ?_⟩
    split
    next h => exact .inl ⟨by simpa using h, rfl⟩
    next h => exact .inr ⟨by simpa using h, rfl⟩

/-! ## What stays -/

/-- An entry is one for a declaration: an import of the file, or a new one. -/
structure IsFor (host : Option ExistingImport) (e : ImportEntry) : Prop where
  span : e.span = host.map fun i => (i.start, i.stop)
  typeOnly : e.typeOnly = host.any (·.typeOnly)
  defaultName : e.defaultName = host.bind (·.defaultName)
  starName : e.starName = host.bind (·.starName)
  named : e.named = host.elim [] (·.named)

/-- The names that an entry adds are distinct, and its declaration has none of them. -/
structure IsClean (e : ImportEntry) : Prop where
  nodup : (e.added.map (·.localName)).Nodup
  isNew : ∀ name ∈ e.added.map (·.localName), name ∉ e.named.map (·.localName)

variable {existing : List ExistingImport} {host : Option ExistingImport} {e f g : ImportEntry}

/-- A request is added to an entry for the same declaration. -/
theorem IsFor.addRequest (h : e.IsFor host) (r : ImportRequest) : (e.addRequest r).IsFor host := by
  rcases e.addRequest_cases r with ⟨-, heq | ⟨-, -, heq⟩⟩ | ⟨-, ⟨-, heq⟩ | ⟨-, heq⟩⟩ <;> rw [heq]
  · exact h
  · exact ⟨h.span, h.typeOnly, h.defaultName, h.starName, h.named⟩
  · exact h
  · exact ⟨h.span, h.typeOnly, h.defaultName, h.starName, h.named⟩

/-- Entries for one declaration are merged to an entry for it. -/
theorem IsFor.merge (h : e.IsFor host) (h' : f.IsFor host) : (e.merge f).IsFor host where
  span := h.span
  typeOnly := h.typeOnly
  defaultName := h.defaultName
  starName := by
    change firstName e.starName f.starName = _
    rw [h.starName, h'.starName, firstName_self]
  named := h.named

/-- A request adds only a name that is new. -/
theorem IsClean.addRequest (h : e.IsClean) (r : ImportRequest) : (e.addRequest r).IsClean := by
  rcases e.addRequest_cases r with ⟨-, heq | ⟨-, -, heq⟩⟩ | ⟨-, ⟨-, heq⟩ | ⟨hfree, heq⟩⟩ <;>
    rw [heq]
  · exact h
  · exact ⟨h.nodup, h.isNew⟩
  · exact h
  · rw [mem_locals, not_or] at hfree
    constructor
    · rw [List.map_append]
      exact List.nodup_append.2 ⟨h.nodup, List.nodup_singleton _, by
        rintro a ha b hb rfl
        rw [List.mem_singleton.1 hb] at ha
        exact hfree.2 ha⟩
    · intro name hname
      rw [List.map_append, List.mem_append] at hname
      rcases hname with hname | hname
      · exact h.isNew name hname
      · obtain rfl := List.mem_singleton.1 hname
        exact hfree.1

/-- Merged entries of one declaration add what either of them adds. -/
theorem mem_added_merge (hf : f.IsClean) (hnamed : e.named = f.named) {name : String} :
    name ∈ (e.merge f).added.map (·.localName) ↔
      name ∈ e.added.map (·.localName) ∨ name ∈ f.added.map (·.localName) := by
  rw [added_merge e hf.nodup, List.map_append, List.mem_append]
  constructor
  · rintro (h | h)
    · exact .inl h
    · obtain ⟨n, hn, rfl⟩ := List.mem_map.1 h
      exact .inr (List.mem_map.2 ⟨n, (List.mem_filter.1 hn).1, rfl⟩)
  · rintro (h | h)
    · exact .inl h
    · by_cases he : name ∈ e.added.map (·.localName)
      · exact .inl he
      · have hnew := hf.isNew name h
        rw [← hnamed] at hnew
        obtain ⟨n, hn, rfl⟩ := List.mem_map.1 h
        refine .inr (List.mem_map.2 ⟨n, List.mem_filter.2 ⟨hn, decide_eq_true ?_⟩, rfl⟩)
        rw [mem_locals, not_or]
        exact ⟨hnew, he⟩

/-- A merged entry has the local names of both. -/
theorem mem_locals_merge (hf : f.IsClean) (hnamed : e.named = f.named) {name : String} :
    name ∈ (e.merge f).locals ↔ name ∈ e.locals ∨ name ∈ f.locals := by
  rw [mem_locals, mem_added_merge hf hnamed, mem_locals, mem_locals, ← hnamed]
  exact or_or_distrib_left

/-- Merging adds only names that are new. -/
theorem IsClean.merge (h : e.IsClean) (h' : f.IsClean) (hnamed : e.named = f.named) :
    (e.merge f).IsClean where
  nodup := by
    rw [added_merge e h'.nodup, List.map_append]
    refine List.nodup_append.2 ⟨h.nodup, h'.nodup.sublist (List.filter_sublist.map _), ?_⟩
    rintro a ha b hb rfl
    obtain ⟨n, hn, rfl⟩ := List.mem_map.1 hb
    exact of_decide_eq_true (List.mem_filter.1 hn).2 (mem_locals.2 (.inr ha))
  isNew name hname := by
    rcases (mem_added_merge h' hnamed).1 hname with hname | hname
    · exact h.isNew name hname
    · change name ∉ e.named.map (·.localName)
      rw [hnamed]
      exact h'.isNew name hname

/-! ## Entries of one declaration -/

/-- The entry that a declaration starts with. -/
def initial (existing : List ExistingImport) (host : Option ExistingImport) (r : ImportRequest) :
    ImportEntry :=
  match host with
  | some i => ofExisting i r
  | none => ofRequest existing r

/-- The entries that a declaration has when it was asked for names: each starts with the
declaration, takes requests and is merged with others. -/
inductive Derived (existing : List ExistingImport) (host : Option ExistingImport) :
    List ImportRequest → ImportEntry → Prop
  | initial (r : ImportRequest) : Derived existing host [] (ImportEntry.initial existing host r)
  | addRequest {asked : List ImportRequest} {e : ImportEntry} (h : Derived existing host asked e)
      (r : ImportRequest) : Derived existing host (asked ++ [r]) (e.addRequest r)
  | merge {asked asked' : List ImportRequest} {e f : ImportEntry}
      (h : Derived existing host asked e) (h' : Derived existing host asked' f) :
      Derived existing host (asked ++ asked') (e.merge f)

variable {asked asked' asked'' : List ImportRequest}

/-- The first entry for a request is for the declaration that takes it. -/
private theorem isFor_initial (r : ImportRequest) : (initial existing host r).IsFor host := by
  cases host with
  | some i => exact ⟨rfl, rfl, rfl, rfl, rfl⟩
  | none =>
    change (ofRequest existing r).IsFor none
    rw [ofRequest]
    split <;> exact ⟨rfl, rfl, rfl, rfl, rfl⟩

/-- The first entry for a request adds nothing yet. -/
theorem added_initial (existing : List ExistingImport) (host : Option ExistingImport)
    (r : ImportRequest) :
    (initial existing host r).added = [] ∧ (initial existing host r).addedDefault = none := by
  cases host with
  | some i => exact ⟨rfl, rfl⟩
  | none =>
    change (ofRequest existing r).added = [] ∧ (ofRequest existing r).addedDefault = none
    rw [ofRequest]
    split <;> exact ⟨rfl, rfl⟩

/-- An entry that is derived is for its declaration. -/
theorem Derived.isFor (h : Derived existing host asked e) : e.IsFor host := by
  induction h with
  | initial r => exact isFor_initial r
  | addRequest _ r ih => exact ih.addRequest r
  | merge _ _ ih ih' => exact ih.merge ih'

/-- An entry that is derived adds only new names, each once. -/
theorem Derived.isClean (h : Derived existing host asked e) : e.IsClean := by
  induction h with
  | initial r =>
    have hadded := (added_initial existing host r).1
    constructor <;> rw [hadded]
    · exact .nil
    · simp
  | addRequest _ r ih => exact ih.addRequest r
  | merge h h' ih ih' => exact ih.merge ih' (h.isFor.named.trans h'.isFor.named.symm)

/-- A declaration that has a default gets no other one. -/
theorem Derived.addedDefault_eq_none (h : Derived existing host asked e)
    (hdefault : (host.bind (·.defaultName)).isSome = true) : e.addedDefault = none := by
  induction h with
  | initial r => exact (added_initial existing host r).2
  | @addRequest _ e h r ih =>
    rcases e.addRequest_cases r with ⟨-, heq | ⟨hnone, -, -⟩⟩ | ⟨-, ⟨-, heq⟩ | ⟨-, heq⟩⟩
    · rw [heq]
      exact ih
    · rw [← h.isFor.defaultName, hnone] at hdefault
      cases hdefault
    · rw [heq]
      exact ih
    · rw [heq]
      exact ih
  | @merge _ _ e f _ _ ih ih' =>
    change firstName e.addedDefault f.addedDefault = none
    rw [ih, ih']
    rfl

/-! ## What was asked for -/

/-- No name is lost when a request is added. -/
private theorem mem_locals_addRequest {name : String} (h : name ∈ e.locals) (r : ImportRequest) :
    name ∈ (e.addRequest r).locals := by
  rcases e.addRequest_cases r with ⟨-, heq | ⟨-, -, heq⟩⟩ | ⟨-, ⟨-, heq⟩ | ⟨-, heq⟩⟩ <;> rw [heq]
  · exact h
  · exact h
  · exact h
  · rw [locals_append_added]
    exact List.mem_append_left _ h

/-- The name of a request in braces is among those of the entry. -/
theorem localName_mem_addRequest (e : ImportEntry) {r : ImportRequest} (h : r.kind ≠ .default) :
    r.localName ∈ (e.addRequest r).locals := by
  rcases e.addRequest_cases r with ⟨hkind, -⟩ | ⟨-, ⟨hin, heq⟩ | ⟨-, heq⟩⟩
  · exact absurd hkind h
  · rwa [heq]
  · rw [heq, locals_append_added]
    exact List.mem_append_right _ List.mem_cons_self

/-- All names that were asked for in braces are there. -/
private theorem Derived.requested (h : Derived existing host asked e) :
    ∀ r ∈ asked, r.kind ≠ .default → r.localName ∈ e.locals := by
  induction h with
  | initial r => simp
  | addRequest _ s ih =>
    intro r hr hkind
    rcases List.mem_append.1 hr with hr | hr
    · exact mem_locals_addRequest (ih r hr hkind) s
    · obtain rfl := List.mem_singleton.1 hr
      exact localName_mem_addRequest _ hkind
  | merge h h' ih ih' =>
    intro r hr hkind
    rw [mem_locals_merge h'.isClean (h.isFor.named.trans h'.isFor.named.symm)]
    exact (List.mem_append.1 hr).imp (ih r · hkind) (ih' r · hkind)

/-! ## Merging in any grouping -/

/-- It does not matter which of two merges of derived entries is made first. -/
theorem Derived.merge_assoc (h : Derived existing host asked e)
    (h' : Derived existing host asked' f) (h'' : Derived existing host asked'' g) :
    (e.merge f).merge g = e.merge (f.merge g) := by
  have hf := h'.isClean.nodup
  have hg := h''.isClean.nodup
  have hfg := (h'.merge h'').isClean.nodup
  have hnamed := h.isFor.named.trans h'.isFor.named.symm
  -- What the last entry adds is new to both others, whichever of them is merged first.
  have hadded : ((e.merge f).merge g).added = (e.merge (f.merge g)).added := by
    rw [added_merge _ hg, added_merge _ hf, added_merge _ hfg, added_merge _ hg, List.filter_append,
      List.append_assoc, List.filter_filter]
    refine congrArg (fun l => e.added ++ (_ ++ l)) (List.filter_congr fun n _ => ?_)
    rw [← Bool.decide_and, decide_eq_decide, mem_locals_merge h'.isClean hnamed, not_or]
  calc (e.merge f).merge g
      = { e with
          specifier := Specifier.prefer (Specifier.prefer e.specifier f.specifier) g.specifier
          added := ((e.merge f).merge g).added
          addedDefault := firstName (firstName e.addedDefault f.addedDefault) g.addedDefault
          starName := firstName (firstName e.starName f.starName) g.starName } := rfl
    _ = { e with
          specifier := Specifier.prefer e.specifier (Specifier.prefer f.specifier g.specifier)
          added := (e.merge (f.merge g)).added
          addedDefault := firstName e.addedDefault (firstName f.addedDefault g.addedDefault)
          starName := firstName e.starName (firstName f.starName g.starName) } := by
        rw [Specifier.prefer_assoc, firstName_assoc, firstName_assoc, hadded]
    _ = e.merge (f.merge g) := rfl

/-- An entry that is merged with itself stays as it is. -/
theorem IsClean.merge_self (h : e.IsClean) : e.merge e = e := by
  have hadded : (e.merge e).added = e.added := by
    rw [added_merge e h.nodup, List.filter_eq_nil_iff.2, List.append_nil]
    intro n hn
    rw [decide_eq_true_eq, not_not]
    exact mem_locals.2 (.inr (List.mem_map.2 ⟨n, hn, rfl⟩))
  calc e.merge e
      = { e with
          specifier := Specifier.prefer e.specifier e.specifier
          added := (e.merge e).added
          addedDefault := firstName e.addedDefault e.addedDefault
          starName := firstName e.starName e.starName } := rfl
    _ = e := by rw [Specifier.prefer_self, hadded, firstName_self, firstName_self]

/-! ## The written declaration -/

/-- The declaration has no local name twice. -/
def HasDistinctNames (host : Option ExistingImport) : Prop :=
  ((host.elim [] (·.named)).map (·.localName)).Nodup

instance (host : Option ExistingImport) : Decidable (HasDistinctNames host) :=
  inferInstanceAs (Decidable (List.Nodup _))

/-- No local name is there twice, unless the declaration has one twice. -/
private theorem Derived.nodup_locals (h : Derived existing host asked e)
    (hnames : HasDistinctNames host) : e.locals.Nodup := by
  rw [HasDistinctNames, ← h.isFor.named] at hnames
  rw [locals, List.map_append]
  refine List.nodup_append.2 ⟨hnames, h.isClean.nodup, ?_⟩
  rintro a ha b hb rfl
  exact h.isClean.isNew a hb ha

/-- No name is left out when the names are written. -/
theorem Derived.specifiers_eq (h : Derived existing host asked e)
    (hnames : HasDistinctNames host) : e.specifiers = e.added ++ e.named := by
  have hlocals := h.nodup_locals hnames
  rw [locals, List.map_append] at hlocals
  refine distinctBy_eq_self ?_
  rw [List.map_append]
  exact (List.perm_append_comm.nodup_iff).1 hlocals

/-- What stands before the names of a declaration. -/
def keyword (e : ImportEntry) : String := if e.typeOnly then "import type" else "import"

/-- What stands behind the names of a declaration. -/
def source (e : ImportEntry) : String :=
  e.quote ++ e.specifier ++ e.quote ++ (if e.semicolon then ";" else "")

/-- The statement with the given clause. -/
def statement (e : ImportEntry) (clause : String) : String :=
  e.keyword ++ " " ++ clause ++ " from " ++ e.source

/-- The text of a declaration that imports a default, a namespace and names in braces. A namespace
and names in braces take two statements. -/
inductive Written (e : ImportEntry) :
    Option String → Option String → List ImportedName → String → Prop
  | bare : Written e none none [] (e.keyword ++ " " ++ e.source)
  | default (d : String) : Written e (some d) none [] (e.statement d)
  | names {names : List ImportedName} (h : names ≠ []) :
      Written e none none names (e.statement (braced names))
  | defaultNames (d : String) {names : List ImportedName} (h : names ≠ []) :
      Written e (some d) none names (e.statement (d ++ ", " ++ braced names))
  | star (s : String) : Written e none (some s) [] (e.statement ("* as " ++ s))
  | defaultStar (d s : String) :
      Written e (some d) (some s) [] (e.statement (d ++ ", " ++ ("* as " ++ s)))
  | apart {d : Option String} {s text : String} {names : List ImportedName}
      (h : Written e d (some s) [] text) (hnames : names ≠ []) :
      Written e d (some s) names (text ++ "\n" ++ e.statement (braced names))

/-- A declaration with a namespace is written with it and its default in one statement. -/
theorem written_star (e : ImportEntry) (head : Option String) (s : String) :
    Written e head (some s) [] (e.keyword ++ " " ++ (match head with
      | some d => d ++ ", "
      | none => "") ++ "* as " ++ s ++ " from " ++ e.source) := by
  cases head with
  | none =>
    have h := Written.star (e := e) s
    simp only [statement, String.append_assoc, String.empty_append] at h ⊢
    exact h
  | some d =>
    have h := Written.defaultStar (e := e) d s
    simp only [statement, String.append_assoc] at h ⊢
    exact h

/-- A declaration is written with its default, its namespace and the names in its braces. -/
theorem written_render (e : ImportEntry) :
    Written e ((firstName e.defaultName e.addedDefault).filter (· ≠ "")) e.starName e.specifiers
      e.render := by
  rw [render]
  generalize (firstName e.defaultName e.addedDefault).filter (· ≠ "") = head
  generalize e.specifiers = names
  cases hstar : e.starName with
  | some star =>
    have hhead := written_star e head star
    cases names with
    | nil => exact hhead
    | cons n names =>
      have h := hhead.apart (List.cons_ne_nil n names)
      rw [statement, ← String.append_assoc, ← String.append_assoc, ← String.append_assoc,
        ← String.append_assoc] at h
      exact h
  | none =>
    cases head with
    | none =>
      cases names with
      | nil => exact .bare
      | cons n names => exact .names (List.cons_ne_nil n names)
    | some d =>
      cases names with
      | nil => exact .default d
      | cons n names => exact .defaultNames d (List.cons_ne_nil n names)

/-! ## Nothing is lost -/

/-- An entry keeps what its declaration imports, has every name that was asked for, and is written
with all of them. -/
structure Keeps (host : Option ExistingImport) (asked : List ImportRequest) (e : ImportEntry) :
    Prop extends e.IsFor host where
  /-- No local name stands in the braces twice. -/
  distinct : e.locals.Nodup
  requested : ∀ r ∈ asked, r.kind ≠ .default → r.localName ∈ e.locals
  /-- New names are written before all names of the declaration, which keeps its namespace and its
  default; a new default is written only if there is none. -/
  written : Written e ((host.bind (·.defaultName) <|> e.addedDefault).filter (· ≠ ""))
    (host.bind (·.starName)) (e.added ++ host.elim [] (·.named)) e.render

/-- A default that was there is the one that is written. -/
theorem Derived.head_eq (h : Derived existing host asked e) :
    (firstName e.defaultName e.addedDefault).filter (· ≠ "") =
      (host.bind (·.defaultName) <|> e.addedDefault).filter (· ≠ "") := by
  rw [h.isFor.defaultName]
  cases hdefault : host.bind (·.defaultName) with
  | none => rfl
  | some d =>
    rw [h.addedDefault_eq_none (by rw [hdefault]; rfl)]
    by_cases hd : d = "" <;> simp [firstName, Option.filter, hd]

/-- An entry that is derived keeps what the declaration has and what was asked for. -/
theorem Derived.keeps (h : Derived existing host asked e) (hnames : HasDistinctNames host) :
    e.Keeps host asked where
  toIsFor := h.isFor
  distinct := h.nodup_locals hnames
  requested := h.requested
  written := by
    have hwritten := e.written_render
    rw [h.head_eq, h.specifiers_eq hnames, h.isFor.starName, h.isFor.named] at hwritten
    exact hwritten

/-- Whatever a declaration is asked for and however its entries are merged, nothing is lost and no
name stands there twice. The grouping of merges makes no difference, and merging an entry with
itself changes nothing. -/
theorem keeps_of_derived (hnames : HasDistinctNames host) :
    (∀ asked e, Derived existing host asked e → e.Keeps host asked ∧ e.merge e = e) ∧
      ∀ asked asked' asked'' e f g, Derived existing host asked e →
        Derived existing host asked' f → Derived existing host asked'' g →
          (e.merge f).merge g = e.merge (f.merge g) := by
  refine ⟨fun asked e h => ⟨h.keeps hnames, h.isClean.merge_self⟩, ?_⟩
  intro asked asked' asked'' e f g h h' h''
  exact h.merge_assoc h' h''

/-- An import with a default and a renamed type. -/
def renamedType : ExistingImport :=
  { start := 0, stop := 38, specifier := "m", quote := "'", defaultName := some "d"
    named := [⟨"a", "b", true⟩, ⟨"c", "c", false⟩] }

/-- A request for a name of the same module. -/
def nameOf (kind : ImportKind) (imported localName : String) : ImportRequest :=
  { specifier := "m", imported, kind, localName }

/-- Two sites ask for a new name, a name that is there, and a default. -/
theorem keeps_twoSites :
    let first := (initial [] (some renamedType) (nameOf .named "x" "x")).addRequest
      (nameOf .named "x" "x")
    let second := ((initial [] (some renamedType) (nameOf .named "c" "c")).addRequest
      (nameOf .named "c" "c")).addRequest (nameOf .default "default" "e")
    HasDistinctNames (some renamedType) ∧
      (first.merge second).render = "import d, \x7b x, type a as b, c \x7d from 'm';" ∧
      (first.merge second).Keeps (some renamedType)
        [nameOf .named "x" "x", nameOf .named "c" "c", nameOf .default "default" "e"] := by
  intro first second
  have hnames : HasDistinctNames (some renamedType) := by decide
  have hderived : Derived [] (some renamedType)
      [nameOf .named "x" "x", nameOf .named "c" "c", nameOf .default "default" "e"]
      (first.merge second) :=
    ((Derived.initial _).addRequest _).merge (((Derived.initial _).addRequest _).addRequest _)
  exact ⟨hnames, by decide +kernel, ((keeps_of_derived hnames).1 _ _ hderived).1⟩

end ImportEntry

end StableProps
