import StableProps.Proofs.Distinct
import StableProps.Proofs.File.Written
import StableProps.Proofs.Import.Additions
import StableProps.Proofs.Import.Tokens
import StableProps.Proofs.Import.Typings

/-!
# Imports are written as statements

What an entry is written as is a text of import statements: a namespace and names in braces get
statements of their own. An import of types is not split in this way. It can get a default beside
its names or its namespace, or names beside its default, and is no statement then. Apart from that,
entries for imports that are statements are written as statements, if what they add are names that a
module can bind.
-/

namespace StableProps

open ImportText

/-! ## Names in braces -/

namespace ImportedName

variable {n : ImportedName}

/-- A name whose parts are names as modules export them. -/
structure IsSpelled (n : ImportedName) : Prop where
  imported : IsExportName n.imported
  localName : IsExportName n.localName

/-- The tokens of a name without a mark for types. -/
def plainTokens (n : ImportedName) : List Token :=
  if n.imported = n.localName then [.ofName n.localName]
  else [.ofName n.imported, .word "as", .ofName n.localName]

/-- The tokens of a name in braces. -/
def tokens (n : ImportedName) : List Token :=
  if n.typeOnly then .word "type" :: n.plainTokens else n.plainTokens

/-- A name in braces spells its tokens. -/
theorem IsSpelled.spells (h : n.IsSpelled) : Spells n.render.toList n.tokens := by
  have hplain : Spells (if n.imported = n.localName then n.localName
      else n.imported ++ " as " ++ n.localName).toList n.plainTokens := by
    rw [plainTokens]
    by_cases heq : n.imported = n.localName
    · rw [if_pos heq, if_pos heq]
      exact h.localName.spells
    · rw [if_neg heq, if_neg heq]
      have hspells := (h.imported.spells.space (spells_text (w := "as") rfl)).space
        h.localName.spells
      rw [List.append_assoc] at hspells
      rw [String.toList_append, String.toList_append, List.append_assoc]
      exact hspells
  rw [render, tokens]
  cases n.typeOnly with
  | false =>
    rw [if_neg Bool.false_ne_true, if_neg Bool.false_ne_true, String.empty_append]
    exact hplain
  | true =>
    rw [if_pos rfl, if_pos rfl, String.toList_append]
    exact (spells_text (w := "type") rfl).space hplain

/-- The tokens of a name can stand in braces exactly if its local name can be bound. -/
private theorem plainName_plainTokens_iff : PlainName n.plainTokens ↔ IsBinding n.localName := by
  rw [plainTokens]
  split
  · rw [plainName_same_iff, isBinding_ofName_iff]
  · rw [plainName_renamed_iff (isName_ofName _), isBinding_ofName_iff]

private theorem length_plainTokens (n : ImportedName) :
    n.plainTokens.length = 1 ∨ n.plainTokens.length = 3 := by
  rw [plainTokens]
  split
  · exact .inl rfl
  · exact .inr rfl

/-- A name can stand in braces exactly if it can be bound. -/
theorem bracedName_tokens_iff {typeOnly : Bool} (h : typeOnly = true → n.typeOnly = false) :
    BracedName typeOnly n.tokens ↔ IsBinding n.localName := by
  have hlength := n.length_plainTokens
  rw [← plainName_plainTokens_iff, tokens]
  cases hn : n.typeOnly with
  | false =>
    refine bracedName_iff fun rest hrest hplain => ?_
    rw [if_neg Bool.false_ne_true] at hrest
    have hrest := congrArg List.length hrest
    rw [List.length_cons] at hrest
    rcases hplain.length <;> omega
  | true =>
    cases typeOnly with
    | true =>
      rw [h rfl] at hn
      cases hn
    | false =>
      refine bracedName_typed_iff fun hplain => ?_
      have hmarked := hplain.length
      rw [List.length_cons] at hmarked
      omega

private theorem isPart_tokens (n : ImportedName) : IsPart n.tokens := by
  have hcomma (name : String) : Token.mark ',' ≠ .ofName name := by
    intro heq
    have hname := isName_ofName name
    rw [← heq] at hname
    exact hname
  have hplain : IsPart n.plainTokens := by
    rw [plainTokens]
    split
    · exact ⟨List.cons_ne_nil _ _, by simpa using hcomma _⟩
    · exact ⟨List.cons_ne_nil _ _, by simpa using ⟨hcomma _, hcomma _⟩⟩
  rw [tokens]
  split
  · exact ⟨List.cons_ne_nil _ _, by simpa using hplain.2⟩
  · exact hplain

end ImportedName

/-! ## Sources -/

/-- A specifier that stands between quotes as it is. -/
def IsPlainText (s : String) : Prop :=
  ∀ c ∈ s.toList, c ∉ quotes ∧ c ≠ '\\' ∧ Reader.isLineBreak c = false

instance (s : String) : Decidable (IsPlainText s) := List.decidableBAll _ _

/-- A plain text can stand between quotes. -/
private theorem isContent_of_isPlainText {s : String} (h : IsPlainText s) {quote : Char}
    (hquote : quote ∈ quotes) : isContent quote s.toList = true := by
  rw [IsPlainText] at h
  generalize s.toList = cs at h
  fun_induction isContent quote cs with
  | case1 => rfl
  | case2 c cs ih => exact absurd rfl (h '\\' List.mem_cons_self).2.1
  | case3 c cs _ ih =>
    obtain ⟨hc, hbackslash, hbreak⟩ := h c List.mem_cons_self
    have hne : c ≠ quote := by
      rintro rfl
      exact hc hquote
    simp [hne, hbackslash, hbreak, ih fun d hd => h d (List.mem_cons_of_mem _ hd)]

namespace Specifier

/-- The parts around the underscores are parts of the name. -/
private theorem mem_of_splitAtUnderscores {cs scope package : List Char}
    (h : splitAtUnderscores cs = some (scope, package)) {c : Char}
    (hc : c ∈ scope ∨ c ∈ package) : c ∈ cs := by
  rw [(of_splitAtUnderscores h).1]
  rcases hc with hc | hc <;> simp [hc]

/-- The package of a specifier is written with its characters and two others. -/
theorem isPlainText_runtime {s : String} (h : IsPlainText s) : IsPlainText (runtime s) := by
  rw [runtime]
  split
  · have hname : ∀ c ∈ (dropFirst s typings.length).toList, c ∈ s.toList := by
      intro c hc
      rw [dropFirst, String.toList_ofList] at hc
      exact List.mem_of_mem_drop hc
    dsimp only
    split
    next scope package hsplit =>
      intro c hc
      simp only [String.toList_append, String.toList_ofList, List.mem_append] at hc
      have hat : "@".toList = ['@'] := rfl
      have hslash : "/".toList = ['/'] := rfl
      rw [hat, hslash, List.mem_singleton, List.mem_singleton] at hc
      rcases hc with ((rfl | hc) | rfl) | hc
      · decide
      · exact h c (hname c (mem_of_splitAtUnderscores hsplit (.inl hc)))
      · decide
      · exact h c (hname c (mem_of_splitAtUnderscores hsplit (.inr hc)))
    · exact fun c hc => h c (hname c hc)
  · exact h

private theorem prefer_cases (s t : String) : prefer s t = s ∨ prefer s t = t := by
  rw [prefer]
  split
  · exact .inr rfl
  · exact .inl rfl

end Specifier

/-! ## Imports and requests -/

/-- An import that is a statement: its source stands in quotes, its names can be bound, a namespace
does not stand beside names, and an import of types has a default, a namespace or names, but no two
of them. -/
structure ExistingImport.IsGrammatical (i : ExistingImport) : Prop where
  source : ∃ q ∈ quotes, i.quote = String.ofList [q] ∧ isContent q i.specifier.toList = true
  defaultName : ∀ d, i.defaultName = some d → IsBinding d
  starName : ∀ s, i.starName = some s → IsBinding s
  named : ∀ n ∈ i.named, IsExportName n.imported ∧ IsBinding n.localName ∧
    (i.typeOnly = true → n.typeOnly = false)
  apart : i.starName.isSome = true → i.named = []
  single : i.typeOnly = true → i.defaultName.isSome = true → i.starName = none ∧ i.named = []

/-- The imports of a file: statements that start at different places. -/
structure ExistingImport.AreGrammatical (existing : List ExistingImport) : Prop where
  each : ∀ i ∈ existing, i.IsGrammatical
  range_injective : ∀ x ∈ existing, ∀ y ∈ existing, x.start = y.start → x = y

/-- A request for a name as modules export it, from a module that is written without quotes. -/
structure ImportRequest.IsSpelled (r : ImportRequest) : Prop where
  imported : IsExportName r.imported
  localName : IsExportName r.localName
  specifier : IsPlainText r.specifier

/-- Entries that plans ask for, and what they become when those for one declaration are merged. -/
inductive ImportEntry.FromPlans (existing : List ExistingImport) : ImportEntry → Prop where
  | entry {plan : ImportPlan} (hplan : ∀ r ∈ plan.requests, r.IsSpelled) {e : ImportEntry}
      (h : e ∈ ofPlan existing plan) : FromPlans existing e
  | merge {e f : ImportEntry} (h : FromPlans existing e) (h' : FromPlans existing f)
      (hkey : Patch.mergeKey e = Patch.mergeKey f) : FromPlans existing (e.merge f)

namespace ImportEntry

variable {existing : List ExistingImport} {host : Option ExistingImport}
variable {e f : ImportEntry} {r : ImportRequest}

/-- The quote around the source of a declaration. -/
def quoteOf (existing : List ExistingImport) (host : Option ExistingImport) : String :=
  match host with
  | some i => i.quote
  | none => (existing.head?.map (·.quote)).getD "\""

/-- An entry for a declaration whose source stands in quotes and that adds names as modules export
them. -/
structure IsSpelled (existing : List ExistingImport) (host : Option ExistingImport)
    (e : ImportEntry) : Prop where
  derived : ∃ asked, Derived existing host asked e
  quote : e.quote = quoteOf existing host
  specifier : ∀ q ∈ quotes, e.quote = String.ofList [q] → isContent q e.specifier.toList = true
  added : ∀ n ∈ e.added, n.IsSpelled ∧ n.typeOnly = false
  addedDefault : ∀ d, e.addedDefault = some d → IsExportName d

/-- An entry that imports something by name. -/
def HasNames (e : ImportEntry) : Prop :=
  e.defaultName.isSome = true ∨ e.addedDefault.isSome = true ∨ e.starName.isSome = true ∨
    e.locals ≠ []

/-- The first entry for a request is spelled if the request and the declaration are. -/
private theorem isSpelled_initial (hhost : ∀ i, host = some i → i.IsGrammatical)
    (hr : r.IsSpelled) : (initial existing host r).IsSpelled existing host where
  derived := ⟨[], .initial r⟩
  quote := by
    cases host with
    | some i => rfl
    | none =>
      change (ofRequest existing r).quote = quoteOf existing none
      rw [ofRequest, quoteOf]
      cases existing.head? <;> rfl
  specifier q hq hquote := by
    cases host with
    | some i =>
      obtain ⟨q', -, hquote', hcontent⟩ := (hhost i rfl).source
      have hsame : q' = q := by
        have hlist := hquote'.symm.trans hquote
        simpa using congrArg String.toList hlist
      rcases Specifier.prefer_cases i.specifier r.specifier with hprefer | hprefer
      · change isContent q (Specifier.prefer i.specifier r.specifier).toList = true
        rw [hprefer, ← hsame]
        exact hcontent
      · change isContent q (Specifier.prefer i.specifier r.specifier).toList = true
        rw [hprefer]
        exact isContent_of_isPlainText hr.specifier hq
    | none =>
      have hspecifier : (initial existing none r).specifier = Specifier.runtime r.specifier := by
        change (ofRequest existing r).specifier = _
        rw [ofRequest]
        split <;> rfl
      rw [hspecifier]
      exact isContent_of_isPlainText (Specifier.isPlainText_runtime hr.specifier) hq
  added := by
    rw [(added_initial existing host r).1]
    exact nofun
  addedDefault := by
    rw [(added_initial existing host r).2]
    exact nofun

/-- An entry stays spelled when a request is added. -/
theorem IsSpelled.addRequest (h : e.IsSpelled existing host) (hr : r.IsSpelled) :
    (e.addRequest r).IsSpelled existing host := by
  obtain ⟨asked, hderived⟩ := h.derived
  have hnext : ∃ asked, Derived existing host asked (e.addRequest r) :=
    ⟨_, hderived.addRequest r⟩
  rcases e.addRequest_cases r with ⟨-, heq | ⟨-, -, heq⟩⟩ | ⟨-, ⟨-, heq⟩ | ⟨-, heq⟩⟩ <;>
    rw [heq] at hnext ⊢
  · exact h
  · refine ⟨hnext, h.quote, h.specifier, h.added, ?_⟩
    rintro d ⟨⟩
    exact hr.localName
  · exact h
  · refine ⟨hnext, h.quote, h.specifier, fun n hn => ?_, h.addedDefault⟩
    rcases List.mem_append.1 hn with hn | hn
    · exact h.added n hn
    · obtain rfl := List.mem_singleton.1 hn
      exact ⟨⟨hr.imported, hr.localName⟩, rfl⟩

/-- A name that was asked for is there. -/
theorem hasNames_addRequest (e : ImportEntry) (r : ImportRequest) :
    (e.addRequest r).HasNames := by
  by_cases hkind : r.kind = .default
  · rw [ImportEntry.addRequest, if_pos hkind]
    split
    next h =>
      rcases Bool.or_eq_true_iff.1 h with h | h
      · exact .inl h
      · exact .inr (.inl h)
    next => exact .inr (.inl rfl)
  · exact .inr (.inr (.inr (List.ne_nil_of_mem (localName_mem_addRequest e hkind))))

private theorem firstName_eq_some {a b : Option String} {d : String} (h : firstName a b = some d) :
    a = some d ∨ b = some d := by
  rw [firstName] at h
  cases ha : a.filter (· ≠ "") with
  | none =>
    rw [ha] at h
    exact .inr h
  | some x =>
    rw [ha] at h
    exact .inl ((Option.filter_eq_some_iff.1 ha).1.trans h)

/-- Entries that are spelled are so when merged. -/
theorem IsSpelled.merge (h : e.IsSpelled existing host) (h' : f.IsSpelled existing host) :
    (e.merge f).IsSpelled existing host := by
  obtain ⟨asked, hderived⟩ := h.derived
  obtain ⟨asked', hderived'⟩ := h'.derived
  refine ⟨⟨_, hderived.merge hderived'⟩, h.quote, fun q hq hquote => ?_, fun n hn => ?_, ?_⟩
  · change e.quote = String.ofList [q] at hquote
    change isContent q (Specifier.prefer e.specifier f.specifier).toList = true
    rcases Specifier.prefer_cases e.specifier f.specifier with hprefer | hprefer <;> rw [hprefer]
    · exact h.specifier q hq hquote
    · exact h'.specifier q hq ((h'.quote.trans h.quote.symm).trans hquote)
  · rw [added_merge e hderived'.isClean.nodup] at hn
    rcases List.mem_append.1 hn with hn | hn
    · exact h.added n hn
    · exact h'.added n (List.mem_filter.1 hn).1
  · intro d hd
    exact (firstName_eq_some hd).elim (h.addedDefault d) (h'.addedDefault d)

/-- A merged entry has names if the first one has. -/
private theorem IsSpelled.hasNames_merge (h : e.IsSpelled existing host)
    (h' : f.IsSpelled existing host) (hnames : e.HasNames) : (e.merge f).HasNames := by
  obtain ⟨asked, hderived⟩ := h.derived
  obtain ⟨asked', hderived'⟩ := h'.derived
  have hfor := (hderived.merge hderived').isFor
  rcases hnames with hdefault | hadded | hstar | hlocals
  · exact .inl hdefault
  · obtain ⟨d, hd⟩ := Option.isSome_iff_exists.1 hadded
    have hne := (h.addedDefault d hd).ne_empty
    refine .inr (.inl ?_)
    change (firstName e.addedDefault f.addedDefault).isSome = true
    simp [firstName, hd, Option.filter, hne]
  · refine .inr (.inr (.inl ?_))
    rw [hfor.starName, ← hderived.isFor.starName]
    exact hstar
  · obtain ⟨name, hname⟩ := List.exists_mem_of_ne_nil _ hlocals
    have hnamed := hderived.isFor.named.trans hderived'.isFor.named.symm
    exact .inr (.inr (.inr (List.ne_nil_of_mem
      ((mem_locals_merge hderived'.isClean hnamed).2 (.inl hname)))))

/-- Every entry that plans ask for is one for a declaration of the file or for a new one. -/
theorem FromPlans.exists_isSpelled (hexisting : ExistingImport.AreGrammatical existing)
    (h : FromPlans existing e) : ∃ host, (∀ i, host = some i → i ∈ existing) ∧
      e.IsSpelled existing host ∧ e.HasNames := by
  induction h with
  | @entry plan hplan e h =>
    obtain ⟨⟨k, x⟩, hx, rfl⟩ := List.mem_map.1 h
    refine List.foldlRecOn (motive := fun (entries : List ((String × Option Nat) × ImportEntry)) =>
      ∀ x ∈ entries, ∃ host, (∀ i, host = some i → i ∈ existing) ∧
        x.2.IsSpelled existing host ∧ x.2.HasNames) plan.requests _ ?_ ?_ _ hx
    · simp
    · intro entries ih r hr x hx
      rcases mem_upsert hx with hx | rfl | ⟨a, ha, rfl⟩
      · exact ih x hx
      · have hhost : ∀ i, existing.find? (accepts · r) = some i → i ∈ existing :=
          fun i hi => List.mem_of_find?_eq_some hi
        refine ⟨existing.find? (accepts · r), hhost, ?_, hasNames_addRequest _ r⟩
        have hinitial : (initial existing (existing.find? (accepts · r)) r).IsSpelled existing
            (existing.find? (accepts · r)) :=
          isSpelled_initial (fun i hi => hexisting.each i (hhost i hi)) (hplan r hr)
        exact hinitial.addRequest (hplan r hr)
      · obtain ⟨host, hhost, hspelled, -⟩ := ih _ ha
        exact ⟨host, hhost, hspelled.addRequest (hplan r hr), hasNames_addRequest _ r⟩
  | merge _ _ hkey ih ih' =>
    obtain ⟨host, hhost, hspelled, hnames⟩ := ih
    obtain ⟨host', hhost', hspelled', -⟩ := ih'
    obtain ⟨asked, hderived⟩ := hspelled.derived
    obtain ⟨asked', hderived'⟩ := hspelled'.derived
    obtain rfl := hderived.isFor.host_eq hexisting.range_injective hhost hhost' hderived'.isFor
      (Prod.mk.inj hkey).2
    exact ⟨host, hhost, hspelled.merge hspelled', hspelled.hasNames_merge hspelled' hnames⟩

/-! ## Written statements -/

/-- The source of an entry spells its specifier and the end of the statement. -/
private theorem IsSpelled.spells_source (hexisting : ExistingImport.AreGrammatical existing)
    (hhost : ∀ i, host = some i → i ∈ existing) (h : e.IsSpelled existing host) :
    Spells e.source.toList (.quoted e.specifier :: ending e.semicolon) := by
  have hquote : ∃ q ∈ quotes, e.quote = String.ofList [q] := by
    rw [h.quote]
    cases host with
    | some i =>
      obtain ⟨q, hq, hquote, -⟩ := (hexisting.each i (hhost i rfl)).source
      exact ⟨q, hq, hquote⟩
    | none =>
      rw [quoteOf]
      cases hhead : existing.head? with
      | none => exact ⟨'"', by decide, rfl⟩
      | some i =>
        obtain ⟨q, hq, hquote, -⟩ := (hexisting.each i (List.mem_of_head? hhead)).source
        exact ⟨q, hq, hquote⟩
  obtain ⟨q, hq, hquote⟩ := hquote
  have hquoted := spells_quoted hq (h.specifier q hq hquote)
  rw [String.ofList_toList] at hquoted
  rw [source, hquote]
  simp only [String.toList_append, String.toList_ofList]
  cases e.semicolon with
  | false =>
    change Spells ([q] ++ e.specifier.toList ++ [q] ++ []) _
    rw [List.append_nil]
    exact hquoted
  | true => exact hquoted.mark (by decide)

/-- The keyword of an entry spells `import`, marked if it imports only types. -/
private theorem spells_keyword (e : ImportEntry) :
    Spells e.keyword.toList (.word "import" :: marked e.typeOnly []) := by
  rw [keyword, marked]
  cases e.typeOnly with
  | false => exact spells_text (w := "import") rfl
  | true => exact (spells_text (w := "import") rfl).space (spells_text (w := "type") rfl)

/-- A statement is read as its tokens. -/
theorem spells_statement {clause : String} {ts : List Token}
    (hsource : Spells e.source.toList (.quoted e.specifier :: ending e.semicolon))
    (h : Spells clause.toList ts) : Spells (e.statement clause).toList
      (statementTokens e.typeOnly ts e.specifier e.semicolon) := by
  have hspells := ((e.spells_keyword.space h).space (spells_text (w := "from") rfl)).space hsource
  have htokens : statementTokens e.typeOnly ts e.specifier e.semicolon =
      .word "import" :: marked e.typeOnly [] ++ ts ++ [.word "from"] ++
        .quoted e.specifier :: ending e.semicolon := by
    rw [statementTokens, marked, marked]
    cases e.typeOnly <;> simp
  have htext : (e.statement clause).toList = e.keyword.toList ++ ' ' :: clause.toList ++
      ' ' :: "from".toList ++ ' ' :: e.source.toList := by
    rw [statement]
    simp only [String.toList_append]
    have hfrom : " from ".toList = ' ' :: "from".toList ++ [' '] := rfl
    have hspace : " ".toList = [' '] := rfl
    rw [hfrom, hspace]
    simp only [List.append_assoc, List.cons_append, List.nil_append]
  rw [htext, htokens]
  exact hspells

/-- A statement is grammatical exactly if its clause is. -/
theorem isImports_statement_iff {clause : String} {ts : List Token}
    (hsource : Spells e.source.toList (.quoted e.specifier :: ending e.semicolon))
    (h : Spells clause.toList ts) (hhead : IsHead ts) :
    IsImports (e.statement clause) ↔ Clause e.typeOnly ts := by
  have htokens := (spells_statement hsource h).tokens
  rw [IsImports, Text.split_of_not_mem (newline_not_mem_of_tokens htokens),
    List.forall_mem_singleton, IsStatement, htokens, ← statement_iff hhead e.specifier e.semicolon]
  constructor
  · rintro ⟨ts, heq, hstatement⟩
    exact Option.some.inj heq ▸ hstatement
  · exact fun hstatement => ⟨_, rfl, hstatement⟩

/-- Two lines are import statements exactly if both are. -/
theorem isImports_append_iff (front back : String) :
    IsImports (front ++ "\n" ++ back) ↔ IsImports front ∧ IsImports back := by
  rw [IsImports, Text.split_append rfl, List.forall_mem_append]
  rfl

/-- Names in braces spell their tokens. -/
private theorem spells_braced {names : List ImportedName} (hne : names ≠ [])
    (h : ∀ n ∈ names, n.IsSpelled) :
    Spells (braced names).toList (inBraces (names.map ImportedName.tokens)) := by
  have heach : ∀ x ∈ names.map fun n => (n.render.toList, n.tokens), Spells x.1 x.2 := by
    intro x hx
    obtain ⟨n, hn, rfl⟩ := List.mem_map.1 hx
    exact (h n hn).spells
  have hnames := spells_intercalate (by simpa using hne) heach
  rw [List.map_map, List.map_map] at hnames
  have hspells := ((spells_mark (c := '\x7b') (by decide)).space hnames).space
    (spells_mark (c := '\x7d') (by decide))
  have htext : (braced names).toList = ['\x7b'] ++ ' ' ::
      [',', ' '].intercalate (names.map fun n => n.render.toList) ++ ' ' :: ['\x7d'] := by
    rw [braced, String.toList_append, String.toList_append, String.toList_intercalate,
      List.map_map]
    have hopen : "\x7b ".toList = ['\x7b', ' '] := rfl
    have hclose : " \x7d".toList = [' ', '\x7d'] := rfl
    have hcomma : ", ".toList = [',', ' '] := rfl
    rw [hopen, hclose, hcomma]
    rfl
  rw [htext]
  exact hspells

/-- A namespace spells its tokens. -/
private theorem spells_starAs {s : String} (h : IsExportName s) :
    Spells ("* as " ++ s).toList (starAs (.ofName s)) := by
  have hspells := ((spells_mark (c := '*') (by decide)).space
    (spells_text (w := "as") rfl)).space h.spells
  rw [String.toList_append]
  exact hspells

/-- Written clauses joined by a comma. -/
theorem spells_join {d clause : String} {ts : List Token} (hd : IsExportName d)
    (h : Spells clause.toList ts) :
    Spells (d ++ ", " ++ clause).toList (.ofName d :: .mark ',' :: ts) := by
  rw [String.toList_append, String.toList_append, List.append_assoc]
  exact hd.spells.comma h

private theorem isPart_of_mem_map_tokens (names : List ImportedName) :
    ∀ n ∈ names.map ImportedName.tokens, IsPart n :=
  List.forall_mem_map.2 fun n _ => n.isPart_tokens

/-- Names can stand in braces exactly if all their local names can be bound. -/
private theorem bracedNames_tokens_iff {typeOnly : Bool} {names : List ImportedName}
    (h : ∀ n ∈ names, n.IsSpelled ∧ (typeOnly = true → n.typeOnly = false)) :
    (∀ n ∈ names.map ImportedName.tokens, BracedName typeOnly n) ↔
      ∀ n ∈ names, IsBinding n.localName := by
  rw [List.forall_mem_map]
  exact forall₂_congr fun n hn => ImportedName.bracedName_tokens_iff (h n hn).2

/-- Names in braces are imported exactly if all of them can be bound. -/
theorem isImports_braced_iff {names : List ImportedName}
    (hsource : Spells e.source.toList (.quoted e.specifier :: ending e.semicolon))
    (hne : names ≠ []) (h : ∀ n ∈ names, n.IsSpelled ∧ (e.typeOnly = true → n.typeOnly = false)) :
    IsImports (e.statement (braced names)) ↔ ∀ n ∈ names, IsBinding n.localName := by
  rw [isImports_statement_iff hsource (spells_braced hne fun n hn => (h n hn).1)
    (isHead_mark (by decide) _), clause_names_iff (isPart_of_mem_map_tokens names),
    bracedNames_tokens_iff h]

/-- A default and names in braces are imported exactly if all of them can be bound and the
statement is not one for types. -/
theorem isImports_defaultNames_iff {d : String} {names : List ImportedName}
    (hsource : Spells e.source.toList (.quoted e.specifier :: ending e.semicolon))
    (hd : IsExportName d) (hne : names ≠ [])
    (h : ∀ n ∈ names, n.IsSpelled ∧ (e.typeOnly = true → n.typeOnly = false)) :
    IsImports (e.statement (d ++ ", " ++ braced names)) ↔
      e.typeOnly = false ∧ IsBinding d ∧ ∀ n ∈ names, IsBinding n.localName := by
  rw [isImports_statement_iff hsource
    (spells_join hd (spells_braced hne fun n hn => (h n hn).1))
    (isHead_nameComma (isName_ofName d) _),
    clause_nameNames_iff (isName_ofName d) (isPart_of_mem_map_tokens names), isBinding_ofName_iff]
  refine and_congr_right fun htype => and_congr_right fun _ => ?_
  rw [htype] at h
  exact bracedNames_tokens_iff h

/-- A default, a namespace and names are written as statements exactly if all of them can be bound
and they are not joined in an import of types. -/
theorem Written.isImports_iff {head star : Option String} {names : List ImportedName}
    {text : String} (h : Written e head star names text)
    (hsource : Spells e.source.toList (.quoted e.specifier :: ending e.semicolon))
    (hhead : ∀ d, head = some d → IsExportName d) (hstar : ∀ s, star = some s → IsBinding s)
    (hnames : ∀ n ∈ names, n.IsSpelled ∧ (e.typeOnly = true → n.typeOnly = false))
    (hsome : head.isSome = true ∨ star.isSome = true ∨ names ≠ []) :
    IsImports text ↔ (∀ d, head = some d → IsBinding d) ∧ (∀ n ∈ names, IsBinding n.localName) ∧
      ¬(e.typeOnly = true ∧ head.isSome = true ∧ (star.isSome = true ∨ names ≠ [])) := by
  induction h with
  | bare => simp at hsome
  | default d =>
    have hd := hhead d rfl
    rw [isImports_statement_iff hsource hd.spells (isHead_name (isName_ofName d)), clause_name_iff,
      isBinding_ofName_iff]
    simp
  | names hne =>
    rw [isImports_braced_iff hsource hne hnames]
    simp
  | defaultNames d hne =>
    rw [isImports_defaultNames_iff hsource (hhead d rfl) hne hnames]
    cases e.typeOnly <;> simp [hne]
  | star s =>
    have hs := hstar s rfl
    rw [isImports_statement_iff hsource (spells_starAs hs.isExportName)
      (isHead_mark (by decide) _), clause_star_iff, isBinding_ofName_iff]
    simpa using hs
  | defaultStar d s =>
    have hd := hhead d rfl
    have hs := hstar s rfl
    rw [isImports_statement_iff hsource (spells_join hd (spells_starAs hs.isExportName))
      (isHead_nameComma (isName_ofName d) _), clause_nameStar_iff (isName_ofName d),
      isBinding_ofName_iff, isBinding_ofName_iff]
    cases htype : e.typeOnly with
    | true => simp
    | false => simpa using fun _ => hs
  | @apart d s text names _ hne ih =>
    have hfirst : IsImports text ↔ _ := ih hhead hstar (by simp) (.inr (.inl rfl))
    rw [isImports_append_iff, hfirst, isImports_braced_iff hsource hne hnames]
    constructor
    · rintro ⟨⟨hd, -, hjoined⟩, hn⟩
      exact ⟨hd, hn, fun h => hjoined ⟨h.1, h.2.1, .inl rfl⟩⟩
    · rintro ⟨hd, hn, hjoined⟩
      exact ⟨⟨hd, nofun, fun h => hjoined ⟨h.1, h.2.1, .inl rfl⟩⟩, hn⟩

/-! ## Entries -/

/-- An import of types that has a default, and a namespace or names beside it. -/
def JoinsTypes (e : ImportEntry) : Prop :=
  e.typeOnly = true ∧ (e.defaultName.isSome = true ∨ e.addedDefault.isSome = true) ∧
    (e.starName.isSome = true ∨ e.locals ≠ [])

/-- There is something in braces exactly if there is a local name. -/
private theorem specifiers_ne_nil_iff (e : ImportEntry) : e.specifiers ≠ [] ↔ e.locals ≠ [] := by
  rw [specifiers, locals, Ne, distinctBy_eq_nil_iff, Ne, List.map_eq_nil_iff,
    List.append_eq_nil_iff, List.append_eq_nil_iff, and_comm]

/-- Names that are added are among those that are written. -/
theorem forall_specifiers_iff (hnamed : ∀ n ∈ e.named, IsBinding n.localName) :
    (∀ n ∈ e.specifiers, IsBinding n.localName) ↔
      ∀ name ∈ e.added.map (·.localName), IsBinding name := by
  rw [List.forall_mem_map]
  constructor
  · intro h n hn
    obtain ⟨m, hm, hname⟩ := exists_mem_distinctBy (·.localName)
      (List.mem_append_left e.named hn)
    exact hname ▸ h m hm
  · intro h n hn
    rcases List.mem_append.1 (mem_of_mem_distinctBy hn) with hn | hn
    · exact h n hn
    · exact hnamed n hn

private theorem filter_ne_empty {name : Option String} (h : ∀ d, name = some d → d ≠ "") :
    name.filter (· ≠ "") = name := by
  cases name with
  | none => rfl
  | some d => simp [Option.filter, h d rfl]

section

variable (hexisting : ExistingImport.AreGrammatical existing)
variable (hhost : ∀ i, host = some i → i ∈ existing)

include hexisting hhost

/-- What a declaration of the file imports can be bound. -/
theorem IsFor.isBinding (h : e.IsFor host) : (∀ d, e.defaultName = some d → IsBinding d) ∧
    (∀ s, e.starName = some s → IsBinding s) ∧ ∀ n ∈ e.named, IsExportName n.imported ∧
      IsBinding n.localName ∧ (e.typeOnly = true → n.typeOnly = false) := by
  rw [h.defaultName, h.starName, h.named, h.typeOnly]
  cases host with
  | none => exact ⟨nofun, nofun, nofun⟩
  | some i =>
    have hi := hexisting.each i (hhost i rfl)
    exact ⟨hi.defaultName, hi.starName, hi.named⟩

/-- The default that is written is that of the declaration, or the one that is added. -/
theorem IsSpelled.head_eq (h : e.IsSpelled existing host) :
    (firstName e.defaultName e.addedDefault).filter (· ≠ "") =
      e.defaultName.or e.addedDefault := by
  obtain ⟨asked, hderived⟩ := h.derived
  obtain ⟨hdefault, -, -⟩ := hderived.isFor.isBinding hexisting hhost
  have hor : (e.defaultName <|> e.addedDefault) = e.defaultName.or e.addedDefault :=
    Option.orElse_eq_or
  rw [hderived.head_eq, ← hderived.isFor.defaultName, hor]
  refine filter_ne_empty fun d hd => ?_
  rcases Option.or_eq_some_iff.1 hd with hd | ⟨-, hd⟩
  · exact (hdefault d hd).isExportName.ne_empty
  · exact (h.addedDefault d hd).ne_empty

/-- The written default can be bound exactly if an added one can. -/
theorem IsSpelled.isBinding_head_iff (h : e.IsSpelled existing host) :
    (∀ d, e.defaultName.or e.addedDefault = some d → IsBinding d) ↔
      ∀ name ∈ e.newDefault.toList, IsBinding name := by
  obtain ⟨asked, hderived⟩ := h.derived
  obtain ⟨hdefault, -, -⟩ := hderived.isFor.isBinding hexisting hhost
  have hnew : e.newDefault = e.addedDefault :=
    filter_ne_empty fun d hd => (h.addedDefault d hd).ne_empty
  rw [hnew]
  cases hname : e.defaultName with
  | none => simp
  | some d =>
    rw [hderived.addedDefault_eq_none (by rw [← hderived.isFor.defaultName, hname]; rfl)]
    simpa using hdefault d hname

/-- An entry is written as import statements exactly if its new names can be bound and no default is
joined to names of types. -/
private theorem IsSpelled.isImports_iff (h : e.IsSpelled existing host) (hnames : e.HasNames) :
    IsImports e.render ↔ (∀ name ∈ e.addedNames, IsBinding name) ∧ ¬e.JoinsTypes := by
  obtain ⟨asked, hderived⟩ := h.derived
  obtain ⟨hdefault, hstar, hnamed⟩ := hderived.isFor.isBinding hexisting hhost
  have hwritten := e.written_render
  rw [h.head_eq hexisting hhost] at hwritten
  have hhead : ∀ d, e.defaultName.or e.addedDefault = some d → IsExportName d := by
    intro d hd
    rcases Option.or_eq_some_iff.1 hd with hd | ⟨-, hd⟩
    · exact (hdefault d hd).isExportName
    · exact h.addedDefault d hd
  have hspecifiers :
      ∀ n ∈ e.specifiers, n.IsSpelled ∧ (e.typeOnly = true → n.typeOnly = false) := by
    intro n hn
    rcases List.mem_append.1 (mem_of_mem_distinctBy hn) with hn | hn
    · exact ⟨(h.added n hn).1, fun _ => (h.added n hn).2⟩
    · obtain ⟨himported, hbinding, htype⟩ := hnamed n hn
      exact ⟨⟨himported, hbinding.isExportName⟩, htype⟩
  have hsome : (e.defaultName.or e.addedDefault).isSome = true ∨ e.starName.isSome = true ∨
      e.specifiers ≠ [] := by
    rw [Option.isSome_or, Bool.or_eq_true, specifiers_ne_nil_iff, or_assoc]
    exact hnames
  rw [hwritten.isImports_iff (h.spells_source hexisting hhost) hhead hstar hspecifiers hsome,
    h.isBinding_head_iff hexisting hhost, forall_specifiers_iff fun n hn => (hnamed n hn).2.1,
    ← and_assoc, ← List.forall_mem_append, JoinsTypes, Option.isSome_or, Bool.or_eq_true,
    specifiers_ne_nil_iff]
  rfl

end

/-- An entry is written as import statements exactly if what it adds can be bound and it does not
join a default with a namespace or with names in an import of types. -/
theorem isImports_render_iff (hexisting : ExistingImport.AreGrammatical existing)
    (h : FromPlans existing e) :
    IsImports e.render ↔ (∀ name ∈ e.addedNames, IsBinding name) ∧ ¬e.JoinsTypes := by
  obtain ⟨host, hhost, hspelled, hnames⟩ := h.exists_isSpelled hexisting
  exact hspelled.isImports_iff hexisting hhost hnames

private theorem areGrammatical_singleton {i : ExistingImport} (h : i.IsGrammatical) :
    ExistingImport.AreGrammatical [i] where
  each _ hj := List.mem_singleton.1 hj ▸ h
  range_injective _ hx _ hy _ := (List.mem_singleton.1 hx).trans (List.mem_singleton.1 hy).symm

private theorem isGrammatical_renamedType : renamedType.IsGrammatical where
  source := ⟨'\'', by decide, rfl, by decide⟩
  defaultName := by
    rintro d ⟨⟩
    decide +kernel
  starName := nofun
  named := by
    have hall : ∀ n ∈ renamedType.named, Reader.isWord n.imported.toList = true ∧
        IsBinding n.localName ∧ (renamedType.typeOnly = true → n.typeOnly = false) := by
      decide +kernel
    exact fun n hn => ⟨.word (hall n hn).1, (hall n hn).2⟩
  apart := nofun
  single := nofun

private theorem isSpelled_nameOf {kind : ImportKind} {imported localName : String}
    (himported : Reader.isWord imported.toList = true)
    (hlocal : Reader.isWord localName.toList = true) :
    (nameOf kind imported localName).IsSpelled where
  imported := .word himported
  localName := .word hlocal
  specifier := by
    change IsPlainText "m"
    decide

/-- Two sites ask for names of one module, one of them for a name that is there. -/
theorem isImports_renamedType :
    ExistingImport.AreGrammatical [renamedType] ∧ ∃ e f, FromPlans [renamedType] e ∧
      FromPlans [renamedType] f ∧ FromPlans [renamedType] (e.merge f) ∧
      (e.merge f).render = "import d, \x7b x, type a as b, c \x7d from 'm';" ∧
      IsImports (e.merge f).render := by
  have hexisting := areGrammatical_singleton isGrammatical_renamedType
  let plan (name : String) : ImportPlan := { requests := [nameOf .named name name] }
  let entry (name : String) : ImportEntry :=
    (initial [renamedType] (some renamedType) (nameOf .named name name)).addRequest
      (nameOf .named name name)
  have hentry {name : String} (hname : Reader.isWord name.toList = true)
      (h : entry name ∈ ofPlan [renamedType] (plan name)) :
      FromPlans [renamedType] (entry name) := by
    refine .entry (fun r hr => ?_) h
    rw [List.mem_singleton.1 hr]
    exact isSpelled_nameOf hname hname
  have he : FromPlans [renamedType] (entry "x") := hentry rfl (by decide +kernel)
  have hf : FromPlans [renamedType] (entry "c") := hentry rfl (by decide +kernel)
  have hmerge := he.merge hf rfl
  refine ⟨hexisting, entry "x", entry "c", he, hf, hmerge, by decide +kernel, ?_⟩
  exact (isImports_render_iff hexisting hmerge).2
    ⟨by decide +kernel, fun hjoins => absurd hjoins.1 (by decide +kernel)⟩

/-- An import of a type as a default. -/
def typeReact : ExistingImport :=
  { start := 0, stop := 31, specifier := "react", quote := "'", typeOnly := true
    defaultName := some "React" }

/-- A request for a type of the same module. -/
def cssRequest : ImportRequest :=
  { specifier := "react", imported := "CSSProperties", kind := .named
    localName := "CSSProperties" }

/-- Names are put beside the default of an import of types, which makes it no statement. -/
theorem not_isImports_typeReact :
    (ofPlan [typeReact] { requests := [cssRequest] }).map render =
        ["import type React, \x7b CSSProperties \x7d from 'react';"] ∧
      ¬∀ (existing : List ExistingImport) (plan : ImportPlan),
        ExistingImport.AreGrammatical existing →
        (∀ r ∈ plan.requests, r.IsSpelled ∧ IsBinding r.localName) →
        ∀ e ∈ ofPlan existing plan, IsImports e.render := by
  refine ⟨by decide +kernel, fun hall => ?_⟩
  have hexisting : ExistingImport.AreGrammatical [typeReact] := by
    refine areGrammatical_singleton ⟨⟨'\'', by decide, rfl, by decide⟩, ?_, nofun, nofun, nofun, ?_⟩
    · rintro d ⟨⟩
      decide +kernel
    · exact fun _ _ => ⟨rfl, rfl⟩
  have hplan : ∀ r ∈ [cssRequest], r.IsSpelled ∧ IsBinding r.localName := by
    intro r hr
    rw [List.mem_singleton.1 hr]
    exact ⟨⟨.word (by decide +kernel), .word (by decide +kernel), by decide +kernel⟩,
      by decide +kernel⟩
  let entry := (initial [typeReact] (some typeReact) cssRequest).addRequest cssRequest
  have hmem : entry ∈ ofPlan [typeReact] { requests := [cssRequest] } := by decide +kernel
  have hentry : FromPlans [typeReact] entry := .entry (fun r hr => (hplan r hr).1) hmem
  obtain ⟨host, hhost, hspelled, hnames⟩ := hentry.exists_isSpelled hexisting
  have himports := hall _ _ hexisting hplan entry hmem
  have hjoins := ((hspelled.isImports_iff hexisting hhost hnames).1 himports).2
  exact hjoins ⟨by decide +kernel, .inl (by decide +kernel), .inr (by decide +kernel)⟩

end ImportEntry

end StableProps
