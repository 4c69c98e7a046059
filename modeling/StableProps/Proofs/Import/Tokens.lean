import StableProps.Proofs.Syntax.Reading
import StableProps.Scope.Binding
import StableProps.Text.Split

/-!
# Import statements

The grammar of import statements, by the tokens of a line. A line is read into words, texts in
quotes and punctuation. A statement names what it imports in a clause: a default, a namespace or
names in braces, or a default with one of the others. An import of types takes only one of them.
-/

namespace StableProps.ImportText

/-! ## Tokens -/

/-- A token of an import statement. -/
inductive Token where
  | word (name : String)
  | quoted (content : String)
  | mark (c : Char)
  deriving DecidableEq, Repr

/-- What the reading of a line is inside of. -/
inductive Mode where
  | gap
  | word (name : List Char)
  | quoted (quote : Char) (content : List Char)
  | escape (quote : Char) (content : List Char)
  deriving DecidableEq

/-- The punctuation of import statements. -/
def marks : List Char := ['\x7b', '\x7d', ',', '*', ';']

/-- The quotes around texts. -/
def quotes : List Char := ['"', '\'']

/-- What holds of all punctuation holds of each of the five marks. -/
private theorem forall_mem_marks {P : Char → Prop} :
    (∀ c ∈ marks, P c) ↔ P '\x7b' ∧ P '\x7d' ∧ P ',' ∧ P '*' ∧ P ';' := by
  simp [marks]

private theorem forall_mem_quotes {P : Char → Prop} : (∀ q ∈ quotes, P q) ↔ P '"' ∧ P '\'' := by
  simp [quotes]

/-- What a character between tokens is or starts. -/
def opening (c : Char) : Option (List Token × Mode) :=
  if Reader.isNameStart c then some ([], .word [c])
  else if quotes.contains c then some ([], .quoted c [])
  else if marks.contains c then some ([.mark c], .gap)
  else if Reader.isBlank c && !Reader.isLineBreak c then some ([], .gap)
  else none

/-- The tokens that end with a character, and what is read behind it. -/
def Mode.step : Mode → Char → Option (List Token × Mode)
  | .gap, c => opening c
  | .word name, c =>
    if Reader.isNamePart c then some ([], .word (name ++ [c]))
    else (opening c).map fun (ts, m) => (.word (String.ofList name) :: ts, m)
  | .quoted quote content, c =>
    if Reader.isLineBreak c then none
    else if c = quote then some ([.quoted (String.ofList content)], .gap)
    else if c = '\\' then some ([], .escape quote (content ++ [c]))
    else some ([], .quoted quote (content ++ [c]))
  | .escape quote content, c =>
    if Reader.isLineBreak c then none else some ([], .quoted quote (content ++ [c]))

/-- The tokens that end with the line. -/
def Mode.finish : Mode → Option (List Token)
  | .gap => some []
  | .word name => some [.word (String.ofList name)]
  | _ => none

/-- The tokens of the characters of a line. -/
def read : Mode → List Char → Option (List Token)
  | m, [] => m.finish
  | m, c :: cs => (m.step c).bind fun (ts, m) => (read m cs).map (ts ++ ·)

/-- The tokens of a line. -/
def tokens (line : String) : Option (List Token) := read .gap line.toList

/-! ## Statements -/

/-- Words that name nothing in a module. -/
def reserved : List String :=
  Reader.reservedWords ++ ["await", "implements", "interface", "let", "package", "private",
    "protected", "public", "static", "yield"]

/-- A name that a module can bind. -/
def IsBinding (name : String) : Prop := Reader.isWord name.toList = true ∧ name ∉ reserved

instance (name : String) : Decidable (IsBinding name) := inferInstanceAs (Decidable (_ ∧ _))

/-- A name that a module can export: any word, or a text in quotes. -/
def Token.IsName : Token → Prop
  | .word _ => True
  | .quoted _ => True
  | .mark _ => False

/-- A name in braces, maybe renamed. -/
inductive PlainName : List Token → Prop where
  | same {name : String} (h : IsBinding name) : PlainName [.word name]
  | renamed {t : Token} {name : String} (ht : t.IsName) (h : IsBinding name) :
      PlainName [t, .word "as", .word name]

/-- A name in braces. Where not all names are types, one can be marked as a type. -/
inductive BracedName : Bool → List Token → Prop where
  | plain {typeOnly : Bool} {ts : List Token} (h : PlainName ts) : BracedName typeOnly ts
  | typed {ts : List Token} (h : PlainName ts) : BracedName false (.word "type" :: ts)

/-- Names in braces. -/
def inBraces (names : List (List Token)) : List Token :=
  .mark '\x7b' :: [Token.mark ','].intercalate names ++ [.mark '\x7d']

/-- All names of a module under one. -/
def starAs (name : Token) : List Token := [.mark '*', .word "as", name]

/-- The clause of an import. An import of types has a default, a namespace or names in braces, but
no two of them. -/
inductive Clause : Bool → List Token → Prop where
  | default {typeOnly : Bool} {d : String} (h : IsBinding d) : Clause typeOnly [.word d]
  | star {typeOnly : Bool} {s : String} (h : IsBinding s) : Clause typeOnly (starAs (.word s))
  | names {typeOnly : Bool} {names : List (List Token)} (h : ∀ n ∈ names, BracedName typeOnly n) :
      Clause typeOnly (inBraces names)
  | defaultStar {d s : String} (hd : IsBinding d) (hs : IsBinding s) :
      Clause false (.word d :: .mark ',' :: starAs (.word s))
  | defaultNames {d : String} {names : List (List Token)} (hd : IsBinding d)
      (h : ∀ n ∈ names, BracedName false n) :
      Clause false (.word d :: .mark ',' :: inBraces names)

/-- The end of a statement. -/
def ending (semicolon : Bool) : List Token := if semicolon then [.mark ';'] else []

/-- An import statement. -/
inductive Statement : List Token → Prop where
  | bare (source : String) (semicolon : Bool) :
      Statement (.word "import" :: .quoted source :: ending semicolon)
  | named {clause : List Token} (h : Clause false clause) (source : String) (semicolon : Bool) :
      Statement (.word "import" :: clause ++ .word "from" :: .quoted source :: ending semicolon)
  | typed {clause : List Token} (h : Clause true clause) (source : String) (semicolon : Bool) :
      Statement (.word "import" :: .word "type" :: clause ++
        .word "from" :: .quoted source :: ending semicolon)

/-- A line that is an import statement. -/
def IsStatement (line : String) : Prop := ∃ ts, tokens line = some ts ∧ Statement ts

/-- A text of import statements, each on a line of its own. -/
def IsImports (text : String) : Prop := ∀ line ∈ Text.split '\n' text, IsStatement line

/-! ## Reading -/

private theorem read_of_step {m m' : Mode} {c : Char} {ts : List Token}
    (h : m.step c = some (ts, m'))
    (cs : List Char) : read m (c :: cs) = (read m' cs).map (ts ++ ·) := by
  rw [read, h, Option.bind_some]

/-- A character that ends no token. -/
theorem read_of_step_nil {m m' : Mode} {c : Char} (h : m.step c = some ([], m'))
    (cs : List Char) : read m (c :: cs) = read m' cs := by
  rw [read_of_step h]
  exact Option.map_id'

/-- A line that is read has no line break. -/
theorem newline_not_mem_of_read {m : Mode} {cs : List Char} {ts : List Token}
    (h : read m cs = some ts) : '\n' ∉ cs := by
  induction cs generalizing m ts with
  | nil => exact List.not_mem_nil
  | cons c cs ih =>
    rw [read] at h
    obtain ⟨x, hstep, h⟩ := Option.bind_eq_some_iff.1 h
    obtain ⟨rest, hrest, -⟩ := Option.map_eq_some_iff.1 h
    rw [List.mem_cons, not_or]
    refine ⟨?_, ih hrest⟩
    rintro rfl
    cases m <;> cases hstep

/-- A line with tokens has no line break in it. -/
theorem newline_not_mem_of_tokens {line : String} {ts : List Token} (h : tokens line = some ts) :
    '\n' ∉ line.toList := newline_not_mem_of_read h

/-- What can follow a word: nothing, or a character that is no part of it. -/
def EndsWord (k : List Char) : Prop := ∀ c ∈ k.head?, Reader.isNamePart c = false

/-- Characters that are read as tokens, whatever stands behind them. -/
def Spells (cs : List Char) (ts : List Token) : Prop :=
  ∀ k, EndsWord k → read .gap (cs ++ k) = (read .gap k).map (ts ++ ·)

/-- What is spelled by a whole line are its tokens. -/
theorem Spells.tokens {s : String} {ts : List Token} (h : Spells s.toList ts) :
    tokens s = some ts := by
  have hread := h [] nofun
  rw [List.append_nil] at hread
  rw [ImportText.tokens, hread]
  exact congrArg some (List.append_nil ts)

/-- A word is read up to a character that is no part of it. -/
private theorem read_word {name w k : List Char} (hw : ∀ c ∈ w, Reader.isNamePart c = true)
    (hk : EndsWord k) :
    read (.word name) (w ++ k) = (read .gap k).map (.word (String.ofList (name ++ w)) :: ·) := by
  induction w generalizing name with
  | nil =>
    rw [List.append_nil, List.nil_append]
    cases k with
    | nil => rfl
    | cons c k =>
      have hc := hk c rfl
      rw [read, read, Mode.step, Mode.step, hc]
      cases opening c with
      | none => rfl
      | some x => cases hrest : read x.2 k <;> simp [hrest]
  | cons c w ih =>
    have hstep : Mode.step (.word name) c = some ([], .word (name ++ [c])) := by
      rw [Mode.step, hw c List.mem_cons_self]
      rfl
    rw [List.cons_append, read_of_step_nil hstep,
      ih fun d hd => hw d (List.mem_cons_of_mem _ hd), List.append_assoc, List.singleton_append]

/-- A word spells itself. -/
private theorem spells_word {w : List Char} (h : Reader.isWord w = true) :
    Spells w [.word (String.ofList w)] := by
  intro k hk
  cases w with
  | nil => cases h
  | cons c w =>
    rw [Reader.isWord, Bool.and_eq_true, List.all_eq_true] at h
    have hopening : Mode.step .gap c = some ([], .word [c]) := by
      have hstart : Reader.isNameStart c = true := h.1
      rw [Mode.step, opening, if_pos hstart]
    rw [List.cons_append, read_of_step_nil hopening,
      read_word (fun d hd => h.2 d (List.mem_cons_of_mem _ hd)) hk]
    rfl

/-- A text that is a word spells itself. -/
theorem spells_text {w : String} (h : Reader.isWord w.toList = true) :
    Spells w.toList [.word w] := by
  have hspells := spells_word h
  rwa [String.ofList_toList] at hspells

/-- Characters that can stand between quotes. -/
def isContent (quote : Char) : List Char → Bool
  | [] => true
  | '\\' :: c :: cs => !Reader.isLineBreak c && isContent quote cs
  | c :: cs => c != quote && c != '\\' && !Reader.isLineBreak c && isContent quote cs

/-- A character between quotes is part of the text. -/
private theorem step_quoted {quote c : Char} {content : List Char} (hc : c ≠ quote)
    (hbackslash : c ≠ '\\') (hbreak : Reader.isLineBreak c = false) :
    Mode.step (.quoted quote content) c = some ([], .quoted quote (content ++ [c])) := by
  rw [Mode.step, hbreak, if_neg Bool.false_ne_true, if_neg hc, if_neg hbackslash]

/-- A text is read up to the quote that ends it. -/
private theorem read_quoted {quote : Char} (hquote : quote ∈ quotes) {content cs : List Char}
    (h : isContent quote cs = true) (k : List Char) :
    read (.quoted quote content) (cs ++ quote :: k) =
      (read .gap k).map (.quoted (String.ofList (content ++ cs)) :: ·) := by
  fun_induction isContent quote cs generalizing content with
  | case1 =>
    have hend : Mode.step (.quoted quote content) quote =
        some ([.quoted (String.ofList content)], .gap) := by
      have hbreak : ∀ q ∈ quotes, Reader.isLineBreak q = false := forall_mem_quotes.2 (by decide)
      rw [Mode.step, hbreak quote hquote, if_neg Bool.false_ne_true, if_pos rfl]
    rw [List.nil_append, read_of_step hend, List.append_nil]
    rfl
  | case2 c cs ih =>
    rw [Bool.and_eq_true, Bool.not_eq_true'] at h
    have hbackslash : Mode.step (.quoted quote content) '\\' =
        some ([], .escape quote (content ++ ['\\'])) := by
      have hne : ∀ q ∈ quotes, '\\' ≠ q := forall_mem_quotes.2 (by decide)
      rw [Mode.step, if_neg (by decide), if_neg (hne quote hquote), if_pos rfl]
    have hescaped : Mode.step (.escape quote (content ++ ['\\'])) c =
        some ([], .quoted quote (content ++ ['\\'] ++ [c])) := by
      rw [Mode.step, h.1, if_neg Bool.false_ne_true]
    rw [List.cons_append, List.cons_append, read_of_step_nil hbackslash,
      read_of_step_nil hescaped, ih h.2, List.append_assoc, List.append_assoc]
    rfl
  | case3 c cs _ ih =>
    simp only [Bool.and_eq_true, bne_iff_ne, Bool.not_eq_true'] at h
    obtain ⟨⟨⟨hc, hbackslash⟩, hbreak⟩, hcs⟩ := h
    rw [List.cons_append, read_of_step_nil (step_quoted hc hbackslash hbreak), ih hcs,
      List.append_assoc, List.singleton_append]

/-- A text between quotes spells itself. -/
theorem spells_quoted {quote : Char} (hquote : quote ∈ quotes) {content : List Char}
    (h : isContent quote content = true) :
    Spells (quote :: content ++ [quote]) [.quoted (String.ofList content)] := by
  intro k _
  have hopening : ∀ q ∈ quotes, Mode.step .gap q = some ([], .quoted q []) :=
    forall_mem_quotes.2 (by decide)
  rw [List.cons_append, List.cons_append, List.append_assoc, List.singleton_append,
    read_of_step_nil (hopening quote hquote), read_quoted hquote h]
  rfl

/-- Punctuation spells itself. -/
theorem spells_mark {c : Char} (h : c ∈ marks) : Spells [c] [.mark c] := by
  intro k _
  have hopening : ∀ c ∈ marks, Mode.step .gap c = some ([.mark c], .gap) :=
    forall_mem_marks.2 (by decide)
  exact read_of_step (hopening c h) k

/-- Tokens with a blank between them. -/
theorem Spells.space {cs cs' : List Char} {ts ts' : List Token} (h : Spells cs ts)
    (h' : Spells cs' ts') : Spells (cs ++ ' ' :: cs') (ts ++ ts') := by
  intro k hk
  have hblank : Mode.step .gap ' ' = some ([], .gap) := by decide
  rw [List.append_assoc, List.cons_append, h _ (by rintro c ⟨⟩; decide), read_of_step_nil hblank,
    h' k hk, Option.map_map]
  exact congrArg (Option.map · _) (funext fun rest => (List.append_assoc ts ts' rest).symm)

/-- Tokens with punctuation behind them. -/
theorem Spells.mark {cs : List Char} {ts : List Token} {c : Char} (h : Spells cs ts)
    (hc : c ∈ marks) : Spells (cs ++ [c]) (ts ++ [.mark c]) := by
  intro k hk
  have hends : ∀ c ∈ marks, Reader.isNamePart c = false := forall_mem_marks.2 (by decide)
  rw [List.append_assoc, h _ (by rintro d ⟨⟩; exact hends c hc), spells_mark hc k hk,
    Option.map_map]
  exact congrArg (Option.map · _) (funext fun rest => (List.append_assoc ts [.mark c] rest).symm)

/-- Tokens with a comma between them. -/
theorem Spells.comma {cs cs' : List Char} {ts ts' : List Token} (h : Spells cs ts)
    (h' : Spells cs' ts') : Spells (cs ++ ',' :: ' ' :: cs') (ts ++ .mark ',' :: ts') := by
  have hspells := (h.mark (c := ',') (by decide)).space h'
  rwa [List.append_assoc, List.append_assoc] at hspells

/-- Tokens in a list with commas. -/
theorem spells_intercalate {names : List (List Char × List Token)} (hne : names ≠ [])
    (h : ∀ n ∈ names, Spells n.1 n.2) :
    Spells ([',', ' '].intercalate (names.map (·.1)))
      ([.mark ','].intercalate (names.map (·.2))) := by
  induction names with
  | nil => exact absurd rfl hne
  | cons n names ih =>
    cases names with
    | nil => simpa using h n List.mem_cons_self
    | cons m names =>
      have hrest := ih (List.cons_ne_nil m names) fun k hk => h k (List.mem_cons_of_mem _ hk)
      simp only [List.map_cons, List.intercalate_cons_cons, List.append_assoc] at hrest ⊢
      exact (h n List.mem_cons_self).comma hrest

/-! ## Names -/

/-- The token of a name. -/
def Token.ofName (name : String) : Token :=
  if Reader.isWord name.toList then .word name else .quoted (unquoted name)

/-- A name as modules export it: a word, or a text in quotes. -/
inductive IsExportName : String → Prop where
  | word {name : String} (h : Reader.isWord name.toList = true) : IsExportName name
  | quoted {quote : Char} (hquote : quote ∈ quotes) {content : List Char}
      (h : isContent quote content = true) :
      IsExportName (String.ofList (quote :: content ++ [quote]))

/-- What can be bound can be exported. -/
theorem IsBinding.isExportName {name : String} (h : IsBinding name) : IsExportName name :=
  .word h.1

/-- An export has a name. -/
theorem IsExportName.ne_empty {name : String} (h : IsExportName name) : name ≠ "" := by
  rintro rfl
  generalize hname : "" = name at h
  cases h with
  | word h =>
    rw [← hname] at h
    cases h
  | quoted => simpa using congrArg String.toList hname

/-- The name of an export spells one token. -/
theorem IsExportName.spells {name : String} (h : IsExportName name) :
    Spells name.toList [.ofName name] := by
  cases h with
  | word h =>
    rw [Token.ofName, if_pos h]
    exact spells_text h
  | @quoted quote hquote content h =>
    have hword : Reader.isWord (quote :: content ++ [quote]) = false := by
      have hstart : ∀ q ∈ quotes, Reader.isNameStart q = false := forall_mem_quotes.2 (by decide)
      rw [List.cons_append, Reader.isWord, List.head?_cons, Option.any_some, hstart quote hquote,
        Bool.false_and]
    have hunquoted : unquoted (String.ofList (quote :: content ++ [quote])) =
        String.ofList content := by
      rw [unquoted, String.toList_ofList]
      simp
    rw [Token.ofName, String.toList_ofList, hword, if_neg Bool.false_ne_true, hunquoted]
    exact spells_quoted hquote h

theorem isName_ofName (name : String) : (Token.ofName name).IsName := by
  rw [Token.ofName]
  split <;> exact trivial

/-- A token is a name that is bound exactly if its text is. -/
theorem ofName_eq_word_iff {name binding : String} (h : IsBinding binding) :
    Token.ofName name = .word binding ↔ name = binding := by
  rw [Token.ofName]
  constructor
  · intro heq
    split at heq
    · exact Token.word.inj heq
    · cases heq
  · rintro rfl
    exact if_pos h.1

/-! ## Clauses -/

/-- A token that a module can bind. -/
def Token.IsBinding (t : Token) : Prop := ∃ name, t = .word name ∧ ImportText.IsBinding name

/-- The token of a name can be bound exactly if the name can. -/
theorem isBinding_ofName_iff {name : String} :
    (Token.ofName name).IsBinding ↔ IsBinding name := by
  constructor
  · rintro ⟨binding, heq, hbinding⟩
    exact (ofName_eq_word_iff hbinding).1 heq ▸ hbinding
  · intro h
    exact ⟨name, (ofName_eq_word_iff h).2 rfl, h⟩

/-- Tokens of a name in braces, which a comma can end. -/
def IsPart (n : List Token) : Prop := n ≠ [] ∧ .mark ',' ∉ n

/-- A name in braces has tokens, none of them a comma. -/
private theorem PlainName.isPart {n : List Token} (h : PlainName n) : IsPart n := by
  cases h with
  | same => exact ⟨List.cons_ne_nil _ _, by simp⟩
  | @renamed t _ ht =>
    refine ⟨List.cons_ne_nil _ _, ?_⟩
    cases t with
    | mark => cases ht
    | word => simp
    | quoted => simp

/-- So has one that may be marked as a type. -/
private theorem BracedName.isPart {typeOnly : Bool} {n : List Token} (h : BracedName typeOnly n) :
    IsPart n := by
  cases h with
  | plain h => exact h.isPart
  | typed h => exact ⟨List.cons_ne_nil _ _, by simpa using h.isPart.2⟩

/-- What stands in braces is told by its tokens. -/
theorem inBraces_inj {ns ms : List (List Token)} (hns : ∀ n ∈ ns, IsPart n)
    (hms : ∀ m ∈ ms, IsPart m) (h : inBraces ns = inBraces ms) : ns = ms := by
  have hinner : [Token.mark ','].intercalate ns = [Token.mark ','].intercalate ms :=
    (List.append_inj' (List.cons.inj h).2 rfl).1
  have hnil {l : List (List Token)} (hl : ∀ n ∈ l, IsPart n)
      (hempty : [Token.mark ','].intercalate l = []) : l = [] := by
    cases l with
    | nil => rfl
    | cons n l =>
      have hn := (hl n List.mem_cons_self).1
      cases l with
      | nil => exact absurd (by simpa using hempty) hn
      | cons m l =>
        rw [List.intercalate_cons_cons, List.append_assoc, List.append_eq_nil_iff] at hempty
        exact absurd hempty.1 hn
  by_cases hempty : [Token.mark ','].intercalate ns = []
  · rw [hnil hns hempty, hnil hms (hinner ▸ hempty)]
  · have hne {l : List (List Token)} (hl : [Token.mark ','].intercalate l ≠ []) : l ≠ [] := by
      rintro rfl
      exact hl rfl
    rw [← List.splitOn_intercalate (.mark ',') (fun n hn => (hns n hn).2) (hne hempty), hinner,
      List.splitOn_intercalate (.mark ',') (fun m hm => (hms m hm).2) (hne (hinner ▸ hempty))]

variable {typeOnly : Bool} {t u : Token} {names : List (List Token)}

/-- A name alone is a clause exactly if it can be bound. -/
theorem clause_name_iff : Clause typeOnly [t] ↔ t.IsBinding := by
  constructor
  · generalize hc : [t] = c
    intro h
    cases h with
    | default h => exact ⟨_, (List.cons.inj hc).1, h⟩
    | star => cases hc
    | names => simp [inBraces] at hc
    | defaultStar => cases hc
    | defaultNames => cases hc
  · rintro ⟨d, rfl, h⟩
    exact .default h

/-- A namespace alone is a clause exactly if its name can be bound. -/
theorem clause_star_iff : Clause typeOnly (starAs t) ↔ t.IsBinding := by
  constructor
  · generalize hc : starAs t = c
    intro h
    cases h with
    | default => cases hc
    | star h =>
      refine ⟨_, ?_, h⟩
      simpa [starAs] using hc
    | names => simp [starAs, inBraces] at hc
    | defaultStar => cases hc
    | defaultNames => cases hc
  · rintro ⟨s, rfl, h⟩
    exact .star h

/-- Names in braces are a clause exactly if each of them can stand in braces. -/
theorem clause_names_iff (hnames : ∀ n ∈ names, IsPart n) :
    Clause typeOnly (inBraces names) ↔ ∀ n ∈ names, BracedName typeOnly n := by
  constructor
  · generalize hc : inBraces names = c
    intro h
    cases h with
    | default => simp [inBraces] at hc
    | star => simp [starAs, inBraces] at hc
    | names h =>
      obtain rfl := inBraces_inj hnames (fun n hn => (h n hn).isPart) hc
      exact h
    | defaultStar => simp [inBraces] at hc
    | defaultNames => simp [inBraces] at hc
  · exact .names

/-- A default with a namespace is a clause exactly if both can be bound and not only types are
imported. -/
theorem clause_nameStar_iff (ht : t.IsName) : Clause typeOnly (t :: .mark ',' :: starAs u) ↔
    typeOnly = false ∧ t.IsBinding ∧ u.IsBinding := by
  constructor
  · generalize hc : t :: .mark ',' :: starAs u = c
    intro h
    cases h with
    | default => cases hc
    | star => simp [starAs] at hc
    | names =>
      obtain rfl := (List.cons.inj hc).1
      cases ht
    | defaultStar hd hs =>
      simp only [starAs, List.cons.injEq, and_true, true_and] at hc
      exact ⟨rfl, ⟨_, hc.1, hd⟩, _, hc.2, hs⟩
    | defaultNames => simp [starAs, inBraces] at hc
  · rintro ⟨rfl, ⟨d, rfl, hd⟩, s, rfl, hs⟩
    exact .defaultStar hd hs

/-- A default with names in braces is a clause exactly if all fit and not only types are imported.
-/
theorem clause_nameNames_iff (ht : t.IsName) (hnames : ∀ n ∈ names, IsPart n) :
    Clause typeOnly (t :: .mark ',' :: inBraces names) ↔
      typeOnly = false ∧ t.IsBinding ∧ ∀ n ∈ names, BracedName false n := by
  constructor
  · generalize hc : t :: .mark ',' :: inBraces names = c
    intro h
    cases h with
    | default => cases hc
    | star => simp [starAs, inBraces] at hc
    | names =>
      obtain rfl := (List.cons.inj hc).1
      cases ht
    | defaultStar => simp [starAs, inBraces] at hc
    | defaultNames hd h =>
      obtain ⟨rfl, hrest⟩ := List.cons.inj hc
      obtain rfl := inBraces_inj hnames (fun n hn => (h n hn).isPart) (List.cons.inj hrest).2
      exact ⟨rfl, ⟨_, rfl, hd⟩, h⟩
  · rintro ⟨rfl, ⟨d, rfl, hd⟩, h⟩
    exact .defaultNames hd h

/-! ## Names in braces -/

/-- A name can stand in braces as it is exactly if it can be bound. -/
theorem plainName_same_iff : PlainName [t] ↔ t.IsBinding := by
  constructor
  · generalize hn : [t] = n
    intro h
    cases h with
    | same h => exact ⟨_, (List.cons.inj hn).1, h⟩
    | renamed => cases hn
  · rintro ⟨name, rfl, h⟩
    exact .same h

/-- A name can stand in braces renamed exactly if the new name can be bound. -/
theorem plainName_renamed_iff (ht : t.IsName) : PlainName [t, .word "as", u] ↔ u.IsBinding := by
  constructor
  · generalize hn : [t, .word "as", u] = n
    intro h
    cases h with
    | same => cases hn
    | renamed _ h =>
      simp only [List.cons.injEq, and_true, true_and] at hn
      exact ⟨_, hn.2, h⟩
  · rintro ⟨name, rfl, h⟩
    exact .renamed ht h

/-- A name in braces is one token, or three if it is renamed. -/
theorem PlainName.length {n : List Token} (h : PlainName n) : n.length = 1 ∨ n.length = 3 := by
  cases h with
  | same => exact .inl rfl
  | renamed => exact .inr rfl

/-- Without a mark for types only a name is left. -/
theorem bracedName_iff {n : List Token}
    (hplain : ∀ rest, n = .word "type" :: rest → ¬PlainName rest) :
    BracedName typeOnly n ↔ PlainName n := by
  constructor
  · intro h
    cases h with
    | plain h => exact h
    | typed h => exact absurd h (hplain _ rfl)
  · exact .plain

/-- The word `type` in front marks a name, unless the two can be read as a renamed name. -/
theorem bracedName_typed_iff {n : List Token} (hplain : ¬PlainName (.word "type" :: n)) :
    BracedName false (.word "type" :: n) ↔ PlainName n := by
  constructor
  · intro h
    cases h with
    | plain h => exact absurd h hplain
    | typed h => exact h
  · exact .typed

/-! ## Statements with a clause -/

/-- A clause behind the mark for types, if there is one. -/
def marked (typeOnly : Bool) (clause : List Token) : List Token :=
  if typeOnly then .word "type" :: clause else clause

/-- The tokens of a statement with a clause. -/
def statementTokens (typeOnly : Bool) (clause : List Token) (source : String) (semicolon : Bool) :
    List Token :=
  .word "import" :: marked typeOnly clause ++ .word "from" :: .quoted source :: ending semicolon

/-- Tokens that can be a clause and can not be taken for the mark of types with a clause behind
it. -/
structure IsHead (clause : List Token) : Prop where
  nonempty : clause ≠ []
  noComma : clause.head? ≠ some (.mark ',')
  noMark : ∀ rest, clause = .word "type" :: rest → rest = [] ∨ rest.head? = some (.mark ',')

private theorem Clause.ne_nil {clause : List Token} (h : Clause typeOnly clause) : clause ≠ [] := by
  cases h <;> simp [starAs, inBraces]

/-- A clause does not start with a comma. -/
theorem Clause.head?_ne {clause : List Token} (h : Clause typeOnly clause) :
    clause.head? ≠ some (.mark ',') := by
  cases h <;> simp [starAs, inBraces]

/-- The clause of a statement is all that stands in front of its source. -/
private theorem ending_inj {c c' : List Token} {source source' : String}
    {semicolon semicolon' : Bool} (h : c ++ .word "from" :: .quoted source :: ending semicolon =
      c' ++ .word "from" :: .quoted source' :: ending semicolon') : c = c' := by
  cases semicolon <;> cases semicolon' <;> simp only [ending] at h
  · exact (List.append_inj' h rfl).1
  · have hlast := congrArg List.getLast? h
    simp at hlast
  · have hlast := congrArg List.getLast? h
    simp at hlast
  · exact (List.append_inj' h rfl).1

/-- Nothing but a default could be named by the mark of types, and no clause goes on like that. -/
theorem IsHead.not_clause_word {clause : List Token} (hhead : IsHead clause) :
    ¬Clause false (.word "type" :: clause) := by
  generalize hc : Token.word "type" :: clause = c
  intro h
  cases h with
  | default => exact hhead.nonempty (List.cons.inj hc).2
  | star => cases hc
  | names => cases hc
  | defaultStar => exact hhead.noComma (congrArg List.head? (List.cons.inj hc).2)
  | defaultNames => exact hhead.noComma (congrArg List.head? (List.cons.inj hc).2)

/-- A statement with a clause is longer than one without. -/
theorem IsHead.statementTokens_ne {clause : List Token} (hhead : IsHead clause)
    (source source' : String) (semicolon semicolon' : Bool) :
    statementTokens typeOnly clause source semicolon ≠
      .word "import" :: .quoted source' :: ending semicolon' := by
  intro heq
  have hlength := congrArg List.length heq
  have hclause := List.length_pos_iff.2 hhead.nonempty
  have hmarked : clause.length ≤ (marked typeOnly clause).length := by
    rw [marked]
    split <;> simp
  have hending : (ending semicolon').length ≤ 1 := by cases semicolon' <;> simp [ending]
  simp only [statementTokens, List.length_append, List.length_cons] at hlength
  omega

/-- A statement is grammatical exactly if its clause is. -/
theorem statement_iff {clause : List Token} (hhead : IsHead clause) (source : String)
    (semicolon : Bool) :
    Statement (statementTokens typeOnly clause source semicolon) ↔ Clause typeOnly clause := by
  constructor
  · generalize hs : statementTokens typeOnly clause source semicolon = s
    intro h
    cases h with
    | bare source' semicolon' =>
      exact absurd hs (hhead.statementTokens_ne source source' semicolon semicolon')
    | @named c h =>
      obtain rfl : marked typeOnly clause = c := ending_inj (List.cons.inj hs).2
      cases typeOnly with
      | false => exact h
      | true => exact absurd h hhead.not_clause_word
    | @typed c h =>
      have hclause : marked typeOnly clause = .word "type" :: c := ending_inj (List.cons.inj hs).2
      cases typeOnly with
      | false =>
        rcases hhead.noMark c hclause with hnil | hcomma
        · exact absurd hnil h.ne_nil
        · exact absurd hcomma h.head?_ne
      | true =>
        obtain rfl := (List.cons.inj hclause).2
        exact h
  · intro h
    cases typeOnly with
    | false => exact .named h source semicolon
    | true => exact .typed h source semicolon

/-- A name alone can be a clause. -/
theorem isHead_name (ht : t.IsName) : IsHead [t] where
  nonempty := List.cons_ne_nil _ _
  noComma := by
    rintro ⟨⟩
    cases ht
  noMark rest h := .inl (List.cons.inj h).2.symm

/-- What starts with punctuation other than a comma can be a clause. -/
theorem isHead_mark {c : Char} (hc : c ≠ ',') (rest : List Token) : IsHead (.mark c :: rest) where
  nonempty := List.cons_ne_nil _ _
  noComma h := hc (Token.mark.inj (Option.some.inj h))
  noMark _ h := by cases h

/-- What starts with a name and a comma can be a clause. -/
theorem isHead_nameComma (ht : t.IsName) (rest : List Token) :
    IsHead (t :: .mark ',' :: rest) where
  nonempty := List.cons_ne_nil _ _
  noComma := by
    rintro ⟨⟩
    cases ht
  noMark _ h := .inr (congrArg List.head? (List.cons.inj h).2).symm

end StableProps.ImportText
