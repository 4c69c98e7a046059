import Mathlib
import StableProps.Proofs.Site.Place
import StableProps.Proofs.Syntax.Reading
import StableProps.Site.Name

/-!
# Names that are identifiers

A new name is put together from the name of an element and the parts of an attribute that can stand
in names, with letters that change their case and a number behind. Letters stay letters when their
case changes, and a number behind a name keeps it a name. So whether the new name is an identifier
is decided by what the element goes by: a tag may hold marks, and a class may start with a digit.
-/

namespace StableProps

/-- A text that can stand for a variable: it is not empty, does not start with a digit, and is made
of characters that names go on with. -/
structure IsIdentifier (s : String) : Prop where
  nonempty : s ≠ ""
  first : ∀ c, s.toList.head? = some c → c.isDigit = false
  parts : ∀ c ∈ s.toList, Reader.isNamePart c = true

/-- An identifier is a word of name characters. -/
private theorem isIdentifier_iff {s : String} : IsIdentifier s ↔ Reader.isWord s.toList = true := by
  constructor
  · rintro ⟨hnonempty, hfirst, hparts⟩
    rw [Reader.isWord, Bool.and_eq_true, List.all_eq_true]
    refine ⟨?_, hparts⟩
    cases hs : s.toList with
    | nil => exact absurd (String.toList_eq_nil_iff.1 hs) hnonempty
    | cons c cs =>
      have hpart := hparts c (by simp [hs])
      have hdigit := hfirst c (by simp [hs])
      rw [Reader.isNamePart] at hpart
      simp [Reader.isNameStart, hpart, hdigit]
  · intro h
    rw [Reader.isWord, Bool.and_eq_true, List.all_eq_true] at h
    obtain ⟨hstart, hparts⟩ := h
    refine ⟨?_, ?_, hparts⟩
    · rintro rfl
      simp at hstart
    · intro c hc
      rw [hc, Option.any_some, Reader.isNameStart, Bool.and_eq_true, Bool.not_eq_true',
        Bool.not_eq_true'] at hstart
      exact hstart.2

instance (s : String) : Decidable (IsIdentifier s) := decidable_of_iff _ isIdentifier_iff.symm

namespace Reader

/-! ## Characters of names -/

/-- The ranges of codes of the characters that names do not start with. -/
def nonStarts : List (Nat × Nat) :=
  [(0, 35), (37, 64), (91, 94), (96, 96), (123, 126), (0xa0, 0xa0), (0x1680, 0x1680),
   (0x2000, 0x200b), (0x2028, 0x2029), (0x202f, 0x202f), (0x205f, 0x2060), (0x3000, 0x3000),
   (0xfeff, 0xfeff)]

/-- A character that does not start a name is in one of the listed ranges. -/
private theorem exists_mem_nonStarts {c : Char} (h : isNameStart c = false) :
    ∃ r ∈ nonStarts, r.1 ≤ c.toNat ∧ c.toNat ≤ r.2 := by
  have hmarks : ∀ n ∈ ":;\"'@#.,|^&<=>+-*/\\%?!~()[]\x7b\x7d".toList.map Char.toNat,
      ∃ r ∈ nonStarts, r.1 ≤ n ∧ n ≤ r.2 := by decide +kernel
  rw [isNameStart, Bool.and_eq_false_iff, Bool.not_eq_false', Bool.not_eq_false',
    Char.isDigit_iff_toNat] at h
  simp only [isPunctuation, isBlank, Bool.or_eq_true, Bool.and_eq_true, decide_eq_true_eq,
    beq_iff_eq, List.contains_iff_mem] at h
  have hzero : '0'.toNat = 48 := rfl
  have hnine : '9'.toNat = 57 := rfl
  by_cases hmark : c ∈ ":;\"'@#.,|^&<=>+-*/\\%?!~()[]\x7b\x7d".toList
  · exact hmarks c.toNat (List.mem_map_of_mem hmark)
  · simp only [hmark, or_false] at h
    simp only [nonStarts, List.exists_mem_cons_iff, List.not_mem_nil, false_and, exists_false]
    omega

/-- A character outside of all listed ranges starts names. -/
private theorem isNameStart_of_outside {c : Char}
    (h : ∀ r ∈ nonStarts, c.toNat < r.1 ∨ r.2 < c.toNat) : isNameStart c = true := by
  rw [← Bool.not_eq_false]
  intro hnot
  obtain ⟨r, hr, hlow, hhigh⟩ := exists_mem_nonStarts hnot
  have houtside := h r hr
  omega

private theorem isNamePart_of_isNameStart {c : Char} (h : isNameStart c = true) :
    isNamePart c = true := by
  rw [isNameStart, Bool.and_eq_true] at h
  exact h.1

/-- What is kept when parts of a text are joined to a name can stand in every name. -/
theorem isNamePart_of_ascii {c : Char} (h : StableProps.isNamePart c = true) :
    isNamePart c = true := by
  have hall : ∀ n < 128, StableProps.isNamePart (Char.ofNat n) = true →
      isNamePart (Char.ofNat n) = true := by decide +kernel
  have hascii : c.toNat < 128 := by
    simp only [StableProps.isNamePart, Char.isAlphanum, Char.isAlpha, Char.isUpper, Char.isLower,
      Char.isDigit, Bool.or_eq_true, Bool.and_eq_true, decide_eq_true_eq, beq_iff_eq, ge_iff_le,
      UInt32.le_iff_toNat_le, Char.toNat_val, Char.reduceToNat] at h
    rcases h with (h | rfl) | rfl
    · omega
    · decide
    · decide
  have hpart := hall c.toNat hascii
  rw [Char.ofNat_toNat] at hpart
  exact hpart h

private theorem isNamePart_of_isDigit {c : Char} (h : c.isDigit = true) : isNamePart c = true :=
  isNamePart_of_ascii (by simp [StableProps.isNamePart, Char.isAlphanum, h])

/-- A number behind a name leaves it a name, and makes no name of anything else. -/
theorem isWord_append_digits {w ds : List Char} (hds : ∀ d ∈ ds, d.isDigit = true) :
    isWord (w ++ ds) = isWord w := by
  have hall : ds.all isNamePart = true :=
    List.all_eq_true.2 fun d hd => isNamePart_of_isDigit (hds d hd)
  cases w with
  | nil =>
    cases ds with
    | nil => rfl
    | cons d ds => simp [isWord, isNameStart, hds d List.mem_cons_self]
  | cons c w => simp [isWord, hall]

/-- Behind a name, all that can stand in names goes on with it. -/
theorem isWord_append_of_isWord {w v : List Char} (hw : isWord w = true) :
    isWord (w ++ v) = v.all isNamePart := by
  cases w with
  | nil => simp [isWord] at hw
  | cons c w =>
    rw [isWord, List.head?_cons, Bool.and_eq_true] at hw
    rw [isWord, List.all_append, hw.2, List.cons_append, List.head?_cons, hw.1]
    rfl

end Reader

namespace Text

/-! ## Letters that change their case -/

open Reader (isNameStart nonStarts)

/-- The partners of a run are characters, and names can start with all of them and all of the
run. -/
def CaseRun.IsOfLetters (r : CaseRun) : Prop :=
  0 ≤ r.first + r.shift ∧
    (r.last + r.shift < 0xd800 ∨ 0xdfff < r.first + r.shift ∧ r.last + r.shift < 0x110000) ∧
    ∀ x ∈ nonStarts, (r.last < x.1 ∨ x.2 < r.first) ∧
      (r.last + r.shift < x.1 ∨ x.2 < r.first + r.shift)

instance (r : CaseRun) : Decidable r.IsOfLetters :=
  inferInstanceAs (Decidable (_ ∧ _ ∧ ∀ x ∈ nonStarts, _))

set_option maxRecDepth 100000 in
private theorem isOfLetters_of_mem_upperRuns : ∀ r ∈ upperRuns, r.IsOfLetters := by decide +kernel

set_option maxRecDepth 100000 in
private theorem isOfLetters_of_mem_lowerRuns : ∀ r ∈ lowerRuns, r.IsOfLetters := by decide +kernel

/-- Longer upper cases belong to letters, and are such that names can start with each part. -/
theorem of_mem_longUppers : ∀ x ∈ longUppers,
    isNameStart (Char.ofNat x.1) = true ∧ ∀ n ∈ x.2, isNameStart (Char.ofNat n) = true := by
  decide +kernel

variable {runs : List CaseRun} {c : Char}

/-- Both cases of a letter start names. -/
theorem CaseRun.IsOfLetters.isNameStart {r : CaseRun} (h : r.IsOfLetters)
    (hc : r.contains c.toNat = true) :
    isNameStart c = true ∧ isNameStart (Char.ofNat (c.toNat + r.shift).toNat) = true := by
  obtain ⟨hlow, hhigh, houtside⟩ := h
  simp only [contains, Bool.and_eq_true, decide_eq_true_eq] at hc
  have hvalid : (c.toNat + r.shift).toNat.isValidChar := by
    rw [Nat.isValidChar]
    omega
  constructor
  · refine Reader.isNameStart_of_outside fun x hx => ?_
    have hrun := (houtside x hx).1
    omega
  · refine Reader.isNameStart_of_outside fun x hx => ?_
    rw [Char.toNat_ofNat, if_pos hvalid]
    have hpartners := (houtside x hx).2
    omega

/-- A character is its own partner, or both are such that names can start with them. -/
theorem shifted_eq_or (hruns : ∀ r ∈ runs, r.IsOfLetters) :
    shifted runs c = c ∨ isNameStart c = true ∧ isNameStart (shifted runs c) = true := by
  rw [shifted]
  split
  next r hr =>
    have hc := List.find?_some hr
    exact .inr ((hruns r (List.mem_of_find?_eq_some hr)).isNameStart hc)
  next => exact .inl rfl

/-- A change of case does not change whether a character is part of names. -/
private theorem isNamePart_shifted (hruns : ∀ r ∈ runs, r.IsOfLetters) :
    Reader.isNamePart (shifted runs c) = Reader.isNamePart c := by
  rcases shifted_eq_or hruns (c := c) with heq | ⟨hstart, hstart'⟩
  · rw [heq]
  · rw [Reader.isNamePart_of_isNameStart hstart, Reader.isNamePart_of_isNameStart hstart']

/-- A change of case does not change whether a character starts names. -/
private theorem isNameStart_shifted (hruns : ∀ r ∈ runs, r.IsOfLetters) :
    isNameStart (shifted runs c) = isNameStart c := by
  rcases shifted_eq_or hruns (c := c) with heq | ⟨hstart, hstart'⟩
  · rw [heq]
  · rw [hstart, hstart']

/-- The upper case of a character stands in names exactly if the character does. -/
theorem all_isNamePart_upper (c : Char) :
    (upper c).all Reader.isNamePart = Reader.isNamePart c := by
  rw [upper]
  split
  next long hlong =>
    obtain ⟨l₁, l₂, hlist, -⟩ := List.lookup_eq_some_iff.1 hlong
    obtain ⟨hstart, hparts⟩ := of_mem_longUppers (c.toNat, long) (by simp [hlist])
    rw [Char.ofNat_toNat] at hstart
    rw [Reader.isNamePart_of_isNameStart hstart, List.all_map, List.all_eq_true]
    intro n hn
    exact Reader.isNamePart_of_isNameStart (hparts n hn)
  next => simp [isNamePart_shifted isOfLetters_of_mem_upperRuns]

/-- The lower case of a character starts with one that can stand where the character stands. -/
theorem isWord_lower_append (c : Char) (cs : List Char) :
    Reader.isWord (lower c ++ cs) = Reader.isWord (c :: cs) := by
  rw [lower]
  split
  next heq =>
    have hc : c = Char.ofNat 304 := by rw [← eq_of_beq heq, Char.ofNat_toNat]
    subst hc
    rfl
  next =>
    simp [Reader.isWord, isNameStart_shifted isOfLetters_of_mem_lowerRuns,
      isNamePart_shifted isOfLetters_of_mem_lowerRuns]

private theorem all_isNamePart_upperFirst (s : String) :
    (upperFirst s).toList.all Reader.isNamePart = s.toList.all Reader.isNamePart := by
  rw [upperFirst]
  split
  next h => rw [h, String.toList_empty]
  next c cs h => simp [h, all_isNamePart_upper]

private theorem isWord_lowerFirst (s : String) :
    Reader.isWord (lowerFirst s).toList = Reader.isWord s.toList := by
  rw [lowerFirst]
  split
  next h => rw [h, String.toList_empty]
  next c cs h => rw [h, String.toList_ofList, isWord_lower_append]

end Text

/-! ## Parts of names -/

/-- Runs are made of characters that satisfy the test. -/
theorem of_mem_runs {test : Char → Bool} {cs r : List Char} (hr : r ∈ runs test cs) :
    ∀ c ∈ r, test c = true := by
  induction cs generalizing r with
  | nil => cases hr
  | cons c cs ih =>
    unfold runs at hr
    split at hr
    next hc =>
      split at hr
      next r' rs _ hrs =>
        rw [hrs] at ih
        split at hr
        · rcases List.mem_cons.1 hr with rfl | hr
          · exact List.forall_mem_cons.2 ⟨hc, ih List.mem_cons_self⟩
          · exact ih (List.mem_cons_of_mem _ hr)
        · rcases List.mem_cons.1 hr with rfl | hr
          · simpa using hc
          · exact ih hr
      next =>
        rcases List.mem_cons.1 hr with rfl | hr
        · simpa using hc
        · exact ih hr
    next => exact ih hr

/-- Joined parts can stand in names. -/
theorem all_isNamePart_pascalCase (s : String) :
    (pascalCase s).toList.all Reader.isNamePart = true := by
  rw [pascalCase, String.toList_join, List.flatMap_map, List.all_flatMap, List.all_eq_true]
  intro r hr
  rw [Text.all_isNamePart_upperFirst, String.toList_ofList, List.all_eq_true]
  exact fun c hc => Reader.isNamePart_of_ascii (of_mem_runs hr c hc)

/-! ## Numbers behind names -/

namespace FreshName

/-- A number behind a name does not change whether it is an identifier. -/
private theorem isIdentifier_candidate (base : String) (n : Nat) :
    IsIdentifier (candidate base n) ↔ IsIdentifier base := by
  cases n with
  | zero => exact Iff.rfl
  | succ n =>
    have hdigits : ∀ d ∈ (toString (n + 1)).toList, d.isDigit = true := by
      intro d hd
      rw [Nat.toString_eq_repr, Nat.toList_repr] at hd
      exact Nat.isDigit_of_mem_toDigits (by decide) (by decide) hd
    rw [isIdentifier_iff, isIdentifier_iff, candidate, String.toList_append,
      Reader.isWord_append_digits hdigits]

/-- The first free name is one of the candidates. -/
private theorem exists_candidate_eq_firstFree (taken : List String) (base : String) (fuel n : Nat) :
    ∃ k, firstFree taken base fuel n = candidate base k := by
  fun_induction firstFree taken base fuel n with
  | case1 n => exact ⟨n, rfl⟩
  | case2 fuel n _ ih => exact ih
  | case3 fuel n _ => exact ⟨n, rfl⟩

/-- A name stays an identifier when it is made unique, and nothing else becomes one. -/
theorem isIdentifier_choose (taken : List String) (base : String) :
    IsIdentifier (choose taken base) ↔ IsIdentifier base := by
  obtain ⟨k, hk⟩ := exists_candidate_eq_firstFree taken base taken.length 0
  rw [choose, hk, isIdentifier_candidate]

end FreshName

/-! ## Names of sites -/

/-- An element goes by its tag, or by a class of which only the parts for names are left. -/
theorem Node.hostName_eq_or (element tag : Node) (threshold : Nat) :
    element.hostName tag threshold = tag.componentName ∨
      (element.hostName tag threshold).toList.all Reader.isNamePart = true := by
  simp only [hostName]
  split
  · split
    next derived hderived =>
      split
      · exact .inl rfl
      · obtain ⟨name, -, rfl⟩ := Option.map_eq_some_iff.1 hderived
        exact .inr (all_isNamePart_pascalCase name)
    next => exact .inl rfl
  · exact .inl rfl

namespace Site

/-- The name for a strategy says what event is handled. -/
def NamesHandler (s : Site) (strategy : Strategy) : Prop :=
  strategy = .hook ∧ s.category = .function ∧ isEventName s.attributeName = true

instance (s : Site) (strategy : Strategy) : Decidable (s.NamesHandler strategy) :=
  inferInstanceAs (Decidable (_ ∧ _))

/-- The name that a strategy gives to the value of a site is no identifier. -/
inductive IsMisnamed (s : Site) (strategy : Strategy) : Prop where
  /-- The element goes by its tag, which holds something else than characters of names. -/
  | mark (c : Char) (tag : s.host = s.tag.node.componentName) (mem : c ∈ s.host.toList)
      (mark : Reader.isPunctuation c = true)
  /-- The name starts with what the element goes by, and its first character is a digit, if it has
  one. -/
  | start (plain : ¬s.NamesHandler strategy)
      (digit : ∀ c, (s.host ++ pascalCase s.attributeName).toList.head? = some c →
        c.isDigit = true)

/-- A site goes by the tag of its element or by a class. -/
theorem host_eq_or_of_mem_all {source : Source} {o : Options} {ignored : IgnoreList} {s : Site}
    (h : s ∈ all source o ignored) :
    s.host = s.tag.node.componentName ∨ s.host.toList.all Reader.isNamePart = true := by
  obtain ⟨f, -, hs⟩ := List.mem_filterMap.1 h
  rw [(of_at? hs).2.2.2]
  exact Node.hostName_eq_or s.element.node s.tag.node o.shortNameThreshold

variable {s : Site} {strategy : Strategy}

/-- The name of a site is an identifier exactly if what the element goes by can stand in names, and
the name does not start with a digit. -/
theorem isIdentifier_canonicalName_iff :
    IsIdentifier (s.canonicalName strategy) ↔
      s.host.toList.all Reader.isNamePart = true ∧
        (s.NamesHandler strategy ∨
          (s.host ++ pascalCase s.attributeName).toList.head?.any Reader.isNameStart = true) := by
  have hpascal := all_isNamePart_pascalCase s.attributeName
  have hplain : Reader.isWord (s.host ++ pascalCase s.attributeName).toList = true ↔
      s.host.toList.all Reader.isNamePart = true ∧
        (s.host ++ pascalCase s.attributeName).toList.head?.any Reader.isNameStart = true := by
    rw [Reader.isWord, Bool.and_eq_true, and_comm, String.toList_append, List.all_append, hpascal,
      Bool.and_true]
  rw [isIdentifier_iff]
  cases strategy with
  | constant =>
    have hno : ¬s.NamesHandler .constant := by simp [NamesHandler]
    rw [canonicalName, hplain, or_iff_right hno]
  | hook =>
    rw [canonicalName]
    split
    next hevent =>
      have hhandler : s.NamesHandler .hook := ⟨rfl, hevent⟩
      have hpascal' := all_isNamePart_pascalCase (String.ofList (s.attributeName.toList.drop 2))
      rw [and_iff_left (.inl hhandler)]
      have hlead : Reader.isWord "handle".toList = true := by decide
      rw [String.toList_append, String.toList_append, List.append_assoc,
        Reader.isWord_append_of_isWord hlead, List.all_append, Text.all_isNamePart_upperFirst,
        hpascal', Bool.and_true]
    next hevent =>
      have hno : ¬s.NamesHandler .hook := fun h => hevent h.2
      rw [Text.isWord_lowerFirst, hplain, or_iff_right hno]

/-- A new name at a site is an identifier exactly if the site is not misnamed. -/
theorem isIdentifier_choose_canonicalName_iff
    (hhost : s.host = s.tag.node.componentName ∨ s.host.toList.all Reader.isNamePart = true)
    (taken : List String) :
    IsIdentifier (FreshName.choose taken (s.canonicalName strategy)) ↔
      ¬s.IsMisnamed strategy := by
  rw [FreshName.isIdentifier_choose, isIdentifier_canonicalName_iff]
  constructor
  · rintro ⟨hparts, hstart⟩ hmisnamed
    cases hmisnamed with
    | mark c tag mem mark =>
      have hpart := List.all_eq_true.1 hparts c mem
      rw [Reader.isNamePart, mark] at hpart
      cases hpart
    | start plain digit =>
      obtain ⟨c, hc, hstart⟩ := (Option.any_eq_true _ _).1 (hstart.resolve_left plain)
      rw [Reader.isNameStart, digit c hc] at hstart
      simp at hstart
  · intro hnamed
    have hparts : s.host.toList.all Reader.isNamePart = true := by
      rcases hhost with htag | hparts
      · rw [List.all_eq_true]
        intro c hc
        rw [Reader.isNamePart, Bool.not_eq_true', Bool.eq_false_iff]
        exact fun hmark => hnamed (.mark c htag hc hmark)
      · exact hparts
    refine ⟨hparts, ?_⟩
    by_contra! hno
    obtain ⟨hplain, hfirst⟩ := hno
    refine hnamed (.start hplain ?_)
    intro c hc
    have hpart : Reader.isNamePart c = true := by
      have hall : (s.host ++ pascalCase s.attributeName).toList.all Reader.isNamePart = true := by
        rw [String.toList_append, List.all_append, hparts, all_isNamePart_pascalCase]
        rfl
      exact List.all_eq_true.1 hall c (List.mem_of_mem_head? hc)
    rw [Reader.isNamePart] at hpart
    rw [hc] at hfirst
    simpa [Reader.isNameStart, hpart] using hfirst

end Site

end StableProps
