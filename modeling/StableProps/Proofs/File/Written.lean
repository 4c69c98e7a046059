import Mathlib.Data.List.Basic
import StableProps.File.Tree
import StableProps.Import.Specifier

/-!
# Parts of written paths

A path that is written with slashes between its parts is read back part by part, if no part holds a
slash. What a specifier leaves out of a path is the extension of its last part, and the last part
itself if it is an index file below something.
-/

namespace StableProps

namespace Text

private theorem pieces_eq_splitOn (separator : Char) (cs : List Char) :
    pieces separator cs = cs.splitOn separator := by
  induction cs with
  | nil => rfl
  | cons c cs ih =>
    rw [pieces, ih, List.splitOn_cons_eq_if_modifyHead]
    cases hp : cs.splitOn separator with
    | nil => exact absurd hp (List.splitOn_ne_nil separator cs)
    | cons p ps => simp

/-- A text is cut at a separator between two others. -/
theorem split_append {separator : Char} {between : String} (h : between.toList = [separator])
    (front text : String) :
    split separator (front ++ between ++ text) = split separator front ++ split separator text := by
  have hlist : (front ++ between ++ text).toList = front.toList ++ separator :: text.toList := by
    rw [String.toList_append, String.toList_append, h, List.append_assoc]
    rfl
  rw [split, pieces_eq_splitOn, hlist, List.splitOn_append_cons_self, List.map_append,
    ← pieces_eq_splitOn, ← pieces_eq_splitOn]
  rfl

/-- A text without separators is not cut. -/
theorem split_of_not_mem {separator : Char} {s : String} (h : separator ∉ s.toList) :
    split separator s = [s] := by
  have hsplit : List.splitOn separator ([separator].intercalate [s.toList]) = [s.toList] :=
    List.splitOn_intercalate separator (by simpa using h) (List.cons_ne_nil _ _)
  rw [List.intercalate_singleton] at hsplit
  rw [split, pieces_eq_splitOn, hsplit, List.map_singleton, String.ofList_toList]

/-- A text made of pieces without slashes is cut into them again. -/
theorem split_intercalate {parts : List String} (hne : parts ≠ [])
    (h : ∀ part ∈ parts, '/' ∉ part.toList) :
    split '/' (String.intercalate "/" parts) = parts := by
  have hlist : (String.intercalate "/" parts).toList =
      ['/'].intercalate (parts.map String.toList) := by
    rw [String.toList_intercalate]
    rfl
  rw [split, pieces_eq_splitOn, hlist, List.splitOn_intercalate]
  · simp
  · simpa using h
  · simpa using hne

/-- No piece has a separator in it. -/
private theorem not_mem_of_mem_pieces {separator : Char} {cs p : List Char}
    (h : p ∈ pieces separator cs) : separator ∉ p := by
  induction cs generalizing p with
  | nil =>
    obtain rfl := List.mem_singleton.1 h
    exact List.not_mem_nil
  | cons c cs ih =>
    rw [pieces.eq_def] at h
    dsimp only at h
    split at h
    · rcases List.mem_cons.1 h with rfl | h
      · exact List.not_mem_nil
      · exact ih h
    next hc =>
      split at h
      · obtain rfl := List.mem_singleton.1 h
        simpa using Ne.symm hc
      next q qs hcs =>
        rcases List.mem_cons.1 h with rfl | h
        · rw [List.mem_cons, not_or]
          exact ⟨Ne.symm hc, ih (hcs ▸ List.mem_cons_self)⟩
        · exact ih (hcs ▸ List.mem_cons_of_mem q h)

/-- No piece holds the separator. -/
theorem not_mem_of_mem_split {separator : Char} {s part : String} (h : part ∈ split separator s) :
    separator ∉ part.toList := by
  obtain ⟨p, hp, rfl⟩ := List.mem_map.1 h
  rw [String.toList_ofList]
  exact not_mem_of_mem_pieces hp

end Text

/-- Parts with a slash behind each. -/
def slashed (parts : List String) : List Char := parts.flatMap fun part => part.toList ++ ['/']

private theorem toList_intercalate_concat (parts : List String) (last : String) :
    (String.intercalate "/" (parts ++ [last])).toList = slashed parts ++ last.toList := by
  induction parts with
  | nil => simp [slashed]
  | cons part parts ih =>
    rw [List.cons_append, String.intercalate_cons_of_ne_nil (by simp), String.toList_append,
      String.toList_append, ih]
    simp [slashed]

private theorem slashed_concat (parts : List String) (part : String) :
    slashed (parts ++ [part]) = slashed parts ++ part.toList ++ ['/'] := by
  simp [slashed]

/-- Text in front of a slash does not matter for what a text without slashes ends with. -/
theorem suffix_slashed_append_iff {parts : List String} {tail last : List Char}
    (h : '/' ∉ tail) : tail <:+ slashed parts ++ last ↔ tail <:+ last := by
  refine ⟨fun hsuffix => ?_, fun hsuffix => hsuffix.trans (List.suffix_append _ _)⟩
  rcases List.eq_nil_or_concat' parts with rfl | ⟨before, part, rfl⟩
  · exact hsuffix
  · rw [slashed_concat, List.append_assoc, List.singleton_append] at hsuffix
    rcases List.suffix_or_suffix_of_suffix hsuffix (List.suffix_append _ _) with hlast | hlonger
    · rcases List.suffix_cons_iff.1 hlast with rfl | hlast
      · exact absurd List.mem_cons_self h
      · exact hlast
    · exact absurd (hlonger.mem List.mem_cons_self) h

/-- What follows the last slash is determined by a text. -/
theorem slash_cons_suffix_iff {front a b : List Char} (ha : '/' ∉ a) (hb : '/' ∉ b) :
    '/' :: a <:+ front ++ '/' :: b ↔ a = b := by
  constructor
  · intro hsuffix
    rcases List.suffix_or_suffix_of_suffix hsuffix (List.suffix_append _ _) with hlast | hlast
    · rcases List.suffix_cons_iff.1 hlast with heq | hlast
      · exact (List.cons.inj heq).2
      · exact absurd (hlast.mem List.mem_cons_self) hb
    · rcases List.suffix_cons_iff.1 hlast with heq | hlast
      · exact (List.cons.inj heq).2.symm
      · exact absurd (hlast.mem List.mem_cons_self) ha
  · rintro rfl
    exact List.suffix_append _ _

namespace Specifier

/-- A text ends with a tail exactly if the tail is its last part. -/
theorem endsWith_iff {s tail : String} : endsWith s tail = true ↔ tail.toList <:+ s.toList :=
  List.isSuffixOf_iff_suffix

/-- The parts that a specifier names for a file, whose last part without extension is given. -/
def waypoints (parts : List String) (stem : String) : List String :=
  if stem = "index" ∧ parts ≠ [] then parts else parts ++ [stem]

/-- The extension of a path is that of its last part. -/
theorem find?_endsWith_intercalate (parts : List String) (last : String) :
    implied.find? (endsWith (String.intercalate "/" (parts ++ [last]))) =
      implied.find? (endsWith last) := by
  have hslash : ∀ e ∈ implied, '/' ∉ e.toList := by decide
  rw [← List.head?_filter, ← List.head?_filter]
  refine congrArg List.head? (List.filter_congr fun e he => ?_)
  rw [Bool.eq_iff_iff, endsWith_iff, endsWith_iff, toList_intercalate_concat,
    suffix_slashed_append_iff (hslash e he)]

/-- An index file is one that stands behind a slash. -/
theorem endsWith_index_iff {parts : List String} {stem : String} (h : '/' ∉ stem.toList) :
    endsWith (String.intercalate "/" (parts ++ [stem])) "/index" = true ↔
      stem = "index" ∧ parts ≠ [] := by
  have hindex : "/index".toList = '/' :: "index".toList := rfl
  rw [endsWith_iff, toList_intercalate_concat, hindex]
  rcases List.eq_nil_or_concat' parts with rfl | ⟨before, part, rfl⟩
  · have hnot : ¬ '/' :: "index".toList <:+ stem.toList :=
      fun hsuffix => h (hsuffix.mem List.mem_cons_self)
    simpa [slashed] using hnot
  · rw [slashed_concat, List.append_assoc, List.singleton_append,
      slash_cons_suffix_iff (by decide) h, String.toList_inj, eq_comm, and_iff_left (by simp)]

/-- A tail is dropped from a text that ends with it. -/
theorem dropLast_eq_of_toList {s tail rest : String} (h : s.toList = rest.toList ++ tail.toList) :
    dropLast s tail.length = rest := by
  have hlength : s.length - tail.length = rest.toList.length := by
    rw [← String.length_toList, h, List.length_append, ← String.length_toList, Nat.add_sub_cancel]
  rw [dropLast, hlength, h, List.take_left, String.ofList_toList]

/-- A specifier leaves out the extension and the index file. -/
theorem stripExtension_intercalate {parts : List String} {stem extension : String}
    (hextension : implied.find? (endsWith (stem ++ extension)) = some extension)
    (hstem : '/' ∉ stem.toList) :
    stripExtension (String.intercalate "/" (parts ++ [stem ++ extension])) =
      String.intercalate "/" (waypoints parts stem) := by
  have hdrop : dropLast (String.intercalate "/" (parts ++ [stem ++ extension])) extension.length =
      String.intercalate "/" (parts ++ [stem]) := by
    refine dropLast_eq_of_toList ?_
    rw [toList_intercalate_concat, toList_intercalate_concat, String.toList_append,
      List.append_assoc]
  rw [stripExtension, find?_endsWith_intercalate, hextension]
  simp only [hdrop]
  rw [waypoints]
  by_cases hindex : stem = "index" ∧ parts ≠ []
  · rw [if_pos ((endsWith_index_iff hstem).2 hindex), if_pos hindex]
    refine dropLast_eq_of_toList ?_
    obtain ⟨rfl, hparts⟩ := hindex
    obtain ⟨before, part, rfl⟩ := (List.eq_nil_or_concat' parts).resolve_left hparts
    rw [toList_intercalate_concat, toList_intercalate_concat, slashed_concat]
    simp
  · rw [if_neg (mt (endsWith_index_iff hstem).1 hindex), if_neg hindex]

end Specifier

end StableProps
