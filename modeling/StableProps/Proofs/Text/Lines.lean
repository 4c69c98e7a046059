import StableProps.Proofs.Text.Utf8
import StableProps.Text.Reindent

/-!
# Lines of bytes

Cutting bytes at line feeds and joining them again are inverse to each other. As a line feed is a
character of its own, the lines of a text are texts.
-/

namespace StableProps.Bytes

/-- Lines are what stands between newlines. -/
private theorem split_eq_splitOn (bs : Bytes) : split bs = bs.splitOn newline := by
  induction bs with
  | nil => rfl
  | cons b bs ih =>
    rw [split, ih, List.splitOn_cons_eq_if_modifyHead]
    cases hl : bs.splitOn newline with
    | nil => exact absurd hl (List.splitOn_ne_nil newline bs)
    | cons l ls => simp

/-- A line in front of others is joined to them by a newline. -/
theorem joinLines_cons (l : Bytes) {ls : List Bytes} (h : ls ≠ []) :
    joinLines (l :: ls) = l ++ newline :: joinLines ls := by
  cases ls with
  | nil => exact absurd rfl h
  | cons m ls => rfl

/-- Lines are joined by a newline between each two. -/
private theorem joinLines_eq_intercalate (ls : List Bytes) : joinLines ls =
    [newline].intercalate ls := by
  induction ls with
  | nil => rfl
  | cons l ls ih =>
    cases ls with
    | nil => simp [joinLines, List.intercalate]
    | cons m ls => rw [joinLines_cons l (by simp), ih]; simp [List.intercalate]

/-- There is always a first line. -/
theorem split_ne_nil (bs : Bytes) : split bs ≠ [] := by
  rw [split_eq_splitOn]
  exact List.splitOn_ne_nil newline bs

/-- Lines that are joined again give the text they were split from. -/
theorem joinLines_split (bs : Bytes) : joinLines (split bs) = bs := by
  rw [split_eq_splitOn, joinLines_eq_intercalate, List.intercalate_splitOn]

/-- Lines without newlines are found again in the text they are joined to. -/
theorem split_joinLines {ls : List Bytes} (h : ∀ l ∈ ls, newline ∉ l) (hne : ls ≠ []) :
    split (joinLines ls) = ls := by
  rw [split_eq_splitOn, joinLines_eq_intercalate, List.splitOn_intercalate newline h hne]

/-- A newline in front is an empty first line. -/
theorem split_newline_cons (bs : Bytes) : split (newline :: bs) = [] :: split bs := rfl

/-- A byte that is no line feed belongs to the first line. -/
theorem split_cons {b : UInt8} (hb : b ≠ newline) {bs l : Bytes} {ls : List Bytes}
    (h : split bs = l :: ls) : split (b :: bs) = (b :: l) :: ls := by
  rw [split, if_neg (by simpa using hb), h]

/-- No line has a newline in it. -/
theorem newline_not_mem_of_mem_split {bs l : Bytes} (h : l ∈ split bs) : newline ∉ l := by
  induction bs generalizing l with
  | nil =>
    obtain rfl := List.mem_singleton.1 h
    exact List.not_mem_nil
  | cons b bs ih =>
    by_cases hb : b = newline
    · rw [hb, split_newline_cons] at h
      rcases List.mem_cons.1 h with rfl | h
      · exact List.not_mem_nil
      · exact ih h
    · obtain ⟨m, ls, hsplit⟩ := List.exists_cons_of_ne_nil (split_ne_nil bs)
      rw [split_cons hb hsplit] at h
      rcases List.mem_cons.1 h with rfl | h
      · rw [List.mem_cons, not_or]
        exact ⟨Ne.symm hb, ih (hsplit ▸ List.mem_cons_self)⟩
      · exact ih (hsplit ▸ List.mem_cons_of_mem m h)

/-- What stands in front of the first line stands in front of the text. -/
theorem joinLines_append_cons (q l : Bytes) (ls : List Bytes) :
    joinLines ((q ++ l) :: ls) = q ++ joinLines (l :: ls) := by
  cases ls with
  | nil => rfl
  | cons m ls =>
    rw [joinLines_cons l (List.cons_ne_nil m ls), joinLines_cons (q ++ l) (List.cons_ne_nil m ls),
      List.append_assoc]

/-- A front of the first line can be taken off. -/
theorem split_of_append {bs q l : Bytes} {ls : List Bytes} (h : split bs = (q ++ l) :: ls) :
    ∃ rest, bs = q ++ rest ∧ split rest = l :: ls := by
  have hq : newline ∉ q := fun hmem =>
    newline_not_mem_of_mem_split (h ▸ List.mem_cons_self) (List.mem_append_left l hmem)
  have hjoin := joinLines_split bs
  rw [h] at hjoin
  have hls : ∀ m ∈ l :: ls, newline ∉ m := by
    intro m hm
    rcases List.mem_cons.1 hm with rfl | hm
    · exact fun hmem => newline_not_mem_of_mem_split (h ▸ List.mem_cons_self)
        (List.mem_append_right q hmem)
    · exact newline_not_mem_of_mem_split (h ▸ List.mem_cons_of_mem _ hm)
  refine ⟨joinLines (l :: ls), ?_, split_joinLines hls (by simp)⟩
  rw [← hjoin, joinLines_append_cons]

/-- Lines are texts exactly if what they make up is one. -/
theorem isText_joinLines_iff {ls : List Bytes} :
    IsText (joinLines ls) ↔ ∀ l ∈ ls, IsText l := by
  induction ls with
  | nil => simpa [joinLines] using isText_nil
  | cons l ls ih =>
    rw [List.forall_mem_cons]
    by_cases hls : ls = []
    · simp [hls, joinLines]
    · rw [joinLines_cons l hls, ← ih]
      constructor
      · exact IsText.of_ascii (by decide)
      · rintro ⟨hl, hrest⟩
        exact hl.append (isText_newline.append hrest)

end StableProps.Bytes
