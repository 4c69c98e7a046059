import Mathlib.Data.List.Basic
import StableProps.Proofs.Module.Files

/-!
# Walking in a file tree

A walk goes on from the directory in which a first part of it ends. All directories around one that
a walk reaches from the root exist, so that the walk can go back by double dots. Hence the way from
a directory to a file leads there, if the directory exists.
-/

namespace StableProps

namespace Path

theorem sharedLength_le_left (as bs : List String) : sharedLength as bs ≤ as.length := by
  fun_induction sharedLength as bs with
  | case1 a as bs ih => simpa using ih
  | case2 a as b bs h => simp
  | case3 as bs h => simp

theorem sharedLength_le_right (as bs : List String) : sharedLength as bs ≤ bs.length := by
  fun_induction sharedLength as bs with
  | case1 a as bs ih => simpa using ih
  | case2 a as b bs h => simp
  | case3 as bs h => simp

/-- Two paths start with the same parts, as many as they share. -/
theorem take_sharedLength (as bs : List String) :
    as.take (sharedLength as bs) = bs.take (sharedLength as bs) := by
  fun_induction sharedLength as bs with
  | case1 a as bs ih => simpa using ih
  | case2 a as b bs h => simp
  | case3 as bs h => simp

end Path

namespace FileTree

variable {t : FileTree} {here p q : Path} {xs ys : List String}

private theorem eq_of_entry_folder (h : t.entry? p = some (.folder q)) : q = p := by
  rw [ entry?] at h
  split at h
  · cases h
  · split at h <;> cases h
    rfl

/-- A walk goes on from the directory that its first part leads to. -/
theorem walk_append (h : t.walk here xs = some (.folder q)) :
    t.walk here (xs ++ ys) = t.walk q ys := by
  induction xs generalizing here with
  | nil => rw [eq_of_entry_folder h, List.nil_append]
  | cons x xs ih =>
    rw [walk] at h
    rw [List.cons_append, walk]
    split at h
    · exact ih h
    · cases h

/-- A walk that goes on after a part of it has reached a directory by that part. -/
theorem exists_folder_of_walk_append {e : Entry} (h : t.walk here (xs ++ ys) = some e)
    (hys : ys ≠ []) : ∃ q, t.walk here xs = some (.folder q) := by
  induction xs generalizing here with
  | nil =>
    obtain ⟨y, ys, rfl⟩ := List.exists_cons_of_ne_nil hys
    rw [List.nil_append, walk] at h
    split at h
    next q hhere => exact ⟨q, hhere⟩
    · cases h
  | cons x xs ih =>
    rw [List.cons_append, walk] at h
    rw [walk]
    split at h
    · exact ih h
    · cases h

/-- What a walk reaches stands at the end of the way, double dots being taken back. -/
theorem entry?_of_walk {e : Entry} (h : t.walk here xs = some e) :
    t.entry? ⟨here.rooted, (xs.foldl Path.normalized.step here.parts.reverse).reverse⟩ = some e := by
  induction xs generalizing here with
  | nil =>
    rw [List.foldl_nil, List.reverse_reverse]
    exact h
  | cons x xs ih =>
    rw [walk] at h
    split at h
    · rw [← ih h, List.foldl_cons, Path.normalized.step]
      split
      · rw [Path.parent, List.drop_one, List.tail_reverse]
      · simp
    · cases h

/-- A directory that is reached by walking stands at the end of the way. -/
theorem eq_of_walk_folder (h : t.walk here xs = some (.folder q)) :
    q = ⟨here.rooted, (xs.foldl Path.normalized.step here.parts.reverse).reverse⟩ :=
  eq_of_entry_folder (entry?_of_walk h)

/-- All paths around a path from the root are directories. -/
def HasFolders (t : FileTree) (p : Path) : Prop :=
  ∀ n < p.parts.length, t.entry? ⟨p.rooted, p.parts.take n⟩ =
    some (.folder ⟨p.rooted, p.parts.take n⟩)

/-- There are folders above the root. -/
theorem hasFolders_root (t : FileTree) : t.HasFolders ⟨true, []⟩ := by
  intro n hn
  cases hn

/-- Above a folder there are folders. -/
theorem HasFolders.parent (h : t.HasFolders p) : t.HasFolders p.parent := by
  intro n hn
  rw [Path.parent, List.length_dropLast] at hn
  have hentry := h n (by omega)
  rwa [Path.parent, List.dropLast_eq_take, List.take_take, Nat.min_eq_left (by omega)]

/-- Above a part of a folder there are folders. -/
theorem HasFolders.child (h : t.HasFolders p) (hp : t.entry? p = some (.folder p))
    (part : String) : t.HasFolders ⟨p.rooted, p.parts ++ [part]⟩ := by
  intro n hn
  rw [List.length_append, List.length_singleton, Nat.lt_succ_iff] at hn
  rw [List.take_append_of_le_length hn]
  rcases Nat.lt_or_eq_of_le hn with hlt | rfl
  · exact h n hlt
  · rwa [List.take_length]

/-- Around a place that a walk reaches there are only directories. -/
theorem HasFolders.of_walk (h : t.HasFolders here) (hq : t.walk here xs = some (.folder q)) :
    t.HasFolders q ∧ t.entry? q = some (.folder q) := by
  induction xs generalizing here with
  | nil =>
    obtain rfl := eq_of_entry_folder hq
    exact ⟨h, hq⟩
  | cons x xs ih =>
    rw [walk] at hq
    split at hq
    next d hd =>
      obtain rfl := eq_of_entry_folder hd
      refine ih ?_ hq
      split
      · exact h.parent
      · exact h.child hd x
    · cases hq

/-- The parent of a folder is a folder. -/
private theorem HasFolders.entry?_parent (h : t.HasFolders p) (hp : t.entry? p = some (.folder p)) :
    t.entry? p.parent = some (.folder p.parent) := by
  rcases List.eq_nil_or_concat' p.parts with hnil | ⟨before, last, hconcat⟩
  · have hself : p.parent = p := by
      obtain ⟨rooted, parts⟩ := p
      obtain rfl : parts = [] := hnil
      rfl
    rwa [hself]
  · have hentry := h (p.parts.length - 1) (by simp [hconcat])
    rwa [← List.dropLast_eq_take] at hentry

/-- Double dots lead back from a directory to those around it. -/
theorem walk_replicate (h : t.HasFolders p) (hp : t.entry? p = some (.folder p)) {k : Nat}
    (hk : k ≤ p.parts.length) :
    t.walk p (List.replicate k ".." ++ ys) =
      t.walk ⟨p.rooted, p.parts.take (p.parts.length - k)⟩ ys := by
  induction k generalizing p with
  | zero => simp
  | succ k ih =>
    have hlength : p.parent.parts.length = p.parts.length - 1 := List.length_dropLast
    rw [List.replicate_succ, List.cons_append, walk, hp]
    simp only [if_true]
    rw [ih h.parent (h.entry?_parent hp) (by omega), hlength]
    congr 2
    rw [Path.parent, List.dropLast_eq_take, List.take_take, Nat.min_eq_left (by omega)]
    congr 1
    omega

/-- A path from the root. -/
theorem find?_of_rooted (hp : p.rooted = true) : t.find? p = t.walk ⟨true, []⟩ p.parts := by
  rw [find?, Path.join, if_pos hp]

/-- A file stands at a path from the root without double dots. -/
theorem rooted_of_find? {text : String} (h : t.find? p = some (.file p text)) :
    p.rooted = true ∧ ".." ∉ p.parts := by
  have hp : p = resolve p := (of_find? h).1
  have hparts : p.parts =
      ((workingFolder.join p).parts.foldl Path.normalized.step []).reverse := congrArg Path.parts hp
  constructor
  · rw [hp]
    exact rooted_resolve p
  · rw [hparts, List.mem_reverse]
    exact Path.not_mem_foldl_step _ List.not_mem_nil

/-- A path that leads to a file does not end with double dots. -/
theorem getLast?_ne_of_find? {text : String} (hp : p.rooted = true)
    (h : t.find? p = some (.file q text)) : p.parts.getLast? ≠ some ".." := by
  intro hlast
  obtain ⟨before, hbefore⟩ := List.getLast?_eq_some_iff.1 hlast
  rw [find?_of_rooted hp, hbefore] at h
  obtain ⟨d, hd⟩ := exists_folder_of_walk_append h (by simp)
  obtain ⟨hfolders, hentry⟩ := (hasFolders_root t).of_walk hd
  rw [walk_append hd, walk, hentry] at h
  simp only [if_true] at h
  rw [walk, hfolders.entry?_parent hentry] at h
  cases h

/-- A path is a file exactly if a text is found there. -/
theorem isFile_iff : t.isFile p = true ↔ ∃ text, t.find? p = some (.file (resolve p) text) := by
  rw [isFile]
  constructor
  · intro h
    split at h
    next q text hfound =>
      obtain rfl := (of_find? hfound).1
      exact ⟨text, hfound⟩
    · cases h
  · rintro ⟨text, hfound⟩
    rw [hfound]

/-- A path that is resolved and is a file is found as it is. -/
theorem exists_find?_of_isFile (hp : resolve p = p) (h : t.isFile p = true) :
    ∃ text, t.find? p = some (.file p text) := by
  obtain ⟨text, hfound⟩ := isFile_iff.1 h
  rw [hp] at hfound
  exact ⟨text, hfound⟩

/-- A path is a folder exactly if a folder is found there. -/
theorem isFolder_iff : t.isFolder p = true ↔ ∃ q, t.find? p = some (.folder q) := by
  rw [isFolder]
  constructor
  · intro h
    split at h
    next q hfound => exact ⟨q, hfound⟩
    · cases h
  · rintro ⟨q, hfound⟩
    rw [hfound]

/-- A file is found from a directory, if its way there goes over directories that exist. -/
theorem walk_relativeTo {target : Path} {text : String}
    (htarget : t.find? target = some (.file target text)) (hq : t.HasFolders q)
    (hentry : t.entry? q = some (.folder q)) (hrooted : q.rooted = true)
    (hnot : ¬target.parts <+: q.parts) :
    t.walk q (List.replicate (q.parts.length - Path.sharedLength target.parts q.parts) ".." ++
        target.parts.drop (Path.sharedLength target.parts q.parts)) =
      some (.file target text) := by
  set n := Path.sharedLength target.parts q.parts with hn
  have hshared : target.parts.take n = q.parts.take n := Path.take_sharedLength _ _
  have hdrop : target.parts.drop n ≠ [] := by
    intro hnil
    have hall : target.parts.take n = target.parts := by
      rw [← List.append_nil (target.parts.take n), ← hnil, List.take_append_drop]
    rw [← hall, hshared] at hnot
    exact hnot (List.take_prefix n q.parts)
  have hup : t.walk q (List.replicate (q.parts.length - n) ".." ++ target.parts.drop n) =
      t.walk ⟨true, target.parts.take n⟩ (target.parts.drop n) := by
    have hle : n ≤ q.parts.length := Path.sharedLength_le_right _ _
    rw [walk_replicate hq hentry (Nat.sub_le _ _), hrooted, hshared]
    congr 3
    omega
  obtain ⟨htrooted, hdots⟩ := rooted_of_find? htarget
  have hwhole : t.walk ⟨true, []⟩ (target.parts.take n ++ target.parts.drop n) =
      some (.file target text) := by
    rw [List.take_append_drop, ← find?_of_rooted htrooted]
    exact htarget
  obtain ⟨d, hd⟩ := exists_folder_of_walk_append hwhole hdrop
  have hdeq : d = ⟨true, target.parts.take n⟩ := by
    rw [eq_of_walk_folder hd, Path.foldl_step_of_not_mem fun h => hdots (List.mem_of_mem_take h)]
    simp
  rw [hup, ← hdeq, ← walk_append hd, hwhole]

end FileTree

end StableProps
