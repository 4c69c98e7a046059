import Mathlib
import StableProps.Site.Name

/-!
# New names are new

Candidates for a name differ from each other, so a list of taken names cannot hold one more
candidate than it has members. Hence trying as many candidates as there are taken names is enough,
and the search ends at the first one that is free. Names that are reserved one after the other
differ from each other and from all that were reserved before.
-/

namespace StableProps.FreshName

/-- Different numbers give different candidates. -/
theorem candidate_injective (base : String) : Function.Injective (candidate base) := by
  have hempty : ∀ n : Nat, base ++ toString (n + 1) ≠ base := by
    intro n h
    have hrepr : base ++ (n + 1).repr = base ++ "" := h.trans String.append_empty.symm
    exact Nat.repr_ne_empty ((String.append_right_inj base).1 hrepr)
  intro i j h
  cases i with
  | zero =>
    cases j with
    | zero => rfl
    | succ j => exact absurd h.symm (hempty j)
  | succ i =>
    cases j with
    | zero => exact absurd h (hempty i)
    | succ j => exact Nat.repr_injective ((String.append_right_inj base).1 h)

/-- The search gives a name that is not taken, unless all candidates it tried are. -/
theorem firstFree_not_mem_or (taken : List String) (base : String) (fuel n : Nat) :
    firstFree taken base fuel n ∉ taken ∨
      firstFree taken base fuel n = candidate base (n + fuel) ∧
        ∀ k, n ≤ k → k < n + fuel → candidate base k ∈ taken := by
  induction fuel generalizing n with
  | zero => exact .inr ⟨rfl, by omega⟩
  | succ fuel ih =>
    rw [firstFree]
    split
    next htaken =>
      rcases ih (n + 1) with hfree | ⟨heq, hall⟩
      · exact .inl hfree
      · refine .inr ⟨heq.trans (by congr 1; omega), ?_⟩
        intro k hk hlt
        rcases Nat.eq_or_lt_of_le hk with rfl | hk
        · exact List.contains_iff_mem.1 htaken
        · exact hall k hk (by omega)
    next hfree =>
      refine .inl ?_
      rw [← List.contains_iff_mem]
      exact hfree

/-- A chosen name is none of those taken. -/
theorem choose_not_mem (taken : List String) (base : String) : choose taken base ∉ taken := by
  rcases firstFree_not_mem_or taken base taken.length 0 with hfree | ⟨heq, hall⟩
  · exact hfree
  · intro hmem
    rw [choose, heq, Nat.zero_add] at hmem
    -- All of one more candidate than there are taken names would be taken.
    have hsub : (List.range (taken.length + 1)).map (candidate base) ⊆ taken := by
      intro name hname
      obtain ⟨k, hk, rfl⟩ := List.mem_map.1 hname
      rcases Nat.lt_succ_iff_lt_or_eq.1 (List.mem_range.1 hk) with hlt | rfl
      · exact hall k (Nat.zero_le k) (by omega)
      · exact hmem
    have hnodup : ((List.range (taken.length + 1)).map (candidate base)).Nodup :=
      List.nodup_range.map (candidate_injective base)
    have hlength := hnodup.length_le_of_subset hsub
    simp at hlength

/-- No candidate in front of the one that the search gives is free. -/
theorem exists_firstFree_eq (taken : List String) (base : String) (fuel n : Nat) :
    ∃ k, firstFree taken base fuel n = candidate base k ∧ n ≤ k ∧
      ∀ i, n ≤ i → i < k → candidate base i ∈ taken := by
  induction fuel generalizing n with
  | zero => exact ⟨n, rfl, le_refl n, by omega⟩
  | succ fuel ih =>
    rw [firstFree]
    split
    next htaken =>
      obtain ⟨k, heq, hk, hall⟩ := ih (n + 1)
      refine ⟨k, heq, by omega, ?_⟩
      intro i hi hlt
      rcases Nat.eq_or_lt_of_le hi with rfl | hi
      · exact List.contains_iff_mem.1 htaken
      · exact hall i hi hlt
    next => exact ⟨n, rfl, le_refl n, by omega⟩

/-- The candidate that is chosen is the first one that is not taken. -/
theorem exists_choose_eq (taken : List String) (base : String) :
    ∃ k, choose taken base = candidate base k ∧ IsLeast {i | candidate base i ∉ taken} k := by
  obtain ⟨k, heq, -, hall⟩ := exists_firstFree_eq taken base taken.length 0
  refine ⟨k, heq, ?_, ?_⟩
  · rw [Set.mem_ofPred_eq, ← heq]
    exact choose_not_mem taken base
  · intro i hi
    by_contra hlt
    exact hi (hall i (Nat.zero_le i) (by omega))

/-! ## Reserved names -/

/-- A name can be reserved if it is neither visible nor reserved. -/
def IsFree (reserved visible : List String) (name : String) : Prop :=
  name ∉ visible ∧ name ∉ reserved

private theorem isFree_iff {reserved visible : List String} {name : String} :
    IsFree reserved visible name ↔ name ∉ visible ++ reserved := by
  rw [IsFree, List.mem_append, not_or]

section

variable (reserved : List String) (base : String) (visible : List String)

/-- What is reserved is free, and reserved from then on. -/
theorem isFree_reserve : IsFree reserved visible (reserve reserved base visible).1 :=
  isFree_iff.2 (choose_not_mem _ _)

/-- A base that is free is reserved as it is. -/
theorem reserve_of_isFree (h : IsFree reserved visible base) :
    (reserve reserved base visible).1 = base := by
  obtain ⟨k, heq, -, hleast⟩ := exists_choose_eq (visible ++ reserved) base
  have hzero : k ≤ 0 := hleast (isFree_iff.1 h)
  rw [reserve, heq, Nat.le_zero.1 hzero, candidate]

/-- A base that is not free is numbered, with the least number that makes it free. -/
theorem exists_reserve_of_not_isFree (h : ¬IsFree reserved visible base) :
    ∃ k, IsLeast {i | 1 ≤ i ∧ IsFree reserved visible (base ++ toString i)} k ∧
      (reserve reserved base visible).1 = base ++ toString k := by
  obtain ⟨k, heq, hfree, hleast⟩ := exists_choose_eq (visible ++ reserved) base
  have hnumbered {i : Nat} (hi : 1 ≤ i) : candidate base i = base ++ toString i := by
    obtain ⟨j, rfl⟩ := Nat.exists_eq_add_of_le' hi
    rfl
  have hpos : 1 ≤ k := by
    rw [Nat.one_le_iff_ne_zero]
    rintro rfl
    exact h (isFree_iff.2 hfree)
  refine ⟨k, ⟨⟨hpos, ?_⟩, ?_⟩, heq.trans (hnumbered hpos)⟩
  · rw [isFree_iff, ← hnumbered hpos]
    exact hfree
  · rintro i ⟨hi, hfree'⟩
    rw [isFree_iff, ← hnumbered hi] at hfree'
    exact hleast hfree'

end

/-- A wish for a name at a place where others are visible. -/
structure Request where
  base : String
  visible : List String

/-- Reserves names for requests one after the other; they come with all names reserved then. -/
def reserveAll (reserved : List String) : List Request → List String × List String
  | [] => ([], reserved)
  | r :: rest =>
    let (name, reserved) := reserve reserved r.base r.visible
    let (names, reserved) := reserveAll reserved rest
    (name :: names, reserved)

/-- Requests in two parts are met part by part. -/
theorem reserveAll_append (reserved : List String) (rs rs' : List Request) :
    reserveAll reserved (rs ++ rs') =
      ((reserveAll reserved rs).1 ++ (reserveAll (reserveAll reserved rs).2 rs').1,
        (reserveAll (reserveAll reserved rs).2 rs').2) := by
  induction rs generalizing reserved with
  | nil => rfl
  | cons r rs ih => simp only [List.cons_append, reserveAll, ih]

/-- Names that are reserved one after the other were not reserved before, and differ from each
other. -/
theorem nodup_reserveAll (reserved : List String) (rs : List Request) :
    (reserveAll reserved rs).1.Nodup ∧ ∀ name ∈ (reserveAll reserved rs).1, name ∉ reserved := by
  induction rs generalizing reserved with
  | nil => simp [reserveAll]
  | cons r rs ih =>
    obtain ⟨hnodup, hnew⟩ := ih (reserve reserved r.base r.visible).2
    rw [reserveAll]
    refine ⟨List.nodup_cons.2 ⟨?_, hnodup⟩, ?_⟩
    · intro hmem
      exact hnew _ hmem List.mem_cons_self
    · intro name hname
      rcases List.mem_cons.1 hname with rfl | hname
      · exact (isFree_reserve reserved r.base r.visible).2
      · exact fun h => hnew name hname (List.mem_cons_of_mem _ h)

/-- No name that is reserved for a request is visible there. -/
theorem not_mem_visible_of_reserveAll {α : Type} {reserved : List String} {gs : List α}
    {request : α → Request} {name : α → String}
    (h : (reserveAll reserved (gs.map request)).1 = gs.map name) :
    ∀ g ∈ gs, name g ∉ (request g).visible := by
  induction gs generalizing reserved with
  | nil => simp
  | cons g gs ih =>
    obtain ⟨hfirst, hrest⟩ := List.cons.inj h
    intro k hk
    rcases List.mem_cons.1 hk with rfl | hk
    · rw [← hfirst]
      exact (isFree_reserve _ _ _).1
    · exact ih hrest k hk

end StableProps.FreshName
