import Mathlib.Data.List.Induction
import Mathlib.Data.List.Nodup
import Mathlib.Data.List.Perm.Basic
import StableProps.Distinct

/-!
# First occurrences in lists put together

What is kept of two lists put together is what is kept of the first one, and of the second one what
has a new key. So nothing is gained or lost by leaving out repetitions before lists are put
together, or by putting a list behind itself.
-/

namespace StableProps

variable {α β : Type} [DecidableEq β] {key : α → β} {as bs : List α}

/-- No key is left twice. -/
theorem nodup_map_distinctBy (key : α → β) (as : List α) : ((distinctBy key as).map key).Nodup :=
  List.pairwise_map.2 (pairwise_distinctBy key as)

/-- No key is lost. -/
theorem mem_map_distinctBy {k : β} : k ∈ (distinctBy key as).map key ↔ k ∈ as.map key := by
  constructor
  · intro h
    obtain ⟨a, ha, rfl⟩ := List.mem_map.1 h
    exact List.mem_map_of_mem (mem_of_mem_distinctBy ha)
  · intro h
    obtain ⟨a, ha, rfl⟩ := List.mem_map.1 h
    obtain ⟨b, hb, hkey⟩ := exists_mem_distinctBy key ha
    exact hkey ▸ List.mem_map_of_mem hb

theorem distinctBy_distinctBy (key : α → β) (as : List α) :
    distinctBy key (distinctBy key as) = distinctBy key as :=
  distinctBy_eq_self (nodup_map_distinctBy key as)

/-- Of a list behind another one the elements with a new key are kept. -/
theorem distinctBy_append (key : α → β) (as bs : List α) :
    distinctBy key (as ++ bs) =
      distinctBy key as ++ (distinctBy key bs).filter fun b => key b ∉ as.map key := by
  induction as with
  | nil => simp [distinctBy]
  | cons a as ih =>
    rw [List.cons_append, distinctBy, ih, distinctBy, List.filter_append, List.filter_filter,
      List.cons_append]
    refine congrArg (fun l => a :: (_ ++ l)) (List.filter_congr fun b _ => ?_)
    simp [List.mem_cons, not_or, Bool.decide_and]

/-- Repetitions in a later part need not be dropped first. -/
theorem distinctBy_append_distinctBy (key : α → β) (as bs : List α) :
    distinctBy key (as ++ distinctBy key bs) = distinctBy key (as ++ bs) := by
  rw [distinctBy_append, distinctBy_distinctBy, ← distinctBy_append]

/-- Repetitions in an earlier part need not be dropped first. -/
theorem distinctBy_distinctBy_append (key : α → β) (as bs : List α) :
    distinctBy key (distinctBy key as ++ bs) = distinctBy key (as ++ bs) := by
  rw [distinctBy_append, distinctBy_distinctBy, distinctBy_append]
  simp only [mem_map_distinctBy]

/-- A list that brings no new key makes no difference behind another one. -/
theorem distinctBy_append_of_subset (h : bs.map key ⊆ as.map key) :
    distinctBy key (as ++ bs) = distinctBy key as := by
  rw [distinctBy_append, List.filter_eq_nil_iff.2, List.append_nil]
  intro b hb
  rw [decide_eq_true_eq, not_not]
  exact h (List.mem_map_of_mem (mem_of_mem_distinctBy hb))

/-- What is repeated as a whole is dropped. -/
theorem distinctBy_append_self (key : α → β) (as : List α) :
    distinctBy key (as ++ as) = distinctBy key as :=
  distinctBy_append_of_subset (List.Subset.refl _)

theorem distinctBy_eq_nil_iff : distinctBy key as = [] ↔ as = [] := by
  cases as <;> simp [distinctBy]

theorem nodup_distinct [DecidableEq α] (as : List α) : (distinct as).Nodup :=
  pairwise_distinctBy id as

/-- Nothing is dropped if nothing is repeated. -/
theorem distinct_eq_self [DecidableEq α] (h : as.Nodup) : distinct as = as :=
  distinctBy_eq_self (by rwa [List.map_id])

/-- Where the key tells elements apart, none of them is lost. -/
theorem distinctBy_eq_distinct [DecidableEq α]
    (h : ∀ a ∈ as, ∀ b ∈ as, key a = key b → a = b) : distinctBy key as = distinct as := by
  induction as with
  | nil => rfl
  | cons a as ih =>
    have has := ih fun b hb c hc => h b (List.mem_cons_of_mem _ hb) c (List.mem_cons_of_mem _ hc)
    rw [distinctBy, has]
    change _ = a :: (distinct as).filter fun b => id b ≠ id a
    refine congrArg (a :: ·) (List.filter_congr fun b hb => ?_)
    have hmem : b ∈ a :: as := List.mem_cons_of_mem _ (mem_distinct.1 hb)
    rw [decide_eq_decide, id, id]
    exact not_congr ⟨h b hmem a List.mem_cons_self, congrArg key⟩

/-- The elements of a list that stand where no element before them has their key. -/
def firstOccurrences (key : α → β) (as : List α) : List α :=
  (as.zipIdx.filter fun x => key x.1 ∉ (as.take x.2).map key).map Prod.fst

/-- What is kept under each key is what occurs first. -/
theorem distinctBy_eq_firstOccurrences (key : α → β) (as : List α) :
    distinctBy key as = firstOccurrences key as := by
  induction as using List.reverseRecOn with
  | nil => rfl
  | append_singleton as a ih =>
    have hfront : ∀ x ∈ as.zipIdx, (as ++ [a]).take x.2 = as.take x.2 := by
      intro x hx
      exact List.take_append_of_le_length (Nat.le_of_lt (List.snd_lt_of_mem_zipIdx hx))
    rw [distinctBy_append, ih, firstOccurrences, firstOccurrences, List.zipIdx_append,
      List.filter_append, List.map_append]
    congr 2
    · refine List.filter_congr fun x hx => ?_
      rw [hfront x hx]
    · by_cases h : key a ∈ as.map key <;> simp [distinctBy, h, -List.mem_map]

/-- Of a list in another order the same elements are kept, in another order. -/
theorem perm_distinct [DecidableEq α] (h : as.Perm bs) :
    (distinct as).Perm (distinct bs) := by
  rw [List.perm_ext_iff_of_nodup (nodup_distinct as) (nodup_distinct bs)]
  intro a
  rw [mem_distinct, mem_distinct]
  exact h.mem_iff

end StableProps
