/-!
# First occurrences

Lists without repetition are made by keeping what comes first under each key.
-/

namespace StableProps

/-- The elements whose key no earlier element has. -/
def distinctBy [DecidableEq β] (key : α → β) : List α → List α
  | [] => []
  | a :: as => a :: (distinctBy key as).filter fun b => key b ≠ key a

/-- The elements that no earlier element equals. -/
def distinct [DecidableEq α] (as : List α) : List α := distinctBy id as

/-- Changes the entry of a key, or makes one at the end. -/
def upsert [DecidableEq κ] (key : κ) (change : Option α → α) : List (κ × α) → List (κ × α)
  | [] => [(key, change none)]
  | (k, a) :: rest =>
    if k = key then (k, change (some a)) :: rest else (k, a) :: upsert key change rest

theorem mem_of_mem_distinctBy [DecidableEq β] {key : α → β} {as : List α} {a : α}
    (h : a ∈ distinctBy key as) : a ∈ as := by
  induction as with
  | nil => exact h
  | cons b as ih =>
    rcases List.mem_cons.1 h with rfl | h
    · exact List.mem_cons_self
    · exact List.mem_cons_of_mem _ (ih (List.mem_filter.1 h).1)

/-- Every key that occurs is kept once. -/
theorem exists_mem_distinctBy [DecidableEq β] (key : α → β) {as : List α} {a : α} (h : a ∈ as) :
    ∃ b ∈ distinctBy key as, key b = key a := by
  induction as with
  | nil => simp at h
  | cons c as ih =>
    by_cases hkey : key a = key c
    · exact ⟨c, List.mem_cons_self, hkey.symm⟩
    · rcases List.mem_cons.1 h with rfl | h
      · exact absurd rfl hkey
      · obtain ⟨b, hb, hba⟩ := ih h
        refine ⟨b, List.mem_cons_of_mem _ (List.mem_filter.2 ⟨hb, ?_⟩), hba⟩
        simpa [hba] using hkey

/-- No key is kept twice. -/
theorem pairwise_distinctBy [DecidableEq β] (key : α → β) (as : List α) :
    (distinctBy key as).Pairwise fun a b => key a ≠ key b := by
  induction as with
  | nil => exact .nil
  | cons a as ih =>
    refine .cons ?_ (ih.filter _)
    intro b hb heq
    simpa [heq] using (List.mem_filter.1 hb).2

theorem distinctBy_map [DecidableEq γ] (f : α → β) (key : β → γ) (as : List α) :
    distinctBy key (as.map f) = (distinctBy (key ∘ f) as).map f := by
  induction as with
  | nil => rfl
  | cons a as ih =>
    rw [List.map_cons, distinctBy, ih, distinctBy, List.map_cons, List.filter_map]
    rfl

/-- Of the elements with one key the first is kept. -/
theorem filter_distinctBy_key [DecidableEq β] (key : α → β) (b : β) (as : List α) :
    (distinctBy key as).filter (key · == b) = ((as.filter (key · == b)).head?).toList := by
  induction as with
  | nil => rfl
  | cons a as ih =>
    rw [distinctBy]
    by_cases h : key a = b
    · subst h
      simp [List.filter_filter]
    · have hfilter : ((distinctBy key as).filter fun c => key c ≠ key a).filter (key · == b) =
          (distinctBy key as).filter (key · == b) := by
        rw [List.filter_filter]
        refine List.filter_congr fun c _ => ?_
        by_cases hc : key c = b
        · simp [hc, Ne.symm h]
        · simp [hc]
      rw [List.filter_cons_of_neg (by simpa using h), hfilter, ih,
        List.filter_cons_of_neg (by simpa using h)]

theorem mem_distinctBy_iff {β : Type u} [DecidableEq β] {key : α → β} {as : List α} {a : α} :
    a ∈ distinctBy key as ↔ (as.filter (key · = key a)).head? = some a := by
  have hfilter : (distinctBy key as).filter (key · = key a) =
      ((as.filter (key · = key a)).head?).toList := filter_distinctBy_key key (key a) as
  constructor
  · intro h
    have hmem : a ∈ (distinctBy key as).filter (key · = key a) :=
      List.mem_filter.2 ⟨h, decide_eq_true rfl⟩
    rw [hfilter] at hmem
    exact Option.mem_toList.1 hmem
  · intro h
    rw [h] at hfilter
    have hmem : a ∈ (distinctBy key as).filter (key · = key a) := by
      rw [hfilter]
      exact List.mem_cons_self
    exact (List.mem_filter.1 hmem).1

/-- A list without repeated keys loses nothing. -/
theorem distinctBy_eq_self [DecidableEq β] {key : α → β} {as : List α}
    (h : (as.map key).Nodup) : distinctBy key as = as := by
  induction as with
  | nil => rfl
  | cons a as ih =>
    obtain ⟨ha, has⟩ := List.nodup_cons.1 h
    rw [distinctBy, ih has, List.filter_eq_self.2]
    intro b hb
    rw [decide_eq_true_eq]
    intro heq
    exact ha (List.mem_map.2 ⟨b, hb, heq⟩)

theorem mem_distinct [DecidableEq α] {as : List α} {a : α} : a ∈ distinct as ↔ a ∈ as := by
  refine ⟨mem_of_mem_distinctBy, ?_⟩
  intro h
  obtain ⟨b, hb, rfl⟩ := exists_mem_distinctBy id h
  exact hb

/-- The keys that an update leaves: those that were there, and the key itself. -/
theorem mem_upsert [DecidableEq κ] {key : κ} {change : Option α → α} {entries : List (κ × α)}
    {x : κ × α} (h : x ∈ upsert key change entries) :
    x ∈ entries ∨ x = (key, change none) ∨
      ∃ a, (key, a) ∈ entries ∧ x = (key, change (some a)) := by
  induction entries with
  | nil => exact .inr (.inl (List.mem_singleton.1 h))
  | cons e rest ih =>
    obtain ⟨k, a⟩ := e
    rw [upsert] at h
    split at h
    next hk =>
      subst hk
      rcases List.mem_cons.1 h with rfl | h
      · exact .inr (.inr ⟨a, List.mem_cons_self, rfl⟩)
      · exact .inl (List.mem_cons_of_mem _ h)
    next =>
      rcases List.mem_cons.1 h with rfl | h
      · exact .inl List.mem_cons_self
      · rcases ih h with h | h | ⟨b, hb, h⟩
        · exact .inl (List.mem_cons_of_mem _ h)
        · exact .inr (.inl h)
        · exact .inr (.inr ⟨b, List.mem_cons_of_mem _ hb, h⟩)

/-- An update keeps keys apart. -/
theorem pairwise_upsert [DecidableEq κ] (key : κ) (change : Option α → α)
    {entries : List (κ × α)} (h : entries.Pairwise fun x y => x.1 ≠ y.1) :
    (upsert key change entries).Pairwise fun x y => x.1 ≠ y.1 := by
  induction entries with
  | nil => exact List.pairwise_singleton _ _
  | cons e rest ih =>
    obtain ⟨k, a⟩ := e
    obtain ⟨hhead, htail⟩ := List.pairwise_cons.1 h
    rw [upsert]
    split
    · exact .cons hhead htail
    next hne =>
      refine .cons ?_ (ih htail)
      intro y hy
      rcases mem_upsert hy with hy | rfl | ⟨b, -, rfl⟩
      · exact hhead y hy
      · exact hne
      · exact hne

/-- An update changes what is found under its key and nothing else. -/
theorem find?_upsert [DecidableEq κ] (key : κ) (change : Option α → α) (entries : List (κ × α))
    (k : κ) : ((upsert key change entries).find? (·.1 = k)).map (·.2) =
      if key = k then some (change ((entries.find? (·.1 = k)).map (·.2)))
      else (entries.find? (·.1 = k)).map (·.2) := by
  induction entries with
  | nil => by_cases h : key = k <;> simp [upsert, h]
  | cons e rest ih =>
    obtain ⟨l, a⟩ := e
    by_cases hl : l = key
    · subst hl
      by_cases h : l = k <;> simp [upsert, h]
    · by_cases h : l = k
      · subst h
        simp [upsert, hl, Ne.symm hl]
      · simp only [upsert, hl, if_false, List.find?_cons, h, decide_false, ih]

/-- What is found under a key after several updates is made by those with that key. -/
theorem find?_foldl_upsert [DecidableEq κ] (key : β → κ) (change : β → Option α → α)
    (bs : List β) (entries : List (κ × α)) (k : κ) :
    ((bs.foldl (fun l b => upsert (key b) (change b) l) entries).find? (·.1 = k)).map (·.2) =
      (bs.filter (key · = k)).foldl (fun o b => some (change b o))
        ((entries.find? (·.1 = k)).map (·.2)) := by
  induction bs generalizing entries with
  | nil => rfl
  | cons b bs ih =>
    rw [List.foldl_cons, ih, find?_upsert]
    by_cases h : key b = k <;> simp [h]

/-- An entry is found under its key if keys are apart. -/
theorem find?_eq_some_of_mem [DecidableEq κ] {entries : List (κ × α)}
    (h : entries.Pairwise fun x y => x.1 ≠ y.1) {x : κ × α} (hx : x ∈ entries) :
    entries.find? (·.1 = x.1) = some x := by
  induction entries with
  | nil => cases hx
  | cons e rest ih =>
    obtain ⟨hhead, htail⟩ := List.pairwise_cons.1 h
    rcases List.mem_cons.1 hx with rfl | hx
    · simp
    · rw [List.find?_cons_of_neg (by simpa using hhead x hx)]
      exact ih htail hx

end StableProps
