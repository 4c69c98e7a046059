import StableProps.Proofs.Module.Resolution

/-!
# Searches that open each thing once

A search asks about one thing after another and goes on by the answers. What it asks about is looked
into by a search of its own. All of them share one list of what was opened, and a thing that is
asked about again answers nothing.

If a search finds nothing, nothing can be found: all that it could have asked about was opened and
looked into. If it finds something, the list may keep a later search from finding the same thing.
Searches that only open the same things where nothing is to be found do not disturb each other.
-/

namespace StableProps

/-- A search that asks about one thing after another. An answer is what was found, or nothing. -/
inductive Search (α τ ρ : Type) where
  | done (r : ρ)
  | fail (f : Failure)
  | ask (a : α) (next : Option τ → Search α τ ρ)

namespace Search

variable {α κ τ ρ σ : Type}

/-- Goes on by the outcome of a search. -/
def bind : Search α τ ρ → (ρ → Search α τ σ) → Search α τ σ
  | done r, k => k r
  | fail f, _ => fail f
  | ask a next, k => ask a fun found => (next found).bind k

/-- A step that asks about nothing. -/
def ofExcept : Except Failure ρ → Search α τ ρ
  | .ok r => done r
  | .error f => fail f

/-- What the first successful one of several searches finds. -/
def first : List (Search α τ (Option τ)) → Search α τ (Option τ)
  | [] => done none
  | s :: ss => s.bind fun found =>
    match found with
    | some x => done (some x)
    | none => first ss

/-- What several searches find. -/
def each : List (Search α τ (Option τ)) → Search α τ (List τ)
  | [] => done []
  | s :: ss => s.bind fun found => (each ss).bind fun more => done (found.toList ++ more)

/-- Carries out a search, given how to look into a thing after others were opened. -/
def run (look : α → List κ → Except Failure (Option τ × List κ)) :
    Search α τ ρ → List κ → Except Failure (ρ × List κ)
  | done r, opened => .ok (r, opened)
  | fail f, _ => .error f
  | ask a next, opened => do
    let (found, opened) ← look a opened
    (next found).run look opened

/-- The search asks only about things with a property. -/
def AsksOnly (P : α → Prop) : Search α τ ρ → Prop
  | done _ => True
  | fail _ => True
  | ask a next => P a ∧ ∀ found, (next found).AsksOnly P

/-- The search cannot come out with an outcome. -/
def Avoids (r : ρ) : Search α τ ρ → Prop
  | done r' => r' ≠ r
  | fail _ => True
  | ask _ next => ∀ found, (next found).Avoids r

/-- Once something was found, the search cannot come out with an outcome that stands for nothing. -/
def Keeps (nothing : ρ) : Search α τ ρ → Prop
  | done _ => True
  | fail _ => True
  | ask _ next => (∀ x, (next (some x)).Avoids nothing) ∧ (next none).Keeps nothing

/-- If it finds nothing anywhere, the search asks only about what was opened and comes out with an
outcome. -/
def Exhausted (key : α → κ) (opened : List κ) (r : ρ) : Search α τ ρ → Prop
  | done r' => r' = r
  | fail _ => False
  | ask a next => key a ∈ opened ∧ (next none).Exhausted key opened r

section

variable {look : α → List κ → Except Failure (Option τ × List κ)} {P Q : α → Prop}
variable {key : α → κ} {opened opened' : List κ} {s : Search α τ ρ} {k : ρ → Search α τ σ}
variable {r : ρ} {q : σ} {ss : List (Search α τ (Option τ))}

/-- A search that goes on is carried out in two steps. -/
theorem run_bind (s : Search α τ ρ) (k : ρ → Search α τ σ) (opened : List κ) :
    (s.bind k).run look opened =
      s.run look opened >>= fun x => (k x.1).run look x.2 := by
  induction s generalizing opened with
  | done r => rfl
  | fail f => rfl
  | ask a next ih =>
    rw [Search.bind, run, run, bind_assoc]
    exact bind_congr_of_ok fun x _ => ih x.1 x.2

/-- A step that asks about nothing leaves what is opened as it is. -/
theorem run_ofExcept_bind (x : Except Failure ρ) (k : ρ → Search α τ σ) (opened : List κ) :
    ((ofExcept x).bind k).run look opened = x >>= fun r => (k r).run look opened := by
  cases x <;> rfl

/-! ### What is asked about -/

/-- A search that goes on asks about what its two parts ask about. -/
theorem asksOnly_bind (hs : s.AsksOnly P) (hk : ∀ r, (k r).AsksOnly P) :
    (s.bind k).AsksOnly P := by
  induction s with
  | done r => exact hk r
  | fail f => trivial
  | ask a next ih => exact ⟨hs.1, fun found => ih found (hs.2 found)⟩

/-- Behind a step that asks about nothing, only what follows asks. -/
theorem asksOnly_ofExcept_bind {x : Except Failure ρ} (hk : ∀ r, x = .ok r → (k r).AsksOnly P) :
    ((ofExcept x).bind k).AsksOnly P := by
  cases x with
  | ok r => exact hk r rfl
  | error f => trivial

/-- The first answer of several searches asks about what they ask about. -/
theorem asksOnly_first (h : ∀ s ∈ ss, s.AsksOnly P) : (first ss).AsksOnly P := by
  induction ss with
  | nil => trivial
  | cons s ss ih =>
    obtain ⟨hs, hss⟩ := List.forall_mem_cons.1 h
    refine asksOnly_bind hs fun found => ?_
    cases found with
    | some x => trivial
    | none => exact ih hss

/-- All answers of several searches ask about what they ask about. -/
theorem asksOnly_each (h : ∀ s ∈ ss, s.AsksOnly P) : (each ss).AsksOnly P := by
  induction ss with
  | nil => trivial
  | cons s ss ih =>
    obtain ⟨hs, hss⟩ := List.forall_mem_cons.1 h
    exact asksOnly_bind hs fun found => asksOnly_bind (ih hss) fun more => trivial

/-! ### What is not lost -/

private theorem avoids_bind (hk : ∀ r, (k r).Avoids q) : (s.bind k).Avoids q := by
  induction s with
  | done r => exact hk r
  | fail f => trivial
  | ask a next ih => exact fun found => ih found

/-- An outcome that is avoided is not passed on. -/
theorem avoids_bind_of_avoids (hs : s.Avoids r) (hk : ∀ r', r' ≠ r → (k r').Avoids q) :
    (s.bind k).Avoids q := by
  induction s with
  | done r' => exact hk r' hs
  | fail f => trivial
  | ask a next ih => exact fun found => ih found (hs found)

/-- A search that cannot come out with nothing loses nothing. -/
theorem Avoids.keeps (h : s.Avoids r) : s.Keeps r := by
  induction s with
  | done r' => trivial
  | fail f => trivial
  | ask a next ih => exact ⟨fun x => h (some x), ih none (h none)⟩

/-- A find is kept if both parts keep it and the second one does not undo the first. -/
theorem keeps_bind (hs : s.Keeps r) (hk : ∀ r', (k r').Keeps q)
    (havoids : ∀ r', r' ≠ r → (k r').Avoids q) : (s.bind k).Keeps q := by
  induction s with
  | done r' => exact hk r'
  | fail f => trivial
  | ask a next ih =>
    exact ⟨fun x => avoids_bind_of_avoids (hs.1 x) havoids, ih none hs.2⟩

/-- Behind a step that asks about nothing, a find is kept if what follows keeps it. -/
theorem keeps_ofExcept_bind {x : Except Failure ρ} (hk : ∀ r, (k r).Keeps q) :
    ((ofExcept x).bind k).Keeps q := by
  cases x with
  | ok r => exact hk r
  | error f => trivial

/-- The first answer of several searches keeps what one of them finds. -/
theorem keeps_first (h : ∀ s ∈ ss, s.Keeps none) : (first ss).Keeps none := by
  induction ss with
  | nil => trivial
  | cons s ss ih =>
    obtain ⟨hs, hss⟩ := List.forall_mem_cons.1 h
    refine keeps_bind hs (fun found => ?_) fun found hfound => ?_
    · cases found with
      | some x => trivial
      | none => exact ih hss
    · cases found with
      | some x => exact nofun
      | none => exact absurd rfl hfound

/-- All answers of several searches keep what one of them finds. -/
theorem keeps_each (h : ∀ s ∈ ss, s.Keeps none) : (each ss).Keeps [] := by
  induction ss with
  | nil => trivial
  | cons s ss ih =>
    obtain ⟨hs, hss⟩ := List.forall_mem_cons.1 h
    refine keeps_bind hs (fun found => ?_) fun found hfound => ?_
    · refine keeps_bind (ih hss) (fun more => trivial) fun more hmore => ?_
      simp [Avoids, hmore]
    · refine avoids_bind fun more => ?_
      cases found with
      | some x => simp [Avoids]
      | none => exact absurd rfl hfound

/-! ### What was gone through -/

/-- A search that is exhausted is so with more things opened. -/
theorem Exhausted.mono (h : s.Exhausted key opened r) (hsub : opened ⊆ opened') :
    s.Exhausted key opened' r := by
  induction s with
  | done r' => exact h
  | fail f => exact h
  | ask a next ih => exact ⟨hsub h.1, ih none h.2⟩

/-- A search that goes on is exhausted in two steps. -/
theorem exhausted_bind :
    (s.bind k).Exhausted key opened q ↔
      ∃ r, s.Exhausted key opened r ∧ (k r).Exhausted key opened q := by
  induction s with
  | done r' => simp [Search.bind, Exhausted]
  | fail f => simp [Search.bind, Exhausted]
  | ask a next ih => simp [Search.bind, Exhausted, ih, and_assoc]

/-- If all of several searches together are exhausted, each of them is. -/
theorem exhausted_of_each (h : (each ss).Exhausted key opened []) :
    ∀ s ∈ ss, s.Exhausted key opened none := by
  induction ss with
  | nil => simp
  | cons s ss ih =>
    obtain ⟨found, hs, h⟩ := exhausted_bind.1 h
    obtain ⟨more, hss, h⟩ := exhausted_bind.1 h
    obtain ⟨hfound, rfl⟩ := List.append_eq_nil_iff.1 h
    obtain rfl := Option.toList_eq_nil_iff.1 hfound
    exact List.forall_mem_cons.2 ⟨hs, ih hss⟩

/-! ### What stays opened -/

/-- What is opened stays opened if each look keeps it so. -/
private theorem subset_of_run
    (hlook : ∀ a opened found opened', look a opened = .ok (found, opened') → opened ⊆ opened')
    (h : s.run look opened = .ok (r, opened')) : opened ⊆ opened' := by
  induction s generalizing opened with
  | done r' =>
    obtain ⟨-, rfl⟩ := Prod.mk.inj (Except.ok.inj h)
    exact List.Subset.refl _
  | fail f => cases h
  | ask a next ih =>
    obtain ⟨⟨found, between⟩, hfound, h⟩ := bind_eq_ok.1 h
    exact List.Subset.trans (hlook a opened found between hfound) (ih found h)

/-- A search that keeps what it finds and comes out with nothing found nothing on its way. -/
theorem ne_of_avoids (hs : s.Avoids r) (h : s.run look opened = .ok (r, opened')) : False := by
  induction s generalizing opened with
  | done r' => exact hs (Prod.mk.inj (Except.ok.inj h)).1
  | fail f => cases h
  | ask a next ih =>
    obtain ⟨⟨found, between⟩, -, h⟩ := bind_eq_ok.1 h
    exact ih found (hs found) h

end

/-! ## Spaces of things that can be looked into -/

/-- Things that are told apart by their keys, each with the search that looks into it. -/
structure Space (α κ τ : Type) where
  key : α → κ
  inside : α → Search α τ (Option τ)

namespace Space

/-- Something can be found by a search, or inside of what it asks about. -/
inductive Finds (S : Space α κ τ) : Search α τ (Option τ) → Prop where
  | here (x : τ) : Finds S (done (some x))
  | asked {a : α} {next : Option τ → Search α τ (Option τ)} (inside : Finds S (S.inside a)) :
      Finds S (ask a next)
  | onward {a : α} {next : Option τ → Search α τ (Option τ)} (rest : Finds S (next none)) :
      Finds S (ask a next)

/-- Each thing that is met and was opened has a property, or all that can be asked about inside of
it was opened as well. Things that are still looked into do not count. -/
def Settled (S : Space α κ τ) (Met X : α → Prop) (pending opened : List κ) : Prop :=
  ∀ a, Met a → S.key a ∈ opened →
    S.key a ∈ pending ∨ X a ∨ (S.inside a).Exhausted S.key opened none

/-- What was opened in all, by one search and before it. -/
def Joins (before opened both : List κ) : Prop := ∀ k, k ∈ both ↔ k ∈ opened ∨ k ∈ before

/-- Nothing can be found inside of what is opened in both of two searches. -/
def Apart (S : Space α κ τ) (Met : α → Prop) (opened opened' : List κ) : Prop :=
  ∀ a, Met a → S.key a ∈ opened → S.key a ∈ opened' → ¬S.Finds (S.inside a)

variable [DecidableEq κ]

/-- Looks into a thing that was not opened before, going at most so deep. -/
def look (S : Space α κ τ) : Nat → α → List κ → Except Failure (Option τ × List κ)
  | 0, _, opened => .ok (none, opened)
  | fuel + 1, a, opened =>
    if S.key a ∈ opened then .ok (none, opened)
    else (S.inside a).run (S.look fuel) (S.key a :: opened)

/-- Searches that start at some things meet no other ones. Those that ask on are told apart by
finitely many keys. -/
structure Encloses (S : Space α κ τ) (Met : α → Prop) (keys : Finset κ) : Prop where
  asksOnly : ∀ a, Met a → (S.inside a).AsksOnly Met
  keeps : ∀ a, Met a → (S.inside a).Keeps none
  unique : ∀ a b, Met a → Met b → S.key a = S.key b → a = b
  mem : ∀ a, Met a → S.key a ∈ keys ∨ (S.inside a).AsksOnly fun _ => False

section

variable {S : Space α κ τ} {Met X Q : α → Prop} {keys : Finset κ} {fuel : Nat} {a : α}
variable {s : Search α τ (Option τ)} {found : Option τ}
variable {pending opened opened' before both : List κ}

/-- What is opened stays opened. -/
private theorem subset_of_look (fuel : Nat) (a : α) (opened : List κ) (found : Option τ)
    (opened' : List κ) (h : S.look fuel a opened = .ok (found, opened')) : opened ⊆ opened' := by
  induction fuel generalizing a opened found opened' with
  | zero =>
    obtain ⟨-, rfl⟩ := Prod.mk.inj (Except.ok.inj h)
    exact List.Subset.refl _
  | succ fuel ih =>
    rw [look] at h
    split at h
    · obtain ⟨-, rfl⟩ := Prod.mk.inj (Except.ok.inj h)
      exact List.Subset.refl _
    · exact List.Subset.trans (List.subset_cons_self _ _) (subset_of_run ih h)

/-! ### What is found is there -/

omit [DecidableEq κ] in
/-- What a search finds can be found if each look finds only such things. -/
private theorem finds_of_run' {look : α → List κ → Except Failure (Option τ × List κ)}
    (hlook : ∀ a opened x opened', look a opened = .ok (some x, opened') →
      S.Finds (S.inside a))
    {x : τ} (h : s.run look opened = .ok (some x, opened')) : S.Finds s := by
  induction s generalizing opened with
  | done r =>
    obtain ⟨rfl, -⟩ := Prod.mk.inj (Except.ok.inj h)
    exact .here x
  | fail f => cases h
  | ask a next ih =>
    obtain ⟨⟨found, between⟩, hfound, h⟩ := bind_eq_ok.1 h
    cases found with
    | some y => exact .asked (hlook a opened y between hfound)
    | none => exact .onward (ih none h)

/-- What a look finds can be found inside of the thing. -/
private theorem finds_of_look (fuel : Nat) (a : α) (opened : List κ) (x : τ) (opened' : List κ)
    (h : S.look fuel a opened = .ok (some x, opened')) : S.Finds (S.inside a) := by
  induction fuel generalizing a opened x opened' with
  | zero => cases h
  | succ fuel ih =>
    rw [look] at h
    split at h
    · cases h
    · exact finds_of_run' ih h

/-- What a search finds can be found. -/
theorem finds_of_run {x : τ} (h : s.run (S.look fuel) opened = .ok (some x, opened')) :
    S.Finds s :=
  finds_of_run' (finds_of_look fuel) h

/-! ### What is not found is not there -/

section

omit [DecidableEq κ]

/-- Things that are settled by each of two searches are settled by both together. -/
private theorem Settled.joins (h : S.Settled Met X [] opened) (hbefore : S.Settled Met X [] before)
    (hjoins : Joins before opened both) : S.Settled Met X [] both := by
  intro a ha hmem
  rcases (hjoins _).1 hmem with hmem | hmem
  · exact (h a ha hmem).imp_right
      (Or.imp_right (Exhausted.mono · fun k hk => (hjoins k).2 (.inl hk)))
  · exact (hbefore a ha hmem).imp_right
      (Or.imp_right (Exhausted.mono · fun k hk => (hjoins k).2 (.inr hk)))

/-- A thing that is still looked into does not disturb the settled ones. -/
theorem Settled.cons (h : S.Settled Met X pending opened) (k : κ) :
    S.Settled Met X (k :: pending) (k :: opened) := by
  intro a ha hmem
  rcases List.mem_cons.1 hmem with heq | hmem
  · exact .inl (heq ▸ List.mem_cons_self)
  · refine (h a ha hmem).imp (List.mem_cons_of_mem _) (Or.imp_right ?_)
    exact (Exhausted.mono · (List.subset_cons_self _ _))

/-- A thing that was looked into is settled like the others. -/
theorem Settled.of_cons (h : S.Settled Met X (S.key a :: pending) opened)
    (hunique : ∀ b, Met b → S.key b = S.key a → b = a)
    (ha : X a ∨ (S.inside a).Exhausted S.key opened none) : S.Settled Met X pending opened := by
  intro b hb hmem
  rcases h b hb hmem with hmem | hrest
  · rcases List.mem_cons.1 hmem with heq | hmem
    · exact .inr (hunique b hb heq ▸ ha)
    · exact .inl hmem
  · exact .inr hrest

end

/-- Looking into a thing leaves things settled. If it finds anything, the property has to hold of
everything with something inside. -/
def KeepsSettled (S : Space α κ τ) (Met X : α → Prop) (pending : List κ) (a : α)
    (look : List κ → Except Failure (Option τ × List κ)) (opened : List κ) : Prop :=
  S.Settled Met X pending opened → ∀ found opened', look opened = .ok (found, opened') →
    (found = none ∨ ∀ b, S.Finds (S.inside b) → X b) →
    S.key a ∈ opened' ∧ S.Settled Met X pending opened'

/-- A search leaves things settled. Only where nothing is found does it go through all that it could
come to. -/
theorem settled_of_run {ρ : Type} {s : Search α τ ρ} {r nothing : ρ} (hs : s.AsksOnly Q)
    (hkeeps : s.Keeps nothing)
    (hlook : ∀ a, Q a → ∀ between, opened ⊆ between →
      S.KeepsSettled Met X pending a (S.look fuel a) between)
    (hsettled : S.Settled Met X pending opened)
    (h : s.run (S.look fuel) opened = .ok (r, opened'))
    (hX : r = nothing ∨ ∀ b, S.Finds (S.inside b) → X b) :
    S.Settled Met X pending opened' ∧ (r = nothing → s.Exhausted S.key opened' nothing) := by
  induction s generalizing opened with
  | done r' =>
    obtain ⟨rfl, rfl⟩ := Prod.mk.inj (Except.ok.inj h)
    exact ⟨hsettled, id⟩
  | fail f => cases h
  | ask a next ih =>
    obtain ⟨⟨found, between⟩, hfound, h⟩ := bind_eq_ok.1 h
    have hnone (hr : r = nothing) : found = none := by
      cases found with
      | some x => exact (ne_of_avoids (hkeeps.1 x) (hr ▸ h)).elim
      | none => rfl
    obtain ⟨hopened, hbetween⟩ := hlook a hs.1 opened (List.Subset.refl _) hsettled found between
      hfound (hX.imp_left hnone)
    have hsub := subset_of_look _ _ _ _ _ hfound
    -- Once something was found, the rest of the search cannot come out with nothing.
    have hnext : (next found).Keeps nothing := by
      cases found with
      | some x => exact (hkeeps.1 x).keeps
      | none => exact hkeeps.2
    have hlook' (b : α) (hb : Q b) (after : List κ) (hafter : between ⊆ after) :
        S.KeepsSettled Met X pending b (S.look fuel b) after :=
      hlook b hb after (List.Subset.trans hsub hafter)
    obtain ⟨hsettled', hrest⟩ := ih found (hs.2 found) hnext hlook' hbetween h
    refine ⟨hsettled', fun hr => ?_⟩
    obtain rfl := hnone hr
    have hsub' := subset_of_run (subset_of_look fuel) h
    exact ⟨hsub' hopened, hrest hr⟩

/-- Once a thing is opened, fewer steps are enough for what is inside of it. -/
theorem card_sdiff_lt_of_subset {k : κ} (hmem : k ∈ keys) (hnew : k ∉ opened)
    (hfuel : (keys \ opened.toFinset).card < fuel + 1) (hsub : k :: opened ⊆ opened') :
    (keys \ opened'.toFinset).card < fuel := by
  refine lt_of_le_of_lt (Finset.card_le_card ?_) (Project.card_sdiff_cons_lt hmem hnew hfuel)
  exact Finset.sdiff_subset_sdiff (Finset.Subset.refl _) fun k hk =>
    List.mem_toFinset.2 (hsub (List.mem_toFinset.1 hk))

/-- A look with enough steps leaves things settled. -/
private theorem keepsSettled_look (h : S.Encloses Met keys) (ha : Met a)
    (hfuel : (keys \ opened.toFinset).card < fuel) :
    S.KeepsSettled Met X pending a (S.look fuel a) opened := by
  induction fuel generalizing pending opened a with
  | zero => omega
  | succ fuel ih =>
    intro hsettled found opened' hlook hX
    rw [look] at hlook
    split at hlook
    next hold =>
      obtain ⟨-, rfl⟩ := Prod.mk.inj (Except.ok.inj hlook)
      exact ⟨hold, hsettled⟩
    next hnew =>
      have hpending := hsettled.cons (S.key a)
      have hinside : S.Settled Met X (S.key a :: pending) opened' ∧
          (found = none → (S.inside a).Exhausted S.key opened' none) := by
        rcases h.mem a ha with hkey | hleaf
        · exact settled_of_run (h.asksOnly a ha) (h.keeps a ha)
            (fun b hb between hsub => ih hb (card_sdiff_lt_of_subset hkey hnew hfuel hsub))
            hpending hlook hX
        · exact settled_of_run hleaf (h.keeps a ha) (fun b hb => hb.elim) hpending hlook hX
      have hopened := subset_of_run (subset_of_look fuel) hlook List.mem_cons_self
      refine ⟨hopened, hinside.1.of_cons (fun b hb heq => h.unique b a hb ha heq) ?_⟩
      cases found with
      | some x => exact .inl (hX.resolve_left nofun a (finds_of_run hlook))
      | none => exact .inr (hinside.2 rfl)

omit [DecidableEq κ] in
/-- Nothing can be found by a search that only asks about what was opened in vain. -/
theorem Encloses.not_finds (h : S.Encloses Met keys)
    (hsettled : S.Settled Met (fun _ => False) [] opened) (hs : s.AsksOnly Met)
    (hexhausted : s.Exhausted S.key opened none) : ¬S.Finds s := by
  intro hfinds
  induction hfinds with
  | here x => cases hexhausted
  | @asked a next _ ih =>
    rcases hsettled a hs.1 hexhausted.1 with hmem | hfalse | hinside
    · cases hmem
    · exact hfalse
    · exact ih (h.asksOnly a hs.1) hinside
  | @onward a next _ ih => exact ih (hs.2 none) hexhausted.2

section

variable {ρ : Type} {t : Search α τ ρ} {r nothing : ρ}

/-- A search with enough steps settles what it opens. -/
theorem Encloses.settled (h : S.Encloses Met keys) (ht : t.AsksOnly Met)
    (hkeeps : t.Keeps nothing) (hfuel : keys.card < fuel)
    (hrun : t.run (S.look fuel) [] = .ok (r, opened'))
    (hX : r = nothing ∨ ∀ b, S.Finds (S.inside b) → X b) :
    S.Settled Met X [] opened' ∧ (r = nothing → t.Exhausted S.key opened' nothing) := by
  refine settled_of_run ht hkeeps (fun a ha between _ => ?_) (fun a _ hmem => by cases hmem) hrun hX
  exact keepsSettled_look h ha ((Finset.card_le_card Finset.sdiff_subset).trans_lt hfuel)

/-- A search that comes out with nothing went through all that it could come to. -/
theorem Encloses.exhausted (h : S.Encloses Met keys) (ht : t.AsksOnly Met)
    (hkeeps : t.Keeps nothing) (hfuel : keys.card < fuel)
    (hrun : t.run (S.look fuel) [] = .ok (nothing, opened')) :
    S.Settled Met (fun _ => False) [] opened' ∧ t.Exhausted S.key opened' nothing :=
  (h.settled ht hkeeps hfuel hrun (.inl rfl)).imp_right fun hexhausted => hexhausted rfl

/-- There is nothing to be found in what such a search opened. -/
theorem Encloses.not_finds_inside (h : S.Encloses Met keys) (ht : t.AsksOnly Met)
    (hkeeps : t.Keeps nothing) (hfuel : keys.card < fuel)
    (hrun : t.run (S.look fuel) [] = .ok (nothing, opened')) (ha : Met a)
    (hmem : S.key a ∈ opened') : ¬S.Finds (S.inside a) := by
  have hsettled := (h.exhausted ht hkeeps hfuel hrun).1
  have hinside := ((hsettled a ha hmem).resolve_left List.not_mem_nil).resolve_left id
  exact h.not_finds hsettled (h.asksOnly a ha) hinside

end

/-- With enough steps, a search finds something exactly if there is something to be found. -/
theorem Encloses.isSome_iff (h : S.Encloses Met keys) (hs : s.AsksOnly Met)
    (hkeeps : s.Keeps none) (hfuel : keys.card < fuel)
    (hrun : s.run (S.look fuel) [] = .ok (found, opened')) : found.isSome = true ↔ S.Finds s := by
  cases found with
  | some x => exact ⟨fun _ => finds_of_run hrun, fun _ => rfl⟩
  | none =>
    obtain ⟨hsettled, hexhausted⟩ := h.exhausted hs hkeeps hfuel hrun
    exact ⟨nofun, fun hfinds => (h.not_finds hsettled hs hexhausted hfinds).elim⟩

/-! ### More steps -/

omit [DecidableEq κ] in
/-- A search has the same outcome by two looks that agree on all it can come to. -/
private theorem run_congr {ρ : Type} {look look' : α → List κ → Except Failure (Option τ × List κ)}
    {s : Search α τ ρ} (hs : s.AsksOnly Q)
    (hsub : ∀ a opened found opened', look a opened = .ok (found, opened') → opened ⊆ opened')
    (hlook : ∀ a, Q a → ∀ between, opened ⊆ between → look a between = look' a between) :
    s.run look opened = s.run look' opened := by
  induction s generalizing opened with
  | done r => rfl
  | fail f => rfl
  | ask a next ih =>
    rw [run, run, ← hlook a hs.1 opened (List.Subset.refl _)]
    refine bind_congr_of_ok fun x hx => ih x.1 (hs.2 x.1) fun b hb between hbetween => ?_
    exact hlook b hb between (List.Subset.trans (hsub _ _ _ _ hx) hbetween)

/-- With enough steps, more of them make no difference to a look. -/
private theorem look_eq (h : S.Encloses Met keys) (fuel fuel' : Nat) (opened : List κ) (ha : Met a)
    (hfuel : (keys \ opened.toFinset).card < fuel)
    (hfuel' : (keys \ opened.toFinset).card < fuel') :
    S.look fuel a opened = S.look fuel' a opened := by
  induction fuel generalizing fuel' a opened with
  | zero => omega
  | succ fuel ih =>
    obtain ⟨fuel', rfl⟩ : ∃ n, fuel' = n + 1 := ⟨fuel' - 1, by omega⟩
    rw [look, look]
    split
    · rfl
    next hnew =>
      rcases h.mem a ha with hkey | hleaf
      · refine run_congr (h.asksOnly a ha) (subset_of_look fuel) fun b hb between hsub => ?_
        exact ih fuel' between hb (card_sdiff_lt_of_subset hkey hnew hfuel hsub)
          (card_sdiff_lt_of_subset hkey hnew hfuel' hsub)
      · exact run_congr hleaf (subset_of_look fuel) fun b hb => hb.elim

/-- With enough steps, more of them make no difference. -/
theorem Encloses.run_eq (h : S.Encloses Met keys) (hs : s.AsksOnly Met) {fuel' : Nat}
    (hfuel : keys.card < fuel) (hfuel' : keys.card < fuel') :
    s.run (S.look fuel) [] = s.run (S.look fuel') [] := by
  refine run_congr hs (subset_of_look fuel) fun a ha between _ => ?_
  have hcard := Finset.card_le_card (Finset.sdiff_subset (s := keys) (t := between.toFinset))
  exact look_eq h fuel fuel' between ha (hcard.trans_lt hfuel) (hcard.trans_lt hfuel')

/-! ### Searches after others -/

omit [DecidableEq κ] in
/-- A search that finds nothing, and would come only to what was opened by another one, opens
nothing else. -/
theorem confined_of_run {look : α → List κ → Except Failure (Option τ × List κ)}
    (hlook : ∀ a, Met a → S.key a ∈ before → ¬S.Finds (S.inside a) →
      ∀ opened found opened', look a opened = .ok (found, opened') →
        found = none ∧ ∀ k ∈ opened', k ∈ opened ∨ k ∈ before)
    (hs : s.AsksOnly Met) (hexhausted : s.Exhausted S.key before none) (hfinds : ¬S.Finds s)
    (h : s.run look opened = .ok (found, opened')) : ∀ k ∈ opened', k ∈ opened ∨ k ∈ before := by
  induction s generalizing opened with
  | done r =>
    obtain ⟨-, rfl⟩ := Prod.mk.inj (Except.ok.inj h)
    exact fun k hk => .inl hk
  | fail f => cases h
  | ask a next ih =>
    obtain ⟨⟨found', between⟩, hfound, h⟩ := bind_eq_ok.1 h
    obtain ⟨rfl, hbetween⟩ := hlook a hs.1 hexhausted.1 (fun hin => hfinds (.asked hin)) opened
      found' between hfound
    intro k hk
    rcases ih none (hs.2 none) hexhausted.2 (fun hin => hfinds (.onward hin)) h k hk with hk | hk
    · exact hbetween k hk
    · exact .inr hk

/-- A thing that was opened in vain answers nothing, and inside of it there is nothing new. -/
theorem confined_of_look (h : S.Encloses Met keys)
    (hsettled : S.Settled Met (fun b => S.Finds (S.inside b)) [] before) (fuel : Nat) (a : α)
    (ha : Met a) (hmem : S.key a ∈ before) (hfinds : ¬S.Finds (S.inside a)) (opened : List κ)
    (found : Option τ) (opened' : List κ) (hlook : S.look fuel a opened = .ok (found, opened')) :
    found = none ∧ ∀ k ∈ opened', k ∈ opened ∨ k ∈ before := by
  induction fuel generalizing a opened found opened' with
  | zero =>
    obtain ⟨rfl, rfl⟩ := Prod.mk.inj (Except.ok.inj hlook)
    exact ⟨rfl, fun k hk => .inl hk⟩
  | succ fuel ih =>
    rw [look] at hlook
    split at hlook
    · obtain ⟨rfl, rfl⟩ := Prod.mk.inj (Except.ok.inj hlook)
      exact ⟨rfl, fun k hk => .inl hk⟩
    · have hinside := ((hsettled a ha hmem).resolve_left List.not_mem_nil).resolve_left hfinds
      constructor
      · cases found with
        | some x => exact (hfinds (finds_of_run hlook)).elim
        | none => rfl
      · intro k hk
        rcases confined_of_run ih (h.asksOnly a ha) hinside hfinds hlook k hk with hk | hk
        · rcases List.mem_cons.1 hk with rfl | hk
          · exact .inr hmem
          · exact .inl hk
        · exact .inr hk

/-- Answers do not depend on what was opened before in vain. -/
def Undisturbed (S : Space α κ τ) (Met : α → Prop) (before : List κ)
    (look : List κ → Except Failure (ρ × List κ)) : Prop :=
  ∀ opened both r opened', look opened = .ok (r, opened') → S.Apart Met before opened' →
    Joins before opened both →
      ∃ both', look both = .ok (r, both') ∧ Joins before opened' both'

omit [DecidableEq κ] in
/-- A search is undisturbed if each look is. -/
private theorem undisturbed_run {ρ : Type} {look : α → List κ → Except Failure (Option τ × List κ)}
    {s : Search α τ ρ}
    (hsub : ∀ a opened found opened', look a opened = .ok (found, opened') → opened ⊆ opened')
    (hlook : ∀ a, Met a → S.Undisturbed Met before (look a)) (hs : s.AsksOnly Met) :
    S.Undisturbed Met before (s.run look) := by
  intro opened both r opened' h hapart hjoins
  induction s generalizing opened both with
  | done r' =>
    obtain ⟨rfl, rfl⟩ := Prod.mk.inj (Except.ok.inj h)
    exact ⟨both, rfl, hjoins⟩
  | fail f => cases h
  | ask a next ih =>
    obtain ⟨⟨found, between⟩, hfound, h⟩ := bind_eq_ok.1 h
    have hbetween : S.Apart Met before between := fun b hb hmem hmem' =>
      hapart b hb hmem (subset_of_run hsub h hmem')
    obtain ⟨after, hafter, hjoins⟩ := hlook a hs.1 opened both found between hfound hbetween hjoins
    obtain ⟨both', hboth', hjoins⟩ := ih found (hs.2 found) between after h hjoins
    exact ⟨both', bind_eq_ok.2 ⟨_, hafter, hboth'⟩, hjoins⟩

/-- A look is undisturbed by what was settled before. -/
private theorem undisturbed_look (h : S.Encloses Met keys)
    (hsettled : S.Settled Met (fun b => S.Finds (S.inside b)) [] before) (fuel : Nat) (a : α)
    (ha : Met a) : S.Undisturbed Met before (S.look fuel a) := by
  induction fuel generalizing a with
  | zero =>
    intro opened both found opened' hlook _ hjoins
    obtain ⟨rfl, rfl⟩ := Prod.mk.inj (Except.ok.inj hlook)
    exact ⟨both, rfl, hjoins⟩
  | succ fuel ih =>
    intro opened both found opened' hlook hapart hjoins
    have hsub := subset_of_look _ _ _ _ _ hlook
    by_cases hold : S.key a ∈ opened
    · rw [look, if_pos hold] at hlook
      obtain ⟨rfl, rfl⟩ := Prod.mk.inj (Except.ok.inj hlook)
      exact ⟨both, if_pos ((hjoins _).2 (.inl hold)), hjoins⟩
    · by_cases hmem : S.key a ∈ before
      · -- Only the search by itself looks into the thing again, and it finds nothing there.
        have hopened : S.key a ∈ opened' := by
          rw [look, if_neg hold] at hlook
          exact subset_of_run (subset_of_look fuel) hlook List.mem_cons_self
        obtain ⟨rfl, hconfined⟩ := confined_of_look h hsettled _ a ha hmem
          (hapart a ha hmem hopened) opened found opened' hlook
        refine ⟨both, if_pos ((hjoins _).2 (.inr hmem)), fun k => (hjoins k).trans ?_⟩
        exact ⟨Or.imp_left fun hk => hsub hk, fun hk => hk.elim (hconfined k) .inr⟩
      · have hnew : S.key a ∉ both := fun hboth => ((hjoins _).1 hboth).elim hold hmem
        rw [look, if_neg hold] at hlook
        rw [look, if_neg hnew]
        refine undisturbed_run (subset_of_look fuel) ih (h.asksOnly a ha) _ _ found opened' hlook
          hapart fun k => ?_
        rw [List.mem_cons, List.mem_cons, hjoins k, or_assoc]

/-! ### Several searches -/

/-- Searches that come to the same things only in vain find together what each of them finds. -/
theorem Encloses.run_each (h : S.Encloses Met keys) (hfuel : keys.card < fuel)
    {ss : List (Search α τ (Option τ))} {outcomes : List (Option τ × List κ)}
    (hasks : ∀ s ∈ ss, s.AsksOnly Met) (hkeeps : ∀ s ∈ ss, s.Keeps none)
    (houtcomes : ss.mapM (·.run (S.look fuel) []) = .ok outcomes)
    (hapart : outcomes.Pairwise fun x y => S.Apart Met x.2 y.2)
    (hsettled : S.Settled Met (fun b => S.Finds (S.inside b)) [] before)
    (hbefore : ∀ x ∈ outcomes, S.Apart Met before x.2) :
    ∃ opened, (each ss).run (S.look fuel) before =
      .ok (outcomes.flatMap (·.1.toList), opened) := by
  induction ss generalizing before outcomes with
  | nil =>
    obtain rfl := Except.ok.inj houtcomes
    exact ⟨before, rfl⟩
  | cons s ss ih =>
    rw [List.mapM_cons] at houtcomes
    obtain ⟨⟨found, opened⟩, hrun, houtcomes⟩ := bind_eq_ok.1 houtcomes
    obtain ⟨outcomes, hrest, houtcomes⟩ := bind_eq_ok.1 houtcomes
    obtain rfl := Except.ok.inj houtcomes
    obtain ⟨hasks, hallAsk⟩ := List.forall_mem_cons.1 hasks
    obtain ⟨hkeeps, hallKeep⟩ := List.forall_mem_cons.1 hkeeps
    obtain ⟨hhead, hapart⟩ := List.pairwise_cons.1 hapart
    obtain ⟨hfirst, hbefore⟩ := List.forall_mem_cons.1 hbefore
    obtain ⟨both, hboth, hjoins⟩ := undisturbed_run (subset_of_look fuel)
      (undisturbed_look h hsettled fuel) hasks [] before found opened hrun hfirst (by simp [Joins])
    have hopened := (h.settled hasks hkeeps hfuel hrun (.inr fun _ => id)).1
    obtain ⟨opened', hopened'⟩ := ih hallAsk hallKeep hrest hapart (hopened.joins hsettled hjoins)
      fun y hy b hb hmem => ((hjoins _).1 hmem).elim (hhead y hy b hb) (hbefore y hy b hb)
    refine ⟨opened', ?_⟩
    rw [each, run_bind, hboth]
    change ((each ss).bind fun more => done (found.toList ++ more)).run _ both = _
    rw [run_bind, hopened']
    rfl

end

end Space

end Search

end StableProps
