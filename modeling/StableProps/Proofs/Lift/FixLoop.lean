import Mathlib.Logic.Relation
import StableProps.Proofs.Lift.CachedFix
import StableProps.Proofs.Lift.Selection

/-!
# Fixing until nothing is left

A fix is a sequence of passes, each of which applies what it selects. It ends because a pass selects
nothing, or after ten of them. If a pass selects nothing, no finding of the source reached has a
suggestion; another fix then starts with that same pass and changes nothing.
-/

namespace StableProps

open MonadAttach (CanReturn)

namespace Fix

section

variable {m : Type → Type} [Monad m] [MonadExceptOf Failure m] [MonadAttach m]

/-- One pass that selects something and applies it. -/
inductive Step (w : Workspace m) (o : Options) (p : Progress) : Progress → Prop where
  | pass {findings : List Finding} {edits : List Edit}
      (found : CanReturn (w.findings o p.source) findings)
      (nonempty : select p.source findings ≠ [])
      (assembled : Patch.assemble p.source (select p.source findings) = .ok edits) :
      Step w o p (p.after (select p.source findings) edits)

/-- One progress comes from another one by any number of passes. -/
def Reaches (w : Workspace m) (o : Options) : Progress → Progress → Prop :=
  Relation.ReflTransGen (Step w o)

/-- What passes keep: where the source is and its language, and that each pass applies something. -/
structure Continues (p q : Progress) : Prop where
  path : q.source.path = p.source.path
  language : q.source.language = p.source.language
  passes_le : p.passes ≤ q.passes
  applied_le : q.passes + p.applied ≤ q.applied + p.passes
  eq_of_passes_eq : q.passes = p.passes → q = p

/-- A source is the reading of its text. -/
def IsParsed (s : Source) : Prop := s = .parsed s.path s.language s.text

variable {w : Workspace m} {o : Options} {p q : Progress}

private theorem Step.continues (h : Step w o p q) : Continues p q := by
  cases h with
  | pass found nonempty assembled =>
    have hlength := List.length_pos_iff.2 nonempty
    refine ⟨rfl, rfl, Nat.le_succ _, ?_, ?_⟩
    · change p.passes + 1 + p.applied ≤ p.applied + (select p.source _).length + p.passes
      omega
    · intro heq
      exact absurd heq (Nat.succ_ne_self _)

theorem Continues.trans {r : Progress} (hpq : Continues p q) (hqr : Continues q r) :
    Continues p r where
  path := hqr.path.trans hpq.path
  language := hqr.language.trans hpq.language
  passes_le := Nat.le_trans hpq.passes_le hqr.passes_le
  applied_le := by
    have h₁ := hpq.applied_le
    have h₂ := hqr.applied_le
    omega
  eq_of_passes_eq := by
    intro heq
    have h₁ := hpq.passes_le
    have h₂ := hqr.passes_le
    rw [hqr.eq_of_passes_eq (by omega), hpq.eq_of_passes_eq (by omega)]

/-- All passes together keep what each of them keeps. -/
theorem Reaches.continues (h : Reaches w o p q) : Continues p q := by
  induction h with
  | refl => exact ⟨rfl, rfl, Nat.le_refl _, Nat.le_of_eq (Nat.add_comm _ _), fun _ => rfl⟩
  | tail _ hstep ih => exact ih.trans hstep.continues

private theorem Reaches.isParsed (h : Reaches w o p q) (hp : IsParsed p.source) :
    IsParsed q.source := by
  cases h with
  | refl => exact hp
  | tail _ hstep =>
    cases hstep with
    | pass found nonempty assembled => rfl

variable [LawfulMonad m] [LawfulMonadAttach m] [LawfulFailure m]

/-- A fix makes at most the given number of passes, and fewer only if nothing is selected in the
source that it has reached. -/
theorem reaches_of_advance {passes : Nat} (h : CanReturn (advance w o passes p) q) :
    Reaches w o p q ∧ q.passes ≤ p.passes + passes ∧
      (q.passes < p.passes + passes → ∃ findings,
        CanReturn (w.findings o q.source) findings ∧ select q.source findings = []) := by
  induction passes generalizing p with
  | zero =>
    obtain rfl := eq_of_canReturn_pure h
    exact ⟨.refl, Nat.le_refl _, fun hlt => absurd hlt (Nat.lt_irrefl _)⟩
  | succ passes ih =>
    rw [advance] at h
    obtain ⟨findings, hfindings, h⟩ := canReturn_bind h
    dsimp only at h
    split at h
    next hempty =>
      obtain rfl := eq_of_canReturn_pure h
      exact ⟨.refl, Nat.le_add_right _ _, fun _ => ⟨findings, hfindings,
        List.isEmpty_iff.1 hempty⟩⟩
    next hempty =>
      obtain ⟨edits, hedits, h⟩ := canReturn_bind h
      have hstep : Step w o p (p.after (select p.source findings) edits) :=
        .pass hfindings (fun heq => hempty (List.isEmpty_iff.2 heq))
          (Analysis.eq_ok_of_canReturn_lift hedits)
      have hpasses : (p.after (select p.source findings) edits).passes = p.passes + 1 := rfl
      obtain ⟨hreaches, hle, hlast⟩ := ih h
      refine ⟨.head hstep hreaches, by omega, ?_⟩
      intro hlt
      exact hlast (by omega)

/-- Every pass selects well. -/
theorem selectsWell {s : Source} {findings : List Finding}
    (h : CanReturn (w.findings o s) findings) : SelectsWell o s findings := by
  obtain ⟨a, rfl, rfl, hindex, hfindings⟩ := Workspace.exists_analysis h
  exact selectsWell_of_findings hindex hfindings

end

end Fix

namespace Workspace

/-- A fix of a source in which nothing is selected changes nothing. -/
theorem fix_of_select_eq_nil {w : Workspace (Except Failure)} {o : Options} {s : Source}
    (h : s.language.hasMarkup = true → ∃ findings, w.findings o s = .ok findings ∧
      Fix.select s findings = []) :
    w.fix o s = .ok { path := s.path, output := s.text, passes := 0, applied := 0 } := by
  rw [fix]
  split
  next hmarkup =>
    obtain ⟨findings, hfindings, hselect⟩ := h hmarkup
    rw [Fix.maxPasses, Fix.advance, hfindings]
    simp only [bind, Except.bind, hselect]
    rfl
  · rfl

/-- A fix is the outcome of passes over the source. It ends early only where nothing is selected. -/
theorem reaches_of_fix {w : Workspace (Except Failure)} {o : Options} {s : Source} {r : FixResult}
    (h : w.fix o s = .ok r) :
    ∃ p, Fix.Reaches w o { source := s } p ∧
      r = { path := s.path, output := p.source.text, passes := p.passes, applied := p.applied } ∧
      p.passes ≤ 10 ∧ (p.passes < 10 → s.language.hasMarkup = true → ∃ findings,
        w.findings o p.source = .ok findings ∧ Fix.select p.source findings = []) := by
  rw [fix] at h
  split at h
  next hmarkup =>
    obtain ⟨p, hp, hr⟩ := bind_eq_ok.1 h
    obtain ⟨hreaches, hle, hlast⟩ := Fix.reaches_of_advance (m := Except Failure) hp
    rw [Nat.zero_add] at hle hlast
    exact ⟨p, hreaches, (Except.ok.inj hr).symm, hle, fun hlt _ => hlast hlt⟩
  next hmarkup =>
    exact ⟨{ source := s }, .refl, (Except.ok.inj h).symm, Nat.zero_le _,
      fun _ hmarkup' => absurd hmarkup' hmarkup⟩

end Workspace

/-- A fix makes at most ten passes, each of which selects well and applies something, and without a
pass it changes nothing. If it stops before the tenth pass, no finding of its output has a
suggestion, and a fix of the output changes nothing. It does not matter that one project with all it
has read is kept through the passes. -/
theorem fix_reaches_fixed_point (t : FileTree) (o : Options) (path : Path) (language : Language)
    (text : String) (r : FixResult) (h : fix t o (.parsed path language text) = .ok r) :
    ∃ w p, Workspace.forFile t path = .ok w ∧
      Fix.Reaches w o { source := .parsed path language text } p ∧
      r = { path, output := p.source.text, passes := p.passes, applied := p.applied } ∧
      r.passes ≤ 10 ∧ r.passes ≤ r.applied ∧ (r.passes = 0 → r.output = text) ∧
      (∀ q findings, Fix.Reaches w o { source := .parsed path language text } q →
        w.findings o q.source = .ok findings → Fix.SelectsWell o q.source findings) ∧
      (r.passes < 10 →
        (∃ findings, analyze t o (.parsed path language r.output) = .ok findings ∧
          ∀ f ∈ findings, f.suggestions = []) ∧
        fix t o (.parsed path language r.output) =
          .ok { path, output := r.output, passes := 0, applied := 0 }) ∧
      (((Workspace.cached t w.resolver.config []).fix o
        (.parsed path language text)).run []).run.1 = .ok r := by
  obtain ⟨w, hw, hfix⟩ := bind_eq_ok.1 h
  obtain ⟨p, hreaches, rfl, hle, hlast⟩ := Workspace.reaches_of_fix hfix
  have hcontinues := hreaches.continues
  have hparsed : p.source = .parsed path language p.source.text := by
    have hsame := hreaches.isParsed rfl
    rw [Fix.IsParsed, hcontinues.path, hcontinues.language] at hsame
    exact hsame
  refine ⟨w, p, hw, hreaches, rfl, hle, ?_, ?_, ?_, ?_, ?_⟩
  · exact hcontinues.applied_le
  · intro hzero
    rw [hcontinues.eq_of_passes_eq hzero]
    rfl
  · intro q findings _ hfindings
    exact Fix.selectsWell (m := Except Failure) hfindings
  · intro hlt
    have hpath : p.source.path = path := hcontinues.path
    -- The last state is that of a pass which selected nothing, and so does the next fix.
    have hlast' : p.source.language.hasMarkup = true → ∃ findings,
        w.findings o p.source = .ok findings ∧ Fix.select p.source findings = [] :=
      fun hmarkup => hlast hlt (hcontinues.language ▸ hmarkup)
    dsimp only
    rw [← hparsed]
    constructor
    · rw [analyze, hpath]
      split
      next hmarkup =>
        obtain ⟨findings, hfindings, hselect⟩ := hlast' hmarkup
        refine ⟨findings, bind_eq_ok.2 ⟨w, hw, ?_⟩,
          (Fix.selectsWell (m := Except Failure) hfindings).nonempty hselect⟩
        rw [Workspace.analyze, if_pos hmarkup]
        exact hfindings
      · exact ⟨[], rfl, by simp⟩
    · have hagain := Workspace.fix_of_select_eq_nil hlast'
      rw [hpath] at hagain
      rw [fix, hpath]
      exact bind_eq_ok.2 ⟨w, hw, hagain⟩
  · obtain ⟨config, hconfig, rfl⟩ := Workspace.eq_fresh_of_forFile hw
    rw [← h]
    exact fix_eq_cached o hconfig

set_option maxRecDepth 100000 in
private theorem passes_fix_singleComponent :
    ∃ r, fix .empty {} (.parsed (Language.snippetPath .tsx) .tsx
      "const C = () => <A b=\x7b[1]\x7d />;\n") = .ok r ∧ r.passes = 1 := by
  decide +kernel

/-- One pass fixes a single component, and its output stays as it is. -/
theorem fix_singleComponent :
    ∃ r, fix .empty {} (.parsed (Language.snippetPath .tsx) .tsx
        "const C = () => <A b=\x7b[1]\x7d />;\n") = .ok r ∧ r.passes = 1 ∧
      fix .empty {} (.parsed (Language.snippetPath .tsx) .tsx r.output) = .ok
        { path := Language.snippetPath .tsx, output := r.output, passes := 0, applied := 0 } := by
  obtain ⟨r, hfix, hpasses⟩ := passes_fix_singleComponent
  obtain ⟨w, p, -, -, -, -, -, -, -, hlast, -⟩ := fix_reaches_fixed_point _ _ _ _ _ r hfix
  exact ⟨r, hfix, hpasses, (hlast (by omega)).2⟩

set_option maxRecDepth 100000 in
private theorem select_findingInImport :
    ∃ findings, (Workspace.fresh ⟨.empty, none⟩).findings {} findingInImport = .ok findings ∧
      ∃ f ∈ findings, ∃ x, f.suggestions.head? = some x ∧
        x.parts ∉ Fix.select findingInImport findings ∧
          ∀ g ∈ findings, ¬∃ y, g.suggestions.head? = some y ∧
            y.parts ∈ Fix.select findingInImport findings ∧ (g.Contains f ∨ f.Contains g) := by
  decide +kernel

/-- A finding can be left out though it is not nested with a selected one. -/
theorem Fix.not_forall_nested :
    ¬∀ (s : Source) (findings : List Finding),
      (Workspace.fresh ⟨.empty, none⟩).findings {} s = .ok findings →
        ∀ f ∈ findings, ∀ x, f.suggestions.head? = some x → x.parts ∉ select s findings →
          ∃ g, Selected s findings g ∧ (g.Contains f ∨ f.Contains g) := by
  intro hall
  obtain ⟨findings, hfindings, f, hf, x, hx, hnot, hapart⟩ := select_findingInImport
  obtain ⟨g, ⟨hg, y, hy, hselected⟩, hnested⟩ := hall _ findings hfindings f hf x hx hnot
  exact hapart g hg ⟨y, hy, hselected, hnested⟩

end StableProps
