import Mathlib.Data.Finset.Card
import StableProps.Proofs.Module.Chain

/-!
# What following an export finds

Following an export takes one step after the other and keeps in mind what it has met. With enough
steps to meet each demand once it finds something exactly if a chain leads to an end around what was
met before; it follows the import of what it has found as far as that leads, and it fails only where
a question fails. More steps make no difference then.
-/

namespace StableProps

open Relation (ReflTransGen)

namespace Project

variable {p : Project (Except Failure)} {i : ModuleIndex} {localName name : String}
variable {onward : ModuleIndex → String → Except Failure (Option Declared)}

/-! ## One step -/

/-- An import that is followed to a declaration leads there by what it demands. -/
private theorem of_followVia_eq_some {d : Declared}
    (h : p.followVia onward i localName = .ok (some d)) :
    ∃ y, p.Imports i localName y ∧ onward y.module y.name = .ok (some d) := by
  rw [followVia] at h
  split at h
  next existing exported typeOnly himport =>
    obtain ⟨target, htarget, h⟩ := bind_eq_ok.1 h
    cases target with
    | none => cases h
    | some j => exact ⟨⟨j, exported⟩, ⟨existing, typeOnly, himport, htarget⟩, h⟩
  · cases h

/-- If an import is followed to nothing, what it demands leads to nothing. -/
private theorem of_followVia_eq_none (h : p.followVia onward i localName = .ok none) {y : Demand}
    (hy : p.Imports i localName y) : onward y.module y.name = .ok none := by
  obtain ⟨existing, typeOnly, himport, htarget⟩ := hy
  rw [followVia, himport] at h
  obtain ⟨target, htarget', h⟩ := bind_eq_ok.1 h
  rw [htarget] at htarget'
  obtain rfl := Except.ok.inj htarget'
  exact h

/-- An import that cannot be followed fails at its module or further on. -/
private theorem of_followVia_eq_error {f : Failure}
    (h : p.followVia onward i localName = .error f) : (∃ existing exported typeOnly,
      i.importOf? localName = some (existing, ⟨.name exported, typeOnly⟩) ∧
        p.index? existing.resolved = .error f) ∨
    ∃ y, p.Imports i localName y ∧ onward y.module y.name = .error f := by
  rw [followVia] at h
  split at h
  next existing exported typeOnly himport =>
    rcases bind_eq_error.1 h with htarget | ⟨target, htarget, h⟩
    · exact .inl ⟨existing, exported, typeOnly, himport, htarget⟩
    · cases target with
      | none => cases h
      | some j => exact .inr ⟨⟨j, exported⟩, ⟨existing, typeOnly, himport, htarget⟩, h⟩
  · cases h

/-- The first answer is that of one of the modules. -/
private theorem of_firstAnswer_eq_some {specifiers : List String} {d : Declared}
    (h : p.firstAnswer i (onward · name) specifiers = .ok (some d)) :
    ∃ specifier ∈ specifiers, ∃ j, p.target? i specifier = .ok (some j) ∧
      onward j name = .ok (some d) := by
  induction specifiers with
  | nil => cases h
  | cons specifier rest ih =>
    rw [firstAnswer] at h
    obtain ⟨target, htarget, h⟩ := bind_eq_ok.1 h
    have hlater (h : p.firstAnswer i (onward · name) rest = .ok (some d)) :
        ∃ s ∈ specifier :: rest, ∃ j, p.target? i s = .ok (some j) ∧
          onward j name = .ok (some d) := by
      obtain ⟨s, hs, hanswer⟩ := ih h
      exact ⟨s, List.mem_cons_of_mem _ hs, hanswer⟩
    cases target with
    | none => exact hlater h
    | some j =>
      obtain ⟨answer, hanswer, h⟩ := bind_eq_ok.1 h
      cases answer with
      | none => exact hlater h
      | some d' =>
        obtain rfl := Option.some.inj (Except.ok.inj h)
        exact ⟨specifier, List.mem_cons_self, j, htarget, hanswer⟩

/-- Without an answer no module has one. -/
private theorem of_firstAnswer_eq_none {specifiers : List String}
    (h : p.firstAnswer i (onward · name) specifiers = .ok none) :
    ∀ specifier ∈ specifiers, ∀ j, p.target? i specifier = .ok (some j) →
      onward j name = .ok none := by
  induction specifiers with
  | nil => simp
  | cons specifier rest ih =>
    rw [firstAnswer] at h
    obtain ⟨target, htarget, h⟩ := bind_eq_ok.1 h
    intro s hs j hj
    rcases List.mem_cons.1 hs with rfl | hs
    · rw [htarget] at hj
      obtain rfl := Except.ok.inj hj
      obtain ⟨answer, hanswer, h⟩ := bind_eq_ok.1 h
      cases answer with
      | none => exact hanswer
      | some d => cases h
    · refine ih ?_ s hs j hj
      cases target with
      | none => exact h
      | some k =>
        obtain ⟨answer, -, h⟩ := bind_eq_ok.1 h
        cases answer with
        | none => exact h
        | some d => cases h

/-- A failure is that of one of the modules. -/
private theorem of_firstAnswer_eq_error {specifiers : List String} {f : Failure}
    (h : p.firstAnswer i (onward · name) specifiers = .error f) :
    ∃ specifier ∈ specifiers, p.target? i specifier = .error f ∨
      ∃ j, p.target? i specifier = .ok (some j) ∧ onward j name = .error f := by
  induction specifiers with
  | nil => cases h
  | cons specifier rest ih =>
    rw [firstAnswer] at h
    have hlater (h : p.firstAnswer i (onward · name) rest = .error f) :
        ∃ s ∈ specifier :: rest, p.target? i s = .error f ∨
          ∃ j, p.target? i s = .ok (some j) ∧ onward j name = .error f := by
      obtain ⟨s, hs, hanswer⟩ := ih h
      exact ⟨s, List.mem_cons_of_mem _ hs, hanswer⟩
    rcases bind_eq_error.1 h with htarget | ⟨target, htarget, h⟩
    · exact ⟨specifier, List.mem_cons_self, .inl htarget⟩
    · cases target with
      | none => exact hlater h
      | some j =>
        rcases bind_eq_error.1 h with hanswer | ⟨answer, -, h⟩
        · exact ⟨specifier, List.mem_cons_self, .inr ⟨j, htarget, hanswer⟩⟩
        · cases answer with
          | none => exact hlater h
          | some d => cases h

private theorem followVia_congr {onward' : ModuleIndex → String → Except Failure (Option Declared)}
    (h : ∀ y, p.Imports i localName y → onward y.module y.name = onward' y.module y.name) :
    p.followVia onward i localName = p.followVia onward' i localName := by
  rw [followVia, followVia]
  split
  next existing exported typeOnly himport =>
    refine bind_congr_of_ok fun target htarget => ?_
    cases target with
    | none => rfl
    | some j => exact h ⟨j, exported⟩ ⟨existing, typeOnly, himport, htarget⟩
  · rfl

private theorem firstAnswer_congr
    {onward' : ModuleIndex → String → Except Failure (Option Declared)} {specifiers : List String}
    (h : ∀ specifier ∈ specifiers, ∀ j, p.target? i specifier = .ok (some j) →
      onward j name = onward' j name) :
    p.firstAnswer i (onward · name) specifiers = p.firstAnswer i (onward' · name) specifiers := by
  induction specifiers with
  | nil => rfl
  | cons specifier rest ih =>
    have hrest := ih fun s hs => h s (List.mem_cons_of_mem _ hs)
    rw [firstAnswer, firstAnswer]
    refine bind_congr_of_ok fun target htarget => ?_
    cases target with
    | none => exact hrest
    | some j =>
      dsimp only
      rw [h specifier List.mem_cons_self j htarget, hrest]

/-! ## One demand -/

/-- Looks at a demand that was not passed, given how the search goes on. -/
def look (p : Project (Except Failure))
    (onward : ModuleIndex → String → Except Failure (Option Declared)) (i : ModuleIndex)
    (name : String) : Except Failure (Option Declared) := do
  match i.export? name with
  | some entry =>
    match entry.source, entry.localName with
    | some source, _ =>
      match ← p.target? i source with
      | some target => onward target ((entry.imported.filter (· ≠ "")).getD name)
      | none => return none
    | none, none => return none
    | none, some localName =>
      match ← p.followVia onward i localName with
      | some declared => return some declared
      | none => return some ⟨i, localName⟩
  | none => if name = "default" then return none else p.firstAnswer i (onward · name) i.starExports

/-- An export that was passed is not followed again. -/
private theorem resolveExportFrom_of_mem {passed : List (Path × String)} {x : Demand}
    (h : x.key ∈ passed)
    (fuel : Nat) : p.resolveExportFrom (fuel + 1) passed x.module x.name = .ok none := by
  have hmem : passed.contains (x.module.path, x.name) = true := List.contains_iff_mem.2 h
  rw [resolveExportFrom, if_pos hmem]
  rfl

/-- An export that was not passed is looked for one step further. -/
private theorem resolveExportFrom_of_not_mem {passed : List (Path × String)} {x : Demand}
    (h : x.key ∉ passed) (fuel : Nat) :
    p.resolveExportFrom (fuel + 1) passed x.module x.name =
      p.look (p.resolveExportFrom fuel (x.key :: passed)) x.module x.name := by
  have hmem : ¬passed.contains (x.module.path, x.name) = true :=
    fun hmem => h (List.contains_iff_mem.1 hmem)
  rw [resolveExportFrom, if_neg hmem]
  rfl

/-- What is found at a demand depends on what is found where the search goes on. -/
theorem look_congr {onward' : ModuleIndex → String → Except Failure (Option Declared)} {x : Demand}
    (h : ∀ y, p.Goes x y → onward y.module y.name = onward' y.module y.name) :
    p.look onward x.module x.name = p.look onward' x.module x.name := by
  rw [look, look]
  split
  next entry listed =>
    split
    next source _ passed =>
      refine bind_congr_of_ok fun target htarget => ?_
      cases target with
      | none => rfl
      | some j => exact h ⟨j, _⟩ (.step (.renamed listed passed htarget))
    · rfl
    next localName own hlocal =>
      rw [followVia_congr fun y hy => h y (.imported ⟨entry, listed, own, hlocal⟩ hy)]
  next unlisted =>
    split
    · rfl
    next named =>
      exact firstAnswer_congr fun specifier hmem j hj =>
        h ⟨j, x.name⟩ (.step (.star unlisted named hmem hj))

/-! ## What an outcome says -/

/-- What the outcome of a search for a demand says, some demands being passed already. -/
structure Answers (p : Project (Except Failure)) (passed : List (Path × String)) (x : Demand)
    (outcome : Except Failure (Option Declared)) : Prop where
  found : ∀ d, outcome = .ok (some d) → p.LeadsAround passed x ∧ p.LeadsTo passed x d
  missing : outcome = .ok none → ¬p.LeadsAround passed x
  failed : ∀ f, outcome = .error f → p.Stops x f

namespace Answers

variable {passed : List (Path × String)} {x : Demand}

/-- A demand that was passed is not looked at again. -/
theorem of_mem (h : x.key ∈ passed) : p.Answers passed x (.ok none) where
  found _ := nofun
  missing _ hleads := hleads.isNew h
  failed _ := nofun

/-- A demand without an end that is not passed on leads nowhere. -/
theorem of_stuck (hends : ∀ localName, ¬x.Ends localName) (hstep : ∀ y, ¬p.Step x y) :
    p.Answers passed x (.ok none) where
  found _ := nofun
  missing _ hleads := by
    cases hleads with
    | ends _ ends => exact hends _ ends
    | step _ step _ => exact hstep _ step
  failed _ := nofun

variable {outcome : Except Failure (Option Declared)} {f : Failure}

/-- A search that fails gives no answer. -/
theorem of_error (h : p.Stops x f) : p.Answers passed x (.error f) where
  found _ := nofun
  missing := nofun
  failed _ heq := Except.error.inj heq ▸ h

/-- A demand that is passed on to one module is answered by what is answered there. -/
theorem of_step {y : Demand} (hnew : x.key ∉ passed) (hstep : p.Step x y)
    (honly : ∀ z, p.Step x z → z = y) (hends : ∀ localName, ¬x.Ends localName)
    (h : p.Answers (x.key :: passed) y outcome) : p.Answers passed x outcome where
  found d heq :=
    have ⟨hleads, hto⟩ := h.found d heq
    ⟨.step hnew hstep hleads, hto.cons hnew fun _ hway => .step hstep hway⟩
  missing heq hleads := by
    cases hleads with
    | ends _ ends => exact hends _ ends
    | step _ step rest => exact h.missing heq (honly _ step ▸ rest)
  failed f heq := (h.failed f heq).cons (.step hstep)

end Answers

variable {passed : List (Path × String)} {x : Demand}

/-- What the look at an export from another module says. -/
theorem answers_renamed {entry : ExportEntry} {source : String} (hnew : x.key ∉ passed)
    (listed : x.module.export? x.name = some entry) (hsource : entry.source = some source)
    (h : ∀ y, p.Goes x y → p.Answers (x.key :: passed) y (onward y.module y.name)) :
    p.Answers passed x (do
      match ← p.target? x.module source with
      | some target => onward target ((entry.imported.filter (· ≠ "")).getD x.name)
      | none => return none) := by
  have hends (localName : String) (ends : x.Ends localName) : False := by
    obtain ⟨hown, -⟩ := ends.of_listed listed
    rw [hsource] at hown
    cases hown
  have hstep (z : Demand) (hz : p.Step x z) : ∃ j, p.target? x.module source = .ok (some j) ∧
      z = ⟨j, (entry.imported.filter (· ≠ "")).getD x.name⟩ := by
    obtain ⟨s, j, hs, target, hz⟩ := hz.of_listed listed
    obtain rfl := Option.some.inj (hsource.symm.trans hs)
    exact ⟨j, target, hz⟩
  cases htarget : p.target? x.module source with
  | error f => exact .of_error ⟨x, .refl, .renamed listed hsource htarget⟩
  | ok target =>
    rw [htarget] at hstep
    cases target with
    | none =>
      refine .of_stuck hends fun z hz => ?_
      obtain ⟨j, hj, -⟩ := hstep z hz
      cases hj
    | some j =>
      have hpassed : p.Step x ⟨j, (entry.imported.filter (· ≠ "")).getD x.name⟩ :=
        .renamed listed hsource htarget
      refine .of_step hnew hpassed (fun z hz => ?_) hends (h _ (.step hpassed))
      obtain ⟨k, hk, rfl⟩ := hstep z hz
      obtain rfl := Option.some.inj (Except.ok.inj hk)
      rfl

/-- What the look at an export of a name of the module says. -/
theorem answers_own (hnew : x.key ∉ passed) (hends : x.Ends localName)
    (h : ∀ y, p.Goes x y → p.Answers (x.key :: passed) y (onward y.module y.name)) :
    p.Answers passed x (do
      match ← p.followVia onward x.module localName with
      | some declared => return some declared
      | none => return some ⟨x.module, localName⟩) := by
  cases hvia : p.followVia onward x.module localName with
  | error f =>
    refine .of_error ?_
    rcases of_followVia_eq_error hvia with ⟨existing, exported, typeOnly, hbinds, hindex⟩ | hthere
    · exact ⟨x, .refl, .imported hends hbinds hindex⟩
    · obtain ⟨y, hy, hf⟩ := hthere
      exact ((h y (.imported hends hy)).failed f hf).cons (.imported hends hy)
  | ok found =>
    cases found with
    | some d =>
      obtain ⟨y, hy, hd⟩ := of_followVia_eq_some hvia
      have hto := ((h y (.imported hends hy)).found d hd).2
      refine ⟨fun d' heq => ?_, nofun, nofun⟩
      obtain rfl := Option.some.inj (Except.ok.inj heq)
      exact ⟨.ends hnew hends, hto.cons hnew fun _ hway => .imported hends hy hway⟩
    | none =>
      -- The import leads nowhere, so the search ends with the name of the module itself.
      refine ⟨fun d' heq => ?_, nofun, nofun⟩
      obtain rfl := Option.some.inj (Except.ok.inj heq)
      refine ⟨.ends hnew hends, [x.key], .here hends, List.nodup_singleton _, by simpa using hnew,
        fun y hy => ?_⟩
      exact (h y (.imported hends hy)).missing (of_followVia_eq_none hvia hy)

/-- What the look at a name says that the module does not list. -/
theorem answers_star (hnew : x.key ∉ passed) (unlisted : x.module.export? x.name = none)
    (named : x.name ≠ "default")
    (h : ∀ y, p.Goes x y → p.Answers (x.key :: passed) y (onward y.module y.name)) :
    p.Answers passed x (p.firstAnswer x.module (onward · x.name) x.module.starExports) where
  found d heq := by
    obtain ⟨specifier, hmem, j, hj, hd⟩ := of_firstAnswer_eq_some heq
    have hstep : p.Step x ⟨j, x.name⟩ := .star unlisted named hmem hj
    obtain ⟨hleads, hto⟩ := (h _ (.step hstep)).found d hd
    exact ⟨.step hnew hstep hleads, hto.cons hnew fun _ hway => .step hstep hway⟩
  missing heq hleads := by
    cases hleads with
    | ends _ ends => exact Demand.not_ends_of_unlisted unlisted _ ends
    | @step _ _ y _ step rest =>
      obtain ⟨-, specifier, hmem, target, hname⟩ := step.of_unlisted unlisted
      have hnone := of_firstAnswer_eq_none heq specifier hmem y.module target
      exact (h y (.step step)).missing (hname ▸ hnone) rest
  failed f heq := by
    obtain ⟨specifier, hmem, htarget | ⟨j, hj, hf⟩⟩ := of_firstAnswer_eq_error heq
    · exact ⟨x, .refl, .star unlisted named hmem htarget⟩
    · have hstep : p.Step x ⟨j, x.name⟩ := .star unlisted named hmem hj
      exact ((h _ (.step hstep)).failed f hf).cons (.step hstep)

/-- What the look at a demand says, given what is said of the demands where the search goes on. -/
theorem answers_look (hnew : x.key ∉ passed)
    (h : ∀ y, p.Goes x y → p.Answers (x.key :: passed) y (onward y.module y.name)) :
    p.Answers passed x (p.look onward x.module x.name) := by
  rw [look]
  split
  next entry listed =>
    split
    next source _ hsource => exact answers_renamed hnew listed hsource h
    next hsource hlocal =>
      refine .of_stuck (fun localName hends => ?_) fun y hstep => ?_
      · obtain ⟨-, hown⟩ := hends.of_listed listed
        rw [hlocal] at hown
        cases hown
      · obtain ⟨source, j, hpassed, -⟩ := hstep.of_listed listed
        rw [hsource] at hpassed
        cases hpassed
    next localName hsource hlocal => exact answers_own hnew ⟨entry, listed, hsource, hlocal⟩ h
  next unlisted =>
    split
    next hdefault =>
      exact .of_stuck (Demand.not_ends_of_unlisted unlisted) fun y hstep =>
        (hstep.of_unlisted unlisted).1 hdefault
    next named => exact answers_star hnew unlisted named h

/-! ## All demands -/

/-- What is passed for the first time leaves fewer to come. -/
theorem card_sdiff_cons_lt {α : Type} [DecidableEq α] {keys : Finset α} {passed : List α} {key : α}
    (hmem : key ∈ keys) (hnew : key ∉ passed) {fuel : Nat}
    (hfuel : (keys \ passed.toFinset).card < fuel + 1) :
    (keys \ (key :: passed).toFinset).card < fuel := by
  have hleft : key ∈ keys \ passed.toFinset := by simp [hmem, hnew]
  have hcard := Finset.card_erase_lt_of_mem hleft
  rw [List.toFinset_cons, Finset.sdiff_insert]
  omega

/-- A search that starts at some demands meets no other ones, and their keys are among finitely
many. -/
structure Encloses (p : Project (Except Failure)) (Met : Demand → Prop)
    (keys : Finset (Path × String)) : Prop where
  mem : ∀ x, Met x → x.key ∈ keys
  goes : ∀ x y, Met x → p.Goes x y → Met y

namespace Encloses

variable {Met : Demand → Prop} {keys : Finset (Path × String)}

/-- Each demand that is looked at leaves fewer of them. -/
theorem card_sdiff_lt (h : p.Encloses Met keys) (hx : Met x) (hnew : x.key ∉ passed) {fuel : Nat}
    (hfuel : (keys \ passed.toFinset).card < fuel + 1) :
    (keys \ (x.key :: passed).toFinset).card < fuel :=
  card_sdiff_cons_lt (h.mem x hx) hnew hfuel

/-- With enough steps the search says where chains lead. -/
theorem answers (h : p.Encloses Met keys) (fuel : Nat) (passed : List (Path × String)) (x : Demand)
    (hx : Met x) (hfuel : (keys \ passed.toFinset).card < fuel) :
    p.Answers passed x (p.resolveExportFrom fuel passed x.module x.name) := by
  induction fuel generalizing passed x with
  | zero => cases hfuel
  | succ fuel ih =>
    by_cases hmem : x.key ∈ passed
    · rw [resolveExportFrom_of_mem hmem]
      exact .of_mem hmem
    · rw [resolveExportFrom_of_not_mem hmem]
      exact answers_look hmem fun y hy =>
        ih _ y (h.goes x y hx hy) (h.card_sdiff_lt hx hmem hfuel)

/-- More steps than enough make no difference. -/
theorem resolveExportFrom_eq (h : p.Encloses Met keys) (fuel fuel' : Nat)
    (passed : List (Path × String)) (x : Demand) (hx : Met x)
    (hfuel : (keys \ passed.toFinset).card < fuel)
    (hfuel' : (keys \ passed.toFinset).card < fuel') :
    p.resolveExportFrom fuel passed x.module x.name =
      p.resolveExportFrom fuel' passed x.module x.name := by
  induction fuel generalizing fuel' passed x with
  | zero => cases hfuel
  | succ fuel ih =>
    cases fuel' with
    | zero => cases hfuel'
    | succ fuel' =>
      by_cases hmem : x.key ∈ passed
      · rw [resolveExportFrom_of_mem hmem, resolveExportFrom_of_mem hmem]
      · rw [resolveExportFrom_of_not_mem hmem, resolveExportFrom_of_not_mem hmem]
        exact look_congr fun y hy => ih fuel' _ y (h.goes x y hx hy)
          (h.card_sdiff_lt hx hmem hfuel) (h.card_sdiff_lt hx hmem hfuel')

end Encloses

end Project

end StableProps
