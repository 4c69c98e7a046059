import Mathlib.Logic.Relation
import StableProps.Proofs.Module.Export

/-!
# Chains of exports

A name that is asked of a module is passed on to other modules, by exports under another name and by
modules that pass on all names, until a module exports it by a name of its own. Such chains can run
in circles. As a circle comes back to a name in a module that was passed already, whatever can be
reached at all can be reached by a chain without circles.
-/

namespace StableProps

open Relation (ReflTransGen)

/-- A name that is asked of a module. -/
structure Demand where
  module : ModuleIndex
  name : String

namespace Demand

/-- What tells demands apart. -/
def key (x : Demand) : Path × String := (x.module.path, x.name)

/-- The module exports the name by a name of its own. -/
def Ends (x : Demand) (localName : String) : Prop :=
  ∃ entry, x.module.export? x.name = some entry ∧ entry.source = none ∧
    entry.localName = some localName

/-- The listed export decides on the end. -/
theorem Ends.of_listed {x : Demand} {localName : String} {entry : ExportEntry}
    (h : x.Ends localName) (listed : x.module.export? x.name = some entry) :
    entry.source = none ∧ entry.localName = some localName := by
  obtain ⟨e, he, hends⟩ := h
  exact Option.some.inj (he.symm.trans listed) ▸ hends

/-- A name that the module does not list has no end there. -/
theorem not_ends_of_unlisted {x : Demand} (unlisted : x.module.export? x.name = none)
    (localName : String) : ¬x.Ends localName := by
  rintro ⟨entry, listed, -⟩
  rw [unlisted] at listed
  cases listed

end Demand

namespace Project

variable {p : Project (Except Failure)}

/-- A demand is passed on to another module. -/
inductive Step (p : Project (Except Failure)) : Demand → Demand → Prop where
  /-- The module passes the name on from another one, where it may have another name. -/
  | renamed {i j : ModuleIndex} {name source : String} {entry : ExportEntry}
      (listed : i.export? name = some entry) (passed : entry.source = some source)
      (target : p.target? i source = .ok (some j)) :
      Step p ⟨i, name⟩ ⟨j, (entry.imported.filter (· ≠ "")).getD name⟩
  /-- The module does not list the name, and passes on all names of another one. -/
  | star {i j : ModuleIndex} {name specifier : String} (unlisted : i.export? name = none)
      (named : name ≠ "default") (mem : specifier ∈ i.starExports)
      (target : p.target? i specifier = .ok (some j)) : Step p ⟨i, name⟩ ⟨j, name⟩

namespace Step

variable {x y : Demand}

/-- A listed name is passed on to the one module that the export gives. -/
theorem of_listed (h : p.Step x y) {entry : ExportEntry}
    (listed : x.module.export? x.name = some entry) :
    ∃ source j, entry.source = some source ∧ p.target? x.module source = .ok (some j) ∧
      y = ⟨j, (entry.imported.filter (· ≠ "")).getD x.name⟩ := by
  cases h with
  | @renamed i j name source e he passed target =>
    obtain rfl := Option.some.inj (he.symm.trans listed)
    exact ⟨source, j, passed, target, rfl⟩
  | star unlisted =>
    rw [unlisted] at listed
    cases listed

/-- A name that is not listed is passed on, as it is, to the modules whose names all are. -/
theorem of_unlisted (h : p.Step x y) (unlisted : x.module.export? x.name = none) :
    x.name ≠ "default" ∧ ∃ specifier ∈ x.module.starExports,
      p.target? x.module specifier = .ok (some y.module) ∧ y.name = x.name := by
  cases h with
  | renamed listed =>
    rw [unlisted] at listed
    cases listed
  | star _ named mem target => exact ⟨named, _, mem, target, rfl⟩

end Step

/-- A finite chain of steps leads to a module that exports the name by a name of its own. -/
def Leads (p : Project (Except Failure)) (x : Demand) : Prop :=
  ∃ y localName, ReflTransGen p.Step x y ∧ y.Ends localName

/-- A chain that leads to an end, meets no demand twice and none of those given. -/
inductive LeadsAround (p : Project (Except Failure)) : List (Path × String) → Demand → Prop where
  | ends {passed : List (Path × String)} {x : Demand} {localName : String}
      (isNew : x.key ∉ passed) (ends : x.Ends localName) : LeadsAround p passed x
  | step {passed : List (Path × String)} {x y : Demand} (isNew : x.key ∉ passed)
      (step : p.Step x y) (rest : LeadsAround p (x.key :: passed) y) : LeadsAround p passed x

namespace LeadsAround

/-- A demand that leads around what was passed is not passed itself. -/
theorem isNew {passed : List (Path × String)} {x : Demand} (h : p.LeadsAround passed x) :
    x.key ∉ passed := by
  cases h <;> assumption

/-- A chain around more demands is one around fewer of them. -/
theorem mono {passed passed' : List (Path × String)} {x : Demand} (h : p.LeadsAround passed x)
    (hsub : passed' ⊆ passed) : p.LeadsAround passed' x := by
  induction h generalizing passed' with
  | ends isNew ends => exact .ends (fun hmem => isNew (hsub hmem)) ends
  | step isNew step _ ih =>
    exact .step (fun hmem => isNew (hsub hmem)) step (ih (List.cons_subset_cons _ hsub))

theorem leads {passed : List (Path × String)} {x : Demand} (h : p.LeadsAround passed x) :
    p.Leads x := by
  induction h with
  | ends _ ends => exact ⟨_, _, .refl, ends⟩
  | step _ step _ ih =>
    obtain ⟨y, localName, hchain, hends⟩ := ih
    exact ⟨y, localName, .head step hchain, hends⟩

end LeadsAround

/-- One step stays among the known modules. -/
theorem Closed.of_step {Known : ModuleIndex → Prop} {x y : Demand} (h : p.Closed Known)
    (hx : Known x.module) (hstep : p.Step x y) : Known y.module := by
  cases hstep with
  | renamed _ _ target => exact h.target hx target
  | star _ _ _ target => exact h.target hx target

/-- Modules that steps lead to each other only, and that are told apart by their paths. -/
structure Separates (p : Project (Except Failure)) (Known : ModuleIndex → Prop) : Prop where
  closed : p.Closed Known
  unique : ∀ i j, Known i → Known j → i.path = j.path → i = j

namespace Separates

variable {Known : ModuleIndex → Prop} {x y : Demand}

/-- Demands in known modules are told apart by their keys. -/
private theorem eq_of_key_eq (h : p.Separates Known) (hx : Known x.module) (hy : Known y.module)
    (hkey : x.key = y.key) : x = y := by
  obtain ⟨i, name⟩ := x
  obtain ⟨j, name'⟩ := y
  obtain ⟨hpath, rfl⟩ := Prod.mk.inj hkey
  rw [h.unique i j hx hy hpath]

/-- A chain either stays clear of a demand, or has a part that leads from there to its end. -/
theorem leadsAround_or (h : p.Separates Known) (hx : Known x.module)
    {passed : List (Path × String)} (hnew : x.key ∉ passed) (hy : Known y.module)
    (hleads : p.LeadsAround passed y) :
    p.LeadsAround (x.key :: passed) y ∨ p.LeadsAround passed x := by
  induction hleads with
  | @ends passed y localName isNew ends =>
    by_cases hkey : y.key = x.key
    · rw [← h.eq_of_key_eq hy hx hkey]
      exact .inr (.ends isNew ends)
    · exact .inl (.ends (by simp [hkey, isNew]) ends)
  | @step passed y z isNew step rest ih =>
    by_cases hkey : y.key = x.key
    · -- The chain comes to `x` here, and what is left of it stays clear of what was passed.
      rw [← h.eq_of_key_eq hy hx hkey]
      exact .inr (.step isNew step rest)
    · have hnew' : x.key ∉ y.key :: passed := by simp [Ne.symm hkey, hnew]
      rcases ih hnew' (h.closed.of_step hy step) with hclear | hfrom
      · have hswap := (List.Perm.swap x.key y.key passed).subset
        exact .inl (.step (by simp [hkey, isNew]) step (hclear.mono hswap))
      · exact .inr (hfrom.mono (List.subset_cons_self _ _))

/-- Whatever a chain leads to, one without circles leads to. -/
theorem leadsAround_nil_iff (h : p.Separates Known) (hx : Known x.module) :
    p.LeadsAround [] x ↔ p.Leads x := by
  refine ⟨LeadsAround.leads, ?_⟩
  rintro ⟨y, localName, hchain, hends⟩
  induction hchain using ReflTransGen.head_induction_on with
  | refl => exact .ends List.not_mem_nil hends
  | head hstep _ ih =>
    have hrest := ih (h.closed.of_step hx hstep)
    rcases h.leadsAround_or hx List.not_mem_nil (h.closed.of_step hx hstep) hrest with
      hclear | hfrom
    · exact .step List.not_mem_nil hstep hclear
    · exact hfrom

end Separates

/-! ## Ways that go on behind an end -/

/-- A local name of a module is imported from another one, where it is asked for. -/
def Imports (p : Project (Except Failure)) (i : ModuleIndex) (localName : String) (y : Demand) :
    Prop :=
  ∃ existing typeOnly, i.importOf? localName = some (existing, ⟨.name y.name, typeOnly⟩) ∧
    p.index? existing.resolved = .ok (some y.module)

/-- A way to a declared name, with the demands that it meets: chains of steps, the local name at the
end of each being imported from where the next one starts. -/
inductive Way (p : Project (Except Failure)) : List (Path × String) → Demand → Declared → Prop where
  | here {x : Demand} {localName : String} (ends : x.Ends localName) :
      Way p [x.key] x ⟨x.module, localName⟩
  | step {trail : List (Path × String)} {x y : Demand} {d : Declared} (step : p.Step x y)
      (rest : Way p trail y d) : Way p (x.key :: trail) x d
  | imported {trail : List (Path × String)} {x y : Demand} {localName : String} {d : Declared}
      (ends : x.Ends localName) (imports : p.Imports x.module localName y)
      (rest : Way p trail y d) : Way p (x.key :: trail) x d

/-- The import of a declared name leads nowhere, except back to a demand that was met. -/
def IsFinal (p : Project (Except Failure)) (met : List (Path × String)) (d : Declared) : Prop :=
  ∀ y, p.Imports d.module d.localName y → ¬p.LeadsAround met y

/-- A way to a declared name that meets no demand twice and none of those given, and that no import
of the name leads on from. -/
def LeadsTo (p : Project (Except Failure)) (passed : List (Path × String)) (x : Demand)
    (d : Declared) : Prop :=
  ∃ trail, p.Way trail x d ∧ trail.Nodup ∧ (∀ key ∈ trail, key ∉ passed) ∧
    p.IsFinal (trail ++ passed) d

/-- A declaration that is final after less was met is final after more. -/
theorem IsFinal.mono {met met' : List (Path × String)} {d : Declared} (h : p.IsFinal met d)
    (hsub : met ⊆ met') : p.IsFinal met' d :=
  fun y himports hleads => h y himports (hleads.mono hsub)

/-- A way that goes on from one demand to another goes on to what is found there. -/
theorem LeadsTo.cons {passed : List (Path × String)} {x y : Demand} {d : Declared}
    (hnew : x.key ∉ passed) (h : p.LeadsTo (x.key :: passed) y d)
    (hway : ∀ trail, p.Way trail y d → p.Way (x.key :: trail) x d) : p.LeadsTo passed x d := by
  obtain ⟨trail, htrail, hnodup, haround, hfinal⟩ := h
  refine ⟨x.key :: trail, hway trail htrail, List.nodup_cons.2 ⟨?_, hnodup⟩, ?_,
    hfinal.mono List.perm_middle.subset⟩
  · exact fun hmem => haround x.key hmem List.mem_cons_self
  · intro key hkey
    rcases List.mem_cons.1 hkey with rfl | hkey
    · exact hnew
    · exact fun hmem => haround key hkey (List.mem_cons_of_mem _ hmem)

/-! ## Questions without an answer -/

/-- A demand is passed on to another module, or its end is imported from there. -/
inductive Goes (p : Project (Except Failure)) (x y : Demand) : Prop where
  | step (step : p.Step x y)
  | imported {localName : String} (ends : x.Ends localName)
      (imports : p.Imports x.module localName y)

/-- The chain stays among the known modules. -/
theorem Closed.of_goes {Known : ModuleIndex → Prop} {x y : Demand} (h : p.Closed Known)
    (hx : Known x.module) (hgoes : p.Goes x y) : Known y.module := by
  cases hgoes with
  | step hstep => exact h.of_step hx hstep
  | imported _ imports =>
    obtain ⟨existing, typeOnly, himport, hindex⟩ := imports
    exact h.imported hx himport hindex

/-- A question that is asked at a demand fails. -/
inductive Fails (p : Project (Except Failure)) (x : Demand) (f : Failure) : Prop where
  | renamed {entry : ExportEntry} {source : String} (listed : x.module.export? x.name = some entry)
      (passed : entry.source = some source) (target : p.target? x.module source = .error f)
  | star {specifier : String} (unlisted : x.module.export? x.name = none)
      (named : x.name ≠ "default") (mem : specifier ∈ x.module.starExports)
      (target : p.target? x.module specifier = .error f)
  | imported {localName exported : String} {existing : ExistingImport} {typeOnly : Bool}
      (ends : x.Ends localName)
      (binds : x.module.importOf? localName = some (existing, ⟨.name exported, typeOnly⟩))
      (index : p.index? existing.resolved = .error f)

/-- A question fails that is asked somewhere on a way. -/
def Stops (p : Project (Except Failure)) (x : Demand) (f : Failure) : Prop :=
  ∃ y, ReflTransGen p.Goes x y ∧ p.Fails y f

/-- A chain that stops later stops. -/
theorem Stops.cons {x y : Demand} {f : Failure} (hgoes : p.Goes x y) (h : p.Stops y f) :
    p.Stops x f := by
  obtain ⟨z, hway, hfails⟩ := h
  exact ⟨z, .head hgoes hway, hfails⟩

end Project

end StableProps
