import StableProps.Proofs.Module.Export
import StableProps.Proofs.Module.Files

/-!
# Modules that a project knows

A module is known to a project if the project has it at its own path. The module under analysis is
known, and so is every module that an import or an export of a known module leads to, because
specifiers are resolved to paths from the root.
-/

namespace StableProps

open MonadAttach (CanReturn)

namespace ExistingImport

private theorem resolved_foldl_addPart (parts : List Node) (i : ExistingImport) :
    (parts.foldl addPart i).resolved = i.resolved ∧
      (parts.foldl addPart i).specifier = i.specifier := by
  induction parts generalizing i with
  | nil => exact ⟨rfl, rfl⟩
  | cons part parts ih =>
    have hpart : (i.addPart part).resolved = i.resolved ∧
        (i.addPart part).specifier = i.specifier := by
      rw [addPart]
      split <;> exact ⟨rfl, rfl⟩
    exact ⟨(ih _).1.trans hpart.1, (ih _).2.trans hpart.2⟩

/-- The module of an import is the one that its specifier stands for. -/
theorem resolve_of_ofStatement {resolve : String → Except Failure (Option Path)} {n : Node}
    {x : ExistingImport} (h : ofStatement resolve n = .ok (some x)) :
    resolve x.specifier = .ok x.resolved := by
  rw [ofStatement] at h
  split at h
  · cases h
  · obtain ⟨resolved, hresolved, h⟩ := bind_eq_ok.1 h
    obtain rfl := Option.some.inj (Except.ok.inj h)
    obtain ⟨hpath, hspecifier⟩ := resolved_foldl_addPart _ _
    rw [hpath, hspecifier]
    exact hresolved

end ExistingImport

namespace ModuleIndex

theorem mem_imports_of_importOf? {i : ModuleIndex} {name : String} {existing : ExistingImport}
    {binding : ImportBinding} (h : i.importOf? name = some (existing, binding)) :
    existing ∈ i.imports ∧ existing.binding? name = some binding := by
  obtain ⟨x, hx, hbinding⟩ := List.exists_of_findSome?_eq_some h
  obtain ⟨b, hb, heq⟩ := Option.map_eq_some_iff.1 hbinding
  obtain ⟨rfl, rfl⟩ := Prod.mk.inj heq
  exact ⟨hx, hb⟩

/-- The module of an import is the one that its specifier stands for in the module. -/
theorem resolve_of_mem_imports {resolve : String → Path → Except Failure (Option Path)}
    {s : Source} {i : ModuleIndex} (h : ofSource resolve s = .ok i) {x : ExistingImport}
    (hx : x ∈ i.imports) : resolve x.specifier i.path = .ok x.resolved := by
  obtain ⟨n, -, -, hstatement⟩ := statement_of_mem_imports h x hx
  rw [path, (isOf_ofSource h).source]
  exact ExistingImport.resolve_of_ofStatement hstatement

end ModuleIndex

/-- A module that a project has at its own path, read with the modules that a resolver finds. -/
structure Project.Knows (p : Project (Except Failure)) (r : Resolver) (i : ModuleIndex) : Prop where
  index : p.index i.path = .ok (some i)
  ofSource : ModuleIndex.ofSource r.resolve i.source = .ok i

namespace Resolver

variable {r : Resolver} {main : ModuleIndex}

/-- The project of a resolver, in which one module is read from a source of its own. -/
theorem knows_main (h : ModuleIndex.ofSource r.resolve main.source = .ok main) :
    (r.project.withModule main).Knows r main where
  index := if_pos rfl
  ofSource := h

/-- A module that the project has at its own path is known. -/
theorem knows_of_index_self (h : ModuleIndex.ofSource r.resolve main.source = .ok main)
    {i : ModuleIndex} (hi : (r.project.withModule main).index i.path = .ok (some i)) :
    (r.project.withModule main).Knows r i := by
  refine ⟨hi, ?_⟩
  by_cases hmain : i.path = main.path
  · rw [hmain, (knows_main h).index] at hi
    exact Option.some.inj (Except.ok.inj hi) ▸ h
  · have hload : r.loadModule i.path = .ok (some i) := by
      rw [← r.index_project, ← hi]
      exact (if_neg hmain).symm
    exact (loads_of_loadModule hload).ofSource

/-- What the project has at a path from the root is known. -/
theorem knows_of_index (h : ModuleIndex.ofSource r.resolve main.source = .ok main) {path : Path}
    (hpath : FileTree.resolve path = path) {i : ModuleIndex}
    (hi : (r.project.withModule main).index path = .ok (some i)) :
    i.path = path ∧ (r.project.withModule main).Knows r i := by
  by_cases hmain : path = main.path
  · subst hmain
    rw [(knows_main h).index] at hi
    obtain rfl := Option.some.inj (Except.ok.inj hi)
    exact ⟨rfl, knows_main h⟩
  · have hload : r.loadModule path = .ok (some i) := by
      rw [← r.index_project, ← hi]
      exact (if_neg hmain).symm
    have hloads := loads_of_loadModule hload
    have hsame : i.path = path := hloads.path_eq.trans hpath
    exact ⟨hsame, hsame.symm ▸ hi, hloads.ofSource⟩

/-- Steps from a known module lead to known modules. -/
theorem closed_knows (h : ModuleIndex.ofSource r.resolve main.source = .ok main) :
    (r.project.withModule main).Closed ((r.project.withModule main).Knows r) where
  target {i j specifier} _ hj := by
    obtain ⟨path, hpath, hj⟩ := bind_eq_ok.1 hj
    cases path with
    | none => cases hj
    | some path => exact (knows_of_index h (resolve_of_resolve hpath) hj).2
  imported {i j name existing binding} hi himport hj := by
    have hmem := (ModuleIndex.mem_imports_of_importOf? himport).1
    have hresolve := ModuleIndex.resolve_of_mem_imports hi.ofSource hmem
    cases hresolved : existing.resolved with
    | none =>
      rw [hresolved] at hj
      cases hj
    | some path =>
      rw [hresolved] at hj hresolve
      exact (knows_of_index h (resolve_of_resolve hresolve) hj).2

end Resolver

namespace Workspace

variable {r : Resolver} {source : Source} {p : Planner (Except Failure)}

/-- The module under analysis is known. -/
theorem knows_main (h : (fresh r).planner source = .ok p) : p.project.Knows r p.main := by
  obtain ⟨hproject, hread⟩ := of_planner h
  rw [hproject]
  refine Resolver.knows_main ?_
  rw [(ModuleIndex.isOf_ofSource hread).source]
  exact hread

/-- A module that the project has at its own path is known. -/
theorem knows_of_index_self (h : (fresh r).planner source = .ok p) {i : ModuleIndex}
    (hi : p.project.index i.path = .ok (some i)) : p.project.Knows r i := by
  rw [(of_planner h).1] at hi ⊢
  exact Resolver.knows_of_index_self (knows_main h).ofSource hi

/-- Steps from a known module lead to known modules. -/
theorem closed_knows (h : (fresh r).planner source = .ok p) :
    p.project.Closed (p.project.Knows r) := by
  rw [(of_planner h).1]
  exact Resolver.closed_knows (knows_main h).ofSource

end Workspace

end StableProps
