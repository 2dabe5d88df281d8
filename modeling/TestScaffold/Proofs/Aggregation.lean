import Mathlib.Data.List.Induction
import TestScaffold.Selection.Aggregation
import TestScaffold.Proofs.Distinct

set_option autoImplicit false

/-!
# What is aggregated

Usage is gathered call by call, in a table that is updated in place. Seen from the end, the table has one
entry for each name that some call goes through, and each entry is computed from the calls through its name
alone.

## Main definitions

* `TestScaffold.callTargets` — the names that calls go through.
* `TestScaffold.usageThrough` — what is called through one name.

## Main results

* `TestScaffold.usageOfCalls_eq` — the usage of a list of calls, name by name.
* `TestScaffold.mem_names_usageOfCalls` — the names with an entry are the targets of the calls.
* `TestScaffold.nodup_names_usageOfCalls`, `TestScaffold.paths_of_mem_usageOfCalls` — every name has one entry,
  with pairwise distinct paths that are not empty.
* `TestScaffold.exists_call_of_mem_paths` — every path comes from a call.
-/

namespace TestScaffold

/-! ## The usage of one name -/

/-- The names that calls go through, each once, in the order of first calls. -/
def callTargets (sites : List CallChain) : List String :=
  (sites.filterMap CallChain.through?).eraseDups

/-- The calls that go through a name. -/
def callsThrough (sites : List CallChain) (name : String) : List CallChain :=
  sites.filter (·.through? == some name)

/-- Of several member paths those that are not empty, each once. -/
def distinctPaths (paths : List (List String)) : List (List String) :=
  (paths.filter (!·.isEmpty)).eraseDups

/-- What is called through a name. -/
def usageThrough (sites : List CallChain) (name : String) : Usage where
  name
  paths := distinctPaths ((callsThrough sites name).map (·.members))
  viaSelf := ((callsThrough sites name).head?.map (·.viaSelf)).getD false

/-- A name is a target if some call goes through it. -/
@[simp] theorem mem_callTargets {sites : List CallChain} {name : String} :
    name ∈ callTargets sites ↔ ∃ site ∈ sites, site.through? = some name := by
  rw [callTargets, List.mem_eraseDups, List.mem_filterMap]

/-- There are calls through a name if the name is a target. -/
theorem callsThrough_eq_nil {sites : List CallChain} {name : String} :
    callsThrough sites name = [] ↔ name ∉ callTargets sites := by
  simp [callsThrough, List.filter_eq_nil_iff]

/-- One more call adds its target as the last one if it has a target and that one is new. -/
theorem callTargets_append_singleton (sites : List CallChain) (site : CallChain) :
    callTargets (sites ++ [site]) =
      match site.through? with
      | some name =>
        if name ∈ callTargets sites then callTargets sites else callTargets sites ++ [name]
      | none => callTargets sites := by
  unfold callTargets
  rw [List.filterMap_append]
  cases h : site.through? with
  | none => simp [h]
  | some name =>
    rw [List.filterMap_cons_some h, List.filterMap_nil, eraseDups_append_singleton]
    simp only [List.mem_eraseDups]

/-- The usage of a name is computed from the calls through this name. -/
theorem usageThrough_congr {sites sites' : List CallChain} {name : String}
    (h : callsThrough sites name = callsThrough sites' name) :
    usageThrough sites name = usageThrough sites' name := by
  rw [usageThrough, usageThrough, h]

/-- A call through another name changes nothing about a name. -/
theorem usageThrough_append_of_ne {sites : List CallChain} {site : CallChain} {name : String}
    (h : site.through? ≠ some name) :
    usageThrough (sites ++ [site]) name = usageThrough sites name := by
  apply usageThrough_congr
  simp [callsThrough, h]

/-- The distinct paths with one more are what recording it makes of them. -/
theorem paths_add_eq {u : Usage} {paths : List (List String)} (h : u.paths = distinctPaths paths)
    (path : List String) : (u.add path).paths = distinctPaths (paths ++ [path]) := by
  unfold Usage.add distinctPaths
  rw [List.filter_append]
  cases hp : path.isEmpty with
  | true => simp [hp, h, distinctPaths]
  | false =>
    have hknown : u.paths.contains path = true ↔ path ∈ paths.filter (!·.isEmpty) := by
      rw [List.contains_iff_mem, h, distinctPaths, List.mem_eraseDups]
    have hlast : [path].filter (!·.isEmpty) = [path] := by simp [hp]
    rw [hlast, eraseDups_append_singleton, Bool.false_or]
    by_cases hc : u.paths.contains path = true
    · rw [if_pos hc, if_pos (hknown.1 hc), h, distinctPaths]
    · rw [if_neg hc, if_neg (fun hm => hc (hknown.2 hm)), h, distinctPaths]

/-- Another call through a name is recorded in the usage of that name. -/
theorem usageThrough_append_of_mem {sites : List CallChain} {site : CallChain} {name : String}
    (h : site.through? = some name) (hmem : name ∈ callTargets sites) :
    usageThrough (sites ++ [site]) name = (usageThrough sites name).add site.members := by
  have hcalls : callsThrough (sites ++ [site]) name = callsThrough sites name ++ [site] := by
    simp [callsThrough, h]
  have hne : callsThrough sites name ≠ [] := fun hnil => callsThrough_eq_nil.1 hnil hmem
  have hhead : (callsThrough sites name ++ [site]).head? = (callsThrough sites name).head? := by
    obtain ⟨first, rest, hfirst⟩ := List.exists_cons_of_ne_nil hne
    rw [hfirst]
    rfl
  have hbefore : (usageThrough sites name).paths =
      distinctPaths ((callsThrough sites name).map (·.members)) := rfl
  have hpaths := paths_add_eq hbefore site.members
  have hself := Usage.viaSelf_add (usageThrough sites name) site.members
  have hname := Usage.name_add (usageThrough sites name) site.members
  rw [usageThrough, hcalls, hhead, List.map_append, List.map_singleton, ← hpaths]
  cases hu : (usageThrough sites name).add site.members with
  | mk _ _ _ =>
    rw [hu] at hself hname
    rw [Usage.mk.injEq]
    exact ⟨hname.symm, rfl, hself.symm⟩

/-- The first call through a name begins the usage of that name. -/
theorem usageThrough_append_of_not_mem {sites : List CallChain} {site : CallChain} {name : String}
    (h : site.through? = some name) (hmem : name ∉ callTargets sites) :
    usageThrough (sites ++ [site]) name = Usage.add ⟨name, [], site.viaSelf⟩ site.members := by
  have hcalls : callsThrough (sites ++ [site]) name = [site] := by
    have hnil : callsThrough sites name = [] := callsThrough_eq_nil.2 hmem
    unfold callsThrough at hnil ⊢
    rw [List.filter_append, hnil]
    simp [h]
  have hnone : (Usage.mk name [] site.viaSelf).paths = distinctPaths [] := rfl
  have hpaths := paths_add_eq hnone site.members
  have hself := Usage.viaSelf_add ⟨name, [], site.viaSelf⟩ site.members
  have hname := Usage.name_add ⟨name, [], site.viaSelf⟩ site.members
  rw [usageThrough, hcalls]
  cases hu : Usage.add ⟨name, [], site.viaSelf⟩ site.members with
  | mk _ _ _ =>
    rw [hu] at hpaths hself hname
    rw [Usage.mk.injEq]
    exact ⟨hname.symm, hpaths.symm, hself.symm⟩

/-! ## The table of all names -/

/-- Adding a call to a table with one entry for each of several distinct names changes the entry of its
name, or puts a new one last. -/
theorem addUsage_map {names : List String} (hnames : names.Nodup) (usage : String → Usage)
    (hname : ∀ n, (usage n).name = n) (name : String) (site : CallChain) :
    addUsage name site (names.map usage) =
      if name ∈ names then
        names.map fun n => if n = name then (usage n).add site.members else usage n
      else names.map usage ++ [Usage.add ⟨name, [], site.viaSelf⟩ site.members] := by
  induction names with
  | nil => rfl
  | cons n names ih =>
    obtain ⟨hn, hrest⟩ := List.nodup_cons.1 hnames
    rw [List.map_cons, addUsage, hname n]
    by_cases heq : n = name
    · subst heq
      have hothers : names.map (fun m => if m = n then (usage m).add site.members else usage m) =
          names.map usage := by
        refine List.map_congr_left fun m hm => ?_
        rw [if_neg (fun h : m = n => hn (h ▸ hm))]
      simp [hothers]
    · have hmem : name ∈ n :: names ↔ name ∈ names := by
        simp [List.mem_cons, Ne.symm heq]
      have hbeq : (n == name) = false := by simpa using heq
      rw [hbeq, ih hrest]
      by_cases hin : name ∈ names
      · simp [hin, heq]
      · simp [hin, Ne.symm heq]

/-- **The usage of a list of calls**, name by name: one entry for each target, in the order of first calls,
which holds what is called through that name.

**Proof sketch.** Induction on the list from its end. The last call either has no target, or goes through a
known name, whose entry is the only one to change, or through a new one, which gets the last entry. -/
theorem usageOfCalls_eq (sites : List CallChain) :
    usageOfCalls sites = (callTargets sites).map (usageThrough sites) := by
  induction sites using List.reverseRecOn with
  | nil => rfl
  | append_singleton sites site ih =>
    have hstep : usageOfCalls (sites ++ [site]) = addCall (usageOfCalls sites) site := by
      rw [usageOfCalls, List.foldl_append]
      rfl
    rw [hstep, ih, addCall, callTargets_append_singleton]
    cases h : site.through? with
    | none =>
      refine List.map_congr_left fun n _ => ?_
      rw [usageThrough_append_of_ne (by simp [h])]
    | some name =>
      have hnodup : (callTargets sites).Nodup := nodup_eraseDups _
      dsimp only
      rw [addUsage_map hnodup _ (fun _ => rfl)]
      by_cases hmem : name ∈ callTargets sites
      · rw [if_pos hmem, if_pos hmem]
        refine List.map_congr_left fun n _ => ?_
        by_cases heq : n = name
        · rw [if_pos heq, heq, usageThrough_append_of_mem h hmem]
        · rw [if_neg heq, usageThrough_append_of_ne (fun hn => heq (by simpa [h] using hn.symm))]
      · rw [if_neg hmem, if_neg hmem, List.map_append, List.map_singleton,
          usageThrough_append_of_not_mem h hmem]
        congr 1
        refine List.map_congr_left fun n hn => ?_
        rw [usageThrough_append_of_ne]
        intro hcon
        rw [h, Option.some.injEq] at hcon
        exact hmem (hcon ▸ hn)

/-- The names with an entry are the targets of the calls, in order. -/
theorem names_usageOfCalls (sites : List CallChain) :
    (usageOfCalls sites).map (·.name) = callTargets sites := by
  rw [usageOfCalls_eq, List.map_map]
  exact List.map_id _

/-- A name has an entry if some call goes through it. -/
theorem mem_names_usageOfCalls {sites : List CallChain} {name : String} :
    name ∈ (usageOfCalls sites).map (·.name) ↔ ∃ site ∈ sites, site.through? = some name := by
  rw [names_usageOfCalls, mem_callTargets]

/-- No name has two entries. -/
theorem nodup_names_usageOfCalls (sites : List CallChain) :
    ((usageOfCalls sites).map (·.name)).Nodup := by
  rw [names_usageOfCalls]
  exact nodup_eraseDups _

/-- The paths of an entry are pairwise distinct and none of them is empty. -/
theorem paths_of_mem_usageOfCalls {sites : List CallChain} {u : Usage} (h : u ∈ usageOfCalls sites) :
    u.paths.Nodup ∧ [] ∉ u.paths := by
  rw [usageOfCalls_eq, List.mem_map] at h
  obtain ⟨name, -, rfl⟩ := h
  refine ⟨nodup_eraseDups _, fun hnil => ?_⟩
  have hnil' := List.mem_eraseDups.1 hnil
  simp at hnil'

/-- Every path of an entry is that of some call through its name. -/
theorem exists_call_of_mem_paths {sites : List CallChain} {u : Usage} (h : u ∈ usageOfCalls sites)
    {path : List String} (hpath : path ∈ u.paths) :
    ∃ site ∈ sites, site.through? = some u.name ∧ site.members = path := by
  rw [usageOfCalls_eq, List.mem_map] at h
  obtain ⟨name, -, rfl⟩ := h
  have hmem := (List.mem_filter.1 (List.mem_eraseDups.1 hpath)).1
  obtain ⟨site, hsite, rfl⟩ := List.mem_map.1 hmem
  obtain ⟨hin, hthrough⟩ := List.mem_filter.1 hsite
  exact ⟨site, hin, eq_of_beq hthrough, rfl⟩

end TestScaffold
