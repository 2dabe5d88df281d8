import TestScaffold.Proofs.Aggregation

set_option autoImplicit false

/-!
# Calls grouped by their targets

The table of usage groups calls by the names they go through. Which groups there are, in which order they stand
and what each of them holds is said here without the table, and it determines the table. It follows that the
entry of a name depends on the calls through this name alone, so that names may be left out before or after
the calls are grouped, and that a call which was made before changes nothing.

## Main definitions

* `TestScaffold.GroupsCalls` — a list of usages groups a list of calls.

## Main results

* `TestScaffold.groupsCalls_iff` — there is one grouping of a list of calls, and it is their usage.
* `TestScaffold.mem_paths_iff` — the paths of an entry, chain by chain.
* `TestScaffold.calls_grouped_by_target` — the same, with the calls that have no target.
* `TestScaffold.filter_usageOfCalls` — leaving names out of the usage is leaving calls out.
* `TestScaffold.usageOfCalls_append_of_subset` — calls that were made before change nothing.
* `TestScaffold.usage_selected_and_absorbed` — both laws, for names that come from other modules.
-/

namespace TestScaffold

variable {sites : List CallChain}

/-! ## Groups -/

/-- `GroupsCalls sites usages`: the usages are those of the calls `sites`, one for each name that a call goes
through. -/
structure GroupsCalls (sites : List CallChain) (usages : List Usage) : Prop where
  /-- There is one usage for each target, in the order in which the targets occur first. -/
  names : FirstOccurrences (sites.filterMap (·.through?)) (usages.map (·.name))
  /-- A usage has what is reached by the calls through its name, unless the name itself is called, each path once
  and in the order in which the paths occur first. -/
  paths : ∀ u ∈ usages,
    FirstOccurrences (((callsThrough sites u.name).map (·.members)).filter (!·.isEmpty)) u.paths
  /-- A usage is marked as that of a member of the own object if the first call through its name is. -/
  viaSelf : ∀ u ∈ usages, (callsThrough sites u.name).head?.map (·.viaSelf) = some u.viaSelf

/-- An entry of the usage is what is called through its name, which is a target. -/
theorem eq_usageThrough_of_mem {u : Usage} (h : u ∈ usageOfCalls sites) :
    u.name ∈ callTargets sites ∧ u = usageThrough sites u.name := by
  rw [usageOfCalls_eq, List.mem_map] at h
  obtain ⟨name, hname, rfl⟩ := h
  exact ⟨hname, rfl⟩

/-- The usage of a list of calls groups them. -/
theorem groupsCalls_usageOfCalls (sites : List CallChain) : GroupsCalls sites (usageOfCalls sites) where
  names := firstOccurrences_iff.2 (names_usageOfCalls sites)
  paths := by
    intro u hu
    have hpaths := congrArg Usage.paths (eq_usageThrough_of_mem hu).2
    exact firstOccurrences_iff.2 hpaths
  viaSelf := by
    intro u hu
    obtain ⟨htarget, hu⟩ := eq_usageThrough_of_mem hu
    have hne : callsThrough sites u.name ≠ [] := fun hnil => callsThrough_eq_nil.1 hnil htarget
    obtain ⟨first, rest, hfirst⟩ := List.exists_cons_of_ne_nil hne
    have hself : u.viaSelf = ((callsThrough sites u.name).head?.map (·.viaSelf)).getD false :=
      congrArg Usage.viaSelf hu
    rw [hself, hfirst]
    rfl

/-- A usage in a grouping is what is called through its name. -/
theorem GroupsCalls.eq_usageThrough {usages : List Usage} (h : GroupsCalls sites usages) {u : Usage}
    (hu : u ∈ usages) : u = usageThrough sites u.name := by
  have hpaths : u.paths = distinctPaths ((callsThrough sites u.name).map (·.members)) :=
    firstOccurrences_iff.1 (h.paths u hu)
  have hself : u.viaSelf = ((callsThrough sites u.name).head?.map (·.viaSelf)).getD false := by
    rw [h.viaSelf u hu]
    rfl
  obtain ⟨name, paths, viaSelf⟩ := u
  rw [usageThrough, Usage.mk.injEq]
  exact ⟨rfl, hpaths, hself⟩

/-- **There is one grouping** of a list of calls, and it is their usage. -/
theorem groupsCalls_iff {usages : List Usage} :
    GroupsCalls sites usages ↔ usages = usageOfCalls sites := by
  constructor
  · intro h
    have hnames : usages.map (·.name) = callTargets sites := firstOccurrences_iff.1 h.names
    calc usages
      _ = usages.map fun u => usageThrough sites u.name :=
        (List.map_id usages).symm.trans (List.map_congr_left fun u hu => h.eq_usageThrough hu)
      _ = (usages.map (·.name)).map (usageThrough sites) := by rw [List.map_map]; rfl
      _ = usageOfCalls sites := by rw [hnames, usageOfCalls_eq]
  · rintro rfl
    exact groupsCalls_usageOfCalls sites

/-- **The paths of an entry, chain by chain.** They are what follows the name of the entry, or this name after a
reference to the own object, in the chains where something follows. -/
theorem mem_paths_iff {u : Usage} (h : u ∈ usageOfCalls sites) {path : List String} :
    path ∈ u.paths ↔ path ≠ [] ∧ ∃ site ∈ sites,
      site.segments = u.name :: path ∧ u.name ≠ CallChain.selfWord ∨
        site.segments = CallChain.selfWord :: u.name :: path := by
  rw [((groupsCalls_usageOfCalls sites).paths u h).mem_iff, List.mem_filter, List.mem_map]
  constructor
  · rintro ⟨⟨site, hsite, hmembers⟩, hne⟩
    obtain ⟨hsite, hthrough⟩ := List.mem_filter.1 hsite
    exact ⟨by simpa using hne, site, hsite, CallChain.through?_eq_some_iff.1 ⟨by simpa using hthrough, hmembers⟩⟩
  · rintro ⟨hne, site, hsite, hsegments⟩
    obtain ⟨hthrough, hmembers⟩ := CallChain.through?_eq_some_iff.2 hsegments
    exact ⟨⟨site, List.mem_filter.2 ⟨hsite, by simpa using hthrough⟩, hmembers⟩, by simpa using hne⟩

/-! ## Names left out -/

/-- The targets that satisfy `p` are the targets of the calls through a name that satisfies `p`. -/
theorem callTargets_filter (p : String → Bool) (sites : List CallChain) :
    callTargets (sites.filter (·.through?.any p)) = (callTargets sites).filter p := by
  have htargets : (sites.filter (·.through?.any p)).filterMap CallChain.through? =
      (sites.filterMap CallChain.through?).filter p := by
    rw [List.filterMap_filter, List.filter_filterMap]
    refine List.filterMap_congr fun site _ => ?_
    cases site.through? with
    | none => rfl
    | some name => cases hp : p name <;> simp [Option.filter, hp]
  rw [callTargets, htargets, eraseDups_filter, callTargets]

/-- No call through a name that satisfies `p` is left out with the names that do not. -/
theorem callsThrough_filter {p : String → Bool} {name : String} (h : p name = true) :
    callsThrough (sites.filter (·.through?.any p)) name = callsThrough sites name := by
  unfold callsThrough
  rw [List.filter_filter]
  refine List.filter_congr fun site _ => ?_
  by_cases hthrough : site.through? = some name
  · simp [hthrough, h]
  · simp [hthrough]

/-- **Leaving names out of the usage is leaving calls out**: the entries of other names do not notice. -/
theorem filter_usageOfCalls (p : String → Bool) (sites : List CallChain) :
    (usageOfCalls sites).filter (fun u => p u.name) =
      usageOfCalls (sites.filter (·.through?.any p)) := by
  rw [usageOfCalls_eq, usageOfCalls_eq, List.filter_map, callTargets_filter]
  refine List.map_congr_left fun name hname => ?_
  exact usageThrough_congr (callsThrough_filter (List.mem_filter.1 hname).2).symm

/-- Calls without a target may be left out. -/
theorem usageOfCalls_filter_isSome (sites : List CallChain) :
    usageOfCalls (sites.filter (·.through?.isSome)) = usageOfCalls sites := by
  have hany : ∀ site : CallChain, site.through?.isSome = site.through?.any fun _ => true := by
    intro site
    cases site.through? <;> rfl
  simp only [hany]
  rw [← filter_usageOfCalls (fun _ => true), List.filter_true]

/-- **Calls are grouped by their targets.** The usage of a list of calls is the one list with an entry for each
name that a call goes through, in the order of first calls, whose paths are those of all calls through the name
that lead on from it, each once and in the order of first calls, and which is marked by the first of them. Calls
without a target, which are those with no names or with none but a reference to the own object, contribute
nothing.

**Proof sketch.** The usage of a list of calls is computed name by name, and each list of first occurrences is
unique. A call without a target goes through no name at all. -/
theorem calls_grouped_by_target (sites : List CallChain) :
    (∀ usages, usages = usageOfCalls sites ↔ GroupsCalls sites usages) ∧
      usageOfCalls (sites.filter fun site =>
        site.segments ≠ [] ∧ site.segments ≠ [CallChain.selfWord]) = usageOfCalls sites := by
  refine ⟨fun usages => groupsCalls_iff.symm, ?_⟩
  have htarget : ∀ site : CallChain,
      decide (site.segments ≠ [] ∧ site.segments ≠ [CallChain.selfWord]) = site.through?.isSome := by
    intro site
    rw [Bool.eq_iff_iff, decide_eq_true_iff, ← not_or, ← CallChain.through?_eq_none,
      Option.isSome_iff_ne_none]
  simp only [htarget]
  exact usageOfCalls_filter_isSome sites

/-! ## Calls made again -/

section Again

variable {more : List CallChain} (h : more ⊆ sites)
include h

/-- Calls that were made before have no new targets. -/
theorem callTargets_append_of_subset : callTargets (sites ++ more) = callTargets sites := by
  unfold callTargets
  rw [List.filterMap_append]
  exact eraseDups_append_of_subset (List.filterMap_subset _ h)

/-- Calls that were made before add nothing to what is called through a name.

**Proof sketch.** The calls through the name are among those made before, so no path is new. The first of all
calls through the name is one that was made before. -/
theorem usageThrough_append_of_subset (name : String) :
    usageThrough (sites ++ more) name = usageThrough sites name := by
  have hcalls : callsThrough (sites ++ more) name =
      callsThrough sites name ++ callsThrough more name := List.filter_append ..
  have hagain : callsThrough more name ⊆ callsThrough sites name := List.filter_subset _ h
  have hpaths : distinctPaths ((callsThrough (sites ++ more) name).map (·.members)) =
      distinctPaths ((callsThrough sites name).map (·.members)) := by
    unfold distinctPaths
    rw [hcalls, List.map_append, List.filter_append]
    exact eraseDups_append_of_subset (List.filter_subset _ (List.map_subset _ hagain))
  have hfirst : (callsThrough (sites ++ more) name).head? = (callsThrough sites name).head? := by
    rw [hcalls, List.head?_append]
    cases hbefore : callsThrough sites name with
    | nil =>
      rw [hbefore] at hagain
      rw [List.subset_nil.1 hagain]
      rfl
    | cons first rest => rfl
  rw [usageThrough, hpaths, hfirst, usageThrough]

/-- **Calls that were made before change nothing** about the usage. -/
theorem usageOfCalls_append_of_subset : usageOfCalls (sites ++ more) = usageOfCalls sites := by
  rw [usageOfCalls_eq, usageOfCalls_eq, callTargets_append_of_subset h]
  exact List.map_congr_left fun name _ => usageThrough_append_of_subset h name

end Again

/-- **Usage is selected by calls and absorbs repeated ones.** The usage of the names that come from other
modules is the usage of the calls through such names, whatever other calls stand between them; and a list of
calls has the same usage when calls out of it are made again. -/
theorem usage_selected_and_absorbed (imports : List Import) (requires : List Require)
    (sites : List CallChain) :
    foreignUsage imports requires (usageOfCalls sites) =
        usageOfCalls (sites.filter fun site => site.through?.any (isForeign imports requires)) ∧
      ∀ more, (∀ site ∈ more, site ∈ sites) → usageOfCalls (sites ++ more) = usageOfCalls sites := by
  refine ⟨filter_usageOfCalls (isForeign imports requires) sites, fun more hmore => ?_⟩
  exact usageOfCalls_append_of_subset hmore

/-- Calls through an import, a member of the own object, a local helper and nothing. -/
def mixedCalls : List CallChain :=
  [⟨["lib", "one"]⟩, ⟨["helper"]⟩, ⟨["this", "client", "get"]⟩, ⟨["lib", "two"]⟩, ⟨["this"]⟩, ⟨["client"]⟩]

/-- Two of these calls made again change nothing, and the helper is left out with its call. -/
theorem usage_selected_and_absorbed_mixed :
    (∀ site ∈ [⟨["lib", "two"]⟩, ⟨["client"]⟩], site ∈ mixedCalls) ∧
      usageOfCalls (mixedCalls ++ [⟨["lib", "two"]⟩, ⟨["client"]⟩]) = usageOfCalls mixedCalls ∧
      foreignUsage [⟨.member, [.member "lib" "lib"], "lib", false⟩] [⟨"client", "client", ""⟩]
          (usageOfCalls mixedCalls) =
        [⟨"lib", [["one"], ["two"]], false⟩, ⟨"client", [["get"]], true⟩] := by
  have hagain : ∀ site ∈ [⟨["lib", "two"]⟩, ⟨["client"]⟩], site ∈ mixedCalls := by decide
  refine ⟨hagain, (usage_selected_and_absorbed [] [] mixedCalls).2 _ hagain, ?_⟩
  rw [(usage_selected_and_absorbed _ _ mixedCalls).1]
  decide

end TestScaffold
