import TestScaffold.Proofs.Distinct
import TestScaffold.Scaffold.Jest

set_option autoImplicit false

/-!
# Observed calls

A test observes calls of the unit it is for: a spy is put on the method of an object. Which calls are observed,
and what the object and the method are, is said here for single calls. The spies of a test are those of its
observed calls, each text once and in the order of first calls.

## Main definitions

* `TestScaffold.Jest.isObserved` — whether a call is observed.
* `TestScaffold.Jest.Observation`, `TestScaffold.Jest.Observation.Splits` — a call with the object and the
  method that its spy is put on.

## Main results

* `TestScaffold.Jest.exists_splits` — an observed call has an object and a method.
* `TestScaffold.Jest.mem_spies_iff` — the spies of several calls are those of the observed ones.
* `TestScaffold.spies_of_observed_calls` — the same with the order of the spies.
-/

namespace TestScaffold

namespace Jest

/-- Whether a call is observed: it goes through a name that comes from another module, it is called on something,
and if this is the own object there is something that stands for it. -/
def isObserved (requires : List Require) (imports : List Import) (receiver : Option String) (site : CallChain) :
    Bool :=
  site.through?.any (isForeign imports requires) && (site.viaSelf || 2 ≤ site.segments.length) &&
    (!site.viaSelf || receiver.isSome)

/-- A call with the object and the method that a spy is put on. -/
structure Observation where
  /-- The observed call. -/
  site : CallChain
  /-- The chain of names of the object. -/
  object : List String
  /-- The name of the method. -/
  method : String

/-- The text of the statement that observes a call. -/
def Observation.text (o : Observation) : String :=
  "jest.spyOn(" ++ dotted o.object ++ ", " ++ quoted o.method ++ ");"

/-- `SpiedAs receiver segments chain`: to observe a call with the given segments, a spy is put on the given chain
of names. -/
inductive SpiedAs (receiver : Option String) : List String → List String → Prop where
  /-- What stands for the own object takes its place. -/
  | own {r : String} {rest : List String} (hreceiver : receiver = some r) :
    SpiedAs receiver (CallChain.selfWord :: rest) (r :: rest)
  /-- A call that does not begin with the own object is observed as it is. -/
  | plain {segments : List String} (hself : segments.head? ≠ some CallChain.selfWord) :
    SpiedAs receiver segments segments

/-- The chain of names for a call is split into an object and the last name, which is that of the method. -/
structure Observation.Splits (receiver : Option String) (o : Observation) : Prop where
  /-- There is an object. -/
  object_ne_nil : o.object ≠ []
  /-- The object and the method are the chain of names for the call. -/
  spied : SpiedAs receiver o.site.segments (o.object ++ [o.method])

/-- A call begins with the own object if its first segment says so. -/
theorem viaSelf_eq_true {site : CallChain} :
    site.viaSelf = true ↔ site.segments.head? = some CallChain.selfWord := by
  simp [CallChain.viaSelf]

section

variable {requires : List Require} {imports : List Import} {receiver : Option String} {site : CallChain}

/-- There is one chain of names at most to observe a call by. -/
theorem SpiedAs.unique {segments chain chain' : List String} (h : SpiedAs receiver segments chain)
    (h' : SpiedAs receiver segments chain') : chain' = chain := by
  cases h with
  | own hreceiver =>
    cases h' with
    | own hreceiver' => rw [Option.some.inj (hreceiver'.symm.trans hreceiver)]
    | plain hself => simp at hself
  | plain hself =>
    cases h' with
    | own => simp at hself
    | plain => rfl

/-- The chain of names to observe a call by. -/
theorem spiedChain?_eq_some {chain : List String} :
    spiedChain? receiver site = some chain ↔ SpiedAs receiver site.segments chain := by
  unfold spiedChain?
  obtain ⟨segments⟩ := site
  constructor
  · intro h
    split at h
    · next hself =>
      obtain ⟨r, hr, rfl⟩ := Option.map_eq_some_iff.1 h
      have hnames : (CallChain.mk segments).names = segments.drop 1 := by rw [CallChain.names, if_pos hself]
      rw [viaSelf_eq_true, List.head?_eq_some_iff] at hself
      obtain ⟨rest, rfl⟩ := hself
      rw [hnames]
      exact .own hr
    · next hself =>
      obtain rfl := Option.some.inj h
      exact .plain fun hhead => hself (viaSelf_eq_true.2 hhead)
  · intro h
    cases h with
    | own hreceiver => simp [CallChain.viaSelf, CallChain.names, hreceiver]
    | plain hself => rw [if_neg fun h => hself (viaSelf_eq_true.1 h)]

/-- The observed calls are the observable ones that have a chain of names to observe them by. -/
theorem isObserved_eq : isObserved requires imports receiver site =
    (isObservable requires imports site && (spiedChain? receiver site).isSome) := by
  have hspied : (spiedChain? receiver site).isSome = (!site.viaSelf || receiver.isSome) := by
    unfold spiedChain?
    cases site.viaSelf <;> simp
  unfold isObserved isObservable
  rw [hspied]
  cases site.through? <;> simp [Nat.succ_le_iff]

/-- **An observed call has an object and a method**, and its spy is put on them.

**Proof sketch.** Beside the own object there is the name that the call goes through, and without it there are
two names at least. So the chain has two names, of which the last one is the method. -/
theorem exists_splits (h : isObserved requires imports receiver site = true) :
    ∃ o : Observation, o.site = site ∧ o.Splits receiver ∧ (spiedChain? receiver site).map spy = some o.text := by
  have hchain := h
  rw [isObserved_eq, Bool.and_eq_true, Option.isSome_iff_exists] at hchain
  obtain ⟨-, chain, hchain⟩ := hchain
  have hlength : 2 ≤ chain.length := by
    obtain ⟨segments⟩ := site
    cases spiedChain?_eq_some.1 hchain with
    | @own r rest hreceiver =>
      cases rest with
      | nil => simp [isObserved, CallChain.through?, CallChain.names, CallChain.viaSelf] at h
      | cons name rest => simp
    | plain hself =>
      simp only [isObserved, CallChain.viaSelf, Bool.and_eq_true, Bool.or_eq_true, decide_eq_true_eq] at h
      exact h.1.2.resolve_left fun hhead => hself (eq_of_beq hhead)
  obtain ⟨object, method, rfl⟩ : ∃ object method, chain = object ++ [method] :=
    ⟨chain.dropLast, chain.getLast (by grind), (List.dropLast_append_getLast _).symm⟩
  have hobject : object ≠ [] := by
    rintro rfl
    simp at hlength
  refine ⟨⟨site, object, method⟩, rfl, ⟨hobject, spiedChain?_eq_some.1 hchain⟩, ?_⟩
  have hspy : spy (object ++ [method]) = Observation.text ⟨site, object, method⟩ := by
    unfold spy Observation.text
    rw [List.getLast?_concat]
    dsimp only
    rw [if_pos (by omega), List.dropLast_concat]
  rw [hchain, Option.map_some, hspy]

/-- There is one object and one method at most for a call. -/
theorem Observation.Splits.unique {o o' : Observation} (h : o.Splits receiver) (h' : o'.Splits receiver)
    (hsite : o'.site = o.site) : o' = o := by
  have hchain := h'.spied
  rw [hsite] at hchain
  obtain ⟨hobject, hmethod⟩ := List.append_inj' (h.spied.unique hchain) rfl
  obtain ⟨site, object, method⟩ := o
  obtain ⟨site', object', method'⟩ := o'
  simp_all

/-- A call for which there is an object and a method is observed if its target comes from another module. -/
theorem Observation.Splits.isObserved_eq {o : Observation} (h : o.Splits receiver) :
    isObserved requires imports receiver o.site = o.site.through?.any (isForeign imports requires) := by
  obtain ⟨⟨segments⟩, object, method⟩ := o
  have hspied := h.spied
  have hobject : 0 < object.length := List.length_pos_iff.2 h.object_ne_nil
  generalize hchain : object ++ [method] = chain at hspied
  have hlength : 2 ≤ chain.length := by
    rw [← hchain, List.length_append, List.length_singleton]
    omega
  cases hspied with
  | own hreceiver => simp [isObserved, CallChain.viaSelf, hreceiver]
  | plain hself => simp [isObserved, CallChain.viaSelf, hself, hlength]

end

section

variable (requires : List Require) (imports : List Import) (receiver : Option String)

/-- The spies of several calls are written from the observed ones among them, in their order. -/
theorem exists_observations (sites : List CallChain) :
    ∃ observed : List Observation, observed.map (·.site) = sites.filter (isObserved requires imports receiver) ∧
      (∀ o ∈ observed, o.Splits receiver) ∧
      ((sites.filter (isObservable requires imports)).filterMap (spiedChain? receiver)).map spy =
        observed.map Observation.text := by
  induction sites with
  | nil => exact ⟨[], rfl, nofun, rfl⟩
  | cons site sites ih =>
    obtain ⟨observed, hsites, hsplits, htexts⟩ := ih
    by_cases hsite : isObserved requires imports receiver site = true
    · obtain ⟨o, ho, hsplit, htext⟩ := exists_splits hsite
      obtain ⟨chain, hchain, hspy⟩ := Option.map_eq_some_iff.1 htext
      have hobservable := hsite
      rw [isObserved_eq, Bool.and_eq_true] at hobservable
      refine ⟨o :: observed, ?_, List.forall_mem_cons.2 ⟨hsplit, hsplits⟩, ?_⟩
      · rw [List.filter_cons_of_pos hsite, List.map_cons, ho, hsites]
      · rw [List.filter_cons_of_pos hobservable.1, List.filterMap_cons_some hchain, List.map_cons, hspy, htexts,
          List.map_cons]
    · refine ⟨observed, by rw [List.filter_cons_of_neg hsite, hsites], hsplits, ?_⟩
      rw [← htexts]
      by_cases hobservable : isObservable requires imports site = true
      · have hnone : spiedChain? receiver site = none := by
          simpa [isObserved_eq, hobservable] using hsite
        rw [List.filter_cons_of_pos hobservable, List.filterMap_cons_none hnone]
      · rw [List.filter_cons_of_neg hobservable]

/-- **The spies of several calls** are those of the calls that go through a name from another module and have an
object and a method. -/
theorem mem_spies_iff {sites : List CallChain} {statement : Statement} :
    statement ∈ spies sites requires imports receiver ↔
      ∃ o : Observation, o.site ∈ sites ∧ o.site.through?.any (isForeign imports requires) = true ∧
        o.Splits receiver ∧ statement = .line o.text := by
  obtain ⟨observed, hsites, hsplits, htexts⟩ := exists_observations requires imports receiver sites
  rw [spies, htexts, List.mem_map]
  simp only [List.mem_eraseDups, List.mem_map]
  constructor
  · rintro ⟨_, ⟨o, ho, rfl⟩, rfl⟩
    have hsite : o.site ∈ sites.filter (isObserved requires imports receiver) :=
      hsites ▸ List.mem_map_of_mem ho
    obtain ⟨hin, hobserved⟩ := List.mem_filter.1 hsite
    exact ⟨o, hin, (hsplits o ho).isObserved_eq ▸ hobserved, hsplits o ho, rfl⟩
  · rintro ⟨o, hin, hforeign, hsplit, rfl⟩
    have hobserved : isObserved requires imports receiver o.site = true := hsplit.isObserved_eq.trans hforeign
    have hsite : o.site ∈ observed.map (·.site) := hsites ▸ List.mem_filter.2 ⟨hin, hobserved⟩
    obtain ⟨o', ho', heq⟩ := List.mem_map.1 hsite
    obtain rfl := hsplit.unique (hsplits o' ho') heq
    exact ⟨_, ⟨o', ho', rfl⟩, rfl⟩

end

/-- A call of a name by itself is not observed. -/
theorem isObserved_single (requires : List Require) (imports : List Import) (receiver : Option String)
    (name : String) : isObserved requires imports receiver ⟨[name]⟩ = false := by
  by_cases hname : name = CallChain.selfWord
  · simp [isObserved, CallChain.through?, CallChain.names, CallChain.viaSelf, hname]
  · simp [isObserved, CallChain.viaSelf, hname]

/-- An object does not begin with the own object, unless this is what stands for it. -/
theorem Observation.Splits.receiver_eq {receiver : Option String} {o : Observation} (h : o.Splits receiver)
    (hself : o.object.head? = some CallChain.selfWord) : receiver = some CallChain.selfWord := by
  have hspied := h.spied
  generalize o.site.segments = segments at hspied
  generalize hchain : o.object ++ [o.method] = chain at hspied
  have hhead : chain.head? = some CallChain.selfWord := by
    rw [← hchain, List.head?_append, hself]
    rfl
  cases hspied with
  | own hreceiver =>
    rw [List.head?_cons, Option.some.injEq] at hhead
    rw [hreceiver, hhead]
  | plain hplain => exact absurd hhead hplain

end Jest

/-- **The spies of several calls.** They are pairwise distinct, in the order of the first calls that they observe.
The calls observed are exactly those that go through a name from another module, that are called on something,
and that do not begin with the own object if nothing stands for it. The chain of such a call, with what stands for
the own object in its place, is split into an object and a method, and the spy is put on these. So a name that is
called by itself is never observed, and no object begins with the own object unless this is what stands for it.

**Proof sketch.** The chain of an observed call has two names at least: if it begins with the own object, then the
name that it goes through comes behind. Texts are kept once each in the order of first occurrences. -/
theorem spies_of_observed_calls (sites : List CallChain) (requires : List Require) (imports : List Import)
    (receiver : Option String) :
    ∃ observed : List Jest.Observation,
      observed.map (·.site) = sites.filter (fun site =>
        site.through?.any (isForeign imports requires) && (site.viaSelf || 2 ≤ site.segments.length) &&
          (!site.viaSelf || receiver.isSome)) ∧
      (∀ o ∈ observed, o.Splits receiver) ∧
      (∃ texts, FirstOccurrences (observed.map Jest.Observation.text) texts ∧
        Jest.spies sites requires imports receiver = texts.map .line) ∧
      (Jest.spies sites requires imports receiver).Nodup ∧
      (∀ name, ⟨[name]⟩ ∉ observed.map (·.site)) ∧
      ∀ o ∈ observed, o.object.head? = some CallChain.selfWord → receiver = some CallChain.selfWord := by
  obtain ⟨observed, hsites, hsplits, htexts⟩ := Jest.exists_observations requires imports receiver sites
  have hspies : Jest.spies sites requires imports receiver =
      (observed.map Jest.Observation.text).eraseDups.map .line := by
    rw [Jest.spies, htexts]
  refine ⟨observed, hsites, hsplits, ⟨_, firstOccurrences_iff.2 rfl, hspies⟩, ?_, fun name hname => ?_, ?_⟩
  · rw [hspies]
    exact (nodup_eraseDups _).map fun _ _ h => Statement.line.inj h
  · rw [hsites, List.mem_filter, Jest.isObserved_single] at hname
    exact Bool.false_ne_true hname.2
  · exact fun o ho hself => (hsplits o ho).receiver_eq hself

/-- A call that is repeated, a name that is called by itself, and the own object, for which `service` stands. -/
example : Jest.spies [⟨["lib", "one"]⟩, ⟨["lib"]⟩, ⟨["this", "lib"]⟩, ⟨["lib", "one"]⟩]
    [⟨"lib", "lib", "const lib = require(\"lib\");"⟩] [] (some "service") =
      [.line "jest.spyOn(lib, \"one\");", .line "jest.spyOn(service, \"lib\");"] := rfl

end TestScaffold
