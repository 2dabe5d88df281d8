import Mathlib.Data.List.Count
import TestScaffold.Proofs.SuiteScope

set_option autoImplicit false

/-!
# Setting up instances

Before each test every instance is made, and the parameters of what makes it are declared without a value. An
instance may share parameters with others, and a parameter may be repeated. The lines that declare parameters and
those that make instances are told apart here by the names that they declare, so that each sort is followed through
the setup by itself.

## Main definitions

* `TestScaffold.makingLines` — the lines of a setup that make instances.
* `TestScaffold.SetsUp` — lines that set up instances.

## Main results

* `TestScaffold.makingLines_setupDeclarations` — every instance is made once, in order.
* `TestScaffold.count_text_setupDeclarations` — every parameter is declared by one line of the text.
* `TestScaffold.exists_setupDeclarations_eq` — where a parameter is declared.
* `TestScaffold.setup_declares_before_use` — the lines that are run before each test.
-/

namespace TestScaffold

/-- The lines of a setup that make instances: those that declare nothing. -/
def makingLines (lines : List Declaration) : List Declaration := lines.filter (·.names.isEmpty)

/-- The line that makes an instance. -/
def Instance.makingLine (i : Instance) : Declaration := ⟨Jest.instantiation i, []⟩

/-- `SetsUp instances lines`: the lines make the instances and declare their parameters, each before it is used. -/
structure SetsUp (instances : List Instance) (lines : List Declaration) : Prop where
  /-- Each instance is made once, in order, and is given its parameters in order. -/
  made : (makingLines lines).map (·.text) = instances.map fun i =>
    i.binding ++ " = new " ++ i.name ++ "(" ++ String.intercalate ", " i.parameters ++ ");"
  /-- Any other line declares a parameter. -/
  declares : ∀ d ∈ lines, d ∈ makingLines lines ∨
    ∃ i ∈ instances, ∃ name ∈ i.parameters, d.text = "const " ++ name ++ " = null;"
  /-- Each parameter is declared by one line. -/
  once : ∀ i ∈ instances, ∀ name ∈ i.parameters, (lines.map (·.text)).count ("const " ++ name ++ " = null;") = 1
  /-- It is declared between the instances before the first one that uses it and this one. -/
  placed : ∀ early i late name, instances = early ++ i :: late → name ∈ i.parameters →
    (∀ j ∈ early, name ∉ j.parameters) → ∃ before d after, lines = before ++ d :: after ∧
      d.text = "const " ++ name ++ " = null;" ∧ makingLines before = early.map Instance.makingLine ∧
      makingLines after = (i :: late).map Instance.makingLine

section Setup

variable {instances : List Instance} {declared : List String}

/-! ## Lines that make instances -/

/-- Lines that declare parameters make no instance. -/
theorem makingLines_nulls (names : List String) : makingLines (names.map Declaration.null) = [] := by
  rw [makingLines, List.filter_eq_nil_iff]
  intro d hd
  obtain ⟨name, -, rfl⟩ := List.mem_map.1 hd
  exact Bool.false_ne_true

/-- The lines of several parts that make instances. -/
theorem makingLines_append (lines lines' : List Declaration) :
    makingLines (lines ++ lines') = makingLines lines ++ makingLines lines' := List.filter_append _ _

/-- A line that makes an instance is one. -/
theorem makingLines_cons_makingLine (i : Instance) (lines : List Declaration) :
    makingLines (i.makingLine :: lines) = i.makingLine :: makingLines lines := rfl

/-- A setup is that of its first instance, and then that of the others. -/
theorem setupDeclarations_cons (declared : List String) (i : Instance) (instances : List Instance) :
    setupDeclarations declared (i :: instances) =
      (i.parameters.eraseDups.filter fun p => !declared.contains p).map Declaration.null ++ i.makingLine ::
        setupDeclarations (declared ++ i.parameters.eraseDups.filter fun p => !declared.contains p) instances := rfl

/-- **Every instance is made once**, in order. -/
theorem makingLines_setupDeclarations :
    makingLines (setupDeclarations declared instances) = instances.map Instance.makingLine := by
  induction instances generalizing declared with
  | nil => rfl
  | cons i rest ih =>
    rw [setupDeclarations_cons, makingLines_append, makingLines_nulls, makingLines_cons_makingLine, ih]
    rfl

/-! ## Lines that declare parameters -/

/-- The line that declares a parameter tells which one it is. -/
theorem null_text_injective : Function.Injective fun name => (Declaration.null name).text := by
  intro name name' h
  exact (String.append_right_inj _).1 ((String.append_left_inj _).1 h)

/-- What makes an instance does not read like what declares a parameter: it ends with the arguments. -/
theorem instantiation_ne_null (i : Instance) (name : String) :
    Jest.instantiation i ≠ (Declaration.null name).text := by
  intro h
  have hlast := congrArg (fun s : String => s.toList.reverse[1]?) h
  simp [Jest.instantiation, parenthesized, Declaration.null] at hlast

/-- Lines that declare parameters read apart. -/
theorem count_text_nulls (names : List String) (name : String) :
    ((names.map Declaration.null).map (·.text)).count (Declaration.null name).text = names.count name := by
  rw [List.map_map]
  exact List.count_map_of_injective names _ null_text_injective name

/-- **Every parameter is declared by one line** of the text, and no other line reads like this one. -/
theorem count_text_setupDeclarations (name : String) :
    ((setupDeclarations declared instances).map (·.text)).count (Declaration.null name).text =
      (namesDeclared (setupDeclarations declared instances)).count name := by
  induction instances generalizing declared with
  | nil => rfl
  | cons i rest ih =>
    have hmaking : (i.makingLine.text == (Declaration.null name).text) = false :=
      beq_eq_false_iff_ne.2 (instantiation_ne_null i name)
    rw [namesDeclared_setupDeclarations_cons, setupDeclarations_cons, List.map_append, List.map_cons,
      List.count_append, List.count_append, List.count_cons, count_text_nulls, ih, hmaking]
    rfl

/-- A line of a setup makes an instance or declares a parameter. -/
theorem mem_setupDeclarations {d : Declaration} (h : d ∈ setupDeclarations declared instances) :
    d ∈ instances.map Instance.makingLine ∨ ∃ i ∈ instances, ∃ name ∈ i.parameters, d = Declaration.null name := by
  induction instances generalizing declared with
  | nil => cases h
  | cons i rest ih =>
    rw [setupDeclarations_cons, List.mem_append, List.mem_cons] at h
    rcases h with h | rfl | h
    · obtain ⟨name, hname, rfl⟩ := List.mem_map.1 h
      exact .inr ⟨i, List.mem_cons_self, name, List.mem_eraseDups.1 (List.mem_filter.1 hname).1, rfl⟩
    · exact .inl List.mem_cons_self
    · rcases ih h with hmade | ⟨j, hj, hnull⟩
      · exact .inl (List.mem_cons_of_mem _ hmade)
      · exact .inr ⟨j, List.mem_cons_of_mem i hj, hnull⟩

/-- **Where a parameter is declared**: between the instances before the first one that uses it and this one. -/
theorem exists_setupDeclarations_eq {early : List Instance} {i : Instance} {name : String} (late : List Instance)
    (hname : name ∈ i.parameters) (hearly : ∀ j ∈ early, name ∉ j.parameters) (hdeclared : name ∉ declared) :
    ∃ before after, setupDeclarations declared (early ++ i :: late) = before ++ Declaration.null name :: after ∧
      makingLines before = early.map Instance.makingLine ∧
      makingLines after = (i :: late).map Instance.makingLine := by
  induction early generalizing declared with
  | nil =>
    have hfresh : name ∈ i.parameters.eraseDups.filter fun p => !declared.contains p := by
      simpa [List.mem_filter] using ⟨hname, hdeclared⟩
    obtain ⟨first, last, hsplit⟩ := List.append_of_mem hfresh
    refine ⟨first.map Declaration.null, last.map Declaration.null ++ i.makingLine :: setupDeclarations
      (declared ++ i.parameters.eraseDups.filter fun p => !declared.contains p) late, ?_, makingLines_nulls first, ?_⟩
    · rw [List.nil_append, setupDeclarations_cons, hsplit]
      simp
    · rw [makingLines_append, makingLines_nulls, makingLines_cons_makingLine, makingLines_setupDeclarations]
      rfl
  | cons j early ih =>
    have hlater : name ∉ declared ++ j.parameters.eraseDups.filter fun p => !declared.contains p := by
      have hj := hearly j List.mem_cons_self
      simp [hdeclared, hj]
    obtain ⟨before, after, hsplit, hbefore, hafter⟩ :=
      ih (fun k hk => hearly k (List.mem_cons_of_mem j hk)) hlater
    refine ⟨(j.parameters.eraseDups.filter fun p => !declared.contains p).map Declaration.null ++ j.makingLine ::
      before, after, ?_, ?_, hafter⟩
    · rw [List.cons_append, setupDeclarations_cons, hsplit]
      simp
    · rw [makingLines_append, makingLines_nulls, makingLines_cons_makingLine, hbefore]
      rfl

end Setup

/-! ## The setup -/

/-- The lines that are run before each test set up the instances. -/
theorem setsUp_setupDeclarations (instances : List Instance) : SetsUp instances (setupDeclarations [] instances) where
  made := by
    rw [makingLines_setupDeclarations, List.map_map]
    refine List.map_congr_left fun i _ => ?_
    simp [Instance.makingLine, Jest.instantiation, parenthesized, commaSeparated, String.append_assoc]
  declares d hd := by
    rw [makingLines_setupDeclarations]
    obtain hmade | ⟨i, hi, name, hname, rfl⟩ := mem_setupDeclarations hd
    · exact .inl hmade
    · exact .inr ⟨i, hi, name, hname, rfl⟩
  once i hi name hname := by
    have hdeclared : name ∈ namesDeclared (setupDeclarations [] instances) :=
      mem_setupNames.2 ⟨List.not_mem_nil, i, hi, hname⟩
    exact (count_text_setupDeclarations name).trans (List.count_eq_one_of_mem nodup_setupNames hdeclared)
  placed early i late name hsplit hname hearly := by
    obtain ⟨before, after, hlines, hbefore, hafter⟩ :=
      exists_setupDeclarations_eq late hname hearly List.not_mem_nil
    exact ⟨before, Declaration.null name, after, hsplit ▸ hlines, rfl, hbefore, hafter⟩

/-- **Before each test** every instance is made once, in order, and each parameter is declared once: behind the
instances before the first one that uses it, and before this one.

**Proof sketch.** The setup grows by one instance at a time. In front of an instance stand those of its parameters
that have not been declared yet, so a parameter is declared where it first occurs and nowhere else. -/
theorem setup_declares_before_use (instances : List Instance) :
    ∃ lines, jest.beforeEach instances =
        [.block "beforeEach(() => \x7b" (lines.map fun d => .line d.text) "\x7d);"] ∧
      SetsUp instances lines :=
  ⟨setupDeclarations [] instances, by rw [map_line_setupDeclarations]; rfl, setsUp_setupDeclarations instances⟩

/-- A parameter that is shared is declared once, and so is one that is repeated. -/
example : (setupDeclarations [] [⟨"Store", "store", ["db", "log", "db"]⟩, ⟨"Cache", "cache", ["log", "size"]⟩]).map
    (·.text) = ["const db = null;", "const log = null;", "store = new Store(db, log, db);", "const size = null;",
      "cache = new Cache(log, size);"] := by
  decide

end TestScaffold
