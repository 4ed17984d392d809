import Vassal.Project.Build
import Vassal.Project.Decode
import Vassal.Proofs.Groups.Bag
import Vassal.Section.Operation

-- The history that the description of a section stands for.
--
-- A description is read off a table of the document, whose entries keep the order in which they
-- are written. Entries that a section has no meaning for are taken for parameters of groups, and
-- the python preset takes the table of the interpreter out of them. What is left is applied as it
-- stands in the document, whatever the preset.

namespace Vassal

open Toml

namespace Operation

variable (env : Environment)

-- One operation after the other, up to the first that fails.
def runAll (ops : List Operation) : Attempt Section Unit :=
  ops.forM (run env)

theorem runAll_append (first second : List Operation) :
    runAll env (first ++ second) = (runAll env first >>= fun _ => runAll env second) :=
  List.forM_append

theorem runAll_singleton (op : Operation) : runAll env [op] = op.run env :=
  bind_pure (op.run env)

theorem runAll_map {α : Type} (f : α → Operation) (entries : List α) :
    runAll env (entries.map f) = entries.forM fun a => (f a).run env :=
  List.forM_map

end Operation

namespace SectionSpec

variable {spec : SectionSpec}

-- The tables of groups in the table of a section, in the order of the document, without the one
-- that the preset has used.
def laterTables (spec : SectionSpec) (t : Table) : List (String × Table) :=
  (Section.groupTables t).filter fun call => spec.preset ≠ .python ∨ call.1 ≠ pythonKind.id

-- The operation of the preset. The table of the interpreter may be missing, but not ill-typed.
def presetOperations? (spec : SectionSpec) (t : Table) : Option (List Operation) :=
  match spec.preset with
  | .plain => some []
  | .nice => some [.nice spec.nice]
  | .python => (t.field? pythonKind.id PythonParams.ofValue?).map fun python =>
    [.nicePython spec.nice (python.getD {}) spec.wsgiModule]

-- What is loaded into a section once its plugins are known.
def loadingOperations (spec : SectionSpec) (tables : List (String × Table)) : List Operation :=
  tables.map (fun call => .group call.1 call.2) ++
  spec.env.map (fun entry =>
    .exportVariable entry.1 (if entry.2.isEmpty then none else some entry.2)) ++
  spec.includes.map (fun path => .addInclude (.file path)) ++
  spec.fallback.toList.map (fun path => .fallback (.file path)) ++
  if spec.printVariables then [.printVariables] else []

-- Everything that comes after the preset.
def laterOperations (spec : SectionSpec) (tables : List (String × Table)) : List Operation :=
  (if spec.strictConfig.isSome then [.strict spec.strictConfig] else []) ++
  spec.plugins.toList.map .plugins ++
  spec.loadingOperations tables

-- The operations that the table of a section stands for, unless the preset refuses its parameters.
def history? (spec : SectionSpec) (t : Table) : Option (List Operation) :=
  (spec.presetOperations? t).map (· ++ spec.laterOperations (spec.laterTables t))

section Steps

variable (env : Environment) (spec : SectionSpec)

open Operation

theorem steps_eq : spec.steps env = spec.applyPreset >>= fun _ =>
    runAll env (spec.laterOperations (Section.groupTables spec.remainingGroups)) := by
  unfold steps
  refine congrArg (spec.applyPreset >>= ·) (funext fun _ => ?_)
  -- What follows an optional step is shared by its two branches, so the last steps come first.
  extract_lets printing loading plugging
  have hprinting : ∀ u, printing u =
      runAll env (if spec.printVariables then [.printVariables] else []) := by
    intro u
    unfold printing
    cases spec.printVariables with
    | true => exact (runAll_singleton env .printVariables).symm
    | false => rfl
  have hloading : ∀ u, loading u =
      runAll env (spec.loadingOperations (Section.groupTables spec.remainingGroups)) := by
    intro u
    have htables : Section.applyParams spec.remainingGroups =
        (Section.groupTables spec.remainingGroups).forM Section.applyCall :=
      funext (Section.applyParams_eq _)
    unfold loading loadingOperations
    rw [htables, runAll_append, runAll_append, runAll_append, runAll_append]
    simp only [runAll_map, Attempt.forM_toList, bind_assoc, hprinting]
    cases spec.fallback <;> rfl
  have hplugging : ∀ u, plugging u = runAll env (spec.plugins.toList.map .plugins ++
      spec.loadingOperations (Section.groupTables spec.remainingGroups)) := by
    intro u
    unfold plugging
    simp only [runAll_append, runAll_map, Attempt.forM_toList, hloading]
    cases spec.plugins <;> rfl
  rw [laterOperations, List.append_assoc, runAll_append]
  simp only [hplugging]
  split
  case isTrue => rw [runAll_singleton]; rfl
  case isFalse => rfl

theorem build_eq_outcome (base : Option Section) :
    spec.build env base = (spec.steps env).outcome (spec.start base) := by
  unfold build Attempt.outcome
  cases spec.steps env (spec.start base) <;> rfl

end Steps

section Document

variable {v : Toml.Value} {t : Table}

theorem groups_of_ofValue? (hspec : ofValue? v = some spec) (ht : v.entries? = some t) :
    spec.groups = t.filter fun entry => !knownKeys.contains entry.1 := by
  unfold ofValue? at hspec
  obtain ⟨entries, hentries, hspec⟩ := Option.bind_eq_some_iff.mp hspec
  obtain rfl : t = entries := Option.some.inj (ht.symm.trans hentries)
  -- One field of the description for each of the known keys.
  iterate 12 obtain ⟨_, -, hspec⟩ := Option.bind_eq_some_iff.mp hspec
  obtain rfl := Option.some.inj hspec
  rfl

-- No group goes by a name that a section has another meaning for.
theorem groupTables_of_ofValue? (hspec : ofValue? v = some spec) (ht : v.entries? = some t) :
    Section.groupTables spec.groups = Section.groupTables t := by
  have hunknown : ∀ id ∈ availableGroups, (!knownKeys.contains id) = true := by decide
  rw [groups_of_ofValue? hspec ht, Section.groupTables_filter (!knownKeys.contains ·)]
  exact List.filter_eq_self.mpr fun call hcall =>
    hunknown call.1 (Section.mem_availableGroups_of_mem_groupTables hcall)

-- The table of the interpreter is found among the parameters of groups, where it stands in the
-- document.
theorem field?_of_ofValue? (hspec : ofValue? v = some spec) (ht : v.entries? = some t)
    {key : String} (hkey : key ∉ knownKeys) {α : Type} (decoder : Decoder α) :
    spec.groups.field? key decoder = t.field? key decoder := by
  have hunknown : (!knownKeys.contains key) = true := by simpa using hkey
  unfold Table.field?
  rw [groups_of_ofValue? hspec ht,
    Ascending.lookup_filter (p := (!knownKeys.contains ·)) hunknown]

theorem groupTables_remainingGroups (hspec : ofValue? v = some spec) (ht : v.entries? = some t) :
    Section.groupTables spec.remainingGroups = spec.laterTables t := by
  unfold remainingGroups laterTables
  rw [← groupTables_of_ofValue? hspec ht]
  cases hpreset : spec.preset with
  | python => simpa using Section.groupTables_filter (· ≠ pythonKind.id) spec.groups
  | plain | nice => simp

theorem applyPreset_eq (hspec : ofValue? v = some spec) (ht : v.entries? = some t)
    (env : Environment) : spec.applyPreset = match spec.presetOperations? t with
      | some ops => Operation.runAll env ops
      | none => throw (.invalidParams pythonKind.id) := by
  have hunknown : pythonKind.id ∉ knownKeys := by decide
  have hfield := field?_of_ofValue? hspec ht hunknown PythonParams.ofValue?
  unfold applyPreset presetOperations?
  cases spec.preset with
  | plain => rfl
  | nice => exact (Operation.runAll_singleton env (.nice spec.nice)).symm
  | python =>
    simp only [hfield]
    cases t.field? pythonKind.id PythonParams.ofValue? with
    | none => rfl
    | some python => exact (Operation.runAll_singleton env (.nicePython _ _ _)).symm

theorem build_eq_history (hspec : ofValue? v = some spec) (ht : v.entries? = some t)
    (env : Environment) (base : Option Section) :
    spec.build env base = match spec.history? t with
      | some ops => (Operation.runAll env ops).outcome (spec.start base)
      | none => .error (.invalidParams pythonKind.id) := by
  rw [build_eq_outcome, steps_eq, applyPreset_eq hspec ht env,
    groupTables_remainingGroups hspec ht]
  unfold history?
  cases spec.presetOperations? t with
  | none => rfl
  | some preset =>
    simp only [Option.map_some, Operation.runAll_append]

section Order

variable (spec : SectionSpec) (t : Table)

theorem mem_laterTables_iff {id : String} {params : Table} :
    (id, params) ∈ spec.laterTables t ↔ (id, .table params) ∈ t ∧ id ∈ availableGroups ∧
      (spec.preset = .python → id ≠ pythonKind.id) := by
  unfold laterTables
  rw [List.mem_filter, Section.mem_groupTables_iff, and_assoc]
  simp [imp_iff_not_or]

theorem laterTables_sublist :
    ((spec.laterTables t).map fun call => (call.1, Toml.Value.table call.2)).Sublist t :=
  ((List.filter_sublist).map _).trans (Section.groupTables_sublist t)

end Order

-- A section is built by its preset, with the parameters of the interpreter where the preset has
-- one, and then by everything else in a fixed order. The tables of groups stand in this order as
-- they stand in the document, all of them and each in its own place, whatever the preset and
-- wherever among them the table of the interpreter is written.
theorem build_in_document_order (hspec : ofValue? v = some spec) (ht : v.entries? = some t)
    (env : Environment) (base : Option Section) :
    (spec.build env base = match spec.history? t with
      | some ops => (Operation.runAll env ops).outcome (spec.start base)
      | none => .error (.invalidParams pythonKind.id)) ∧
    ((spec.laterTables t).map fun call => (call.1, Toml.Value.table call.2)).Sublist t ∧
    ∀ id params, (id, params) ∈ spec.laterTables t ↔ (id, .table params) ∈ t ∧
      id ∈ availableGroups ∧ (spec.preset = .python → id ≠ pythonKind.id) :=
  ⟨build_eq_history hspec ht env base, spec.laterTables_sublist t,
    fun _ _ => spec.mem_laterTables_iff t⟩

end Document

-- The python preset takes the table of the interpreter from between the two others, which keep
-- their order.
theorem build_in_document_order_around_interpreter :
    let workers : Table := [("count", .integer 4)]
    let locks : Table := [("thunder_lock", .boolean false)]
    let t : Table :=
      [("workers", .table workers), ("preset", .string "python"),
       ("python", .table [("version", .integer 3)]), ("env", .table [("HOME", .string "")]),
       ("locks", .table locks), ("strict_config", .boolean false)]
    ∃ spec, ofValue? (.table t) = some spec ∧
      spec.laterTables t = [("workers", workers), ("locks", locks)] ∧
      ∀ env base, spec.build env base =
        (Operation.runAll env
          [.nicePython {} { version := some (.number 3) } none, .strict (some false),
           .group "workers" workers, .group "locks" locks,
           .exportVariable "HOME" none]).outcome (spec.start base) := by
  intro workers locks t
  refine ⟨_, rfl, rfl, fun env base => ?_⟩
  exact (build_in_document_order (v := .table t) rfl rfl env base).1

end SectionSpec

end Vassal
