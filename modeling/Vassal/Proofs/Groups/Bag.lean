import Mathlib.Data.List.Forall2
import Vassal.Groups.Table
import Vassal.Proofs.Ascending
import Vassal.Proofs.Attempt

-- Bags of parameters: tables that hold a table of parameters for each of several option groups.
--
-- A bag is gone through in the order of its entries. What it does to a section is told by the
-- entries that count alone: tables of groups that there are, down to the parameters that these
-- groups have.

namespace Vassal

namespace Toml.Table

-- The entries under some of the keys.
def restrict (t : Table) (keys : List String) : Table :=
  t.filter (·.1 ∈ keys)

section Restrict

variable {keys : List String} {key : String} (hkey : key ∈ keys) (t : Table)
include hkey

theorem lookup_restrict : (t.restrict keys).lookup key = t.lookup key :=
  Ascending.lookup_filter (p := (· ∈ keys)) (decide_eq_true hkey) t

theorem field?_restrict {α : Type} (decoder : Decoder α) :
    (t.restrict keys).field? key decoder = t.field? key decoder := by
  unfold field?
  rw [lookup_restrict hkey]

end Restrict

end Toml.Table

open Toml

-- The parameters of each group by name.
def groupParams : List (String × List String) :=
  [(applicationsKind.id, ["exit_if_none", "max_per_worker", "single_interpreter", "no_default"]),
   (locksKind.id, ["thunder_lock"]),
   (loggingKind.id, ["no_requests", "log_4xx", "log_5xx"]),
   (mainProcessKind.id, ["touch_reload", "vacuum", "pid_file"]),
   (masterProcessKind.id, ["enable", "enabled"]),
   (networkingKind.id, ["buffer_size", "listen_queue_size"]),
   (pythonKind.id, ["version", "python_home", "search_path", "optimization_level"]),
   (routingKind.id, ["print_rules", "geoip_country", "geoip_city"]),
   (workersKind.id, ["count"])]

def paramsOf (id : String) : List String :=
  (groupParams.lookup id).getD []

namespace Section

-- A table that is well typed for a group, and the setting of what it says.
inductive Initializes : String → Table → (Section → Section) → Prop
  | applications {t : Table} {p : ApplicationsParams} (h : ApplicationsParams.ofTable? t = some p) :
      Initializes "applications" t (·.setApplications p)
  | locks {t : Table} {p : LocksParams} (h : LocksParams.ofTable? t = some p) :
      Initializes "locks" t (·.setLocks p)
  | logging {t : Table} {p : LoggingParams} (h : LoggingParams.ofTable? t = some p) :
      Initializes "logging" t (·.setLogging p)
  | mainProcess {t : Table} {p : MainProcessParams} (h : MainProcessParams.ofTable? t = some p) :
      Initializes "main_process" t (·.setMainProcess p)
  | masterProcess {t : Table} {p : MasterProcessParams}
      (h : MasterProcessParams.ofTable? t = some p) :
      Initializes "master_process" t (·.setMasterProcess p)
  | networking {t : Table} {p : NetworkingParams} (h : NetworkingParams.ofTable? t = some p) :
      Initializes "networking" t (·.setNetworking p)
  | python {t : Table} {p : PythonParams} (h : PythonParams.ofTable? t = some p) :
      Initializes "python" t (·.setPython p)
  | routing {t : Table} {p : RoutingParams} (h : RoutingParams.ofTable? t = some p) :
      Initializes "routing" t (·.setRouting p)
  | workers {t : Table} {p : WorkersParams} (h : WorkersParams.ofTable? t = some p) :
      Initializes "workers" t (·.setWorkers p)

-- The tables in a bag that are meant for a group, in their order.
def groupTables (t : Table) : List (String × Table) :=
  (t.filter (·.1 ∈ availableGroups)).filterMap fun entry => entry.2.table?.map (entry.1, ·)

-- The bag without everything that no group reads.
def essential (t : Table) : Table :=
  (groupTables t).map fun call => (call.1, .table (call.2.restrict (paramsOf call.1)))

section Setter

variable {id : String} {t : Table} {set : Section → Section}

-- What the table of a group does, unless it is refused.
def setter? (id : String) (t : Table) : Option (Section → Section) :=
  (tableGroups.lookup id).bind (· t)

theorem initializes_of_tableGroups :
    ∀ group ∈ tableGroups, ∀ (t : Table) (set : Section → Section), group.2 t = some set →
      Initializes group.1 t set := by
  unfold tableGroups
  simp only [List.forall_mem_cons, tableSetter, Option.map_eq_some_iff]
  refine ⟨?_, ?_, ?_, ?_, ?_, ?_, ?_, ?_, ?_, List.forall_mem_nil _⟩
  all_goals
    rintro t set ⟨p, hp, rfl⟩
    constructor
    exact hp

theorem initializes_iff : Initializes id t set ↔ setter? id t = some set := by
  constructor
  · intro h
    cases h <;> exact Option.map_eq_some_iff.mpr ⟨_, ‹_›, rfl⟩
  · intro h
    obtain ⟨setter, hlookup, hset⟩ := Option.bind_eq_some_iff.mp h
    exact initializes_of_tableGroups _ (Ascending.mem_of_lookup hlookup) t set hset

-- A group reads no other parameters than its own.
theorem tableGroups_restrict :
    ∀ group ∈ tableGroups, ∀ t : Table, group.2 (t.restrict (paramsOf group.1)) = group.2 t := by
  have hsetter : ∀ {α : Type} (decode : Table → Option α) (set : Section → α → Section)
      (keys : List String), (∀ t : Table, decode (t.restrict keys) = decode t) →
        ∀ t : Table, tableSetter decode set (t.restrict keys) = tableSetter decode set t := by
    intro α decode set keys hdecode t
    unfold tableSetter
    rw [hdecode]
  unfold tableGroups
  simp only [List.forall_mem_cons]
  refine ⟨hsetter _ _ _ ?_, hsetter _ _ _ ?_, hsetter _ _ _ ?_, hsetter _ _ _ ?_, hsetter _ _ _ ?_,
    hsetter _ _ _ ?_, hsetter _ _ _ ?_, hsetter _ _ _ ?_, hsetter _ _ _ ?_, List.forall_mem_nil _⟩
  all_goals
    intro t
    simp (disch := decide) only [Table.field?_restrict, ApplicationsParams.ofTable?,
      LocksParams.ofTable?, LoggingParams.ofTable?, MainProcessParams.ofTable?,
      MasterProcessParams.ofTable?, NetworkingParams.ofTable?, PythonParams.ofTable?,
      RoutingParams.ofTable?, WorkersParams.ofTable?]

theorem setter?_restrict (id : String) (t : Table) :
    setter? id (t.restrict (paramsOf id)) = setter? id t := by
  unfold setter?
  cases hlookup : tableGroups.lookup id with
  | none => rfl
  | some setter => exact tableGroups_restrict _ (Ascending.mem_of_lookup hlookup) t

end Setter

section Call

variable {call : String × Table}

-- Applying a table to the group that it is meant for.
def applyCall (call : String × Table) : Attempt Section Unit :=
  discard (applyGroup call.1 call.2)

theorem applyCall_of_initializes {set : Section → Section} (h : Initializes call.1 call.2 set)
    (s : Section) : applyCall call s = .ok () (set s) := by
  obtain ⟨setter, hlookup, hset⟩ := Option.bind_eq_some_iff.mp (initializes_iff.mp h)
  unfold applyCall applyGroup
  rw [hlookup]
  simp only [hset]
  rfl

theorem lookup_tableGroups_eq_none_iff {id : String} :
    tableGroups.lookup id = none ↔ id ∉ availableGroups := by
  rw [List.lookup_eq_none_iff]
  unfold availableGroups
  constructor
  · intro h hmem
    obtain ⟨group, hgroup, rfl⟩ := List.mem_map.mp hmem
    simpa using h group hgroup
  · intro h group hgroup
    have hne : id ≠ group.1 := fun heq => h (heq ▸ List.mem_map_of_mem hgroup)
    simpa using hne

-- A table of the wrong types leaves no trace of its group.
theorem applyCall_of_refused (hgroup : call.1 ∈ availableGroups)
    (h : ∀ set, ¬ Initializes call.1 call.2 set) (s : Section) :
    applyCall call s = .error (.invalidParams call.1) s := by
  unfold applyCall applyGroup
  cases hlookup : tableGroups.lookup call.1 with
  | none => exact absurd hgroup (lookup_tableGroups_eq_none_iff.mp hlookup)
  | some setter =>
    cases hset : setter call.2 with
    | none =>
      simp only [hset]
      rfl
    | some set =>
      exact absurd (initializes_iff.mpr (Option.bind_eq_some_iff.mpr ⟨setter, hlookup, hset⟩))
        (h set)

theorem applyCall_of_unknown (hgroup : call.1 ∉ availableGroups) (s : Section) :
    applyCall call s = .ok () s := by
  unfold applyCall applyGroup
  rw [lookup_tableGroups_eq_none_iff.mpr hgroup]
  rfl

theorem applyCall_restrict (call : String × Table) :
    applyCall (call.1, call.2.restrict (paramsOf call.1)) = applyCall call := by
  have hsetter := setter?_restrict call.1 call.2
  unfold setter? at hsetter
  unfold applyCall applyGroup
  cases hlookup : tableGroups.lookup call.1 with
  | none => rfl
  | some setter =>
    rw [hlookup, Option.bind_some, Option.bind_some] at hsetter
    simp only [hsetter]

end Call

section Tables

variable {t : Table}

theorem groupTables_cons_of_mem {id : String} (hgroup : id ∈ availableGroups) (params : Table) :
    groupTables ((id, .table params) :: t) = (id, params) :: groupTables t := by
  simp [groupTables, hgroup, Value.table?]

theorem groupTables_map_table {calls : List (String × Table)}
    (hgroups : ∀ call ∈ calls, call.1 ∈ availableGroups) (read : String × Table → Table) :
    groupTables (calls.map fun call => (call.1, .table (read call))) =
      calls.map fun call => (call.1, read call) := by
  induction calls with
  | nil => rfl
  | cons call rest ih =>
    rw [List.forall_mem_cons] at hgroups
    rw [List.map_cons, List.map_cons, groupTables_cons_of_mem hgroups.1, ih hgroups.2]

theorem groupTables_filter (p : String → Bool) (t : Table) :
    groupTables (t.filter (p ·.1)) = (groupTables t).filter (p ·.1) := by
  unfold groupTables
  rw [List.filter_filter, List.filterMap_filter, List.filter_filterMap, List.filterMap_filter]
  refine List.filterMap_congr fun entry _ => ?_
  cases entry.2.table? <;> by_cases hkept : p entry.1 <;>
    simp [hkept, Option.filter_some]

theorem mem_groupTables_iff {id : String} {params : Table} :
    (id, params) ∈ groupTables t ↔ (id, .table params) ∈ t ∧ id ∈ availableGroups := by
  unfold groupTables
  constructor
  · intro h
    obtain ⟨⟨name, value⟩, hentry, hvalue⟩ := List.mem_filterMap.mp h
    obtain ⟨hmem, hgroup⟩ := List.mem_filter.mp hentry
    cases value with
    | table entries =>
      obtain ⟨rfl, rfl⟩ : name = id ∧ entries = params := by
        simpa [Value.table?] using hvalue
      exact ⟨hmem, by simpa using hgroup⟩
    | _ => cases hvalue
  · rintro ⟨hmem, hgroup⟩
    exact List.mem_filterMap.mpr
      ⟨(id, .table params), List.mem_filter.mpr ⟨hmem, by simpa using hgroup⟩, rfl⟩

theorem mem_availableGroups_of_mem_groupTables {call : String × Table}
    (hcall : call ∈ groupTables t) : call.1 ∈ availableGroups :=
  (mem_groupTables_iff.mp hcall).2

theorem groupTables_sublist (t : Table) :
    ((groupTables t).map fun call => (call.1, Value.table call.2)).Sublist t := by
  induction t with
  | nil => exact .slnil
  | cons entry rest ih =>
    obtain ⟨id, value⟩ := entry
    have hrest : groupTables ((id, value) :: rest) = groupTables rest →
        ((groupTables ((id, value) :: rest)).map
          fun call => (call.1, Value.table call.2)).Sublist ((id, value) :: rest) :=
      fun h => h ▸ ih.cons _
    by_cases hgroup : id ∈ availableGroups
    · cases value with
      | table params =>
        rw [groupTables_cons_of_mem hgroup]
        exact ih.cons_cons _
      | _ => exact hrest (by simp [groupTables, hgroup, Value.table?])
    · exact hrest (by simp [groupTables, hgroup])

end Tables

section Run

abbrev InitializeAll : List (String × Table) → List (Section → Section) → Prop :=
  List.Forall₂ fun call set => Initializes call.1 call.2 set

theorem InitializeAll.exists_set {calls : List (String × Table)} {sets : List (Section → Section)}
    (h : InitializeAll calls sets) : ∀ call ∈ calls, ∃ set, Initializes call.1 call.2 set :=
  ((List.forall₂_and_left calls sets).mp (h.imp fun _ set hset => ⟨⟨set, hset⟩, hset⟩)).1

def setEach (sets : List (Section → Section)) (s : Section) : Section :=
  sets.foldl (fun s set => set s) s

-- Entries that are not meant for a group do nothing.
theorem applyParams_eq (t : Table) (s : Section) :
    applyParams t s = (groupTables t).forM applyCall s := by
  induction t generalizing s with
  | nil => rfl
  | cons entry rest ih =>
    obtain ⟨id, value⟩ := entry
    have hstep : ∀ x : Attempt Section Unit, ∀ u : Section, x s = .ok () u →
        (do x; applyParams rest) s = (groupTables rest).forM applyCall u :=
      fun x u hx => (Attempt.bind_of_ok hx).trans (ih u)
    cases value with
    | table params =>
      by_cases hgroup : id ∈ availableGroups
      · have hrest : applyParams rest = (groupTables rest).forM applyCall := funext ih
        rw [groupTables_cons_of_mem hgroup, List.forM, ← hrest]
        rfl
      · have hcalls : groupTables ((id, .table params) :: rest) = groupTables rest := by
          simp [groupTables, hgroup]
        rw [hcalls]
        exact hstep (applyCall (id, params)) s (applyCall_of_unknown hgroup s)
    | string | integer | float | boolean | moment | array =>
      refine (hstep (pure ()) s rfl).trans ?_
      by_cases hgroup : id ∈ availableGroups <;> simp [groupTables, hgroup, Value.table?]

theorem forM_applyCall_cases {calls : List (String × Table)}
    (hgroups : ∀ call ∈ calls, call.1 ∈ availableGroups) (s : Section) :
    (∃ sets, InitializeAll calls sets ∧ calls.forM applyCall s = .ok () (setEach sets s)) ∨
    ∃ before call after sets, calls = before ++ call :: after ∧ InitializeAll before sets ∧
      (∀ set, ¬ Initializes call.1 call.2 set) ∧
      calls.forM applyCall s = .error (.invalidParams call.1) (setEach sets s) := by
  induction calls generalizing s with
  | nil => exact .inl ⟨[], .nil, rfl⟩
  | cons call rest ih =>
    rw [List.forall_mem_cons] at hgroups
    by_cases hcall : ∃ set, Initializes call.1 call.2 set
    · obtain ⟨set, hset⟩ := hcall
      have hrun : (call :: rest).forM applyCall s = rest.forM applyCall (set s) :=
        Attempt.bind_of_ok (applyCall_of_initializes hset s)
      rw [hrun]
      rcases ih hgroups.2 (set s) with
        ⟨sets, hsets, hok⟩ | ⟨before, refused, after, sets, rfl, hsets, hnone, herror⟩
      · exact .inl ⟨set :: sets, .cons hset hsets, hok⟩
      · exact .inr ⟨call :: before, refused, after, set :: sets, rfl, .cons hset hsets, hnone,
          herror⟩
    · have hnone := not_exists.mp hcall
      exact .inr ⟨[], call, rest, [], rfl, .nil, hnone,
        Attempt.bind_of_error (applyCall_of_refused hgroups.1 hnone s)⟩

theorem forM_applyCall_restrict (calls : List (String × Table)) :
    (calls.map fun call => (call.1, call.2.restrict (paramsOf call.1))).forM applyCall =
      calls.forM applyCall := by
  induction calls with
  | nil => rfl
  | cons call rest ih => rw [List.map_cons, List.forM, List.forM, applyCall_restrict, ih]

theorem applyParams_essential (t : Table) (s : Section) :
    applyParams (essential t) s = applyParams t s := by
  unfold essential
  rw [applyParams_eq, applyParams_eq,
    groupTables_map_table (fun _ => mem_availableGroups_of_mem_groupTables),
    forM_applyCall_restrict]

-- The groups are initialized in the order of the bag, up to the first table that is refused, and
-- that one leaves no trace. Nothing else in the bag makes a difference.
theorem applyParams_prefix (t : Table) (s : Section) :
    availableGroups = groupParams.map Prod.fst ∧
    ((∃ sets, InitializeAll (groupTables t) sets ∧ applyParams t s = .ok () (setEach sets s)) ∨
      ∃ before call after sets, groupTables t = before ++ call :: after ∧
        InitializeAll before sets ∧ (∀ set, ¬ Initializes call.1 call.2 set) ∧
        applyParams t s = .error (.invalidParams call.1) (setEach sets s)) ∧
    ((∃ e s', applyParams t s = .error e s') ↔
      ∃ call ∈ groupTables t, ∀ set, ¬ Initializes call.1 call.2 set) ∧
    applyParams (essential t) s = applyParams t s := by
  have hcases := forM_applyCall_cases
    (fun _ => mem_availableGroups_of_mem_groupTables (t := t)) s
  rw [← applyParams_eq] at hcases
  refine ⟨rfl, hcases, ?_, applyParams_essential t s⟩
  rcases hcases with ⟨sets, hsets, hok⟩ | ⟨before, call, after, sets, hcalls, -, hnone, herror⟩
  · rw [hok]
    constructor
    · rintro ⟨e, s', herror⟩
      cases herror
    · rintro ⟨call, hcall, hnone⟩
      obtain ⟨set, hset⟩ := hsets.exists_set call hcall
      exact absurd hset (hnone set)
  · rw [herror]
    exact ⟨fun _ => ⟨call, hcalls ▸ by simp, hnone⟩, fun _ => ⟨_, _, rfl⟩⟩

end Run

end Section

end Vassal
