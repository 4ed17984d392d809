import Mathlib.Data.List.Perm.Basic
import Vassal.Proofs.Groups.Bag
import Vassal.Proofs.Options.Agreement
import Vassal.Proofs.Section.Registration

-- Bags of parameters in another order.
--
-- A group sets options that no other group sets, and it writes no group but itself. So what stands
-- under a name after a bag is what one of the groups puts there alone, and all that the order of a
-- bag decides is the order of options and the order of plugins.

namespace Vassal

open Toml

namespace Section

-- The options that parameters of a group come to.
def tableOptions (kind : GroupKind) : List String :=
  optionsOf kind ++ if kind = routingKind then ["geoip-country", "geoip-city"] else []

-- The settings that parameters of a group come to: each works on one option, of this group.
structure TableSetting (kind : GroupKind) (m : Mutation) : Prop where
  setting : GroupSetting kind m
  keys_eq : m.keys = [m.key]
  key_mem : m.key ∈ tableOptions kind

namespace TableSetting

variable {kind : GroupKind} {m : Mutation}

theorem plain (hkey : m.key ∈ optionsOf kind) (hm : m.Plain) (hpriority : m.priority = none) :
    TableSetting kind m :=
  ⟨.plain hkey hm hpriority, hm.keys_eq, List.mem_append_left _ hkey⟩

variable {key : String} (hkey : key ∈ optionsOf kind)
include hkey

theorem flag (given : Option Bool) : TableSetting kind (.ofFlag key given) :=
  plain hkey (.ofFlag key given) rfl

theorem text? (given : Option String) : TableSetting kind (.ofText? key given) :=
  plain hkey (.ofText? key given) rfl

theorem nat? (given : Option Nat) : TableSetting kind (.ofNat? key given) :=
  plain hkey (.ofNat? key given) rfl

theorem addingTexts (given : Option (List String)) :
    TableSetting kind (.adding key (.ofOption .ofTexts given)) :=
  plain hkey (.addingTexts key given) rfl

omit hkey in
theorem geoip (hkey : key ∈ ["geoip-country", "geoip-city"]) (given : Option String) :
    TableSetting routingKind { Mutation.ofText? key given with plugin := some "geoip" } :=
  ⟨.geoip hkey given, Mutation.keys_ofText?_plugin key given _, List.mem_append_right _ hkey⟩

end TableSetting

-- No option belongs to two groups.
theorem not_mem_tableOptions {kind other : GroupKind} (hkind : kind ∈ builtInKinds)
    (hother : other ∈ builtInKinds) (hid : other.id ≠ kind.id) {key : String}
    (hkey : key ∈ tableOptions kind) : key ∉ tableOptions other := by
  have hall : ∀ kind ∈ builtInKinds, ∀ other ∈ builtInKinds, other.id ≠ kind.id →
      ∀ key ∈ tableOptions kind, key ∉ tableOptions other := by decide +kernel
  exact hall kind hkind other hother hid key hkey

-- The initialization of a group by a table, taken apart: the version that it is given, if it is
-- given one, and then its settings.
structure TableCall where
  kind : GroupKind
  version : Option Version := none
  settings : List Mutation
  valid : ∀ m ∈ settings, TableSetting kind m

namespace TableCall

variable (c : TableCall) (s : Section)

def keys : List String :=
  c.settings.map (·.key)

-- A version is remembered, and only a new one replaces it.
def enter : Section :=
  { s with groups := s.groups.modify c.kind (c.version <|> ·) }

def effects : List Effect :=
  c.settings.flatMap (·.effects ((c.enter s).groupPlugin c.kind))

def run : Section :=
  Effect.runAll (c.effects s) (c.enter s)

-- The plugins that the settings ask for.
def activations : List String :=
  (c.effects s).filterMap Effect.activated?

section Effects

variable {c s}

theorem keys_effects {e : Effect} (he : e ∈ c.effects s) {key : String} (hkey : key ∈ e.keys) :
    key ∈ c.keys := by
  obtain ⟨m, hm, hmem⟩ := List.mem_flatMap.mp he
  have hown := m.keys_effects _ e hmem hkey
  rw [(c.valid m hm).keys_eq, List.mem_singleton] at hown
  exact hown ▸ List.mem_map_of_mem hm

theorem insertAt_not_mem_effects (key : String) (value : Value) (position : Nat) :
    .insertAt key value position ∉ c.effects s := by
  intro he
  obtain ⟨m, hm, hmem⟩ := List.mem_flatMap.mp he
  exact Mutation.not_insertAt_mem_effects (c.valid m hm).setting.priority hmem

theorem plugin_not_mem_keys : "plugin" ∉ c.keys := by
  intro hmem
  obtain ⟨m, hm, hkey⟩ := List.mem_map.mp hmem
  have hnot : "plugin" ∉ m.keys := (c.valid m hm).setting.not_mem_keys (by decide)
  rw [(c.valid m hm).keys_eq, hkey] at hnot
  exact hnot (List.mem_singleton_self _)

theorem not_mem_keys {d : TableCall} (hid : d.kind.id ≠ c.kind.id) {key : String}
    (hkey : key ∈ c.keys) : key ∉ d.keys := by
  intro hother
  obtain ⟨m, hm, rfl⟩ := List.mem_map.mp hkey
  obtain ⟨n, hn, heq⟩ := List.mem_map.mp hother
  have hmem := (d.valid n hn).key_mem
  rw [heq] at hmem
  exact not_mem_tableOptions (c.valid m hm).setting.kind_mem (d.valid n hn).setting.kind_mem hid
    (c.valid m hm).key_mem hmem

end Effects

theorem groups_run : (c.run s).groups = s.groups.modify c.kind (c.version <|> ·) :=
  groups_runAll (c.effects s) (c.enter s)

-- Another group is of no account for the plugin that a group asks for.
theorem effects_run {d : TableCall} (hid : c.kind.id ≠ d.kind.id) :
    c.effects (d.run s) = c.effects s := by
  have hget : (c.enter (d.run s)).groups.get? c.kind = (c.enter s).groups.get? c.kind := by
    unfold enter
    rw [d.groups_run, GroupCache.modify_comm hid, GroupCache.get?_modify_of_ne hid]
  unfold effects groupPlugin groupName
  rw [hget]

theorem registers_run : ∃ fresh, Registers (· ∈ c.activations s) fresh s (c.run s) := by
  have hkeys : ∀ e ∈ c.effects s, "plugin" ∉ e.keys :=
    fun e he hkey => plugin_not_mem_keys (keys_effects he hkey)
  obtain ⟨fresh, hfresh⟩ := registers_runAll hkeys (c.enter s)
  exact ⟨fresh, hfresh.of_groups⟩

-- Two sections that agree on a name agree on it after the same call.
theorem agreeOn_run {names : List String} (hplugin : "plugin" ∉ names) {t : Section}
    (heffects : c.effects t = c.effects s) (h : s.options.AgreeOn names t.options) :
    (c.run s).options.AgreeOn names (c.run t).options := by
  unfold run
  rw [heffects]
  exact agreeOn_runAll hplugin insertAt_not_mem_effects h

theorem agreeOn_run_self {key : String} (hplugin : key ≠ "plugin") (hkey : key ∉ c.keys) :
    s.options.AgreeOn [key] (c.run s).options := by
  refine agreeOn_runAll_self (s := c.enter s) (by simpa using hplugin.symm)
    fun e he other hother => ?_
  have hown : other ∈ c.keys := keys_effects he hother
  simpa using fun heq : other = key => hkey (heq ▸ hown)

end TableCall

def callEach (calls : List TableCall) (s : Section) : Section :=
  calls.foldl (fun s c => c.run s) s

section CallEach

variable {calls : List TableCall}

section Options

variable {key : String} (hplugin : key ≠ "plugin")
include hplugin

theorem agreeOn_callEach_self (hkeys : ∀ c ∈ calls, key ∉ c.keys) (s : Section) :
    s.options.AgreeOn [key] (callEach calls s).options := by
  induction calls generalizing s with
  | nil => exact .refl _ _
  | cons c rest ih =>
    rw [List.forall_mem_cons] at hkeys
    exact (c.agreeOn_run_self s hplugin hkeys.1).trans (ih hkeys.2 (c.run s))

-- What stands under an option after all calls is what its own group puts there alone.
theorem agreeOn_callEach_of_mem (hnodup : (calls.map (·.kind.id)).Nodup) {c : TableCall}
    (hc : c ∈ calls) (hkey : key ∈ c.keys) (s : Section) :
    (c.run s).options.AgreeOn [key] (callEach calls s).options := by
  induction calls generalizing s with
  | nil => exact nomatch hc
  | cons d rest ih =>
    rw [List.map_cons, List.nodup_cons] at hnodup
    have hother : ∀ e ∈ rest, e.kind.id ≠ d.kind.id :=
      fun e he heq => hnodup.1 (heq ▸ List.mem_map_of_mem he)
    rcases List.mem_cons.mp hc with rfl | hrest
    · exact agreeOn_callEach_self hplugin
        (fun e he => TableCall.not_mem_keys (hother e he) hkey) (c.run s)
    · have hid : c.kind.id ≠ d.kind.id := hother c hrest
      have hbefore : s.options.AgreeOn [key] (d.run s).options :=
        d.agreeOn_run_self s hplugin (TableCall.not_mem_keys hid.symm hkey)
      have hcall : (c.run s).options.AgreeOn [key] (c.run (d.run s)).options :=
        c.agreeOn_run s (by simpa using hplugin.symm) (c.effects_run s hid) hbefore
      exact hcall.trans (ih hnodup.2 hrest (d.run s))

end Options

theorem groups_callEach (calls : List TableCall) (s : Section) :
    (callEach calls s).groups =
      calls.foldl (fun groups c => groups.modify c.kind (c.version <|> ·)) s.groups := by
  induction calls generalizing s with
  | nil => rfl
  | cons c rest ih => exact (ih (c.run s)).trans (by rw [c.groups_run, List.foldl_cons])

-- The plugins that are registered do not depend on what the groups have done before each other.
theorem registers_callEach (hnodup : (calls.map (·.kind.id)).Nodup) (s : Section) :
    ∃ fresh, Registers (fun plugin => ∃ c ∈ calls, plugin ∈ c.activations s) fresh s
      (callEach calls s) := by
  induction calls generalizing s with
  | nil => exact ⟨[], (Registers.refl s).mono fun plugin => by simp⟩
  | cons d rest ih =>
    rw [List.map_cons, List.nodup_cons] at hnodup
    have hlater : ∀ c ∈ rest, c.activations (d.run s) = c.activations s := by
      intro c hc
      have hid : c.kind.id ≠ d.kind.id := fun heq => hnodup.1 (heq ▸ List.mem_map_of_mem hc)
      unfold TableCall.activations
      rw [c.effects_run s hid]
    obtain ⟨fresh, hfresh⟩ := d.registers_run s
    obtain ⟨fresher, hfresher⟩ := ih hnodup.2 (d.run s)
    refine ⟨fresh ++ fresher, (hfresh.trans hfresher).mono fun plugin => ?_⟩
    rw [List.exists_mem_cons_iff]
    refine or_congr_right (exists_congr fun c => and_congr_right fun hc => ?_)
    rw [hlater c hc]

end CallEach

section Perm

variable {calls calls' : List TableCall} (hnodup : (calls.map (·.kind.id)).Nodup)
  (hperm : calls.Perm calls') (s : Section)
include hnodup hperm

theorem get?_callEach_perm {key : String} (hplugin : key ≠ "plugin") :
    (callEach calls s).options.get? key = (callEach calls' s).options.get? key := by
  have hnodup' : (calls'.map (·.kind.id)).Nodup := (hperm.map _).nodup_iff.mp hnodup
  have hagree : (callEach calls s).options.AgreeOn [key] (callEach calls' s).options := by
    by_cases howner : ∃ c ∈ calls, key ∈ c.keys
    · obtain ⟨c, hc, hkey⟩ := howner
      exact (agreeOn_callEach_of_mem hplugin hnodup hc hkey s).symm.trans
        (agreeOn_callEach_of_mem hplugin hnodup' (hperm.mem_iff.mp hc) hkey s)
    · have hnone : ∀ c ∈ calls, key ∉ c.keys := fun c hc hkey => howner ⟨c, hc, hkey⟩
      exact (agreeOn_callEach_self hplugin hnone s).symm.trans
        (agreeOn_callEach_self hplugin (fun c hc => hnone c (hperm.mem_iff.mpr hc)) s)
  exact hagree.get?_eq (List.mem_singleton_self key)

theorem groups_callEach_perm : (callEach calls s).groups = (callEach calls' s).groups := by
  rw [groups_callEach, groups_callEach]
  refine hperm.foldl_eq' (fun c hc d hd groups => ?_) s.groups
  by_cases hid : d.kind.id = c.kind.id
  · rw [List.inj_on_of_nodup_map hnodup hd hc hid]
  · exact GroupCache.modify_comm hid _ _

theorem plugins_callEach_perm :
    (callEach calls s).plugins.Perm (callEach calls' s).plugins ∧
    ((callEach calls s).options.texts "plugin").Perm
      ((callEach calls' s).options.texts "plugin") := by
  have hnodup' : (calls'.map (·.kind.id)).Nodup := (hperm.map _).nodup_iff.mp hnodup
  obtain ⟨fresh, hfresh⟩ := registers_callEach hnodup s
  obtain ⟨fresh', hfresh'⟩ := registers_callEach hnodup' s
  have hsame : fresh.Perm fresh' := by
    refine (List.perm_ext_iff_of_nodup hfresh.nodup hfresh'.nodup).mpr fun plugin => ?_
    rw [hfresh.mem_iff, hfresh'.mem_iff]
    simp only [hperm.mem_iff]
  rw [hfresh.plugins, hfresh'.plugins, Store.texts_of_added hfresh.value,
    Store.texts_of_added hfresh'.value]
  exact ⟨hsame.append_left _, hsame.append_left _⟩

end Perm

-- A group without a version is only asked for.
theorem setAllIn_eq_run (c : TableCall) (hversion : c.version = none) (s : Section) :
    s.setAllIn c.kind c.settings = c.run s := by
  have henter : c.enter s = s.enter c.kind := by
    unfold TableCall.enter
    rw [hversion]
    rfl
  unfold TableCall.run TableCall.effects
  rw [setAllIn_eq, henter]

theorem setPython_eq_run (c : TableCall) (hkind : c.kind = pythonKind) (s : Section) :
    ((s.enter pythonKind).rememberVersion pythonKind c.version).setAllIn pythonKind c.settings =
      c.run s := by
  unfold TableCall.run TableCall.effects TableCall.enter
  rw [setAllIn_eq, enter_rememberVersion, hkind]

-- Whatever a table says to a group comes down to a version and settings of this group.
theorem Initializes.exists_call {id : String} {t : Table} {set : Section → Section}
    (h : Initializes id t set) : ∃ c : TableCall, c.kind.id = id ∧ set = c.run := by
  have hcall : ∀ (kind : GroupKind) (ms : List Mutation), (∀ m ∈ ms, TableSetting kind m) →
      ∃ c : TableCall, c.kind.id = kind.id ∧ (fun s => s.setAllIn kind ms) = c.run :=
    fun kind ms hms => ⟨{ kind, settings := ms, valid := hms }, rfl, funext fun s =>
      setAllIn_eq_run { kind, settings := ms, valid := hms } rfl s⟩
  cases h with
  | @applications t p h =>
    refine hcall applicationsKind _ ?_
    simp only [List.forall_mem_cons]
    exact ⟨.flag (by decide) _, .nat? (by decide) _, .flag (by decide) _, .flag (by decide) _,
      List.forall_mem_nil _⟩
  | @locks t p h =>
    refine hcall locksKind _ ?_
    rw [List.forall_mem_singleton]
    exact .flag (by decide) _
  | @logging t p h =>
    refine hcall loggingKind _ ?_
    simp only [List.forall_mem_cons]
    exact ⟨.flag (by decide) _, .flag (by decide) _, .flag (by decide) _, List.forall_mem_nil _⟩
  | @mainProcess t p h =>
    refine hcall mainProcessKind _ ?_
    simp only [List.forall_mem_cons]
    exact ⟨.addingTexts (by decide) _, .flag (by decide) _, .text? (by decide) _,
      List.forall_mem_nil _⟩
  | @masterProcess t p h =>
    refine hcall masterProcessKind _ ?_
    rw [List.forall_mem_singleton]
    exact .flag (by decide) _
  | @networking t p h =>
    refine hcall networkingKind _ ?_
    simp only [List.forall_mem_cons]
    exact ⟨.nat? (by decide) _, .nat? (by decide) _, List.forall_mem_nil _⟩
  | @python t p h =>
    have hms : ∀ m ∈ pythonMutations p, TableSetting pythonKind m := by
      unfold pythonMutations
      simp only [List.forall_mem_cons]
      exact ⟨.text? (by decide) _, .addingTexts (by decide) _, .nat? (by decide) _,
        List.forall_mem_nil _⟩
    let call : TableCall :=
      { kind := pythonKind, version := p.version, settings := pythonMutations p, valid := hms }
    exact ⟨call, rfl, funext fun s => setPython_eq_run call rfl s⟩
  | @routing t p h =>
    refine hcall routingKind _ ?_
    unfold geoipMutations
    simp only [List.forall_mem_cons]
    exact ⟨.flag (by decide) _, .geoip (by decide) _, .geoip (by decide) _, List.forall_mem_nil _⟩
  | @workers t p h =>
    refine hcall workersKind _ ?_
    rw [List.forall_mem_singleton]
    exact .nat? (by decide) _

section Bag

-- The call that a table comes to.
def Calls (call : String × Table) (c : TableCall) : Prop :=
  c.kind.id = call.1 ∧ Initializes call.1 call.2 c.run

variable {tables : List (String × Table)} {calls : List TableCall}

theorem exists_calls (hdecode : ∀ call ∈ tables, (setter? call.1 call.2).isSome) :
    ∃ calls, List.Forall₂ Calls tables calls := by
  induction tables with
  | nil => exact ⟨[], .nil⟩
  | cons call rest ih =>
    rw [List.forall_mem_cons] at hdecode
    obtain ⟨set, hset⟩ := Option.isSome_iff_exists.mp hdecode.1
    have hinit : Initializes call.1 call.2 set := initializes_iff.mpr hset
    obtain ⟨c, hid, rfl⟩ := hinit.exists_call
    obtain ⟨calls, hcalls⟩ := ih hdecode.2
    exact ⟨c :: calls, .cons ⟨hid, hinit⟩ hcalls⟩

theorem ids_of_calls (h : List.Forall₂ Calls tables calls) :
    calls.map (·.kind.id) = tables.map Prod.fst := by
  induction h with
  | nil => rfl
  | cons hcall _ ih => rw [List.map_cons, List.map_cons, hcall.1, ih]

theorem forM_applyCall_of_calls (h : List.Forall₂ Calls tables calls) (s : Section) :
    tables.forM applyCall s = .ok () (callEach calls s) := by
  induction h generalizing s with
  | nil => rfl
  | @cons call c _ _ hcall _ ih =>
    exact (Attempt.bind_of_ok (applyCall_of_initializes hcall.2 s)).trans (ih (c.run s))

theorem groupTables_perm {t t' : Table} (hperm : t.Perm t') :
    (groupTables t).Perm (groupTables t') :=
  (hperm.filter _).filterMap _

theorem nodup_groupTables {t : Table} (hkeys : (t.map Prod.fst).Nodup) :
    ((groupTables t).map Prod.fst).Nodup := by
  have hsublist := (groupTables_sublist t).map Prod.fst
  rw [List.map_map] at hsublist
  exact hkeys.sublist hsublist

-- It makes no difference in which order the tables of groups are given, each group once, up to the
-- order in which options and plugins are written: each option but the list of plugins has the same
-- value, the same plugins are registered, and all groups are the same, python with its version.
theorem applyParams_perm {t t' : Table} (hkeys : (t.map Prod.fst).Nodup) (hperm : t.Perm t')
    (hdecode : ∀ call ∈ groupTables t, (setter? call.1 call.2).isSome) (s : Section) :
    ∃ u u', applyParams t s = .ok () u ∧ applyParams t' s = .ok () u' ∧
      (∀ key, key ≠ "plugin" → u.options.get? key = u'.options.get? key) ∧
      (u.options.texts "plugin").Perm (u'.options.texts "plugin") ∧
      u.plugins.Perm u'.plugins ∧
      u.groups.get? pythonKind = u'.groups.get? pythonKind ∧ u.groups = u'.groups := by
  obtain ⟨calls, hcalls⟩ := exists_calls hdecode
  obtain ⟨calls', hcalls', hback⟩ :=
    List.perm_comp_forall₂ (groupTables_perm hperm).symm hcalls
  have hsame : calls.Perm calls' := hback.symm
  have hnodup : (calls.map (·.kind.id)).Nodup := ids_of_calls hcalls ▸ nodup_groupTables hkeys
  have hgroups := groups_callEach_perm hnodup hsame s
  obtain ⟨hplugins, hlines⟩ := plugins_callEach_perm hnodup hsame s
  refine ⟨callEach calls s, callEach calls' s, ?_, ?_,
    fun key hkey => get?_callEach_perm hnodup hsame s hkey, hlines, hplugins, by rw [hgroups],
    hgroups⟩
  · exact (applyParams_eq t s).trans (forM_applyCall_of_calls hcalls s)
  · exact (applyParams_eq t' s).trans (forM_applyCall_of_calls hcalls' s)

-- A bag that is gone through backwards: the plugins come the other way round.
theorem applyParams_perm_backwards :
    let t : Table :=
      [("python", .table [("version", .string "3.11"), ("python_home", .string "/srv/venv")]),
       ("workers", .table [("count", .integer 4)]),
       ("routing", .table [("geoip_country", .string "/srv/country.dat")]),
       ("logging", .table [("no_requests", .boolean false)])]
    let s : Section := { options := ⟨[("disable-logging", .single "true")]⟩ }
    ∃ u u', applyParams t s = .ok () u ∧ applyParams t.reverse s = .ok () u' ∧
      (∀ key, key ≠ "plugin" → u.options.get? key = u'.options.get? key) ∧
      u.plugins = ["python3.11", "geoip"] ∧ u'.plugins = ["geoip", "python3.11"] := by
  intro t s
  have hkeys : (t.map Prod.fst).Nodup := by decide
  have hdecode : ∀ call ∈ groupTables t, (setter? call.1 call.2).isSome := by
    have hall : (groupTables t).all (fun call => (setter? call.1 call.2).isSome) = true := rfl
    exact List.all_eq_true.mp hall
  obtain ⟨u, u', hu, hu', hget, -⟩ :=
    applyParams_perm hkeys (List.reverse_perm t).symm hdecode s
  have hplugins : (Attempt.left (applyParams t) s).plugins = ["python3.11", "geoip"] := by
    decide +kernel
  have hplugins' : (Attempt.left (applyParams t.reverse) s).plugins = ["geoip", "python3.11"] := by
    decide +kernel
  unfold Attempt.left at hplugins hplugins'
  rw [hu] at hplugins
  rw [hu'] at hplugins'
  exact ⟨u, u', hu, hu', hget, hplugins, hplugins'⟩

end Bag

end Section

end Vassal
