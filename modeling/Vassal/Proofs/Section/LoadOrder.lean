import Vassal.Proofs.Groups.Router
import Vassal.Proofs.Section.Embedded

-- Plugins and the options that they provide.
--
-- A name keeps the place where it was first stored, so the order of a section is decided by the
-- first time that each option is set. By then a plugin that provides the option is built in, or has
-- its line already.

namespace Vassal

namespace Section

-- The options that plugins provide.
def pluginOptions : List (String × List String) :=
  [("python", ["pyhome", "pythonpath", "optimize", "wsgi", "callable"]),
   ("geoip", ["geoip-country", "geoip-city"]),
   ("http", ["http", "https", "http-to"]),
   ("sslrouter", ["sslrouter", "sslrouter-to"]),
   ("fastrouter", ["fastrouter", "fastrouter-to"]),
   ("rawrouter", ["rawrouter", "rawrouter-to"])]

def ownedOptions : List String :=
  pluginOptions.flatMap Prod.snd

-- The options of python may come from any of its versions.
def Provides (plugin key : String) : Prop :=
  ∃ entry ∈ pluginOptions, key ∈ entry.2 ∧
    if entry.1 = "python" then entry.1.toList <+: plugin.toList else plugin = entry.1

instance (plugin key : String) : Decidable (Provides plugin key) :=
  inferInstanceAs (Decidable (∃ entry ∈ pluginOptions, key ∈ entry.2 ∧
    if entry.1 = "python" then entry.1.toList <+: plugin.toList else plugin = entry.1))

-- The plugins that an entry loads.
def loads (entry : String × Value) : List String :=
  if entry.1 ∈ pluginCommands then entry.2.lines else []

-- Each option that a plugin provides comes after the loading of such a plugin, or a plugin of those
-- that are known from the start provides it.
def LoadedFirst (known : List String) : List (String × Value) → Prop
  | [] => True
  | entry :: rest =>
    (entry.1 ∈ ownedOptions → ∃ plugin ∈ known, Provides plugin entry.1) ∧
      LoadedFirst (known ++ loads entry) rest

theorem command_not_owned {command : String} (hcommand : command ∈ pluginCommands) :
    command ∉ ownedOptions := by
  have hall : ∀ command ∈ pluginCommands, command ∉ ownedOptions := by decide
  exact hall command hcommand

theorem loads_of_not_command {key : String} (hkey : key ∉ pluginCommands) (value : Value) :
    loads (key, value) = [] :=
  if_neg hkey

namespace LoadedFirst

variable {known : List String} {entries : List (String × Value)} {key : String}

theorem mono {more : List String} (h : LoadedFirst known entries) (hmore : known ⊆ more) :
    LoadedFirst more entries := by
  induction entries generalizing known more with
  | nil => trivial
  | cons entry rest ih =>
    refine ⟨fun howned => ?_, ih h.2 (by simp [hmore])⟩
    obtain ⟨plugin, hplugin, hprovides⟩ := h.1 howned
    exact ⟨plugin, hmore hplugin, hprovides⟩

-- A value may be replaced by one that loads the same plugins and more. A new entry comes last, so
-- everything that has been loaded by then counts for it.
theorem upsert (h : LoadedFirst known entries) {f : Option Value → Value}
    (hloads : ∀ old, loads (key, old) ⊆ loads (key, f (some old)))
    (hnew : key ∈ ownedOptions → ∃ plugin ∈ known ++ entries.flatMap loads, Provides plugin key) :
    LoadedFirst known (Store.upsertEntry key f entries) := by
  induction entries generalizing known with
  | nil => exact ⟨by simpa using hnew, trivial⟩
  | cons entry rest ih =>
    obtain ⟨name, value⟩ := entry
    unfold Store.upsertEntry
    split
    · rename_i hname
      subst hname
      exact ⟨h.1, h.2.mono (by simp [hloads value])⟩
    · rw [List.flatMap_cons, ← List.append_assoc] at hnew
      exact ⟨h.1, ih h.2 hnew⟩

theorem erase (h : LoadedFirst known entries) (hkey : key ∉ pluginCommands) :
    LoadedFirst known (entries.eraseP (·.1 == key)) := by
  induction entries generalizing known with
  | nil => trivial
  | cons entry rest ih =>
    obtain ⟨name, value⟩ := entry
    by_cases hname : name = key
    · subst hname
      rw [List.eraseP_cons_of_pos (by simp)]
      simpa only [loads_of_not_command hkey, List.append_nil] using h.2
    · rw [List.eraseP_cons_of_neg (by simpa using hname)]
      exact ⟨h.1, ih h.2⟩

theorem insertIdx (h : LoadedFirst known entries) (hkey : key ∉ pluginCommands)
    (howned : key ∉ ownedOptions) (value : Value) (i : Nat) :
    LoadedFirst known (entries.insertIdx i (key, value)) := by
  have hhead : ∀ {known : List String} {entries : List (String × Value)},
      LoadedFirst known entries → LoadedFirst known ((key, value) :: entries) := by
    intro known entries h
    refine ⟨fun hmem => absurd hmem howned, ?_⟩
    rwa [loads_of_not_command hkey, List.append_nil]
  induction entries generalizing known i with
  | nil =>
    cases i with
    | zero => exact hhead h
    | succ i => exact h
  | cons entry rest ih =>
    cases i with
    | zero => exact hhead h
    | succ i => exact ⟨h.1, ih h.2 i⟩

theorem exists_earlier (h : LoadedFirst known entries) {i : Nat} {value : Value}
    (hi : entries[i]? = some (key, value)) (howned : key ∈ ownedOptions) :
    ∃ plugin, Provides plugin key ∧
      (plugin ∈ known ∨ ∃ j < i, ∃ entry, entries[j]? = some entry ∧ plugin ∈ loads entry) := by
  induction entries generalizing known i with
  | nil => cases hi
  | cons first rest ih =>
    cases i with
    | zero =>
      obtain rfl : first = (key, value) := Option.some.inj hi
      obtain ⟨plugin, hplugin, hprovides⟩ := h.1 howned
      exact ⟨plugin, hprovides, .inl hplugin⟩
    | succ i =>
      rw [List.getElem?_cons_succ] at hi
      obtain ⟨plugin, hprovides, hknown | ⟨j, hlt, entry, hj, hloads⟩⟩ := ih h.2 hi
      · rcases List.mem_append.mp hknown with hold | hfirst
        · exact ⟨plugin, hprovides, .inl hold⟩
        · exact ⟨plugin, hprovides, .inr ⟨0, Nat.succ_pos i, first, rfl, hfirst⟩⟩
      · exact ⟨plugin, hprovides, .inr ⟨j + 1, Nat.succ_lt_succ hlt, entry, hj, hloads⟩⟩

end LoadedFirst

-- Every option stands below a plugin that provides it.
structure InLoadOrder (s : Section) : Prop where
  registered : s.Registered
  loadedFirst : LoadedFirst s.embedded s.options.entries

theorem Registered.mem_loads {s : Section} (h : s.Registered) {plugin : String}
    (hplugin : plugin ∈ s.plugins) : plugin ∈ s.options.entries.flatMap loads := by
  have hline : ∃ command ∈ pluginCommands, plugin ∈ s.options.texts command := by
    rcases List.mem_append.mp (h.perm.mem_iff.mpr hplugin) with hplugin | hneed
    · exact ⟨"plugin", by decide, hplugin⟩
    · exact ⟨"need-plugin", by decide, hneed⟩
  obtain ⟨command, hcommand, htext⟩ := hline
  unfold Store.texts at htext
  cases hget : s.options.get? command with
  | none => simp [hget] at htext
  | some value =>
    refine List.mem_flatMap.mpr ⟨(command, value), Ascending.mem_of_lookup hget, ?_⟩
    simpa [loads, hcommand, hget] using htext

theorem Registered.mem_loads_of_has {s : Section} (h : s.Registered) {plugin : String}
    (hhas : s.Has plugin) : plugin ∈ s.embedded ++ s.options.entries.flatMap loads := by
  rcases hhas with hplugin | hembedded
  · exact List.mem_append_right _ (h.mem_loads hplugin)
  · exact List.mem_append_left _ hembedded

namespace InLoadOrder

variable {s t : Section} (h : s.InLoadOrder)
include h

theorem congr (hoptions : t.options = s.options) (hplugins : t.plugins = s.plugins)
    (hembedded : t.embedded = s.embedded) : t.InLoadOrder where
  registered := h.registered.congr hoptions hplugins
  loadedFirst := by rw [hoptions, hembedded]; exact h.loadedFirst

theorem registerPlugin {command : String} (hcommand : command ∈ pluginCommands) (plugin : String) :
    (s.registerPlugin command plugin).InLoadOrder := by
  refine ⟨h.registered.registerPlugin hcommand plugin, ?_⟩
  unfold Section.registerPlugin
  split
  · exact h.loadedFirst
  · refine h.loadedFirst.upsert (fun old => ?_) fun howned => ?_
    · simp [loads, hcommand, Value.lines]
    · exact absurd howned (command_not_owned hcommand)

section Edit

variable {key : String} (hkey : key ∉ pluginCommands)
include hkey

-- An edit of one option that loads nothing.
theorem edit {options : Store} (hedit : s.options.EditedIn [key] options)
    (hloaded : LoadedFirst s.embedded options.entries) : InLoadOrder { s with options } := by
  refine ⟨h.registered.edit (fun command hcommand => ?_) hedit, hloaded⟩
  rw [List.mem_singleton]
  rintro rfl
  exact hkey hcommand

theorem upsert (f : Option Value → Value)
    (hprovided : key ∈ ownedOptions → ∃ plugin, s.Has plugin ∧ Provides plugin key) :
    InLoadOrder { s with options := s.options.upsert key f } := by
  refine h.edit hkey ⟨s.options.without_upsert [key] key f (by simp), fun hd => hd.upsert key f⟩ ?_
  refine h.loadedFirst.upsert (fun old => ?_) fun howned => ?_
  · rw [loads_of_not_command hkey, loads_of_not_command hkey]
    exact List.nil_subset _
  · obtain ⟨plugin, hhas, hprovides⟩ := hprovided howned
    exact ⟨plugin, h.registered.mem_loads_of_has hhas, hprovides⟩

theorem erase : InLoadOrder { s with options := s.options.erase key } :=
  h.edit hkey ⟨s.options.without_erase [key] key (by simp), fun hd => hd.erase key⟩
    (h.loadedFirst.erase hkey)

theorem insertAt (howned : key ∉ ownedOptions) (value : Value) (position : Nat) :
    InLoadOrder { s with options := s.options.insertAt key value position } :=
  h.edit hkey ⟨s.options.without_insertAt [key] key value position (by simp),
    fun hd => hd.insertAt key value position⟩
    ((h.loadedFirst.erase hkey).insertIdx hkey howned _ _)

end Edit

theorem merge (options : Store)
    (hkeys : ∀ key ∈ options.keys, key ∉ pluginCommands ∧
      (key ∈ ownedOptions → ∃ plugin, s.Has plugin ∧ Provides plugin key)) :
    InLoadOrder { s with options := s.options.merge options } := by
  obtain ⟨entries⟩ := options
  unfold Store.merge
  induction entries generalizing s with
  | nil => exact h
  | cons entry rest ih =>
    simp only [Store.keys, List.map_cons, List.forall_mem_cons] at hkeys
    exact ih (h.upsert hkeys.1.1 (fun _ => entry.2) hkeys.1.2) hkeys.2

end InLoadOrder

end Section

namespace Effect

open Section

-- An effect that keeps the load order of a section, if the section has the given plugins.
def Ready (known : List String) : Effect → Prop
  | erase key => key ∉ pluginCommands
  | insertAt key _ _ => key ∉ pluginCommands ∧ key ∉ ownedOptions
  | e => ∀ key ∈ e.keys, key ∉ pluginCommands ∧
      (key ∈ ownedOptions → ∃ plugin ∈ known, Provides plugin key)

theorem ready_of_keys_eq_nil {e : Effect} (hkeys : e.keys = []) (known : List String) :
    e.Ready known := by
  cases e with
  | activate | merge => simp [Ready, hkeys]
  | _ => simp [keys] at hkeys

theorem ready_of_keys {e : Effect} {known : List String}
    (hkeys : ∀ key ∈ e.keys, key ∉ pluginCommands ∧
      (key ∈ ownedOptions → ∃ plugin ∈ known, Provides plugin key))
    (hplace : ∀ key value position, e = insertAt key value position → key ∉ ownedOptions) :
    e.Ready known := by
  cases e with
  | erase key => exact (hkeys key (List.mem_singleton_self key)).1
  | insertAt key value position =>
    exact ⟨(hkeys key (List.mem_singleton_self key)).1, hplace key value position rfl⟩
  | _ => exact hkeys

end Effect

namespace Section.InLoadOrder

variable {s : Section} {known : List String}

theorem run (h : s.InLoadOrder) (hknown : ∀ plugin ∈ known, s.Has plugin) {e : Effect}
    (he : e.Ready known) : (e.run s).InLoadOrder := by
  have hhas : ∀ {key : String}, (∃ plugin ∈ known, Provides plugin key) →
      ∃ plugin, s.Has plugin ∧ Provides plugin key :=
    fun ⟨plugin, hmem, hprovides⟩ => ⟨plugin, hknown plugin hmem, hprovides⟩
  cases e with
  | activate plugin => exact h.registerPlugin (by decide) plugin
  | merge options =>
    exact h.merge options fun key hkey => (he key hkey).imp_right fun hprovided howned =>
      hhas (hprovided howned)
  | erase key => exact h.erase he
  | insert key value =>
    obtain ⟨hkey, hprovided⟩ := he key (List.mem_singleton_self key)
    exact h.upsert hkey _ fun howned => hhas (hprovided howned)
  | extend key texts =>
    obtain ⟨hkey, hprovided⟩ := he key (List.mem_singleton_self key)
    exact h.upsert hkey _ fun howned => hhas (hprovided howned)
  | insertAt key value position => exact h.insertAt he.1 he.2 value position

theorem runAll (h : s.InLoadOrder) (hknown : ∀ plugin ∈ known, s.Has plugin)
    {effects : List Effect} (hready : ∀ e ∈ effects, e.Ready known) :
    (Effect.runAll effects s).InLoadOrder := by
  induction effects generalizing s with
  | nil => exact h
  | cons e rest ih =>
    rw [List.forall_mem_cons] at hready
    exact ih (s := e.run s) (h.run hknown hready.1)
      (fun plugin hmem => (hknown plugin hmem).runAll [e]) hready.2

-- Plugins are asked for first, and what comes after that may rely on them.
theorem runAll_append (h : s.InLoadOrder) {first rest : List Effect}
    (hfirst : ∀ e ∈ first, e.keys = [])
    (hrest : ∀ e ∈ rest, e.Ready (first.filterMap Effect.activated?)) :
    (Effect.runAll (first ++ rest) s).InLoadOrder := by
  rw [Effect.runAll_append]
  have hnone : ∀ plugin ∈ ([] : List String), s.Has plugin := List.forall_mem_nil _
  have hasked : (Effect.runAll first s).InLoadOrder :=
    h.runAll hnone fun e he => Effect.ready_of_keys_eq_nil (hfirst e he) []
  exact hasked.runAll (fun plugin hmem => has_runAll first s hmem) hrest

end Section.InLoadOrder

namespace Mutation

variable {m : Mutation} {groupPlugin : Option String}

-- A call that asks for plugins first, and then does nothing that is not ready to be done with them.
def KeepsLoadOrder (m : Mutation) (groupPlugin : Option String) : Prop :=
  ∃ first rest, m.effects groupPlugin = first ++ rest ∧ (∀ e ∈ first, e.keys = []) ∧
    ∀ e ∈ rest, e.Ready (first.filterMap Effect.activated?)

theorem KeepsLoadOrder.apply (h : m.KeepsLoadOrder groupPlugin) {s : Section}
    (hs : s.InLoadOrder) : (m.apply groupPlugin s).InLoadOrder := by
  obtain ⟨first, rest, heffects, hfirst, hrest⟩ := h
  unfold Mutation.apply
  rw [heffects]
  exact hs.runAll_append hfirst hrest

-- Such is a call that leaves the loading of plugins to requests, and stores the options that
-- plugins provide where it finds them, with a plugin that the call or its group asks for.
theorem keepsLoadOrder_of_keys
    (h : ∀ key ∈ m.keys, key ∉ Section.pluginCommands ∧
      (key ∈ Section.ownedOptions → m.priority = none ∧
        ∃ plugin ∈ groupPlugin.toList ++ m.plugin.toList, Section.Provides plugin key)) :
    m.KeepsLoadOrder groupPlugin := by
  have hready : ∀ e ∈ m.effects groupPlugin, e.Ready (groupPlugin.toList ++ m.plugin.toList) := by
    intro e he
    have hsub := m.keys_effects groupPlugin e he
    refine Effect.ready_of_keys (fun key hkey => ?_) fun key value position heq howned => ?_
    · exact (h key (hsub hkey)).imp_right fun hprovided howned => (hprovided howned).2
    · subst heq
      have hpriority := ((h key (hsub (List.mem_singleton_self key))).2 howned).1
      exact not_insertAt_mem_effects hpriority he
  rcases m.effects_cases groupPlugin with hnone | herase | hall
  · exact ⟨[], [], hnone, by simp, by simp⟩
  · refine ⟨[], [.erase m.key], herase, by simp, ?_⟩
    rw [List.forall_mem_singleton]
    exact (h m.key List.mem_cons_self).1
  · have hasked : ∀ plugin : Option String, ∀ e ∈ Effect.activateAll plugin, e.keys = [] :=
      Effect.forall_mem_activateAll fun _ => rfl
    have hsplit : m.effects groupPlugin =
        (Effect.activateAll groupPlugin ++ Effect.activateAll m.plugin) ++
          ((m.parts ++ m.stored).flatMap Arg.contributions ++ m.placement) := by
      rw [hall, preparation, List.append_assoc]
    refine ⟨_, _, hsplit, List.forall_mem_append.mpr ⟨hasked groupPlugin, hasked m.plugin⟩, ?_⟩
    intro e he
    rw [List.filterMap_append, Effect.filterMap_activateAll, Effect.filterMap_activateAll]
    exact hready e (hsplit ▸ List.mem_append_right _ he)

theorem keepsLoadOrder_of_not_owned
    (h : ∀ key ∈ m.keys, key ∉ Section.pluginCommands ∧ key ∉ Section.ownedOptions) :
    m.KeepsLoadOrder groupPlugin :=
  keepsLoadOrder_of_keys fun key hkey =>
    (h key hkey).imp_right fun hnot howned => absurd howned hnot

theorem keepsLoadOrder_of_key {key : String} (hkeys : m.keys = [key])
    (hkey : key ∉ Section.pluginCommands ∧ key ∉ Section.ownedOptions) :
    m.KeepsLoadOrder groupPlugin := by
  refine keepsLoadOrder_of_not_owned ?_
  rwa [hkeys, List.forall_mem_singleton]

end Mutation

theorem Stage.owned_not_mem_names (stage : Stage) {key : String}
    (hkey : key ∈ Section.ownedOptions) : key ∉ stage.names := by
  have hall : ∀ stage ∈ all, ∀ key ∈ Section.ownedOptions,
      key.toList ∉ stage.spelledNames := by decide +kernel
  exact fun hname => hall stage stage.mem_all key hkey (toList_mem_spelledNames hname)

namespace Section

open Mutation

section Settings

variable {m : Mutation} {groupPlugin : Option String}

theorem OwnSetting.keepsLoadOrder (h : OwnSetting m) : m.KeepsLoadOrder groupPlugin := by
  have hall : ∀ key ∈ ownOptions, key ∉ pluginCommands ∧ key ∉ ownedOptions := by decide
  exact keepsLoadOrder_of_key h.plain.keys_eq (hall m.key h.key_mem)

theorem ReferenceSetting.keepsLoadOrder {target : String} (h : ReferenceSetting target m) :
    m.KeepsLoadOrder groupPlugin := by
  have hall : ∀ key ∈ referenceOptions, key ∉ pluginCommands ∧ key ∉ ownedOptions := by decide
  exact keepsLoadOrder_of_key h.keys_eq (hall m.key h.key_mem)

theorem searchDirs_keepsLoadOrder (dirs : List String) :
    (searchDirsMutation dirs).KeepsLoadOrder groupPlugin := by
  have hdirs : "plugins-dir" ∉ pluginCommands ∧ "plugins-dir" ∉ ownedOptions := by decide
  exact keepsLoadOrder_of_key (plain_searchDirs dirs).keys_eq hdirs

theorem provides_groupName (s : Section) {key : String} (hkey : key ∈ optionsOf pythonKind) :
    Provides (s.groupName pythonKind) key := by
  refine ⟨("python", optionsOf pythonKind), by decide, hkey, ?_⟩
  rw [if_pos rfl]
  unfold groupName GroupKind.nameWith
  rw [String.toList_append]
  exact List.prefix_append _ _

theorem router_keepsLoadOrder (r : Router) : (routerMutation r).KeepsLoadOrder none := by
  have hprovides : ∀ key ∈ [r.directive, r.forwardKey],
      key ∉ pluginCommands ∧ Provides r.plugin key := by
    cases r <;> simp only [Router.plugin, Router.directive, Router.forwardKey] <;> decide
  have hready : ∀ key ∈ [r.directive, r.forwardKey], key ∉ pluginCommands ∧
      (key ∈ ownedOptions → ∃ plugin ∈ [r.plugin], Provides plugin key) :=
    fun key hkey => (hprovides key hkey).imp_right fun h _ => ⟨r.plugin, by simp, h⟩
  have hoptions : r.toParam.options.keys ⊆ [r.directive, r.forwardKey] :=
    List.Subset.trans (List.subset_append_right _ _) r.keys_toParam
  refine ⟨[.activate r.plugin], _, effects_routerMutation r, by simp [Effect.keys], ?_⟩
  simp only [List.forall_mem_cons]
  refine ⟨fun key hkey => ?_, fun key hkey => ?_, List.forall_mem_nil _⟩
  · exact hready key (hoptions hkey)
  · exact hready key (List.mem_singleton.mp hkey ▸ List.mem_cons_self)

-- Only the settings of python, the databases of places and the routers are provided by plugins.
theorem GroupSetting.keepsLoadOrder {kind : GroupKind} (h : GroupSetting kind m) (s : Section) :
    m.KeepsLoadOrder (if kind.autoPlugin then some (s.groupName kind) else none) := by
  have hcommand : ∀ key ∈ m.keys, key ∉ pluginCommands :=
    fun key hkey hcommand =>
      h.not_mem_keys (reserved_sectionOption (pluginCommand_reserved hcommand)) hkey
  cases h with
  | plain hmem hm hpriority =>
    by_cases hkind : kind = pythonKind
    · subst hkind
      refine keepsLoadOrder_of_keys fun key hkey => ⟨hcommand key hkey, fun _ => ⟨hpriority, ?_⟩⟩
      rw [hm.keys_eq, List.mem_singleton] at hkey
      exact ⟨s.groupName pythonKind, by simp [pythonKind], hkey ▸ s.provides_groupName hmem⟩
    · have hall : ∀ entry ∈ groupOptions, entry.1 ≠ pythonKind → ∀ key ∈ entry.2,
          key ∉ pluginCommands ∧ key ∉ ownedOptions := by decide
      obtain ⟨options, hoptions, hoption⟩ := exists_options_of_mem hmem
      exact keepsLoadOrder_of_key hm.keys_eq (hall _ hoptions hkind m.key hoption)
  | @geoip key hkey given =>
    have hall : ∀ key ∈ ["geoip-country", "geoip-city"], Provides "geoip" key := by decide
    refine keepsLoadOrder_of_keys fun name hname => ⟨hcommand name hname, fun _ => ⟨rfl, ?_⟩⟩
    rw [keys_ofText?_plugin, List.mem_singleton] at hname
    exact ⟨"geoip", by simp, hname ▸ hall key hkey⟩
  | @logger key hkey logger label =>
    have hall : ∀ key ∈ ["logger", "req-logger"],
        key ∉ pluginCommands ∧ key ∉ ownedOptions := by decide
    exact keepsLoadOrder_of_key (keys_adding_logger key logger label) (hall key hkey)
  | socket socket =>
    have hall : ∀ key ∈ ["socket", socket.directive], key ∉ ownedOptions := by
      cases socket <;> simp only [Socket.directive] <;> decide
    refine keepsLoadOrder_of_not_owned fun name hname => ⟨hcommand name hname, ?_⟩
    rw [keys_adding_socket] at hname
    exact hall name hname
  | rule rule =>
    refine keepsLoadOrder_of_not_owned fun name hname => ⟨hcommand name hname, fun howned => ?_⟩
    rw [keys_ruleMutation, List.mem_singleton] at hname
    exact rule.stage.owned_not_mem_names howned (hname ▸ rule.command_mem_names)
  | router r => exact router_keepsLoadOrder r

end Settings

namespace InLoadOrder

variable {s t : Section} (h : s.InLoadOrder)
include h

theorem editStep {targets : String → Prop} (hedit : Edit targets s t) : t.InLoadOrder := by
  cases hedit with
  | move hmove =>
    cases hmove with
    | version kind version => exact h.congr rfl rfl rfl
    | turn hturn =>
      cases hturn with
      | enter hkind => exact h.congr rfl rfl rfl
      | register hcommand plugin => exact h.registerPlugin hcommand plugin
      | set hm => exact hm.keepsLoadOrder.apply h
      | @setIn kind m hm =>
        have hin : (s.enter kind).InLoadOrder := h.congr rfl rfl rfl
        exact (hm.keepsLoadOrder (s.enter kind)).apply hin
  | plugins p =>
    have hregistered : (p.plugins.foldl (·.registerPlugin p.command) s).InLoadOrder :=
      p.register_induction (fun _ _ plugin hcommand hs => hs.registerPlugin hcommand plugin) h
    rw [setPlugins_eq]
    exact (OwnSetting.autoload p.autoload).keepsLoadOrder.apply
      ((searchDirs_keepsLoadOrder p.searchDirs).apply hregistered)
  | refer _ hm => exact hm.keepsLoadOrder.apply h

theorem quiet (hquiet : Operation.Quiet s t) : t.InLoadOrder := by
  obtain ⟨hstep, hembedded⟩ := hquiet
  cases hstep with
  | edit hedit => exact h.editStep hedit
  | enter | name | stylePrints => exact h.congr rfl rfl rfl
  | embedded embedded => exact h.congr rfl rfl hembedded

end InLoadOrder

theorem inLoadOrder_of_no_options {s : Section} (h : s.Registered) (hnone : s.options = ∅) :
    s.InLoadOrder :=
  ⟨h, by rw [hnone]; trivial⟩

end Section

namespace Operation

open Section

-- The built-in plugins are stated while a section has no options.
def EmbedsFirst (env : Environment) (name : Option String) (ops : List Operation) : Prop :=
  ∀ before embedded after, ops = before ++ .embed embedded :: after →
    (reachAll env before (Section.named name)).options = ∅

theorem inLoadOrder_reachAll {env : Environment} {name : Option String} {ops : List Operation}
    (hfixed : EmbedsFirst env name ops) :
    (reachAll env ops (Section.named name)).InLoadOrder := by
  rcases exists_last_embed ops with hnone | ⟨before, embedded, after, rfl, hafter⟩
  · exact reachAll_induction_quiet hnone (fun _ _ hquiet hs => hs.quiet hquiet)
      (inLoadOrder_of_no_options (registered_named name) rfl)
  · have hbefore := registered_reachAll env before name
    have hempty := hfixed before embedded after rfl
    rw [reachAll_append]
    refine reachAll_induction_quiet (s := (reachAll env before (Section.named name)).embed embedded)
      hafter (fun _ _ hquiet hs => hs.quiet hquiet) ?_
    exact inLoadOrder_of_no_options (hbefore.congr rfl rfl) hempty

theorem embedsFirst_cons (env : Environment) (name : Option String) (embedded : Embedded)
    {after : List Operation} (hafter : ∀ op ∈ after, ∀ other, op ≠ .embed other) :
    EmbedsFirst env name (.embed embedded :: after) := by
  intro before other rest hops
  cases before with
  | nil => rfl
  | cons first before =>
    obtain ⟨-, rfl⟩ := List.cons.inj hops
    exact absurd rfl (hafter (.embed other) (by simp) other)

-- Wherever an option stands that a plugin provides, such a plugin is built in or is loaded further
-- up.
theorem plugin_above_its_options {env : Environment} {name : Option String}
    {ops : List Operation} (hfixed : EmbedsFirst env name ops) :
    let s := reachAll env ops (Section.named name)
    ∀ (i : Nat) (key : String) (value : Value), s.options.entries[i]? = some (key, value) →
      key ∈ ownedOptions → ∃ plugin, Provides plugin key ∧
        (plugin ∈ s.embedded ∨ ∃ j < i, ∃ command ∈ ["plugin", "need-plugin"], ∃ loaded,
          s.options.entries[j]? = some (command, loaded) ∧ plugin ∈ loaded.lines) := by
  intro s i key value hi howned
  obtain ⟨plugin, hprovides, hembedded | ⟨j, hlt, ⟨command, loaded⟩, hj, hloads⟩⟩ :=
    (inLoadOrder_reachAll hfixed).loadedFirst.exists_earlier hi howned
  · exact ⟨plugin, hprovides, .inl hembedded⟩
  · have hcommand : command ∈ pluginCommands := by
      by_contra hnot
      rw [loads_of_not_command hnot] at hloads
      cases hloads
    rw [loads, if_pos hcommand] at hloads
    exact ⟨plugin, hprovides, .inr ⟨j, hlt, command, hcommand, loaded, hj, hloads⟩⟩

-- The directories are moved to the top later on, and the second version of python is loaded by the
-- line of the first one.
theorem python_above_home :
    let ops : List Operation :=
      [.embed (.listed ["http"]), .python { version := some (.number 3), home := some "/venv" },
        .router (.https ":443" "s.crt" "s.key" [":3031"]) none,
        .plugins { searchDirs := ["/usr/lib/uwsgi"], plugins := ["syslog"], required := true },
        .python { version := some (.text "3.11"), home := some "/other" }]
    let s := reachAll (fun _ => none) ops (Section.named none)
    EmbedsFirst (fun _ => none) none ops ∧
    s.options.keys = ["plugins-dir", "plugin", "pyhome", "http-to", "https", "need-plugin"] ∧
    ∃ plugin, Provides plugin "pyhome" ∧
      (plugin ∈ s.embedded ∨ ∃ j < 2, ∃ command ∈ ["plugin", "need-plugin"], ∃ loaded,
        s.options.entries[j]? = some (command, loaded) ∧ plugin ∈ loaded.lines) := by
  intro ops s
  have hfixed : EmbedsFirst (fun _ => none) none ops :=
    embedsFirst_cons _ none _ (by simp)
  have hhome : s.options.entries[2]? = some ("pyhome", .single "/other") := by decide +kernel
  exact ⟨hfixed, by decide +kernel, plugin_above_its_options hfixed 2 _ _ hhome (by decide)⟩

end Operation

end Vassal
