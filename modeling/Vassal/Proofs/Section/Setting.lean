import Vassal.Proofs.Options.Mutation
import Vassal.Section.Operation

-- The calls that the setters of a section and of its groups make, described by the names they use
-- and the shape of their values.

namespace Vassal

-- Values that bring nothing along.
inductive Arg.Plain : Arg → Prop
  | null : Plain .null
  | bool (b : Bool) : Plain (.bool b)
  | text (s : String) : Plain (.text s)
  | texts (texts : List String) : Plain (.ofTexts texts)

namespace Arg.Plain

theorem keys_eq_nil {a : Arg} (h : a.Plain) : a.keys = [] := by
  cases h <;> rfl

theorem contributions_eq_nil {a : Arg} (h : a.Plain) : a.contributions = [] := by
  cases h <;> rfl

theorem of_mem_elements {a b : Arg} (h : a.Plain) (hb : b ∈ a.elements) : b.Plain := by
  cases h with
  | null => simp [elements] at hb
  | bool | text =>
    simp only [elements, List.mem_singleton] at hb
    subst hb
    constructor
  | texts texts =>
    obtain ⟨text, _, rfl⟩ := List.mem_map.mp hb
    exact .text text

theorem ofOption {α : Type} {f : α → Arg} (hf : ∀ a, (f a).Plain) (given : Option α) :
    (Arg.ofOption f given).Plain := by
  cases given with
  | none => exact .null
  | some a => exact hf a

end Arg.Plain

-- Calls that work on the name they were made for and ask for no plugin.
structure Mutation.Plain (m : Mutation) : Prop where
  value : m.value.Plain
  plugin : m.plugin = none

namespace Mutation.Plain

theorem ofFlag (key : String) (given : Option Bool) : (Mutation.ofFlag key given).Plain :=
  ⟨.ofOption .bool given, rfl⟩

theorem ofText (key text : String) : (Mutation.ofText key text).Plain :=
  ⟨.text text, rfl⟩

theorem ofText? (key : String) (given : Option String) : (Mutation.ofText? key given).Plain :=
  ⟨.ofOption .text given, rfl⟩

theorem ofNat? (key : String) (given : Option Nat) : (Mutation.ofNat? key given).Plain :=
  ⟨.ofOption (fun n => .text (toString n)) given, rfl⟩

theorem adding (key text : String) : (Mutation.adding key (.text text)).Plain :=
  ⟨.text text, rfl⟩

theorem addingTexts (key : String) (given : Option (List String)) :
    (Mutation.adding key (.ofOption .ofTexts given)).Plain :=
  ⟨.ofOption .texts given, rfl⟩

theorem flagged {m : Mutation} (h : m.Plain) : m.flagged.Plain := by
  unfold Mutation.flagged
  split
  · exact .text "true"
  · exact h.value

theorem parts_eq_nil {m : Mutation} (h : m.Plain) : m.parts = [] := by
  have hflagged := h.flagged
  unfold parts
  generalize m.flagged = value at hflagged ⊢
  cases hflagged <;> rfl

theorem joined_eq {m : Mutation} (h : m.Plain) : m.joined = m.flagged := by
  have hflagged := h.flagged
  unfold joined
  generalize m.flagged = value at hflagged ⊢
  cases hflagged <;> rfl

theorem of_mem_stored {m : Mutation} (h : m.Plain) {a : Arg} (ha : a ∈ m.stored) : a.Plain := by
  unfold stored at ha
  rw [h.joined_eq] at ha
  split at ha
  · exact h.flagged.of_mem_elements ha
  · rw [List.mem_singleton] at ha
    exact ha ▸ h.flagged

theorem contributions_eq_nil {m : Mutation} (h : m.Plain) :
    (m.parts ++ m.stored).flatMap Arg.contributions = [] := by
  rw [h.parts_eq_nil, List.nil_append, List.flatMap_eq_nil_iff]
  exact fun a ha => (h.of_mem_stored ha).contributions_eq_nil

theorem keys_eq {m : Mutation} (h : m.Plain) : m.keys = [m.key] := by
  have hstored : ∀ a ∈ m.stored, a.keys = [] := fun a ha => (h.of_mem_stored ha).keys_eq_nil
  simpa [keys, h.parts_eq_nil] using hstored

end Mutation.Plain

namespace Section

-- The directives that load plugins.
def pluginCommands : List String :=
  ["plugin", "need-plugin"]

-- The directives that refer to other configurations.
def referenceOptions : List String :=
  ["ini", "fallback-config"]

-- The options that load plugins or refer to other configurations.
def reservedOptions : List String :=
  pluginCommands ++ referenceOptions

-- The options that no group sets.
def sectionOptions : List String :=
  "plugins-dir" :: reservedOptions

theorem reserved_sectionOption {key : String} (hkey : key ∈ reservedOptions) :
    key ∈ sectionOptions :=
  List.mem_cons_of_mem _ hkey

theorem pluginCommand_reserved {command : String} (hcommand : command ∈ pluginCommands) :
    command ∈ reservedOptions :=
  List.mem_append_left _ hcommand

theorem reference_reserved {key : String} (hkey : key ∈ referenceOptions) :
    key ∈ reservedOptions :=
  List.mem_append_right _ hkey

-- The options that a section sets on its own, plugins, their directories and references apart.
def ownOptions : List String :=
  ["strict", "autoload", "plugins-list", "print", "env", "unenv"]

-- The options of each group that take plain values.
def groupOptions : List (GroupKind × List String) :=
  [(applicationsKind,
     ["need-app", "max-apps", "single-interpreter", "no-default-app", "chdir", "chdir2", "mount",
      "worker-mount", "idle", "die-on-idle", "lazy", "lazy-apps"]),
   (locksKind, ["thunder-lock"]),
   (loggingKind, ["disable-logging", "log-4xx", "log-5xx"]),
   (mainProcessKind, ["touch-reload", "vacuum", "pidfile", "auto-procname", "procname-prefix"]),
   (masterProcessKind, ["master"]),
   (networkingKind, ["buffer-size", "listen"]),
   (pythonKind, ["pyhome", "pythonpath", "optimize", "wsgi", "callable"]),
   (routingKind,
     ["routers-list", "force-gateway", "add-header", "del-header", "pull-header", "collect-header",
      "route-label", "error-route-label", "response-route-label", "final-route-label",
      "error-page-403", "error-page-404", "error-page-500"]),
   (workersKind, ["workers", "enable-threads", "threads", "mules", "farm"])]

def builtInKinds : List GroupKind :=
  groupOptions.map Prod.fst

def optionsOf (kind : GroupKind) : List String :=
  (groupOptions.lookup kind).getD []

theorem exists_options_of_mem {kind : GroupKind} {key : String}
    (hkey : key ∈ optionsOf kind) : ∃ keys, (kind, keys) ∈ groupOptions ∧ key ∈ keys := by
  unfold optionsOf at hkey
  cases hlookup : groupOptions.lookup kind with
  | none => simp [hlookup] at hkey
  | some keys =>
    rw [hlookup] at hkey
    exact ⟨keys, Ascending.mem_of_lookup hlookup, hkey⟩

-- The call that names the directories where plugins are searched for.
def searchDirsMutation (dirs : List String) : Mutation :=
  { key := "plugins-dir", value := .ofTexts dirs, multi := true, priority := some 0 }

theorem plain_searchDirs (dirs : List String) : (searchDirsMutation dirs).Plain :=
  ⟨.texts dirs, rfl⟩

theorem setPlugins_eq (s : Section) (p : PluginsParams) :
    s.setPlugins p =
      ((p.plugins.foldl (·.registerPlugin p.command) s).set (searchDirsMutation p.searchDirs)).set
        (.ofFlag "autoload" p.autoload) :=
  rfl

structure OwnSetting (m : Mutation) : Prop where
  key_mem : m.key ∈ ownOptions
  plain : m.Plain
  priority : m.priority = none

-- The calls by which a section refers to another configuration.
inductive ReferenceSetting (target : String) : Mutation → Prop
  | adding : ReferenceSetting target (.adding "ini" (.text target))
  | text : ReferenceSetting target (.ofText "fallback-config" target)

inductive GroupSetting : GroupKind → Mutation → Prop
  | plain {kind : GroupKind} {m : Mutation} (hkey : m.key ∈ optionsOf kind) (hm : m.Plain)
      (hpriority : m.priority = none) : GroupSetting kind m
  | geoip {key : String} (hkey : key ∈ ["geoip-country", "geoip-city"]) (given : Option String) :
      GroupSetting routingKind { Mutation.ofText? key given with plugin := some "geoip" }
  | logger {key : String} (hkey : key ∈ ["logger", "req-logger"]) (logger : Logger)
      (label : Option String) :
      GroupSetting loggingKind (.adding key (.param { logger.toParam with label }))
  | socket (socket : Socket) :
      GroupSetting networkingKind (.adding "socket" (.param socket.toParam))
  | rule (rule : RouteRule) : GroupSetting routingKind (ruleMutation rule)
  | router (router : Router) :
      GroupSetting routingKind { key := "gateway", value := .param router.toParam }

namespace OwnSetting

section Key

variable {key : String} (hkey : key ∈ ownOptions)
include hkey

theorem flag (given : Option Bool) : OwnSetting (.ofFlag key given) :=
  ⟨hkey, .ofFlag key given, rfl⟩

theorem adding (text : String) : OwnSetting (.adding key (.text text)) :=
  ⟨hkey, .adding key text, rfl⟩

end Key

theorem autoload (given : Option Bool) : OwnSetting (.ofFlag "autoload" given) :=
  flag (by decide) given

end OwnSetting

namespace GroupSetting

variable {kind : GroupKind} {key : String} (hkey : key ∈ optionsOf kind)
include hkey

theorem flag (given : Option Bool) : GroupSetting kind (.ofFlag key given) :=
  .plain hkey (.ofFlag key given) rfl

theorem text (text : String) : GroupSetting kind (.ofText key text) :=
  .plain hkey (.ofText key text) rfl

theorem text? (given : Option String) : GroupSetting kind (.ofText? key given) :=
  .plain hkey (.ofText? key given) rfl

theorem nat? (given : Option Nat) : GroupSetting kind (.ofNat? key given) :=
  .plain hkey (.ofNat? key given) rfl

theorem adding (text : String) : GroupSetting kind (.adding key (.text text)) :=
  .plain hkey (.adding key text) rfl

theorem addingTexts (given : Option (List String)) :
    GroupSetting kind (.adding key (.ofOption .ofTexts given)) :=
  .plain hkey (.addingTexts key given) rfl

end GroupSetting

end Section

theorem PluginsParams.command_mem (p : PluginsParams) : p.command ∈ Section.pluginCommands := by
  unfold command
  split <;> decide

-- What survives the registering of a plugin survives the registering of all that are given.
theorem PluginsParams.register_induction (p : PluginsParams) {P : Section → Prop}
    (hregister : ∀ s command plugin, command ∈ Section.pluginCommands → P s →
      P (s.registerPlugin command plugin)) {s : Section} (hs : P s) :
    P (p.plugins.foldl (·.registerPlugin p.command) s) := by
  induction p.plugins generalizing s with
  | nil => exact hs
  | cons plugin rest ih => exact ih (hregister s p.command plugin p.command_mem hs)

namespace Param

private theorem arg_key_options (p : Param) (a : Arg) :
    (p.arg a).key = p.key ∧ (p.arg a).options = p.options := by
  unfold Param.arg
  split <;> exact ⟨rfl, rfl⟩

theorem withArgs_key_options (p : Param) (args : List Arg) :
    (p.withArgs args).key = p.key ∧ (p.withArgs args).options = p.options := by
  unfold withArgs
  induction args generalizing p with
  | nil => exact ⟨rfl, rfl⟩
  | cons a rest ih =>
    have ha := arg_key_options p a
    have hrest := ih (p.arg a)
    exact ⟨hrest.1.trans ha.1, hrest.2.trans ha.2⟩

theorem keys_withArgs (p : Param) (args : List Arg) :
    (Arg.param (p.withArgs args)).keys = p.key.toList ++ p.options.keys := by
  have h := withArgs_key_options p args
  simp only [Arg.keys, h.1, h.2]

end Param

theorem Logger.key_options_toParam (logger : Logger) :
    logger.toParam.key = none ∧ logger.toParam.options = ∅ := by
  cases logger with
  | syslog | redis => exact Param.withArgs_key_options _ _
  | file | socket | stdio => exact ⟨rfl, rfl⟩

theorem Router.keys_toParam (router : Router) :
    (Arg.param router.toParam).keys ⊆ [router.directive, router.plugin ++ "-to"] := by
  unfold toParam
  split
  · rw [Param.keys_withArgs]
    exact List.cons_subset_cons _ (List.nil_subset _)
  · have h := Param.withArgs_key_options
      { name := router.directive, key := some router.directive, joiner := ",",
        plugin := some router.plugin } (router.args.map .text)
    simp only [Arg.keys, Param.withOptions, h.1, h.2, Store.extend, Store.keys_upsert]
    simp

-- What the name of a rule's directive may end in.
def Subject.suffixes : List String :=
  ["run", "host", "referer", "user-agent", "", "qs", "remote-addr", "remote-user", "uri", "status",
   "if", "if-not"]

theorem RouteRule.suffix_mem (rule : RouteRule) :
    (rule.subject.map Subject.suffix).getD "run" ∈ Subject.suffixes := by
  cases rule.subject with
  | none => simp [Subject.suffixes]
  | some subject =>
    cases subject with
    | custom subject check negated => cases negated <;> simp [Subject.suffix, Subject.suffixes]
    | _ => simp [Subject.suffix, Subject.suffixes]

namespace Stage

-- The names of the directives that make up a chain.
def names (stage : Stage) : List String :=
  stage.directive "route-label"
    :: Subject.suffixes.map fun suffix => stage.directive ("route-" ++ suffix)

-- The chain of a directive, told by the letters that its name begins with.
def ofLetters? : List Char → Option Stage
  | 'e' :: _ => some error
  | 'f' :: _ => some final
  | 'r' :: 'e' :: _ => some response
  | 'r' :: _ => some request
  | _ => none

theorem toList_directive (stage : Stage) (name : String) :
    (stage.directive name).toList =
      Text.dropEnds (· == '-') (stage.word.toList ++ '-' :: name.toList) := by
  simp [directive, Text.trimMatches]

-- The same names, letter by letter.
def spelledNames (stage : Stage) : List (List Char) :=
  ("route-label".toList :: Subject.suffixes.map fun suffix => "route-".toList ++ suffix.toList).map
    fun name => Text.dropEnds (· == '-') (stage.word.toList ++ '-' :: name)

theorem toList_mem_spelledNames {stage : Stage} {name : String} (hname : name ∈ stage.names) :
    name.toList ∈ stage.spelledNames := by
  have hmap : stage.names.map String.toList = stage.spelledNames := by
    simp only [names, spelledNames, List.map_cons, List.map_map, toList_directive,
      Function.comp_def, String.toList_append]
  exact hmap ▸ List.mem_map_of_mem hname

def all : List Stage :=
  [request, error, response, final]

theorem mem_all (stage : Stage) : stage ∈ all := by
  cases stage <;> decide

theorem ofLetters?_toList {stage : Stage} {name : String} (hname : name ∈ stage.names) :
    ofLetters? name.toList = some stage := by
  have hall : ∀ stage ∈ all, ∀ letters ∈ stage.spelledNames,
      ofLetters? letters = some stage := by decide +kernel
  exact hall stage stage.mem_all _ (toList_mem_spelledNames hname)

theorem eq_of_mem_names {first second : Stage} {name : String} (hfirst : name ∈ first.names)
    (hsecond : name ∈ second.names) : first = second :=
  Option.some.inj ((ofLetters?_toList hfirst).symm.trans (ofLetters?_toList hsecond))

theorem sectionOption_not_mem_names (stage : Stage) {key : String}
    (hkey : key ∈ Section.sectionOptions) : key ∉ stage.names := by
  have hall : ∀ stage ∈ all, ∀ key ∈ Section.sectionOptions,
      key.toList ∉ stage.spelledNames := by decide +kernel
  exact fun hname => hall stage stage.mem_all key hkey (toList_mem_spelledNames hname)

theorem pluginCommand_not_mem_names (stage : Stage) {command : String}
    (hcommand : command ∈ Section.pluginCommands) : command ∉ stage.names :=
  stage.sectionOption_not_mem_names
    (Section.reserved_sectionOption (Section.pluginCommand_reserved hcommand))

end Stage

theorem RouteRule.command_mem_names (rule : RouteRule) : rule.command ∈ rule.stage.names :=
  List.mem_cons_of_mem _ (List.mem_map_of_mem rule.suffix_mem)

theorem RouteRule.labelCommand_mem (rule : RouteRule) :
    rule.labelCommand ∈ Section.optionsOf routingKind := by
  have hall : ∀ stage ∈ Stage.all,
      stage.directive "route-label" ∈ Section.optionsOf routingKind := by decide +kernel
  exact hall rule.stage rule.stage.mem_all

namespace Mutation

theorem keys_of_param {m : Mutation} {p : Param} (hvalue : m.value = .param p)
    (hflag : m.flag = false) : m.keys = m.key :: (Arg.param p).keys := by
  have hflagged : m.flagged = .param p := by simp [flagged, hflag, hvalue]
  cases hmulti : m.multi <;>
    simp [keys, parts, stored, joined, hflagged, hmulti, Arg.elements]

theorem keys_adding_logger (key : String) (logger : Logger) (label : Option String) :
    (adding key (.param { logger.toParam with label })).keys = [key] := by
  have hnone := logger.key_options_toParam
  have hkeys : (Arg.param { logger.toParam with label }).keys = [] := by
    simp [Arg.keys, hnone.1, hnone.2]
  rw [keys_of_param rfl rfl, hkeys]
  rfl

theorem keys_adding_socket (socket : Socket) :
    (adding "socket" (.param socket.toParam)).keys = ["socket", socket.directive] := by
  rw [keys_of_param rfl rfl, Socket.toParam, Param.keys_withArgs]
  rfl

theorem keys_ofText?_plugin (key : String) (given plugin : Option String) :
    ({ ofText? key given with plugin } : Mutation).keys = [key] :=
  (Plain.ofText? key given).keys_eq

theorem keys_ruleMutation (rule : RouteRule) :
    (Section.ruleMutation rule).keys = [rule.command] := by
  have h : (Arg.param rule.action.toParam).keys = [] := Param.keys_withArgs _ _
  have hkeys : (Section.ruleMutation rule).keys =
      rule.command :: ((Arg.param rule.action.toParam).keys ++ []) := rfl
  rw [hkeys, h, List.nil_append]

end Mutation

namespace Section

theorem OwnSetting.not_mem_keys {m : Mutation} (h : OwnSetting m) {key : String}
    (hkey : key ∈ sectionOptions) : key ∉ m.keys := by
  have hown : ∀ own ∈ ownOptions, ∀ key ∈ sectionOptions, key ≠ own := by decide
  rw [h.plain.keys_eq, List.mem_singleton]
  exact hown m.key h.key_mem key hkey

theorem ReferenceSetting.keys_eq {target : String} {m : Mutation} (h : ReferenceSetting target m) :
    m.keys = [m.key] := by
  cases h with
  | adding => exact (Mutation.Plain.adding "ini" target).keys_eq
  | text => exact (Mutation.Plain.ofText "fallback-config" target).keys_eq

theorem ReferenceSetting.key_mem {target : String} {m : Mutation} (h : ReferenceSetting target m) :
    m.key ∈ referenceOptions := by
  cases h <;> simp [referenceOptions, Mutation.adding, Mutation.ofText]

theorem ReferenceSetting.not_mem_keys {target : String} {m : Mutation}
    (h : ReferenceSetting target m) {command : String} (hcommand : command ∈ pluginCommands) :
    command ∉ m.keys := by
  have hne : ∀ key ∈ referenceOptions, ∀ command ∈ pluginCommands, command ≠ key := by decide
  rw [h.keys_eq, List.mem_singleton]
  exact hne m.key h.key_mem command hcommand

-- The options of the groups whose values are more than plain, the rules of routing apart.
def compoundOptions : List String :=
  ["geoip-country", "geoip-city", "logger", "req-logger", "socket", "http-socket", "https-socket",
   "uwsgi-socket", "shared-socket", "gateway", "http", "https", "sslrouter", "fastrouter",
   "rawrouter", "http-to", "sslrouter-to", "fastrouter-to", "rawrouter-to"]

-- All options of the groups, letter by letter.
def spelledGroupOptions : List (List Char) :=
  (groupOptions.flatMap Prod.snd ++ compoundOptions).map String.toList
    ++ Stage.all.flatMap Stage.spelledNames

-- What a setter of a group works on is known beforehand, whatever it is given.
theorem GroupSetting.spelled {kind : GroupKind} {m : Mutation} (h : GroupSetting kind m)
    {key : String} (hkey : key ∈ m.keys) : key.toList ∈ spelledGroupOptions := by
  have hcompound : key ∈ compoundOptions → key.toList ∈ spelledGroupOptions := fun hmem =>
    List.mem_append_left _ (List.mem_map_of_mem (List.mem_append_right _ hmem))
  cases h with
  | plain hmem hm =>
    obtain ⟨options, hoptions, hoption⟩ := exists_options_of_mem hmem
    rw [hm.keys_eq, List.mem_singleton] at hkey
    subst hkey
    have hgroups := List.mem_flatMap_of_mem (f := Prod.snd) hoptions hoption
    exact List.mem_append_left _ (List.mem_map_of_mem (List.mem_append_left _ hgroups))
  | geoip hoption given =>
    rw [Mutation.keys_ofText?_plugin, List.mem_singleton] at hkey
    have hall : ["geoip-country", "geoip-city"] ⊆ compoundOptions := by decide
    exact hcompound (hall (hkey ▸ hoption))
  | logger hoption logger label =>
    rw [Mutation.keys_adding_logger, List.mem_singleton] at hkey
    have hall : ["logger", "req-logger"] ⊆ compoundOptions := by decide
    exact hcompound (hall (hkey ▸ hoption))
  | socket socket =>
    rw [Mutation.keys_adding_socket] at hkey
    have hall : ["socket", socket.directive] ⊆ compoundOptions := by
      cases socket <;> simp only [Socket.directive] <;> decide
    exact hcompound (hall hkey)
  | rule rule =>
    rw [Mutation.keys_ruleMutation, List.mem_singleton] at hkey
    subst hkey
    exact List.mem_append_right _ (List.mem_flatMap_of_mem rule.stage.mem_all
      (Stage.toList_mem_spelledNames rule.command_mem_names))
  | router router =>
    rw [Mutation.keys_of_param rfl rfl] at hkey
    have hall : ["gateway", router.directive, router.plugin ++ "-to"] ⊆ compoundOptions := by
      cases router <;> simp only [Router.directive, Router.plugin] <;> decide
    exact hcompound (hall (List.cons_subset_cons _ router.keys_toParam hkey))

-- The options that load plugins, say where they are or refer to other configurations are out of
-- reach of every setter of a group.
theorem GroupSetting.not_mem_keys {kind : GroupKind} {m : Mutation} (h : GroupSetting kind m)
    {key : String} (hkey : key ∈ sectionOptions) : key ∉ m.keys := by
  have hall : ∀ key ∈ sectionOptions, key.toList ∉ spelledGroupOptions := by decide +kernel
  exact fun hmem => hall key hkey (h.spelled hmem)

theorem GroupSetting.kind_mem {kind : GroupKind} {m : Mutation} (h : GroupSetting kind m) :
    kind ∈ builtInKinds := by
  cases h with
  | plain hkey _ _ =>
    obtain ⟨_, hoptions, _⟩ := exists_options_of_mem hkey
    exact List.mem_map_of_mem hoptions
  | _ => decide

theorem GroupSetting.priority {kind : GroupKind} {m : Mutation} (h : GroupSetting kind m) :
    m.priority = none := by
  cases h with
  | plain _ _ hpriority => exact hpriority
  | _ => rfl

theorem ReferenceSetting.priority {target : String} {m : Mutation}
    (h : ReferenceSetting target m) : m.priority = none := by
  cases h <;> rfl

end Section

end Vassal
