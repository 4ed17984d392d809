import Mathlib.Logic.Relation
import Vassal.Proofs.Section.Setting

-- Setters as sequences of elementary moves: what every move keeps, every setter keeps.

namespace Vassal.Section

-- One elementary step of a setter that is not about the version of a plugin.
inductive Turn : Section → Section → Prop
  | enter (s : Section) {kind : GroupKind} (hkind : kind ∈ builtInKinds) : Turn s (s.enter kind)
  | register (s : Section) {command : String} (hcommand : command ∈ pluginCommands)
      (plugin : String) : Turn s (s.registerPlugin command plugin)
  | set (s : Section) {m : Mutation} (hm : OwnSetting m) : Turn s (s.set m)
  | setIn (s : Section) {kind : GroupKind} {m : Mutation} (hm : GroupSetting kind m) :
      Turn s (s.setIn kind m)

abbrev Turns : Section → Section → Prop :=
  Relation.ReflTransGen Turn

-- One elementary step of any setter.
inductive Move : Section → Section → Prop
  | turn {s t : Section} (h : Turn s t) : Move s t
  | version (s : Section) (kind : GroupKind) (version : Version) :
      Move s (s.setVersion kind version)

abbrev Moves : Section → Section → Prop :=
  Relation.ReflTransGen Move

theorem moves_of_turns {s t : Section} (h : Turns s t) : Moves s t :=
  Relation.ReflTransGen.mono (fun _ _ => Move.turn) _ _ h

variable (s : Section)

theorem turns_activate (plugin : String) : Turns s (s.activate plugin) :=
  .single (.register s (by decide) plugin)

theorem turns_foldl_setIn {kind : GroupKind} {ms : List Mutation}
    (hms : ∀ m ∈ ms, GroupSetting kind m) :
    Turns s (ms.foldl (fun s m => s.setIn kind m) s) := by
  induction ms generalizing s with
  | nil => exact .refl
  | cons m rest ih =>
    rw [List.forall_mem_cons] at hms
    exact (ih (s.setIn kind m) hms.2).head (.setIn s hms.1)

theorem turns_setAllIn {kind : GroupKind} (hkind : kind ∈ builtInKinds) {ms : List Mutation}
    (hms : ∀ m ∈ ms, GroupSetting kind m) : Turns s (s.setAllIn kind ms) :=
  (turns_foldl_setIn (s.enter kind) hms).head (.enter s hkind)

section Groups

theorem turns_setApplications (p : ApplicationsParams) : Turns s (s.setApplications p) := by
  apply turns_setAllIn s (by decide)
  simp only [List.forall_mem_cons]
  exact ⟨.flag (by decide) _, .nat? (by decide) _, .flag (by decide) _, .flag (by decide) _,
    List.forall_mem_nil _⟩

theorem turns_changeDir (path : String) (afterLoad : Bool) :
    Turns s (s.changeDir path afterLoad) := by
  apply turns_setAllIn s (by decide)
  rw [List.forall_mem_singleton]
  exact .text (by cases afterLoad <;> decide) _

theorem turns_mount (mountpoint app : String) (intoWorker : Bool) :
    Turns s (s.mount mountpoint app intoWorker) := by
  apply turns_setAllIn s (by decide)
  rw [List.forall_mem_singleton]
  exact .adding (by cases intoWorker <;> decide) _

theorem turns_setIdle (timeout : Option Nat) (exit : Option Bool) :
    Turns s (s.setIdle timeout exit) := by
  apply turns_setAllIn s (by decide)
  simp only [List.forall_mem_cons]
  exact ⟨.nat? (by decide) _, .flag (by decide) _, List.forall_mem_nil _⟩

theorem turns_setLazy (affectMaster : Bool) : Turns s (s.setLazy affectMaster) := by
  apply turns_setAllIn s (by decide)
  rw [List.forall_mem_singleton]
  exact .flag (by cases affectMaster <;> decide) _

theorem turns_setLogging (p : LoggingParams) : Turns s (s.setLogging p) := by
  apply turns_setAllIn s (by decide)
  simp only [List.forall_mem_cons]
  exact ⟨.flag (by decide) _, .flag (by decide) _, .flag (by decide) _, List.forall_mem_nil _⟩

theorem turns_addLogger (logger : Logger) (requestsOnly : Bool) (name : Option String) :
    Turns s (s.addLogger logger requestsOnly name) := by
  apply turns_setAllIn s (by decide)
  rw [List.forall_mem_singleton]
  exact .logger (by cases requestsOnly <;> decide) logger name

theorem turns_setMainProcess (p : MainProcessParams) : Turns s (s.setMainProcess p) := by
  apply turns_setAllIn s (by decide)
  simp only [List.forall_mem_cons]
  exact ⟨.addingTexts (by decide) _, .flag (by decide) _, .text? (by decide) _,
    List.forall_mem_nil _⟩

theorem turns_setNaming (automatic : Option Bool) (leading : Option String) :
    Turns s (s.setNaming automatic leading) := by
  apply turns_setAllIn s (by decide)
  simp only [List.forall_mem_cons]
  exact ⟨.flag (by decide) _, .text? (by decide) _, List.forall_mem_nil _⟩

theorem turns_setMasterProcess (p : MasterProcessParams) : Turns s (s.setMasterProcess p) := by
  apply turns_setAllIn s (by decide)
  rw [List.forall_mem_singleton]
  exact .flag (by decide) _

theorem turns_setLocks (p : LocksParams) : Turns s (s.setLocks p) := by
  apply turns_setAllIn s (by decide)
  rw [List.forall_mem_singleton]
  exact .flag (by decide) _

theorem turns_setNetworking (p : NetworkingParams) : Turns s (s.setNetworking p) := by
  apply turns_setAllIn s (by decide)
  simp only [List.forall_mem_cons]
  exact ⟨.nat? (by decide) _, .nat? (by decide) _, List.forall_mem_nil _⟩

theorem turns_bind (socket : Socket) : Turns s (s.bind socket) := by
  apply turns_setAllIn s (by decide)
  rw [List.forall_mem_singleton]
  exact .socket socket

-- The options among the parameters of python.
def pythonMutations (p : PythonParams) : List Mutation :=
  [.ofText? "pyhome" p.home, .adding "pythonpath" (.ofOption .ofTexts p.searchPath),
   .ofNat? "optimize" p.optimizationLevel]

theorem python_settings (p : PythonParams) :
    ∀ m ∈ pythonMutations p, GroupSetting pythonKind m := by
  unfold pythonMutations
  simp only [List.forall_mem_cons]
  exact ⟨.text? (by decide) _, .addingTexts (by decide) _, .nat? (by decide) _,
    List.forall_mem_nil _⟩

theorem python_plain (p : PythonParams) : ∀ m ∈ pythonMutations p, m.Plain := by
  unfold pythonMutations
  simp only [List.forall_mem_cons]
  exact ⟨.ofText? _ _, .addingTexts _ _, .ofNat? _ _, List.forall_mem_nil _⟩

theorem moves_rememberVersion (kind : GroupKind) (version : Option Version) :
    Moves s (s.rememberVersion kind version) := by
  cases version with
  | none => exact .refl
  | some version => exact .single (.version s kind version)

theorem moves_setPython (p : PythonParams) : Moves s (s.setPython p) := by
  have henter : Moves s (s.enter pythonKind) := .single (.turn (.enter s (by decide)))
  exact (henter.trans (moves_rememberVersion _ pythonKind p.version)).trans
    (moves_of_turns (turns_setAllIn _ (by decide) (python_settings p)))

theorem turns_activatePython : Turns s s.activatePython :=
  (turns_activate (s.enter pythonKind) _).head (.enter s (by decide))

theorem wsgi_settings (module callable : Option String) :
    ∀ m ∈ [Mutation.ofText? "wsgi" module, .ofText? "callable" callable],
      GroupSetting pythonKind m := by
  simp only [List.forall_mem_cons]
  exact ⟨.text? (by decide) _, .text? (by decide) _, List.forall_mem_nil _⟩

theorem wsgi_plain (module callable : Option String) :
    ∀ m ∈ [Mutation.ofText? "wsgi" module, .ofText? "callable" callable], m.Plain := by
  simp only [List.forall_mem_cons]
  exact ⟨.ofText? _ _, .ofText? _ _, List.forall_mem_nil _⟩

theorem turns_setWsgi (module callable : Option String) : Turns s (s.setWsgi module callable) :=
  turns_setAllIn s (by decide) (wsgi_settings module callable)

private theorem geoip_settings (country city : Option String) :
    ∀ m ∈ geoipMutations country city, GroupSetting routingKind m := by
  unfold geoipMutations
  simp only [List.forall_mem_cons]
  exact ⟨.geoip (by decide) country, .geoip (by decide) city, List.forall_mem_nil _⟩

theorem turns_setRouting (p : RoutingParams) : Turns s (s.setRouting p) := by
  apply turns_setAllIn s (by decide)
  rw [List.forall_mem_cons]
  exact ⟨.flag (by decide) _, geoip_settings p.geoipCountry p.geoipCity⟩

theorem turns_setGeoip (country city : Option String) : Turns s (s.setGeoip country city) :=
  turns_setAllIn s (by decide) (geoip_settings country city)

theorem route_settings (rules : List RouteRule) (label : Option String) :
    ∀ m ∈ labelMutations rules label ++ rules.map ruleMutation, GroupSetting routingKind m := by
  intro m hm
  rcases List.mem_append.mp hm with hlabel | hrule
  · unfold labelMutations at hlabel
    split at hlabel
    · rename_i first label _
      rw [List.mem_singleton.mp hlabel]
      exact .adding first.labelCommand_mem label
    · simp at hlabel
  · obtain ⟨rule, _, rfl⟩ := List.mem_map.mp hrule
    exact .rule rule

theorem turns_route (rules : List RouteRule) (label : Option String) :
    Turns s (s.route rules label) :=
  turns_setAllIn s (by decide) (route_settings rules label)

theorem turns_printRoutingRules : Turns s s.printRoutingRules := by
  apply turns_setAllIn s (by decide)
  rw [List.forall_mem_singleton]
  exact .flag (by decide) _

theorem turns_addHeader (name value : String) : Turns s (s.addHeader name value) := by
  apply turns_setAllIn s (by decide)
  rw [List.forall_mem_singleton]
  exact .adding (by decide) _

theorem turns_removeHeader (name : String) : Turns s (s.removeHeader name) := by
  apply turns_setAllIn s (by decide)
  rw [List.forall_mem_singleton]
  exact .adding (by decide) _

theorem turns_collectHeader (name target : String) (pull : Bool) :
    Turns s (s.collectHeader name target pull) := by
  apply turns_setAllIn s (by decide)
  rw [List.forall_mem_singleton]
  exact .adding (by cases pull <;> decide) _

theorem turns_useRouter (router : Router) (force : Option Bool) :
    Turns s (s.useRouter router force) := by
  apply turns_setAllIn s (by decide)
  simp only [List.forall_mem_cons]
  exact ⟨.flag (by decide) _, .router router, List.forall_mem_nil _⟩

theorem turns_setWorkers (p : WorkersParams) : Turns s (s.setWorkers p) := by
  apply turns_setAllIn s (by decide)
  rw [List.forall_mem_singleton]
  exact .nat? (by decide) _

theorem turns_setWorkersAuto : Turns s s.setWorkersAuto := by
  apply turns_setAllIn s (by decide)
  rw [List.forall_mem_singleton]
  exact .text (by decide) _

theorem turns_setThreads (enable : Option Bool) (perWorker : Option Nat) :
    Turns s (s.setThreads enable perWorker) := by
  apply turns_setAllIn s (by decide)
  simp only [List.forall_mem_cons]
  exact ⟨.flag (by decide) _, .nat? (by decide) _, List.forall_mem_nil _⟩

theorem turns_setMules (count : Option Nat) (farms : List Farm) :
    Turns s (s.setMules count farms) := by
  apply turns_setAllIn s (by decide)
  simp only [List.forall_mem_cons]
  exact ⟨.nat? (by decide) _, .addingTexts (by decide) (some _), List.forall_mem_nil _⟩

end Groups

section Own

theorem turns_setStrict (strict : Option Bool) : Turns s (s.setStrict strict) :=
  .single (.set s (.flag (by decide) _))

theorem turns_listPlugins : Turns s s.listPlugins :=
  .single (.set s (.flag (by decide) _))

theorem turns_printStyled (text : String) (indent : Option String) (style : PrintStyle) :
    Turns s (s.printStyled text indent style) :=
  .single (.set s (.adding (by decide) _))

theorem turns_printVariables : Turns s s.printVariables := by
  refine (turns_printStyled s "===== variables =====" none .red).trans ?_
  unfold printVariables
  generalize s.printStyled "===== variables =====" none .red = s
  induction magicVariables generalizing s with
  | nil => exact .refl
  | cons entry rest ih => exact (turns_printStyled s _ none .gray).trans (ih _)

theorem turns_setVariable (key value : String) : Turns s (s.setVariable key value) :=
  .single (.set s (.adding (by decide) _))

theorem turns_unsetVariable (key : String) : Turns s (s.unsetVariable key) :=
  .single (.set s (.adding (by decide) _))

end Own

section Presets

theorem turns_setNiceWorkers (workers : Option Nat) : Turns s (s.setNiceWorkers workers) := by
  unfold setNiceWorkers
  split
  · exact turns_setWorkers s _
  · exact turns_setWorkersAuto s

theorem turns_applyNice (p : NiceParams) : Turns s (s.applyNice p) := by
  have hreload : Turns s (if p.touchReload.isSome then
      (s.setStrict (some true)).setMainProcess { touchReload := p.touchReload }
      else s.setStrict (some true)) := by
    refine (turns_setStrict s (some true)).trans ?_
    split
    · exact turns_setMainProcess _ _
    · exact .refl
  calc
    Turns s _ := hreload
    Turns _ _ := turns_setNiceWorkers _ p.workers
    Turns _ _ := turns_setThreads _ none p.threads
    Turns _ _ := turns_setMainProcess _ _
    Turns _ _ := turns_setNaming _ (some true) none
    Turns _ _ := turns_setMasterProcess _ _
    Turns _ _ := turns_setLocks _ _

theorem moves_applyPython (p : NiceParams) (python : PythonParams) (wsgiModule : Option String) :
    Moves s (s.applyPython p python wsgiModule) :=
  calc
    Moves s _ := moves_of_turns (turns_applyNice s p)
    Moves _ _ := moves_setPython _ python
    Moves _ _ := moves_of_turns (turns_activatePython _)
    Moves _ _ := moves_of_turns (turns_setWsgi _ wsgiModule none)

end Presets

end Vassal.Section
