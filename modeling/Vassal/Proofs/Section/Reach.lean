import Vassal.Proofs.Groups.Bag
import Vassal.Proofs.Section.Move

-- Sections reached by operations, as ends of sequences of steps.
--
-- An operation that stops with an error keeps what it had done, so the state it leaves behind is
-- followed whether it succeeded or not.

namespace Vassal

namespace Section

open Attempt

variable {env : Environment}

theorem along_turns {f : Section → Section} (hf : ∀ s, Turns s (f s)) :
    Along Turn (modify f : Attempt Section Unit) :=
  along_modify hf

theorem along_exportVariable (key : String) (value : Option String) :
    Along Turn (exportVariable env key value) := by
  unfold exportVariable
  split
  · exact along_turns fun s => turns_setVariable s key _
  · split
    · exact along_turns fun s => turns_setVariable s key _
    · exact along_throw _

-- What a table of parameters does to a section, each group does with its basic parameters. One of
-- the groups remembers a version.
theorem Initializes.python_or_turns {id : String} {t : Toml.Table} {set : Section → Section}
    (h : Initializes id t set) :
    (∃ p, id = pythonKind.id ∧ PythonParams.ofTable? t = some p ∧ set = (·.setPython p)) ∨
      (id ≠ pythonKind.id ∧ ∀ s, Turns s (set s)) := by
  cases h with
  | applications _ => exact .inr ⟨by decide, (turns_setApplications · _)⟩
  | locks _ => exact .inr ⟨by decide, (turns_setLocks · _)⟩
  | logging _ => exact .inr ⟨by decide, (turns_setLogging · _)⟩
  | mainProcess _ => exact .inr ⟨by decide, (turns_setMainProcess · _)⟩
  | masterProcess _ => exact .inr ⟨by decide, (turns_setMasterProcess · _)⟩
  | networking _ => exact .inr ⟨by decide, (turns_setNetworking · _)⟩
  | python hp => exact .inl ⟨_, rfl, hp, rfl⟩
  | routing _ => exact .inr ⟨by decide, (turns_setRouting · _)⟩
  | workers _ => exact .inr ⟨by decide, (turns_setWorkers · _)⟩

theorem Initializes.moves {id : String} {t : Toml.Table} {set : Section → Section}
    (h : Initializes id t set) (s : Section) : Moves s (set s) := by
  rcases h.python_or_turns with ⟨p, -, -, rfl⟩ | ⟨-, hturns⟩
  · exact moves_setPython s p
  · exact moves_of_turns (hturns s)

theorem along_applyGroup (id : String) (t : Toml.Table) : Along Move (applyGroup id t) := by
  unfold applyGroup
  split
  · exact along_pure false
  · rename_i setter hlookup
    have hgroup : (id, setter) ∈ tableGroups := Ascending.mem_of_lookup hlookup
    split
    · rename_i set hset
      exact along_bind (along_modify (initializes_of_tableGroups _ hgroup t set hset).moves)
        fun _ => along_pure true
    · exact along_throw _

theorem along_applyParams (t : Toml.Table) : Along Move (applyParams t) := by
  refine along_forM fun ⟨id, value⟩ _ => ?_
  cases value with
  | table params => exact along_discard (along_applyGroup id params)
  | _ => exact along_pure ()

theorem along_setErrorPage (status : Nat) (path : String) :
    Along Turn (setErrorPage status path) := by
  refine along_bind (along_modify fun s => .single (.enter s (by decide))) fun _ => ?_
  split
  · rename_i hstatus
    have hkey : "error-page-" ++ toString status ∈ optionsOf routingKind := by
      have hall : ∀ status ∈ managedStatuses,
          "error-page-" ++ toString status ∈ optionsOf routingKind := by decide +kernel
      exact hall status (List.contains_iff_mem.mp hstatus)
    exact along_modify fun s => .single (.setIn s (.adding hkey path))
  · exact along_throw _

theorem along_setErrorPages (pages : Option ErrorPages) (base : Option String) :
    Along Turn (setErrorPages pages base) :=
  along_bind (along_modify fun s => .single (.enter s (by decide))) fun _ =>
    along_forM fun _ _ => along_setErrorPage _ _

-- What building a section consists of: moves, the loading of plugins, and references to some of the
-- given targets.
inductive Edit (targets : String → Prop) : Section → Section → Prop
  | move {s t : Section} (h : Move s t) : Edit targets s t
  | plugins (s : Section) (p : PluginsParams) : Edit targets s (s.setPlugins p)
  | refer (s : Section) {target : String} (htarget : targets target) {m : Mutation}
      (hm : ReferenceSetting target m) : Edit targets s (s.set m)

abbrev Edits (targets : String → Prop) : Section → Section → Prop :=
  Relation.ReflTransGen (Edit targets)

variable {targets : String → Prop}

-- An edit either refers to one of the targets or is made of three kinds of changes: to the groups,
-- to the registered plugins, and to options that load no plugins and refer to nothing.
theorem Edit.induction_references {P : Section → Prop}
    (hgroups : ∀ s groups, P s → P { s with groups })
    (hregister : ∀ s command plugin, command ∈ pluginCommands → P s →
      P (s.registerPlugin command plugin))
    (hoptions : ∀ s keys options, (∀ key ∈ reservedOptions, key ∉ keys) →
      s.options.EditedIn keys options → P s → P { s with options })
    (hrefer : ∀ s target m, targets target → ReferenceSetting target m → P s → P (s.set m))
    {s t : Section} (h : Edit targets s t) (hs : P s) : P t := by
  have happly : ∀ (m : Mutation) groupPlugin (s : Section),
      (∀ key ∈ reservedOptions, key ∉ m.keys) → P s → P (m.apply groupPlugin s) :=
    fun m groupPlugin s hm hs => m.apply_induction P groupPlugin s hs
      (fun s plugin => hregister s "plugin" plugin (by decide))
      (fun s options => hoptions s m.keys options hm)
  cases h with
  | move h =>
    cases h with
    | version kind version => exact hgroups s _ hs
    | turn h =>
      cases h with
      | enter hkind => exact hgroups s _ hs
      | register hcommand plugin => exact hregister s _ plugin hcommand hs
      | set hm =>
        exact happly _ none s (fun _ hkey => hm.not_mem_keys (reserved_sectionOption hkey)) hs
      | setIn hm =>
        exact happly _ _ _ (fun _ hkey => hm.not_mem_keys (reserved_sectionOption hkey))
          (hgroups s _ hs)
  | plugins p =>
    have hdirs : ∀ key ∈ reservedOptions, key ∉ (searchDirsMutation p.searchDirs).keys := by
      have hne : ∀ key ∈ reservedOptions, key ≠ "plugins-dir" := by decide
      rw [(plain_searchDirs p.searchDirs).keys_eq]
      simpa [searchDirsMutation] using hne
    have hregistered : P (p.plugins.foldl (·.registerPlugin p.command) s) :=
      p.register_induction hregister hs
    have hautoload := OwnSetting.autoload p.autoload
    rw [setPlugins_eq]
    exact happly _ none _ (fun _ hkey => hautoload.not_mem_keys (reserved_sectionOption hkey))
      (happly _ none _ hdirs hregistered)
  | refer htarget hm => exact hrefer s _ _ htarget hm hs

-- As far as the loading of plugins goes, a reference is an option like any other.
theorem Edit.induction {P : Section → Prop}
    (hgroups : ∀ s groups, P s → P { s with groups })
    (hregister : ∀ s command plugin, command ∈ pluginCommands → P s →
      P (s.registerPlugin command plugin))
    (hoptions : ∀ s keys options, (∀ command ∈ pluginCommands, command ∉ keys) →
      s.options.EditedIn keys options → P s → P { s with options })
    {s t : Section} (h : Edit targets s t) (hs : P s) : P t := by
  refine h.induction_references hgroups hregister ?_ ?_ hs
  · exact fun s keys options hkeys =>
      hoptions s keys options fun command hc => hkeys command (pluginCommand_reserved hc)
  · intro s target m _ hm hs
    exact m.apply_induction P none s hs
      (fun s plugin => hregister s "plugin" plugin (by decide))
      (fun s options => hoptions s m.keys options fun _ => hm.not_mem_keys)

-- The parts of a section that no edit touches.
def Framed (s t : Section) : Prop :=
  ∃ options plugins groups, t = { s with options, plugins, groups }

theorem Edit.framed {s t : Section} (h : Edit targets s t) : Framed s t := by
  refine h.induction (P := Framed s) ?_ ?_ ?_ ⟨_, _, _, rfl⟩
  · rintro t groups ⟨options, plugins, _, rfl⟩
    exact ⟨options, plugins, groups, rfl⟩
  · rintro t command plugin _ ⟨options, plugins, groups, rfl⟩
    unfold registerPlugin
    split
    · exact ⟨options, plugins, groups, rfl⟩
    · exact ⟨_, _, groups, rfl⟩
  · rintro t _ options _ _ ⟨_, plugins, groups, rfl⟩
    exact ⟨options, plugins, groups, rfl⟩

-- No step of building gives a section another name.
theorem Edits.name_eq {s t : Section} (h : Edits targets s t) : t.name = s.name := by
  induction h with
  | refl => rfl
  | tail _ hedit ih =>
    obtain ⟨_, _, _, rfl⟩ := hedit.framed
    exact ih

theorem along_edit_of_moves {x : Attempt Section Unit} (hx : Along Move x) :
    Along (Edit targets) x :=
  hx.mono fun _ _ => .move

theorem along_edit_of_turns {x : Attempt Section Unit} (hx : Along Turn x) :
    Along (Edit targets) x :=
  hx.mono fun _ _ h => .move (.turn h)

section References

variable {target : Reference} {r : Section → Section → Prop}
  (hrefer : ∀ s text m, target.render? = some text → ReferenceSetting text m → r s (s.set m))
include hrefer

theorem along_addInclude : Along r (addInclude target) := by
  unfold addInclude
  split
  · exact along_modify fun s => .single (hrefer s _ _ ‹_› .adding)
  · exact along_throw _

theorem along_setFallback : Along r (setFallback target) := by
  unfold setFallback
  split
  · exact along_modify fun s => .single (hrefer s _ _ ‹_› .text)
  · exact along_throw _

end References

end Section

namespace Operation

open Section Attempt

-- One step of a history. Besides being edited a section may be asked for a group of another's
-- making, and given another name, other built-in plugins or another style.
inductive Step : Section → Section → Prop
  | edit {s t : Section} (h : Edit (fun _ => True) s t) : Step s t
  | enter (s : Section) (kind : GroupKind) : Step s (s.enter kind)
  | name (s : Section) (name : Option String) : Step s { s with name }
  | embedded (s : Section) (embedded : List String) : Step s { s with embedded }
  | stylePrints (s : Section) (stylePrints : Bool) : Step s { s with stylePrints }

-- The operations that may call a setter of python.
def MayCallPython : Operation → Prop
  | python _ | activatePython | wsgi _ _ | nicePython _ _ _ | group _ _ | params _ => True
  | _ => False

-- One step of the given operation. Most operations turn a section only; what the others do besides
-- is told by the operation.
inductive StepOf (op : Operation) : Section → Section → Prop
  | turn {s t : Section} (h : Turn s t) : StepOf op s t
  | refer (s : Section) {target : String} {m : Mutation} (hm : ReferenceSetting target m) :
      StepOf op s (s.set m)
  | name (s : Section) (name : Option String) : StepOf op s { s with name }
  | stylePrints (s : Section) (stylePrints : Bool) : StepOf op s { s with stylePrints }
  | version (s : Section) (kind : GroupKind) (version : Version) (hop : op.MayCallPython) :
      StepOf op s (s.setVersion kind version)
  | enter (s : Section) {kind : GroupKind} (hop : op = .enter kind) : StepOf op s (s.enter kind)
  | plugins (s : Section) {p : PluginsParams} (hop : op = .plugins p) : StepOf op s (s.setPlugins p)
  | embed (s : Section) {embedded : Embedded} (hop : op = .embed embedded) :
      StepOf op s (s.embed embedded)

theorem along_run_stepOf (env : Environment) (op : Operation) :
    Along (StepOf op) (op.run env) := by
  have hturn : ∀ {x : Attempt Section Unit}, Along Turn x → Along (StepOf op) x :=
    fun hx => hx.mono fun _ _ => .turn
  have hturns : ∀ {f : Section → Section}, (∀ s, Turns s (f s)) →
      Along (StepOf op) (modify f : Attempt Section Unit) := fun hf => hturn (along_turns hf)
  have hmove : ∀ {x : Attempt Section Unit}, op.MayCallPython → Along Move x →
      Along (StepOf op) x := by
    refine fun hop hx => hx.mono fun s t h => ?_
    cases h with
    | turn h => exact .turn h
    | version kind version => exact .version s kind version hop
  cases op with
  | derive name => exact along_modify fun s => .single (.name s (name <|> s.name))
  | rename name => exact along_modify fun s => .single (.name s name)
  | embed embedded => exact along_modify fun s => .single (.embed s rfl)
  | stylePrints enabled => exact along_modify fun s => .single (.stylePrints s enabled)
  | strict given => exact hturns (turns_setStrict · given)
  | activate plugin => exact hturns (turns_activate · plugin)
  | plugins p => exact along_modify fun s => .single (.plugins s rfl)
  | listPlugins => exact hturns turns_listPlugins
  | print text indent style => exact hturns (turns_printStyled · text indent style)
  | printVariables => exact hturns turns_printVariables
  | exportVariable key value => exact hturn (along_exportVariable key value)
  | unsetVariable key => exact hturns (turns_unsetVariable · key)
  | addInclude target => exact along_addInclude fun s _ _ _ hm => .refer s hm
  | fallback target => exact along_setFallback fun s _ _ _ hm => .refer s hm
  | params t => exact hmove trivial (along_applyParams t)
  | group id t => exact hmove trivial (along_discard (along_applyGroup id t))
  | nice p => exact hturns (turns_applyNice · p)
  | nicePython p interpreter wsgiModule =>
    exact hmove trivial (along_modify (moves_applyPython · p interpreter wsgiModule))
  | enter kind => exact along_modify fun s => .single (.enter s rfl)
  | applications p => exact hturns (turns_setApplications · p)
  | changeDir path afterLoad => exact hturns (turns_changeDir · path afterLoad)
  | mount mountpoint app intoWorker => exact hturns (turns_mount · mountpoint app intoWorker)
  | idle timeout exit => exact hturns (turns_setIdle · timeout exit)
  | lazy affectMaster => exact hturns (turns_setLazy · affectMaster)
  | locks p => exact hturns (turns_setLocks · p)
  | logging p => exact hturns (turns_setLogging · p)
  | logger sink requestsOnly name => exact hturns (turns_addLogger · sink requestsOnly name)
  | mainProcess p => exact hturns (turns_setMainProcess · p)
  | naming automatic leading => exact hturns (turns_setNaming · automatic leading)
  | masterProcess p => exact hturns (turns_setMasterProcess · p)
  | networking p => exact hturns (turns_setNetworking · p)
  | bind socket => exact hturns (turns_bind · socket)
  | python p => exact hmove trivial (along_modify (moves_setPython · p))
  | activatePython => exact hturns turns_activatePython
  | wsgi module callable => exact hturns (turns_setWsgi · module callable)
  | routing p => exact hturns (turns_setRouting · p)
  | geoip country city => exact hturns (turns_setGeoip · country city)
  | route rules label => exact hturns (turns_route · rules label)
  | printRoutingRules => exact hturns turns_printRoutingRules
  | errorPage status path => exact hturn (along_setErrorPage status path)
  | errorPages pages base => exact hturn (along_setErrorPages pages base)
  | addHeader name value => exact hturns (turns_addHeader · name value)
  | removeHeader name => exact hturns (turns_removeHeader · name)
  | collectHeader name target pull => exact hturns (turns_collectHeader · name target pull)
  | router gateway force => exact hturns (turns_useRouter · gateway force)
  | workers p => exact hturns (turns_setWorkers · p)
  | workersAuto => exact hturns turns_setWorkersAuto
  | threads enable perWorker => exact hturns (turns_setThreads · enable perWorker)
  | mules count farms => exact hturns (turns_setMules · count farms)

theorem StepOf.step {op : Operation} {s t : Section} (h : StepOf op s t) : Step s t := by
  cases h with
  | turn h => exact .edit (.move (.turn h))
  | refer hm => exact .edit (.refer s trivial hm)
  | name name => exact .name s name
  | stylePrints stylePrints => exact .stylePrints s stylePrints
  | version kind version => exact .edit (.move (.version s kind version))
  | enter => exact .enter s _
  | plugins => exact .edit (.plugins s _)
  | embed => exact .embedded s _

-- A step after which the same plugins are built in.
def Quiet (s t : Section) : Prop :=
  Step s t ∧ t.embedded = s.embedded

-- One operation alone changes what is built in.
theorem along_run_quiet (env : Environment) (op : Operation)
    (hop : ∀ embedded, op ≠ .embed embedded) : Along Quiet (op.run env) := by
  refine (along_run_stepOf env op).mono fun s t h => ⟨h.step, ?_⟩
  have hedit : ∀ {t : Section}, Edit (fun _ => True) s t → t.embedded = s.embedded := by
    intro t hedit
    obtain ⟨_, _, _, rfl⟩ := hedit.framed
    rfl
  cases h with
  | turn h => exact hedit (.move (.turn h))
  | refer hm => exact hedit (.refer s trivial hm)
  | plugins => exact hedit (.plugins s _)
  | name | stylePrints | version | enter => rfl
  | embed heq => exact absurd heq (hop _)

theorem along_run (env : Environment) (op : Operation) : Along Step (op.run env) :=
  (along_run_stepOf env op).mono fun _ _ => StepOf.step

theorem reach_eq_left (env : Environment) (op : Operation) (s : Section) :
    op.reach env s = left (op.run env) s := by
  unfold reach left
  cases op.run env s <;> rfl

section Induction

variable {env : Environment} {r : Section → Section → Prop} {P : Section → Prop}
  {ops : List Operation} {s : Section}

-- What holds of a section and survives the steps that an operation is made of holds afterwards.
theorem reach_induction_along {op : Operation} (hop : Along r (op.run env))
    (hstep : ∀ s t, r s t → P s → P t) (hs : P s) : P (op.reach env s) := by
  have hreach := hop s
  rw [← reach_eq_left] at hreach
  generalize op.reach env s = t at hreach
  induction hreach with
  | refl => exact hs
  | tail _ h hprevious => exact hstep _ _ h hprevious

theorem reachAll_induction_along (hops : ∀ op ∈ ops, Along r (op.run env))
    (hstep : ∀ s t, r s t → P s → P t) (hs : P s) : P (reachAll env ops s) := by
  unfold reachAll
  induction ops generalizing s with
  | nil => exact hs
  | cons op rest ih =>
    rw [List.forall_mem_cons] at hops
    exact ih hops.2 (reach_induction_along hops.1 hstep hs)

theorem reachAll_induction_quiet (hops : ∀ op ∈ ops, ∀ embedded, op ≠ .embed embedded)
    (hstep : ∀ s t, Quiet s t → P s → P t) (hs : P s) : P (reachAll env ops s) :=
  reachAll_induction_along (fun op hop => along_run_quiet env op (hops op hop)) hstep hs

end Induction

theorem reachAll_induction (env : Environment) (P : Section → Prop)
    (hstep : ∀ s t, Step s t → P s → P t) (ops : List Operation) (s : Section) (hs : P s) :
    P (reachAll env ops s) :=
  reachAll_induction_along (fun op _ => along_run env op) hstep hs

end Operation

end Vassal
