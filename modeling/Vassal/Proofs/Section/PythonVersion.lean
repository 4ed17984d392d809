import Vassal.Proofs.Options.Requirement
import Vassal.Proofs.Section.GroupCache
import Vassal.Proofs.Section.Reach

-- The version of python that a section remembers, and the plugin that the setters of python ask
-- for.
--
-- A history gives versions by the calls of these setters that are in it. Between the calls a
-- section may be turned in any way: neither the version nor a plugin that is there gets lost by
-- that.

namespace Vassal

-- Plain settings ask for no plugin but the one of their group.
theorem Mutation.Plain.of_mem_activations {m : Mutation} (h : m.Plain) (groupPlugin : Option String)
    {plugin : String} (hplugin : plugin ∈ m.activations groupPlugin) :
    plugin ∈ groupPlugin := by
  unfold activations at hplugin
  rcases m.effects_cases groupPlugin with hnone | herase | hall
  · simp [hnone] at hplugin
  · simp [herase, Effect.activated?] at hplugin
  · rw [hall, Mutation.preparation, h.contributions_eq_nil, h.plugin, List.append_nil, List.filterMap_append,
      List.filterMap_append, Effect.filterMap_activateAll, Effect.filterMap_activateAll,
      Mutation.filterMap_placement] at hplugin
    simpa using hplugin

namespace Section

-- A call of one of the setters of python.
inductive PythonCall
  | params (p : PythonParams)
  | activate
  | wsgi (module callable : Option String)

namespace PythonCall

def run (s : Section) : PythonCall → Section
  | params p => s.setPython p
  | activate => s.activatePython
  | wsgi module callable => s.setWsgi module callable

def version? : PythonCall → Option Version
  | params p => p.version
  | _ => none

-- The calls that ask for the plugin: all that give an option, and the one that does nothing else.
def Asks : PythonCall → Prop
  | params p => p.home.isSome ∨ p.searchPath.isSome ∨ p.optimizationLevel.isSome
  | activate => True
  | wsgi module callable => module.isSome ∨ callable.isSome

end PythonCall

-- The version that was given last, if not the one that was known before.
def lastVersion (known : Option Version) (calls : List PythonCall) : Option Version :=
  (calls.filterMap PythonCall.version?).getLast? <|> known

theorem lastVersion_cons (known : Option Version) (call : PythonCall) (rest : List PythonCall) :
    lastVersion known (call :: rest) = lastVersion (call.version? <|> known) rest := by
  unfold lastVersion
  cases hcall : call.version? with
  | none => simp [hcall]
  | some version =>
    rw [List.filterMap_cons_some hcall, List.getLast?_cons]
    cases (rest.filterMap PythonCall.version?).getLast? <;> rfl

theorem lastVersion_append (known : Option Version) (before after : List PythonCall) :
    lastVersion known (before ++ after) = lastVersion (lastVersion known before) after := by
  induction before generalizing known with
  | nil => rfl
  | cons call rest ih => rw [List.cons_append, lastVersion_cons, lastVersion_cons, ih]

-- What a section knows of python.
structure Remembers (s : Section) (version : Option Version) : Prop where
  tidy : s.groups.Tidy
  version : (s.groups.get? pythonKind).getD none = version

theorem groups_registerPlugin (s : Section) (command plugin : String) :
    (s.registerPlugin command plugin).groups = s.groups := by
  unfold registerPlugin
  split <;> rfl

theorem groups_runAll (effects : List Effect) (s : Section) :
    (Effect.runAll effects s).groups = s.groups :=
  Effect.runAll_induction (P := fun t : Section => t.groups = s.groups)
    (fun _ he _ hkey => List.mem_flatMap_of_mem he hkey)
    (fun plugin t ht => (t.groups_registerPlugin "plugin" plugin).trans ht) (fun _ _ _ ht => ht) rfl

theorem groups_apply (m : Mutation) (groupPlugin : Option String) (s : Section) :
    (m.apply groupPlugin s).groups = s.groups :=
  groups_runAll (m.effects groupPlugin) s

theorem groups_setPlugins (s : Section) (p : PluginsParams) :
    (s.setPlugins p).groups = s.groups := by
  have hregistered : (p.plugins.foldl (·.registerPlugin p.command) s).groups = s.groups :=
    p.register_induction (P := fun t => t.groups = s.groups)
      (fun t command plugin _ ht => (t.groups_registerPlugin command plugin).trans ht) rfl
  rw [setPlugins_eq]
  exact (groups_apply _ none _).trans ((groups_apply _ none _).trans hregistered)

namespace Remembers

variable {s t : Section} {version : Option Version} (h : s.Remembers version)
include h

theorem groupName : s.groupName pythonKind = pythonKind.nameWith version := by
  rw [Section.groupName, h.version]

theorem congr (hgroups : t.groups = s.groups) : t.Remembers version where
  tidy := hgroups ▸ h.tidy
  version := hgroups ▸ h.version

theorem enter {kind : GroupKind} (hkind : kind.id = pythonKind.id → kind = pythonKind) :
    (s.enter kind).Remembers version := by
  refine ⟨h.tidy.modify, ?_⟩
  show ((s.groups.modify kind id).get? pythonKind).getD none = version
  by_cases hid : kind.id = pythonKind.id
  · obtain rfl := hkind hid
    rw [h.tidy.get?_modify_self]
    exact h.version
  · rw [GroupCache.get?_modify_of_ne (Ne.symm hid)]
    exact h.version

theorem setVersion (new : Version) : (s.setVersion pythonKind new).Remembers (some new) := by
  refine ⟨h.tidy.modify, ?_⟩
  show ((s.groups.modify pythonKind fun _ => some new).get? pythonKind).getD none = some new
  rw [h.tidy.get?_modify_self]
  rfl

theorem turn (hturn : Turn s t) : t.Remembers version := by
  have hkinds : ∀ kind ∈ builtInKinds, kind.id = pythonKind.id → kind = pythonKind := by decide
  cases hturn with
  | enter hkind => exact h.enter (hkinds _ hkind)
  | register _ plugin => exact h.congr (groups_registerPlugin s _ plugin)
  | set hm => exact h.congr (groups_apply _ none s)
  | @setIn kind m hm => exact (h.enter (hkinds _ hm.kind_mem)).congr (groups_apply m _ _)

theorem turns (hturns : Turns s t) : t.Remembers version := by
  induction hturns with
  | refl => exact h
  | tail _ hturn ih => exact ih.turn hturn

theorem rememberVersion (given : Option Version) :
    (s.rememberVersion pythonKind given).Remembers (given <|> version) := by
  cases given with
  | none => exact h
  | some new => exact h.setVersion new

theorem run (call : PythonCall) : (call.run s).Remembers (call.version? <|> version) := by
  cases call with
  | params p =>
    have hgiven := (h.enter fun _ => rfl).rememberVersion p.version
    exact hgiven.turns (turns_setAllIn _ (by decide) (python_settings p))
  | activate => exact h.turns (turns_activatePython s)
  | wsgi module callable => exact h.turns (turns_setWsgi s module callable)

end Remembers

section Has

variable {s t : Section} {plugin : String}

-- What a section has, it keeps.
theorem Has.turn (h : s.Has plugin) (hturn : Turn s t) : t.Has plugin := by
  cases hturn with
  | enter => exact h
  | register _ other => exact h.registerPlugin _ other
  | @set m hm => exact h.runAll (m.effects none)
  | @setIn kind m hm =>
    have hin : (s.enter kind).Has plugin := h
    exact hin.runAll _

theorem Has.turns (h : s.Has plugin) (hturns : Turns s t) : t.Has plugin := by
  induction hturns with
  | refl => exact h
  | tail _ hturn ih => exact ih.turn hturn

theorem Has.run (h : s.Has plugin) (call : PythonCall) : (call.run s).Has plugin := by
  cases call with
  | params p =>
    have hgiven : ((s.enter pythonKind).rememberVersion pythonKind p.version).Has plugin := by
      cases p.version <;> exact h
    exact hgiven.turns (turns_setAllIn _ (by decide) (python_settings p))
  | activate => exact h.turns (turns_activatePython s)
  | wsgi module callable => exact h.turns (turns_setWsgi s module callable)

-- Whichever of the settings goes through, it asks for the plugin by the version that is known.
theorem Remembers.has_setAllIn {version : Option Version} (h : s.Remembers version)
    {ms : List Mutation} (hms : ∀ m ∈ ms, GroupSetting pythonKind m) {m : Mutation} (hm : m ∈ ms)
    (hproceeds : m.proceeds = true) (hflag : m.flag = false) :
    (s.setAllIn pythonKind ms).Has (pythonKind.nameWith version) := by
  have hin : (s.enter pythonKind).Remembers version := h.enter fun _ => rfl
  unfold setAllIn
  generalize s.enter pythonKind = u at hin
  induction ms generalizing u with
  | nil => exact nomatch hm
  | cons first rest ih =>
    rw [List.forall_mem_cons] at hms
    have hnext := hin.turn (.setIn u hms.1)
    rcases List.mem_cons.mp hm with rfl | hrest
    · have hplugin : pythonKind.nameWith version ∈
          m.activations (some ((u.enter pythonKind).groupName pythonKind)) := by
        rw [Mutation.activations_eq _ hproceeds hflag, (hin.enter fun _ => rfl).groupName]
        simp
      have hhas : (u.setIn pythonKind m).Has (pythonKind.nameWith version) :=
        has_runAll _ (u.enter pythonKind) hplugin
      exact hhas.turns (turns_foldl_setIn _ hms.2)
    · exact ih hms.2 hrest _ hnext

-- A call that asks for the plugin asks for it by the version that it gives, if it gives one.
theorem Remembers.has_run {version : Option Version} (h : s.Remembers version)
    {call : PythonCall} (hasks : call.Asks) :
    (call.run s).Has (pythonKind.nameWith (call.version? <|> version)) := by
  cases call with
  | params p =>
    have hgiven := (h.enter fun _ => rfl).rememberVersion p.version
    have hset : ∀ m ∈ pythonMutations p, m.proceeds = true → m.flag = false →
        (s.setPython p).Has (pythonKind.nameWith (p.version <|> version)) :=
      fun m hm => hgiven.has_setAllIn (python_settings p) hm
    rcases hasks with hhome | hpath | hlevel
    · obtain ⟨home, hhome⟩ := Option.isSome_iff_exists.mp hhome
      exact hset (.ofText? "pyhome" p.home) (by simp [pythonMutations]) (by rw [hhome]; rfl) rfl
    · obtain ⟨path, hpath⟩ := Option.isSome_iff_exists.mp hpath
      exact hset (.adding "pythonpath" (.ofOption .ofTexts p.searchPath))
        (by simp [pythonMutations]) (by rw [hpath]; rfl) rfl
    · obtain ⟨level, hlevel⟩ := Option.isSome_iff_exists.mp hlevel
      exact hset (.ofNat? "optimize" p.optimizationLevel) (by simp [pythonMutations])
        (by rw [hlevel]; rfl) rfl
  | activate =>
    have hin : (s.enter pythonKind).Remembers version := h.enter fun _ => rfl
    show ((s.enter pythonKind).activate ((s.enter pythonKind).groupName pythonKind)).Has
      (pythonKind.nameWith version)
    rw [hin.groupName]
    exact has_registerPlugin _ "plugin" _
  | wsgi module callable =>
    have hset : ∀ m ∈ [Mutation.ofText? "wsgi" module, .ofText? "callable" callable],
        m.proceeds = true → m.flag = false →
        (s.setWsgi module callable).Has (pythonKind.nameWith version) :=
      fun m hm => h.has_setAllIn (wsgi_settings module callable) hm
    rcases hasks with hmodule | hcallable
    · obtain ⟨name, rfl⟩ := Option.isSome_iff_exists.mp hmodule
      exact hset (.ofText? "wsgi" (some name)) List.mem_cons_self rfl rfl
    · obtain ⟨name, rfl⟩ := Option.isSome_iff_exists.mp hcallable
      exact hset (.ofText? "callable" (some name)) (List.mem_cons_of_mem _ List.mem_cons_self)
        rfl rfl

theorem Remembers.has_of_setAllIn {version : Option Version} (h : s.Remembers version)
    {ms : List Mutation} (hms : ∀ m ∈ ms, GroupSetting pythonKind m) (hplain : ∀ m ∈ ms, m.Plain)
    (hhas : (s.setAllIn pythonKind ms).Has plugin) :
    s.Has plugin ∨ plugin = pythonKind.nameWith version := by
  have hin : (s.enter pythonKind).Remembers version := h.enter fun _ => rfl
  have hstart : (s.enter pythonKind).Has plugin → s.Has plugin := id
  unfold setAllIn at hhas
  generalize s.enter pythonKind = u at hin hhas hstart
  refine Or.imp_left hstart ?_
  clear hstart h
  induction ms generalizing u with
  | nil => exact .inl hhas
  | cons first rest ih =>
    rw [List.forall_mem_cons] at hms hplain
    rcases ih hms.2 hplain.2 _ (hin.turn (.setIn u hms.1)) hhas with hfirst | hname
    · rcases has_of_runAll hfirst with hbefore | hasked
      · exact .inl hbefore
      · have hgroup := hplain.1.of_mem_activations _ hasked
        rw [(hin.enter fun _ => rfl).groupName] at hgroup
        exact .inr (Option.some.inj hgroup).symm
    · exact .inr hname

-- A call asks for no other plugin than that of its group.
theorem Remembers.has_of_run {version : Option Version} (h : s.Remembers version)
    (call : PythonCall) (hhas : (call.run s).Has plugin) :
    s.Has plugin ∨ plugin = pythonKind.nameWith (call.version? <|> version) := by
  cases call with
  | params p =>
    have hgiven := (h.enter fun _ => rfl).rememberVersion p.version
    have hbefore : ((s.enter pythonKind).rememberVersion pythonKind p.version).Has plugin →
        s.Has plugin := by
      cases p.version <;> exact id
    exact (hgiven.has_of_setAllIn (python_settings p) (python_plain p) hhas).imp_left hbefore
  | activate =>
    have hin : (s.enter pythonKind).Remembers version := h.enter fun _ => rfl
    have hcases := has_of_registerPlugin hhas
    rw [hin.groupName] at hcases
    exact hcases
  | wsgi module callable =>
    exact h.has_of_setAllIn (wsgi_settings module callable) (wsgi_plain module callable) hhas

end Has

-- Calls that are dropped leave the options alone.
theorem options_setAllIn_of_dropped {kind : GroupKind} {ms : List Mutation}
    (hms : ∀ m ∈ ms, m.proceeds = false) (s : Section) :
    (s.setAllIn kind ms).options = s.options := by
  have hfold : ∀ u : Section, (ms.foldl (fun s m => s.setIn kind m) u).options = u.options := by
    induction ms with
    | nil => exact fun _ => rfl
    | cons m rest ih =>
      rw [List.forall_mem_cons] at hms
      intro u
      have hset : (u.setIn kind m).options = u.options := by
        simp [setIn, Mutation.apply, Mutation.effects, hms.1, Effect.runAll, enter]
      exact (ih hms.2 (u.setIn kind m)).trans hset
  exact hfold (s.enter kind)

-- The calls that ask for no plugin are those that store nothing.
theorem PythonCall.options_run {call : PythonCall} (hnot : ¬call.Asks) (s : Section) :
    (call.run s).options = s.options := by
  cases call with
  | params p =>
    obtain ⟨hhome, hpath, hlevel⟩ : p.home = none ∧ p.searchPath = none ∧
        p.optimizationLevel = none := by simpa [Asks] using hnot
    have hdropped : ∀ m ∈ pythonMutations p, m.proceeds = false := by
      rw [pythonMutations, hhome, hpath, hlevel]
      decide
    have hgiven : ((s.enter pythonKind).rememberVersion pythonKind p.version).options =
        s.options := by
      cases p.version <;> rfl
    exact (options_setAllIn_of_dropped hdropped _).trans hgiven
  | activate => exact absurd trivial hnot
  | wsgi module callable =>
    obtain ⟨rfl, rfl⟩ : module = none ∧ callable = none := by simpa [Asks] using hnot
    exact options_setAllIn_of_dropped (by decide) s

-- Calls of setters of python, one after the other, and turns of other setters in between.
inductive Called : List PythonCall → Section → Section → Prop
  | nil (s : Section) : Called [] s s
  | turn {calls : List PythonCall} {s t u : Section} (hturn : Turn s t) (h : Called calls t u) :
      Called calls s u
  | call (call : PythonCall) {calls : List PythonCall} {s t : Section}
      (h : Called calls (call.run s) t) : Called (call :: calls) s t

namespace Called

variable {calls : List PythonCall} {s t u : Section}

theorem turns (hturns : Turns s t) (h : Called calls t u) : Called calls s u := by
  induction hturns using Relation.ReflTransGen.head_induction_on with
  | refl => exact h
  | head hturn _ ih => exact .turn hturn ih

theorem append {more : List PythonCall} (h : Called calls s t) (hmore : Called more t u) :
    Called (calls ++ more) s u := by
  induction h with
  | nil => exact hmore
  | turn hturn _ ih => exact .turn hturn (ih hmore)
  | call call _ ih => exact .call call (ih hmore)

theorem remembers (h : Called calls s t) {version : Option Version} (hs : s.Remembers version) :
    t.Remembers (lastVersion version calls) := by
  induction h generalizing version with
  | nil => exact hs
  | turn hturn _ ih => exact ih (hs.turn hturn)
  | call call _ ih =>
    rw [lastVersion_cons]
    exact ih (hs.run call)

theorem has (h : Called calls s t) {plugin : String} (hs : s.Has plugin) : t.Has plugin := by
  induction h with
  | nil => exact hs
  | turn hturn _ ih => exact ih (hs.turn hturn)
  | call call _ ih => exact ih (hs.run call)

-- Each call leaves the plugin by the version that was last given by then, and later ones keep it.
theorem has_of_asks {before after : List PythonCall} {call : PythonCall}
    (h : Called (before ++ call :: after) s t) {version : Option Version}
    (hs : s.Remembers version) (hasks : call.Asks) :
    t.Has (pythonKind.nameWith (lastVersion version (before ++ [call]))) := by
  generalize hcalls : before ++ call :: after = calls at h
  induction h generalizing before version with
  | nil => simp at hcalls
  | turn hturn _ ih => exact ih (hs.turn hturn) hcalls
  | call first hrest ih =>
    cases before with
    | nil =>
      obtain ⟨rfl, rfl⟩ := List.cons.inj hcalls
      rw [List.nil_append, lastVersion_cons]
      exact hrest.has (hs.has_run hasks)
    | cons _ before =>
      obtain ⟨rfl, hbefore⟩ := List.cons.inj hcalls
      rw [List.cons_append, lastVersion_cons]
      exact ih (hs.run _) hbefore

end Called

end Section

namespace Operation

open Section Attempt

-- The calls that a table for a group stands for.
def tableCalls (call : String × Toml.Table) : List PythonCall :=
  if call.1 = pythonKind.id then ((PythonParams.ofTable? call.2).map .params).toList else []

def isAccepted (call : String × Toml.Table) : Bool :=
  (setter? call.1 call.2).isSome

-- The calls of setters of python that an operation makes. A bag of parameters is gone through up to
-- the first table that is refused.
def pythonCalls : Operation → List PythonCall
  | python p => [.params p]
  | activatePython => [.activate]
  | wsgi module callable => [.wsgi module callable]
  | nicePython _ interpreter wsgiModule => [.params interpreter, .activate, .wsgi wsgiModule none]
  | group id t => tableCalls (id, t)
  | params t => ((groupTables t).takeWhile isAccepted).flatMap tableCalls
  | _ => []

theorem called_of_initializes {call : String × Toml.Table} {set : Section → Section}
    (h : Initializes call.1 call.2 set) (s : Section) : Called (tableCalls call) s (set s) := by
  unfold tableCalls
  rcases h.python_or_turns with ⟨p, hid, hp, rfl⟩ | ⟨hid, hturns⟩
  · rw [if_pos hid, hp]
    exact .call (.params p) (.nil _)
  · rw [if_neg hid]
    exact .turns (hturns s) (.nil _)

-- A table that is refused, or is for no group, leaves the section alone.
theorem called_applyCall (call : String × Toml.Table) (s : Section) :
    Called (tableCalls call) s (left (applyCall call) s) := by
  unfold left
  by_cases hcall : ∃ set, Initializes call.1 call.2 set
  · obtain ⟨set, hset⟩ := hcall
    rw [applyCall_of_initializes hset]
    exact called_of_initializes hset s
  · have hnone : tableCalls call = [] := by
      unfold tableCalls
      split
      case isTrue hid =>
        cases hp : PythonParams.ofTable? call.2 with
        | none => rfl
        | some p =>
          exact absurd ⟨(·.setPython p), by rw [hid]; exact .python hp⟩ hcall
      case isFalse => rfl
    rw [hnone]
    by_cases hgroup : call.1 ∈ availableGroups
    · rw [applyCall_of_refused hgroup (not_exists.mp hcall)]
      exact .nil s
    · rw [applyCall_of_unknown hgroup]
      exact .nil s

theorem called_forM {calls : List (String × Toml.Table)}
    (hgroups : ∀ call ∈ calls, call.1 ∈ availableGroups) (s : Section) :
    Called ((calls.takeWhile isAccepted).flatMap tableCalls) s (left (calls.forM applyCall) s) := by
  unfold left
  induction calls generalizing s with
  | nil => exact .nil s
  | cons call rest ih =>
    rw [List.forall_mem_cons] at hgroups
    by_cases hcall : ∃ set, Initializes call.1 call.2 set
    · obtain ⟨set, hset⟩ := hcall
      have hrun : (call :: rest).forM applyCall s = rest.forM applyCall (set s) :=
        bind_of_ok (applyCall_of_initializes hset s)
      have haccepted : isAccepted call = true := by
        rw [isAccepted, initializes_iff.mp hset]
        rfl
      rw [hrun, List.takeWhile_cons_of_pos haccepted, List.flatMap_cons]
      exact (called_of_initializes hset s).append (ih hgroups.2 (set s))
    · have hrun : (call :: rest).forM applyCall s = .error (.invalidParams call.1) s :=
        bind_of_error (applyCall_of_refused hgroups.1 (not_exists.mp hcall) s)
      have hrefused : ¬isAccepted call = true := fun hsome =>
        hcall ((Option.isSome_iff_exists.mp hsome).imp fun _ => initializes_iff.mpr)
      rw [hrun, List.takeWhile_cons_of_neg hrefused]
      exact .nil s

theorem called_applyParams (t : Toml.Table) (s : Section) :
    Called (pythonCalls (.params t)) s (left (applyParams t) s) := by
  have hrun : applyParams t = (groupTables t).forM applyCall := funext (applyParams_eq t)
  rw [hrun]
  exact called_forM (fun _ => mem_availableGroups_of_mem_groupTables) s

theorem called_reach (env : Environment) {op : Operation} (hop : op.MayCallPython) (s : Section) :
    Called op.pythonCalls s (op.reach env s) := by
  cases op with
  | python p => exact .call (.params p) (.nil _)
  | activatePython => exact .call .activate (.nil _)
  | wsgi module callable => exact .call (.wsgi module callable) (.nil _)
  | nicePython p interpreter wsgiModule =>
    exact .turns (turns_applyNice s p)
      (.call (.params interpreter) (.call .activate (.call (.wsgi wsgiModule none) (.nil _))))
  | group id t =>
    rw [reach_eq_left]
    exact called_applyCall (id, t) s
  | params t =>
    rw [reach_eq_left]
    exact called_applyParams t s
  | _ => exact absurd hop id

variable {env : Environment} {s t : Section} {version : Option Version}

-- Steps of other operations leave the version alone, unless one of them asks for a group of
-- another's making under the name of python.
theorem remembers_stepOf (h : s.Remembers version) {op : Operation} (hstep : StepOf op s t)
    (hop : ¬op.MayCallPython)
    (hown : ∀ kind, op = .enter kind → kind.id = pythonKind.id → kind = pythonKind) :
    t.Remembers version := by
  cases hstep with
  | turn hturn => exact h.turn hturn
  | refer _ => exact h.congr (groups_apply _ none s)
  | name | stylePrints | embed => exact h.congr rfl
  | version _ _ hcalls => exact absurd hcalls hop
  | enter heq => exact h.enter (hown _ heq)
  | plugins => exact h.congr (groups_setPlugins s _)

theorem pythonCalls_eq_nil {op : Operation} (hop : ¬op.MayCallPython) : op.pythonCalls = [] := by
  cases op <;> first | rfl | exact absurd trivial hop

theorem remembers_reach (h : s.Remembers version) {op : Operation}
    (hown : ∀ kind, op = .enter kind → kind.id = pythonKind.id → kind = pythonKind) :
    (op.reach env s).Remembers (lastVersion version op.pythonCalls) := by
  by_cases hop : op.MayCallPython
  · exact (called_reach env hop s).remembers h
  · rw [pythonCalls_eq_nil hop]
    exact reach_induction_along (P := fun t => t.Remembers version) (along_run_stepOf env op)
      (fun _ _ hstep ht => remembers_stepOf ht hstep hop hown) h

theorem remembers_reachAll (h : s.Remembers version) {ops : List Operation}
    (hown : ∀ kind, .enter kind ∈ ops → kind.id = pythonKind.id → kind = pythonKind) :
    (reachAll env ops s).Remembers (lastVersion version (ops.flatMap pythonCalls)) := by
  induction ops generalizing s version with
  | nil => exact h
  | cons op rest ih =>
    rw [List.flatMap_cons, lastVersion_append]
    refine ih (remembers_reach h fun kind heq => hown kind (heq ▸ List.mem_cons_self)) ?_
    exact fun kind hkind => hown kind (List.mem_cons_of_mem _ hkind)

-- A setter of python on its own.
def ofCall : PythonCall → Operation
  | .params p => python p
  | .activate => activatePython
  | .wsgi module callable => wsgi module callable

-- The plugin of python after some calls.
def pythonName (calls : List PythonCall) : String :=
  "python" ++ (((calls.filterMap PythonCall.version?).getLast?).map Version.render).getD ""

theorem nameWith_lastVersion (calls : List PythonCall) :
    pythonKind.nameWith (lastVersion none calls) = pythonName calls := by
  unfold lastVersion pythonName GroupKind.nameWith
  cases (calls.filterMap PythonCall.version?).getLast? <;> rfl

-- The group of python is called by the version that was given last. Whenever one of its setters
-- asks for the plugin, the plugin of that name is there afterwards. A setter on its own brings no
-- other plugin, and stores no option without asking.
theorem python_version_remembered {ops : List Operation}
    (hown : ∀ kind, .enter kind ∈ ops → kind.id = pythonKind.id → kind = pythonKind)
    (env : Environment) (name : Option String) :
    let s := reachAll env ops (Section.named name)
    s.groupName pythonKind = pythonName (ops.flatMap pythonCalls) ∧
      ∀ history op, ops = history ++ [op] →
        (∀ before call after, op.pythonCalls = before ++ call :: after → call.Asks →
          s.Has (pythonName (history.flatMap pythonCalls ++ before ++ [call]))) ∧
        (∀ call, op = ofCall call →
          let before := reachAll env history (Section.named name)
          (∀ plugin, s.Has plugin → before.Has plugin ∨ plugin = s.groupName pythonKind) ∧
            (¬call.Asks → s.options = before.options)) := by
  intro s
  have hstart : (Section.named name).Remembers none := ⟨GroupCache.tidy_empty, rfl⟩
  have hs : s.Remembers (lastVersion none (ops.flatMap pythonCalls)) :=
    remembers_reachAll hstart hown
  have hname : s.groupName pythonKind = pythonName (ops.flatMap pythonCalls) := by
    rw [hs.groupName, nameWith_lastVersion]
  refine ⟨hname, ?_⟩
  rintro history op rfl
  have hhistory : (reachAll env history (Section.named name)).Remembers
      (lastVersion none (history.flatMap pythonCalls)) :=
    remembers_reachAll hstart fun kind hkind => hown kind (List.mem_append_left _ hkind)
  have hlast : s = op.reach env (reachAll env history (Section.named name)) := by
    simp only [s, reachAll, List.foldl_append, List.foldl_cons, List.foldl_nil]
  constructor
  · intro before call after hcalls hasks
    have hop : op.MayCallPython := by
      by_contra hnot
      simp [pythonCalls_eq_nil hnot] at hcalls
    have hcalled := called_reach env hop (reachAll env history (Section.named name))
    rw [hcalls, ← hlast] at hcalled
    rw [← nameWith_lastVersion, List.append_assoc, lastVersion_append]
    exact hcalled.has_of_asks hhistory hasks
  · rintro call rfl before
    have hrun : s = call.run before := by
      rw [hlast]
      cases call <;> rfl
    rw [hrun, (hhistory.run call).groupName]
    exact ⟨fun plugin hhas => hhistory.has_of_run call hhas,
      fun hnot => call.options_run hnot before⟩

-- The first version asks for nothing, and a table gives another one before the plugin is needed.
theorem python_version_remembered_from_table :
    let ops : List Operation :=
      [.python { version := some (.number 3) }, .derive (some "child"),
        .group "python" [("version", .string "3.11")], .wsgi (some "app:main") none]
    let s := reachAll (fun _ => none) ops (Section.named none)
    (∀ kind, .enter kind ∈ ops → kind.id = pythonKind.id → kind = pythonKind) ∧
      s.groupName pythonKind = "python3.11" ∧ s.Has "python3.11" ∧ s.plugins = ["python3.11"] := by
  intro ops s
  have hown : ∀ kind, .enter kind ∈ ops → kind.id = pythonKind.id → kind = pythonKind := by
    simp [ops]
  obtain ⟨hname, hlast⟩ := python_version_remembered hown (fun _ => none) none
  obtain ⟨hhas, -⟩ := hlast (ops.take 3) (.wsgi (some "app:main") none) rfl
  have hplugin := hhas [] (.wsgi (some "app:main") none) [] rfl (.inl rfl)
  exact ⟨hown, hname.trans (by decide +kernel), hplugin, by decide +kernel⟩

end Operation

end Vassal
