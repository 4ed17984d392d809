import Vassal.Proofs.Options.Settled
import Vassal.Proofs.Section.Registration

-- Presets that are applied again.
--
-- A preset asks for its groups, and all that it does after that is a list of effects, each on an
-- option of its own. The groups are there when it comes back, python with the version that it was
-- given, so the same plugin is asked for and the same list of effects is run again.

namespace Vassal

namespace Mutation

-- The call may give an option a value or add texts to it, but it does not take the option away.
structure Gives (m : Mutation) : Prop where
  plain : m.Plain
  priority : m.priority = none
  keeps : m.flag = true → m.proceeds = true → m.value.isTruthy = true

-- The texts that a call adds to its option.
def listed (m : Mutation) : List String :=
  if m.multi = true ∧ m.proceeds = true then m.stored.map Arg.render else []

namespace Gives

theorem enabling (key : String) : (ofFlag key (some true)).Gives :=
  ⟨.ofFlag key (some true), rfl, fun _ _ => rfl⟩

theorem text (key text : String) : (ofText key text).Gives :=
  ⟨.ofText key text, rfl, fun h => nomatch h⟩

theorem text? (key : String) (given : Option String) : (ofText? key given).Gives :=
  ⟨.ofText? key given, rfl, fun h => nomatch h⟩

theorem nat? (key : String) (given : Option Nat) : (ofNat? key given).Gives :=
  ⟨.ofNat? key given, rfl, fun h => nomatch h⟩

theorem addingTexts (key : String) (given : Option (List String)) :
    (adding key (.ofOption .ofTexts given)).Gives :=
  ⟨.addingTexts key given, rfl, fun h => nomatch h⟩

variable {m : Mutation} (h : m.Gives) (groupPlugin : Option String)
include h

theorem effects_eq :
    m.effects groupPlugin =
      if m.proceeds = true then Effect.activateAll groupPlugin ++ m.placement else [] := by
  have hvalues : (m.parts ++ m.stored).flatMap Arg.contributions = [] :=
    h.plain.contributions_eq_nil
  have hnone : Effect.activateAll m.plugin = [] := by
    rw [h.plain.plugin]
    rfl
  split
  case isTrue hproceeds =>
    have hkept : (m.flag && !m.value.isTruthy) = false := by
      cases hflag : m.flag with
      | false => rfl
      | true => simp [h.keeps hflag hproceeds]
    simp [effects, hproceeds, hkept, hvalues, hnone]
  case isFalse hproceeds => simp [effects, hproceeds]

theorem placement_eq :
    m.placement =
      if m.multi = true then
        if m.stored.map Arg.render = [] then [] else [.extend m.key (m.stored.map Arg.render)]
      else [.insert m.key (.single m.joined.render)] := by
  have hkey : m.storedKey = m.key := storedKey_eq_of_keys h.plain.keys_eq
  unfold placement
  rw [h.priority, hkey]
  simp only [List.isEmpty_iff]

theorem simple : ∀ e ∈ m.effects groupPlugin, e.Simple := by
  have hasked : ∀ e ∈ Effect.activateAll groupPlugin, e.Simple :=
    Effect.forall_mem_activateAll (fun _ => trivial) groupPlugin
  have hplaced : ∀ e ∈ m.placement, e.Simple := by
    rw [h.placement_eq]
    split
    · split
      case isTrue => exact List.forall_mem_nil _
      case isFalse hsome => exact List.forall_mem_singleton.mpr hsome
    · exact List.forall_mem_singleton.mpr trivial
  rw [h.effects_eq]
  split
  · exact List.forall_mem_append.mpr ⟨hasked, hplaced⟩
  · exact List.forall_mem_nil _

theorem keys_sublist : ((m.effects groupPlugin).flatMap Effect.keys).Sublist [m.key] := by
  have hasked : (Effect.activateAll groupPlugin).flatMap Effect.keys = [] := by
    cases groupPlugin <;> rfl
  have hplaced : (m.placement.flatMap Effect.keys).Sublist [m.key] := by
    rw [h.placement_eq]
    split
    · split
      · exact List.nil_sublist _
      · exact .refl _
    · exact .refl _
  rw [h.effects_eq]
  split
  · rwa [List.flatMap_append, hasked, List.nil_append]
  · exact List.nil_sublist _

theorem textsFor_effects (key : String) :
    (m.effects groupPlugin).flatMap (Effect.textsFor key) =
      if key = m.key then m.listed else [] := by
  have hasked : (Effect.activateAll groupPlugin).flatMap (Effect.textsFor key) = [] := by
    cases groupPlugin <;> rfl
  rw [h.effects_eq]
  unfold listed
  split
  case isTrue hproceeds =>
    rw [List.flatMap_append, hasked, List.nil_append, h.placement_eq]
    cases hmulti : m.multi with
    | false => simp [Effect.textsFor]
    | true =>
      by_cases hnone : m.stored.map Arg.render = []
      · simp [hproceeds, hnone]
      · simp [hproceeds, hnone, Effect.textsFor]
  case isFalse hproceeds => simp [hproceeds]

end Gives

theorem listed_addingTexts (key : String) (given : Option (List String)) :
    (adding key (.ofOption .ofTexts given)).listed = given.getD [] := by
  cases given with
  | none => rfl
  | some texts =>
    have htexts : texts.map (Arg.render ∘ Arg.text) = texts := List.map_id'' (fun _ => rfl) texts
    exact (List.map_map).trans htexts

section Settings

variable {ms : List Mutation} (hms : ∀ m ∈ ms, m.Gives) (groupPlugin : Option String)
include hms

theorem simple_flatMap_effects : ∀ e ∈ ms.flatMap (·.effects groupPlugin), e.Simple := by
  intro e he
  obtain ⟨m, hm, hmem⟩ := List.mem_flatMap.mp he
  exact (hms m hm).simple groupPlugin e hmem

theorem keys_flatMap_effects_sublist :
    ((ms.flatMap (·.effects groupPlugin)).flatMap Effect.keys).Sublist (ms.map (·.key)) := by
  induction ms with
  | nil => exact List.nil_sublist _
  | cons m rest ih =>
    rw [List.forall_mem_cons] at hms
    rw [List.flatMap_cons, List.flatMap_append]
    exact (hms.1.keys_sublist groupPlugin).append (ih hms.2)

theorem textsFor_flatMap_effects (key : String) :
    (ms.flatMap (·.effects groupPlugin)).flatMap (Effect.textsFor key) =
      ms.flatMap fun m => if key = m.key then m.listed else [] := by
  rw [List.flatMap_assoc]
  exact List.flatMap_congr fun m hm => (hms m hm).textsFor_effects groupPlugin key

end Settings

end Mutation

namespace GroupCache

variable {c : GroupCache (Option Version)} {kind other : GroupKind}

-- Asking for the group makes no difference.
def Holds (c : GroupCache (Option Version)) (kind : GroupKind) : Prop :=
  c.enter kind = c

theorem holds_modify_self (f : Option Version → Option Version) : (c.modify kind f).Holds kind :=
  modify_modify f id

-- Writing a group drops none but those that share its identifier.
theorem Holds.modify (h : c.Holds kind) (hid : other.id = kind.id → other = kind)
    (f : Option Version → Option Version) : (c.modify other f).Holds kind := by
  by_cases hkind : other.id = kind.id
  · rw [hid hkind]
    exact holds_modify_self f
  · exact (modify_comm (Ne.symm hkind) f id).trans (congrArg (·.modify other f) h)

theorem holds_foldl_enter {kinds : List GroupKind}
    (hids : ∀ first ∈ kinds, ∀ second ∈ kinds, first.id = second.id → first = second) :
    ∀ kind ∈ kinds, (kinds.foldl enter c).Holds kind := by
  induction kinds using List.reverseRecOn with
  | nil => exact List.forall_mem_nil _
  | append_singleton before last ih =>
    have hlast : last ∈ before ++ [last] := List.mem_append_right _ List.mem_cons_self
    have hbefore : ∀ kind ∈ before, kind ∈ before ++ [last] := fun kind hkind =>
      List.mem_append_left _ hkind
    have hheld := ih fun first hfirst second hsecond =>
      hids first (hbefore first hfirst) second (hbefore second hsecond)
    rw [List.foldl_append, List.forall_mem_append, List.forall_mem_singleton]
    exact ⟨fun kind hkind =>
      (hheld kind hkind).modify (hids last hlast kind (hbefore kind hkind)) id,
      holds_modify_self id⟩

theorem foldl_enter_eq_self {kinds : List GroupKind} (h : ∀ kind ∈ kinds, c.Holds kind) :
    kinds.foldl enter c = c := by
  induction kinds with
  | nil => rfl
  | cons kind rest ih =>
    rw [List.forall_mem_cons] at h
    rw [List.foldl_cons, h.1, ih h.2]

end GroupCache

namespace Section

-- The groups are written, and nothing else.
def writeGroups (f : GroupCache (Option Version) → GroupCache (Option Version)) (s : Section) :
    Section :=
  { s with groups := f s.groups }

section Groups

variable (effects : List Effect) (s : Section)

theorem runAll_writeGroups (f : GroupCache (Option Version) → GroupCache (Option Version)) :
    (Effect.runAll effects s).writeGroups f = Effect.runAll effects (s.writeGroups f) := by
  induction effects generalizing s with
  | nil => rfl
  | cons e rest ih =>
    have hfirst : (e.run s).writeGroups f = e.run (s.writeGroups f) := by
      cases e with
      | activate plugin =>
        show (s.registerPlugin "plugin" plugin).writeGroups f =
          (s.writeGroups f).registerPlugin "plugin" plugin
        unfold registerPlugin
        rw [apply_ite (writeGroups f)]
        rfl
      | _ => rfl
    exact (ih (e.run s)).trans (congrArg (Effect.runAll rest) hfirst)

theorem enter_runAll (kind : GroupKind) :
    (Effect.runAll effects s).enter kind = Effect.runAll effects (s.enter kind) :=
  runAll_writeGroups effects s (·.enter kind)

theorem setAllIn_runAll (kind : GroupKind) (ms : List Mutation) :
    (Effect.runAll effects s).setAllIn kind ms =
      Effect.runAll (effects ++ ms.flatMap (·.effects ((s.enter kind).groupPlugin kind)))
        (s.enter kind) := by
  rw [setAllIn_eq, enter_runAll, groupPlugin_congr (groups_runAll effects (s.enter kind)),
    Effect.runAll_append]

theorem foldl_enter (kinds : List GroupKind) :
    kinds.foldl enter s = s.writeGroups (kinds.foldl GroupCache.enter ·) := by
  induction kinds generalizing s with
  | nil => rfl
  | cons kind rest ih => exact ih (s.enter kind)

end Groups

def workersSetting : Option Nat → Mutation
  | some (count + 1) => .ofNat? "workers" (some (count + 1))
  | _ => .ofText "workers" "%k"

-- The settings of the nice preset.
def niceSettings (p : NiceParams) : List Mutation :=
  [.ofFlag "strict" (some true), .adding "touch-reload" (.ofOption .ofTexts p.touchReload),
   workersSetting p.workers, .ofNat? "threads" p.threads, .ofFlag "vacuum" (some true),
   .ofFlag "auto-procname" (some true), .ofFlag "master" (some true),
   .ofFlag "thunder-lock" (some true)]

-- The groups that it asks for, one after another.
def niceKinds (p : NiceParams) : List GroupKind :=
  (if p.touchReload.isSome then [mainProcessKind] else []) ++
    [workersKind, workersKind, mainProcessKind, mainProcessKind, masterProcessKind, locksKind]

def niceGroups (p : NiceParams) (c : GroupCache (Option Version)) : GroupCache (Option Version) :=
  (niceKinds p).foldl GroupCache.enter c

def niceEffects (p : NiceParams) : List Effect :=
  (niceSettings p).flatMap (·.effects none)

theorem setNiceWorkers_eq (s : Section) (workers : Option Nat) :
    s.setNiceWorkers workers = s.setAllIn workersKind [workersSetting workers] := by
  match workers with
  | none | some 0 | some (_ + 1) => rfl

-- A group that does not stand for a plugin asks for none.
theorem setAllIn_runAll_of_not_autoPlugin {kind : GroupKind} (hkind : kind.autoPlugin = false)
    (effects : List Effect) (s : Section) (ms : List Mutation) :
    (Effect.runAll effects s).setAllIn kind ms =
      Effect.runAll (effects ++ ms.flatMap (·.effects none)) (s.enter kind) := by
  have hplugin : (s.enter kind).groupPlugin kind = none := by
    unfold groupPlugin
    rw [hkind]
    rfl
  rw [setAllIn_runAll, hplugin]

theorem applyNice_eq (s : Section) (p : NiceParams) :
    s.applyNice p = Effect.runAll (niceEffects p) (s.writeGroups (niceGroups p)) := by
  have hstrict : s.setStrict (some true) =
      Effect.runAll ((Mutation.ofFlag "strict" (some true)).effects none) s := rfl
  -- What is not given comes to nothing.
  have hflag : ∀ key, (Mutation.ofFlag key none).effects none = [] := fun _ => rfl
  have htext : ∀ key, (Mutation.ofText? key none).effects none = [] := fun _ => rfl
  have hadding : ∀ key, (Mutation.adding key (.ofOption .ofTexts none)).effects none = [] :=
    fun _ => rfl
  obtain ⟨name, touchReload, workers, threads⟩ := p
  unfold applyNice niceEffects niceSettings niceGroups
  rw [← foldl_enter]
  cases touchReload with
  | none | some texts =>
    simp (disch := decide) only [hstrict, setNiceWorkers_eq, setMainProcess, setThreads, setNaming,
      setMasterProcess, setLocks, Option.isSome_none, Option.isSome_some, Bool.false_eq_true,
      if_true, if_false, setAllIn_runAll_of_not_autoPlugin, List.flatMap_cons, List.flatMap_nil,
      hflag, htext, hadding, List.append_nil, List.nil_append, List.append_assoc, niceKinds,
      List.singleton_append, List.foldl_cons, List.foldl_nil]

section Python

-- A section that has asked for the group of the interpreter.
variable {t : Section} (hheld : t.enter pythonKind = t) (effects : List Effect)
include hheld

theorem setIn_python_runAll (ms : List Mutation) :
    (Effect.runAll effects t).setAllIn pythonKind ms =
      Effect.runAll (effects ++ ms.flatMap (·.effects (some (t.groupName pythonKind)))) t := by
  have hplugin : t.groupPlugin pythonKind = some (t.groupName pythonKind) := rfl
  rw [setAllIn_runAll, hheld, hplugin]

theorem activatePython_runAll :
    (Effect.runAll effects t).activatePython =
      Effect.runAll (effects ++ [.activate (t.groupName pythonKind)]) t := by
  have hentered : (Effect.runAll effects t).enter pythonKind = Effect.runAll effects t := by
    rw [enter_runAll, hheld]
  have hname := groupName_congr (groups_runAll effects t) pythonKind
  rw [Effect.runAll_append, ← hname]
  exact congrArg (fun u : Section => u.activate (u.groupName pythonKind)) hentered

end Python

-- What is done with the interpreter, once the plugin to ask for is known by its name.
def pythonEffects (name : String) (python : PythonParams) (wsgiModule : Option String) :
    List Effect :=
  (pythonMutations python).flatMap (·.effects (some name)) ++ .activate name ::
    [Mutation.ofText? "wsgi" wsgiModule].flatMap (·.effects (some name))

def pythonGroups (p : NiceParams) (python : PythonParams) (c : GroupCache (Option Version)) :
    GroupCache (Option Version) :=
  (niceGroups p c).modify pythonKind (python.version <|> ·)

theorem setPython_runAll (effects : List Effect) (s : Section) (python : PythonParams) :
    let t := s.writeGroups (·.modify pythonKind (python.version <|> ·))
    (Effect.runAll effects s).setPython python =
      (Effect.runAll effects t).setAllIn pythonKind (pythonMutations python) := by
  intro t
  have hentered : (((Effect.runAll effects s).enter pythonKind).rememberVersion pythonKind
      python.version).enter pythonKind = Effect.runAll effects t := by
    rw [enter_rememberVersion]
    exact runAll_writeGroups effects s (·.modify pythonKind (python.version <|> ·))
  have hheld : t.enter pythonKind = t :=
    congrArg (fun groups => { s with groups }) (GroupCache.holds_modify_self _)
  unfold setPython
  rw [setAllIn_eq, hentered, setAllIn_eq, enter_runAll, hheld]
  rfl

theorem applyPython_eq (s : Section) (p : NiceParams) (python : PythonParams)
    (wsgiModule : Option String) :
    let t := s.writeGroups (pythonGroups p python)
    s.applyPython p python wsgiModule =
      Effect.runAll
        (niceEffects p ++ pythonEffects (t.groupName pythonKind) python wsgiModule) t := by
  intro t
  have hheld : t.enter pythonKind = t :=
    congrArg (fun groups => { s with groups }) (GroupCache.holds_modify_self _)
  have hwritten : (s.writeGroups (niceGroups p)).writeGroups
      (·.modify pythonKind (python.version <|> ·)) = t := rfl
  have hwsgi : [Mutation.ofText? "wsgi" wsgiModule, .ofText? "callable" none].flatMap
      (·.effects (some (t.groupName pythonKind))) =
        [Mutation.ofText? "wsgi" wsgiModule].flatMap
          (·.effects (some (t.groupName pythonKind))) := rfl
  unfold applyPython setWsgi pythonEffects
  rw [applyNice_eq, setPython_runAll, hwritten, setIn_python_runAll hheld,
    activatePython_runAll hheld, setIn_python_runAll hheld, hwsgi, List.append_assoc,
    List.append_assoc, List.singleton_append]

section Again

theorem gives_niceSettings (p : NiceParams) : ∀ m ∈ niceSettings p, m.Gives := by
  have hworkers : (workersSetting p.workers).Gives := by
    unfold workersSetting
    split
    · exact .nat? _ _
    · exact .text _ _
  unfold niceSettings
  simp only [List.forall_mem_cons]
  exact ⟨.enabling _, .addingTexts _ _, hworkers, .nat? _ _, .enabling _, .enabling _,
    .enabling _, .enabling _, List.forall_mem_nil _⟩

theorem gives_pythonMutations (python : PythonParams) :
    ∀ m ∈ pythonMutations python, m.Gives := by
  unfold pythonMutations
  simp only [List.forall_mem_cons]
  exact ⟨.text? _ _, .addingTexts _ _, .nat? _ _, List.forall_mem_nil _⟩

theorem gives_wsgi (wsgiModule : Option String) :
    ∀ m ∈ [Mutation.ofText? "wsgi" wsgiModule], m.Gives :=
  List.forall_mem_singleton.mpr (.text? _ _)

theorem simple_niceEffects (p : NiceParams) : ∀ e ∈ niceEffects p, e.Simple :=
  Mutation.simple_flatMap_effects (gives_niceSettings p) none

theorem simple_pythonEffects (name : String) (python : PythonParams)
    (wsgiModule : Option String) : ∀ e ∈ pythonEffects name python wsgiModule, e.Simple := by
  unfold pythonEffects
  rw [List.forall_mem_append, List.forall_mem_cons]
  exact ⟨Mutation.simple_flatMap_effects (gives_pythonMutations python) (some name), trivial,
    Mutation.simple_flatMap_effects (gives_wsgi wsgiModule) (some name)⟩

def niceOptions : List String :=
  ["strict", "touch-reload", "workers", "threads", "vacuum", "auto-procname", "master",
   "thunder-lock"]

def pythonOptions : List String :=
  ["pyhome", "pythonpath", "optimize", "wsgi"]

theorem key_workersSetting (workers : Option Nat) : (workersSetting workers).key = "workers" := by
  unfold workersSetting
  split <;> rfl

theorem keys_niceEffects (p : NiceParams) :
    ((niceEffects p).flatMap Effect.keys).Sublist niceOptions := by
  have hsublist := Mutation.keys_flatMap_effects_sublist (gives_niceSettings p) none
  have hkeys : (niceSettings p).map (·.key) = niceOptions := by
    simp only [niceSettings, List.map_cons, key_workersSetting]
    rfl
  exact hkeys ▸ hsublist

theorem keys_pythonEffects (name : String) (python : PythonParams) (wsgiModule : Option String) :
    ((pythonEffects name python wsgiModule).flatMap Effect.keys).Sublist pythonOptions := by
  have hfirst := Mutation.keys_flatMap_effects_sublist (gives_pythonMutations python) (some name)
  have hlast := Mutation.keys_flatMap_effects_sublist (gives_wsgi wsgiModule) (some name)
  unfold pythonEffects
  rw [List.flatMap_append, List.flatMap_cons]
  exact hfirst.append hlast

theorem textsFor_niceEffects (p : NiceParams) (key : String) :
    (niceEffects p).flatMap (Effect.textsFor key) =
      if key = "touch-reload" then p.touchReload.getD [] else [] := by
  have hworkers : (workersSetting p.workers).listed = [] := by
    unfold workersSetting
    split <;> rfl
  have hflag : ∀ key, (Mutation.ofFlag key (some true)).listed = [] := fun _ => rfl
  have hnat : ∀ key given, (Mutation.ofNat? key given).listed = [] := fun _ _ => rfl
  unfold niceEffects
  rw [Mutation.textsFor_flatMap_effects (gives_niceSettings p)]
  simp only [niceSettings, List.flatMap_cons, List.flatMap_nil, hflag, hworkers, hnat,
    Mutation.listed_addingTexts, ite_self, List.nil_append, List.append_nil]
  rfl

theorem textsFor_pythonEffects (name : String) (python : PythonParams)
    (wsgiModule : Option String) (key : String) :
    (pythonEffects name python wsgiModule).flatMap (Effect.textsFor key) =
      if key = "pythonpath" then python.searchPath.getD [] else [] := by
  have hactivate : Effect.textsFor key (.activate name) = [] := rfl
  have htext : ∀ key given, (Mutation.ofText? key given).listed = [] := fun _ _ => rfl
  have hnat : ∀ key given, (Mutation.ofNat? key given).listed = [] := fun _ _ => rfl
  unfold pythonEffects
  rw [List.flatMap_append, List.flatMap_cons, hactivate,
    Mutation.textsFor_flatMap_effects (gives_pythonMutations python),
    Mutation.textsFor_flatMap_effects (gives_wsgi wsgiModule)]
  simp only [pythonMutations, List.flatMap_cons, List.flatMap_nil, htext, hnat,
    Mutation.listed_addingTexts, ite_self, List.nil_append, List.append_nil]
  rfl

-- The groups of a preset are there once it has been applied.
theorem holds_niceGroups (p : NiceParams) (c : GroupCache (Option Version)) :
    ∀ kind ∈ niceKinds p, (niceGroups p c).Holds kind := by
  have hsubset : niceKinds p ⊆ builtInKinds := by
    unfold niceKinds
    split <;> decide
  have hids : ∀ first ∈ builtInKinds, ∀ second ∈ builtInKinds,
      first.id = second.id → first = second := by decide
  exact GroupCache.holds_foldl_enter fun first hfirst second hsecond =>
    hids first (hsubset hfirst) second (hsubset hsecond)

theorem niceGroups_niceGroups (p : NiceParams) (c : GroupCache (Option Version)) :
    niceGroups p (niceGroups p c) = niceGroups p c :=
  GroupCache.foldl_enter_eq_self (holds_niceGroups p c)

theorem pythonGroups_pythonGroups (p : NiceParams) (python : PythonParams)
    (c : GroupCache (Option Version)) :
    pythonGroups p python (pythonGroups p python c) = pythonGroups p python c := by
  have hids : ∀ kind ∈ niceKinds p, pythonKind.id = kind.id → pythonKind = kind := by
    unfold niceKinds
    split <;> decide
  have hnice : niceGroups p (pythonGroups p python c) = pythonGroups p python c :=
    GroupCache.foldl_enter_eq_self fun kind hkind =>
      (holds_niceGroups p c kind hkind).modify (hids kind hkind) _
  have hversion : (fun known => python.version <|> python.version <|> known) =
      (python.version <|> · : Option Version → Option Version) := by
    funext known
    cases python.version <;> rfl
  conv_lhs => rw [pythonGroups, hnice]
  rw [pythonGroups, GroupCache.modify_modify]
  exact congrArg (GroupCache.modify _ pythonKind) hversion

theorem writeGroups_eq_self {f : GroupCache (Option Version) → GroupCache (Option Version)}
    {s t : Section} (hf : f (f s.groups) = f s.groups) (hgroups : t.groups = f s.groups) :
    t.writeGroups f = t := by
  unfold writeGroups
  rw [hgroups, hf, ← hgroups]

-- What two sections in a row owe to the same effects.
theorem gains_of_runAll {effects : List Effect} {names : List String} {given : String → List String}
    {s t u : Section} (hsimple : ∀ e ∈ effects, e.Simple)
    (hkeys : (effects.flatMap Effect.keys).Sublist names) (hnodup : names.Nodup)
    (hplugin : "plugin" ∉ names)
    (hgiven : ∀ key, effects.flatMap (Effect.textsFor key) = given key)
    (ht : t = Effect.runAll effects s) (hu : u = Effect.runAll effects t) : t.Gains given u := by
  have hgains := Effect.gains_runAll_runAll hsimple (fun hmem => hplugin (hkeys.subset hmem))
    (hnodup.sublist hkeys) s
  rw [← ht, ← hu, funext hgiven] at hgains
  exact hgains

-- A preset that is applied again finds all that it asks for, but for its lists: what they hold is
-- added once more to what their options have. Else every option keeps its value and its place, and
-- the plugins and the groups stay as they are, with the version of the interpreter.
theorem presets_again (s : Section) (p : NiceParams) (python : PythonParams)
    (wsgiModule : Option String) :
    (let t := s.applyNice p
     t.Gains (fun key => if key = "touch-reload" then p.touchReload.getD [] else [])
       (t.applyNice p)) ∧
    (let t := s.applyPython p python wsgiModule
     t.Gains
       (fun key => (if key = "touch-reload" then p.touchReload.getD [] else []) ++
         if key = "pythonpath" then python.searchPath.getD [] else [])
       (t.applyPython p python wsgiModule)) := by
  constructor
  · intro t
    have ht : t = Effect.runAll (niceEffects p) (s.writeGroups (niceGroups p)) :=
      applyNice_eq s p
    have hgroups : t.groups = niceGroups p s.groups := by
      rw [ht, groups_runAll]
      rfl
    have hu : t.applyNice p = Effect.runAll (niceEffects p) t := by
      rw [applyNice_eq, writeGroups_eq_self (niceGroups_niceGroups p s.groups) hgroups]
    exact gains_of_runAll (simple_niceEffects p) (keys_niceEffects p) (by decide) (by decide)
      (textsFor_niceEffects p) ht hu
  · intro t
    let name := (s.writeGroups (pythonGroups p python)).groupName pythonKind
    have ht : t = Effect.runAll (niceEffects p ++ pythonEffects name python wsgiModule)
        (s.writeGroups (pythonGroups p python)) := applyPython_eq s p python wsgiModule
    have hgroups : t.groups = pythonGroups p python s.groups := by
      rw [ht, groups_runAll]
      rfl
    have hname : t.groupName pythonKind = name := groupName_congr hgroups pythonKind
    have hu : t.applyPython p python wsgiModule =
        Effect.runAll (niceEffects p ++ pythonEffects name python wsgiModule) t := by
      rw [applyPython_eq, writeGroups_eq_self (pythonGroups_pythonGroups p python s.groups) hgroups,
        hname]
    have hsimple := List.forall_mem_append.mpr
      ⟨simple_niceEffects p, simple_pythonEffects name python wsgiModule⟩
    have hkeys : ((niceEffects p ++ pythonEffects name python wsgiModule).flatMap
        Effect.keys).Sublist (niceOptions ++ pythonOptions) := by
      rw [List.flatMap_append]
      exact (keys_niceEffects p).append (keys_pythonEffects name python wsgiModule)
    refine gains_of_runAll hsimple hkeys (by decide) (by decide) (fun key => ?_) ht hu
    rw [List.flatMap_append, textsFor_niceEffects, textsFor_pythonEffects]

-- With a version of the interpreter and files to watch.
example :
    let p : NiceParams := { touchReload := some ["/srv/app.py"], workers := some 0 }
    let q : PythonParams := { version := some (.text "3.11"), searchPath := some ["/srv"] }
    let t := (Section.named none).applyPython p q none
    t.plugins = ["python3.11"] ∧
    (t.applyPython p q none).options.texts "touch-reload" = ["/srv/app.py", "/srv/app.py"] ∧
    (t.applyPython p q none).options.texts "pythonpath" = ["/srv", "/srv"] ∧
    (t.applyPython p q none).options.keys = t.options.keys := by
  decide +kernel

end Again

end Section

end Vassal
