import Vassal.Proofs.Options.Frame
import Vassal.Proofs.Section.PythonVersion

-- Calls that store nothing, and the plugins that they ask for all the same.
--
-- Such a call is dropped, takes an option away, or comes with a list that has no elements. In the
-- last case it has asked for its plugins by the time that it finds nothing to store.

namespace Vassal

-- Whether an effect puts a value under some name.
def Effect.files : Effect → Bool
  | insert _ _ | extend _ _ | insertAt _ _ _ | merge _ => true
  | activate _ | erase _ => false

namespace Mutation

variable {m : Mutation}

-- The plugins that a call asks for whatever its value is.
def announced (m : Mutation) (groupPlugin : Option String) : List String :=
  groupPlugin.toList ++ m.plugin.toList

theorem stored_ne_nil_of_flag (hflag : m.flag = true) : m.stored ≠ [] := by
  simp [stored_of_flag hflag]

-- Only an option that may be repeated can have nothing to store, and then there are no parts.
theorem multi_of_stored_nil (h : m.stored = []) : m.multi = true ∧ m.parts = [] := by
  unfold stored joined at h
  cases hmulti : m.multi with
  | false => simp [hmulti] at h
  | true =>
    refine ⟨rfl, ?_⟩
    unfold parts
    cases hflagged : m.flagged with
    | tuple parts => simp [hmulti, hflagged, Arg.elements] at h
    | _ => rfl

theorem preparation_of_stored_nil (h : m.stored = []) (groupPlugin : Option String) :
    m.preparation groupPlugin = (m.announced groupPlugin).map .activate := by
  unfold preparation announced
  rw [h, (multi_of_stored_nil h).2]
  simp [Effect.activateAll]

theorem effects_of_not_stores (h : ¬m.Stores) (groupPlugin : Option String) :
    m.effects groupPlugin =
      if m.proceeds = true then
        if m.flag = true then [.erase m.key] else (m.announced groupPlugin).map .activate
      else [] := by
  split
  case isFalse hproceeds => simp [effects, hproceeds]
  case isTrue hproceeds =>
    split
    case isTrue hflag =>
      have hfalsy : m.value.isTruthy = false := Bool.eq_false_iff.mpr fun htruthy =>
        h ⟨hproceeds, fun _ => htruthy, stored_ne_nil_of_flag hflag⟩
      simp [effects, hproceeds, hflag, hfalsy]
    case isFalse hflag =>
      have hstored : m.stored = [] := not_not.mp fun hne =>
        h ⟨hproceeds, fun hyes => absurd hyes hflag, hne⟩
      rw [effects_eq groupPlugin hproceeds (by simpa using hflag),
        placement_of_stored_nil (multi_of_stored_nil hstored).1 hstored, List.append_nil,
        preparation_of_stored_nil hstored]

theorem exists_files_placement (h : m.stored ≠ []) : ∃ e ∈ m.placement, e.files = true := by
  unfold placement
  cases hmulti : m.multi <;> cases hpriority : m.priority <;> simp [h, Effect.files]

-- A call stores something exactly if one of its effects does.
theorem stores_iff (groupPlugin : Option String) :
    m.Stores ↔ ∃ e ∈ m.effects groupPlugin, e.files = true := by
  constructor
  · intro h
    obtain ⟨e, he, hfiles⟩ := exists_files_placement h.2.2
    rw [effects_of_stores h]
    exact ⟨e, List.mem_append_right _ he, hfiles⟩
  · rintro ⟨e, he, hfiles⟩
    by_contra h
    rw [effects_of_not_stores h] at he
    split at he
    · split at he
      · rw [List.mem_singleton.mp he] at hfiles
        exact Bool.false_ne_true hfiles
      · obtain ⟨plugin, _, rfl⟩ := List.mem_map.mp he
        exact Bool.false_ne_true hfiles
    · simp at he

theorem activations_of_not_stores (h : ¬m.Stores) (groupPlugin : Option String) :
    m.activations groupPlugin =
      if m.proceeds = true ∧ m.flag = false then m.announced groupPlugin else [] := by
  unfold activations
  rw [effects_of_not_stores h]
  cases m.proceeds <;> cases m.flag <;>
    simp [Effect.activated?, List.filterMap_map, Function.comp_def]

-- Without a value there is at most an option to take away, or plugins to load.
theorem apply_of_not_stores (h : ¬m.Stores) (groupPlugin : Option String) {τ : Type} [Target τ]
    (t : τ) :
    m.apply groupPlugin t =
      if m.proceeds = true then
        if m.flag = true then Target.edit (·.erase m.key) t
        else (m.announced groupPlugin).foldl (fun t plugin => Target.activate plugin t) t
      else t := by
  unfold apply
  rw [effects_of_not_stores h]
  split
  · split
    · rfl
    · rw [Effect.runAll, List.foldl_map]
      rfl
  · rfl

theorem stores_iff_of_flag_false (hflag : m.flag = false) :
    m.Stores ↔ m.proceeds = true ∧ m.stored ≠ [] := by
  simp [Stores, hflag]

theorem stores_ofText? (key : String) (given : Option String) :
    (ofText? key given).Stores ↔ given.isSome := by
  cases given <;>
    simp [stores_iff_of_flag_false, ofText?, proceeds, stored, Arg.ofOption, Arg.isNull]

theorem stores_ofNat? (key : String) (given : Option Nat) :
    (ofNat? key given).Stores ↔ given.isSome := by
  cases given <;>
    simp [stores_iff_of_flag_false, ofNat?, proceeds, stored, Arg.ofOption, Arg.ofNat, Arg.isNull]

theorem stores_addingTexts (key : String) (given : Option (List String)) :
    (adding key (.ofOption .ofTexts given)).Stores ↔ given.getD [] ≠ [] := by
  cases given <;>
    simp [stores_iff_of_flag_false, adding, proceeds, stored, joined, flagged, Arg.ofOption,
      Arg.ofTexts, Arg.isNull, Arg.elements]

end Mutation

namespace Section

theorem setIn_of_dropped {m : Mutation} (h : m.proceeds = false) (kind : GroupKind) (s : Section) :
    s.setIn kind m = s.enter kind := by
  simp [setIn, Mutation.apply, Mutation.effects, h, Effect.runAll]

-- A list of directories without elements is all that is left of a table that sets nothing.
theorem python_stores_nothing_iff {p : PythonParams} : (∀ m ∈ pythonMutations p, ¬m.Stores) ↔
    p.home = none ∧ p.searchPath.getD [] = [] ∧ p.optimizationLevel = none := by
  simp [pythonMutations, Mutation.stores_ofText?, Mutation.stores_ofNat?,
    Mutation.stores_addingTexts]

theorem plugins_activate (s : Section) (plugin : String) :
    (s.activate plugin).plugins =
      if s.embedded.contains plugin || s.plugins.contains plugin then s.plugins
      else s.plugins ++ [plugin] := by
  unfold activate registerPlugin
  split <;> rfl

theorem plugins_activate_eq_iff (s : Section) (plugin : String) :
    (s.activate plugin).plugins = s.plugins ↔ s.Has plugin := by
  rw [plugins_activate]
  split
  case isTrue h => simpa [Has, or_comm] using h
  case isFalse h => simpa [Has, or_comm] using h

-- Only a list gets as far as asking for the plugin, even if it has no elements.
theorem Remembers.plugins_setPython {s : Section} {version : Option Version}
    (h : s.Remembers version) {p : PythonParams} (hnothing : ∀ m ∈ pythonMutations p, ¬m.Stores) :
    (s.setPython p).plugins =
      if p.searchPath = none then s.plugins
      else (s.activate (pythonKind.nameWith (p.version <|> version))).plugins := by
  obtain ⟨hhome, hpath, hlevel⟩ := python_stores_nothing_iff.mp hnothing
  have hgiven := (h.enter fun _ => rfl).rememberVersion p.version
  generalize hu : (s.enter pythonKind).rememberVersion pythonKind p.version = u at hgiven
  have hsame : u.plugins = s.plugins ∧ u.embedded = s.embedded := by
    subst hu
    cases p.version <;> exact ⟨rfl, rfl⟩
  have hrun : s.setPython p =
      ((((u.enter pythonKind).enter pythonKind).setIn pythonKind
        (.adding "pythonpath" (.ofOption .ofTexts p.searchPath))).enter pythonKind) := by
    rw [setPython, hu, hhome, hlevel]
    exact (setIn_of_dropped rfl _ _).trans
      (congrArg (fun t : Section => (t.setIn pythonKind _).enter pythonKind)
        (setIn_of_dropped rfl _ _))
  rw [hrun]
  cases hsearch : p.searchPath with
  | none =>
    rw [if_pos rfl, setIn_of_dropped rfl]
    exact hsame.1
  | some path =>
    obtain rfl : path = [] := by simpa [hsearch] using hpath
    have hin : (((u.enter pythonKind).enter pythonKind).enter pythonKind).Remembers _ :=
      ((hgiven.enter fun _ => rfl).enter fun _ => rfl).enter fun _ => rfl
    rw [if_neg (by simp), plugins_activate, ← hsame.1, ← hsame.2, ← hin.groupName]
    exact plugins_activate _ _

end Section

-- A call that stores nothing asks for a plugin only if it got as far as looking for elements. The
-- same goes for a table of python: what asks for the plugin is a search path without directories.
theorem activations_of_nothing_stored (m : Mutation) (groupPlugin : Option String) :
    (m.Stores ↔ ∃ e ∈ m.effects groupPlugin, e.files = true) ∧
    (¬m.Stores →
      (m.activations groupPlugin = [] ↔
        (m.proceeds = true ∧ m.flag = false → groupPlugin = none ∧ m.plugin = none)) ∧
      ∀ (τ : Type) [Target τ] (t : τ), m.apply groupPlugin t =
        if m.proceeds = true then
          if m.flag = true then Target.edit (·.erase m.key) t
          else (m.announced groupPlugin).foldl (fun t plugin => Target.activate plugin t) t
        else t) ∧
    ∀ (s : Section) (version : Option Version), s.Remembers version →
      ∀ (t : Toml.Table) (p : PythonParams), PythonParams.ofTable? t = some p →
        (∀ m ∈ Section.pythonMutations p, ¬m.Stores) →
          ∀ env, ((Operation.group pythonKind.id t).reach env s).plugins = s.plugins ↔
            p.searchPath = none ∨ s.Has (pythonKind.nameWith (p.version <|> version)) := by
  refine ⟨Mutation.stores_iff groupPlugin, fun h => ⟨?_, ?_⟩, ?_⟩
  · rw [Mutation.activations_of_not_stores h]
    split
    case isTrue hasks => simp [hasks, Mutation.announced]
    case isFalse hasks => simp [hasks]
  · exact fun τ _ t => Mutation.apply_of_not_stores h groupPlugin t
  · intro s version h t p hp hnothing env
    have hrun : (Operation.group pythonKind.id t).reach env s = s.setPython p := by
      have hset : Section.applyCall ("python", t) s = .ok () (s.setPython p) :=
        @Section.applyCall_of_initializes ("python", t) _ (.python hp) s
      rw [Operation.reach_eq_left]
      change Attempt.left (Section.applyCall ("python", t)) s = s.setPython p
      rw [Attempt.left, hset]
    rw [hrun, h.plugins_setPython hnothing]
    split
    case isTrue hnone => simp [hnone]
    case isFalse hsome => simp [hsome, Section.plugins_activate_eq_iff]

-- A flag that is taken away asks for neither plugin, and a table with an empty search path brings
-- none when the plugin is there.
theorem nothing_activated_beside_known_plugin :
    let m : Mutation := { Mutation.ofFlag "vacuum" (some false) with plugin := some "http" }
    let s : Section :=
      (Section.named none).setPython { version := some (.number 3), home := some "/venv" }
    let t : Toml.Table := [("search_path", .array [])]
    ¬m.Stores ∧ m.activations (some "python") = [] ∧
    s.plugins = ["python3"] ∧
    ((Operation.group pythonKind.id t).reach (fun _ => none) s).plugins = s.plugins := by
  intro m s t
  have hm : ¬m.Stores := fun h => Bool.false_ne_true (h.2.1 rfl)
  have hs : s.Remembers (some (.number 3)) :=
    Section.Remembers.run ⟨GroupCache.tidy_empty, rfl⟩
      (.params { version := some (.number 3), home := some "/venv" })
  have hplugins : s.plugins = ["python3"] := by decide +kernel
  have hnothing : ∀ m ∈ Section.pythonMutations { searchPath := some [] }, ¬m.Stores :=
    Section.python_stores_nothing_iff.mpr ⟨rfl, rfl, rfl⟩
  refine ⟨hm, ?_, hplugins, ?_⟩
  · exact ((activations_of_nothing_stored m (some "python")).2.1 hm).1.mpr
      fun hasks => absurd hasks.2 (by decide)
  · refine ((activations_of_nothing_stored m (some "python")).2.2 s _ hs t
      { searchPath := some [] } (by decide +kernel) hnothing _).mpr (.inr (.inl ?_))
    rw [hplugins]
    decide +kernel

-- An empty search path is nothing to store, and it still loads the plugin.
theorem plugin_loaded_for_empty_search_path :
    let m := Mutation.adding "pythonpath" (.list [])
    let d : Draft := m.apply (some "python") {}
    let s : Section := (Section.named none).setPython { searchPath := some [] }
    ¬m.Stores ∧ d.activations = ["python"] ∧ d.options = ∅ ∧
    s.plugins = ["python"] ∧ s.options.entries = [("plugin", .list ["python"])] := by
  refine ⟨fun h => h.2.2 rfl, ?_⟩
  decide +kernel

end Vassal
