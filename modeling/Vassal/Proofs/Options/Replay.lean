import Vassal.Proofs.Options.Frame
import Vassal.Proofs.Options.History

-- Calls that are made a second time.
--
-- The first call leaves every plugin that it asks for registered, and under every name that its
-- value brings along what was merged there last. So the second one merges what is there already,
-- and its own value goes back to the place that it has.

namespace Vassal

namespace Store

section Assignments

variable {s t : Store}

-- Under each name of another store stands what was merged from there last.
def Carries (s other : Store) : Prop :=
  ∀ key ∈ other.keys, s.get? key = other.entries.reverse.lookup key

theorem Carries.subset_keys {other : Store} (h : s.Carries other) : other.keys ⊆ s.keys := by
  intro key hkey
  obtain ⟨value, hvalue⟩ := Option.isSome_iff_exists.mp (isSome_lookup_reverse hkey)
  exact mem_keys_of_get? ((h key hkey).trans hvalue)

theorem Carries.merge {other : Store} (h : s.Carries other) (more : Store) :
    (s.merge more).Carries ⟨other.entries ++ more.entries⟩ := by
  intro key hkey
  rw [get?_merge, List.reverse_append, List.lookup_append]
  by_cases hmore : key ∈ more.keys
  · rw [Option.or_of_isSome (isSome_lookup_reverse hmore),
      Option.or_of_isSome (isSome_lookup_reverse hmore)]
  · have hother : key ∈ other.keys := by
      rw [Store.keys, List.map_append, List.mem_append] at hkey
      exact hkey.resolve_right hmore
    rw [h key hother]

theorem Carries.congr {other : Store} (h : s.Carries other)
    (hget : ∀ key ∈ other.keys, t.get? key = s.get? key) : t.Carries other :=
  fun key hkey => (hget key hkey).trans (h key hkey)

end Assignments

namespace Write

-- The operation puts a value under a name, whatever stood there before.
inductive Replaces (key : String) : Value → Write → Prop
  | insert (value : Value) : Replaces key value (.insert key value)
  | insertAt (text : String) (position : Nat) :
      Replaces key (.single text) (.insertAt key (.single text) position)

namespace Replaces

variable {key : String} {value : Value} {w : Write} (h : w.Replaces key value)
include h

theorem get?_run {s : Store} (hs : s.Distinct) (name : String) :
    (w.run s).get? name = if name = key then some value else s.get? name := by
  rw [w.get?_run hs]
  cases h with
  | insert => simp only [Write.keys, List.mem_singleton, outcome]
  | insertAt text =>
    have hplaced : placed (s.get? name) (.single text) = .single text := by
      unfold placed
      split
      · contradiction
      · rfl
    simp only [Write.keys, List.mem_singleton, outcome, hplaced]

theorem subset_order (names : List String) : names ⊆ w.order names := by
  intro name hname
  cases h with
  | insert => exact subset_addName names key hname
  | insertAt text position =>
    refine (List.mem_insertIdx (Nat.min_le_right _ _)).mpr ?_
    by_cases hkey : name = key
    · exact .inl hkey
    · exact .inr (List.mem_filter.mpr ⟨hname, by simpa using hkey⟩)

-- The place of the name among the others does not depend on where it stood before.
theorem order_order (names : List String) : w.order (w.order names) = w.order names := by
  cases h with
  | insert => exact addName_of_mem (mem_addName_self names key)
  | insertAt text position =>
    have hothers : ∀ i, ((names.filter (· ≠ key)).insertIdx i key).filter (· ≠ key) =
        names.filter (· ≠ key) := by
      intro i
      rw [filter_insertIdx _ _ _ _ (by simp), List.filter_filter]
      simp
    simp only [order, hothers]

-- What has been merged before a value was put in its place may be merged again.
theorem run_merge_run {s other : Store} (hs : s.Distinct) (hcarries : s.Carries other) :
    w.run ((w.run s).merge other) = w.run s := by
  have hrun : (w.run s).Distinct := w.distinct_run hs
  have hmerge : ((w.run s).merge other).Distinct := hrun.merge other
  have hsubset : other.keys ⊆ (w.run s).keys := by
    rw [w.keys_run hs]
    exact List.Subset.trans hcarries.subset_keys (h.subset_order s.keys)
  have hkeys : ((w.run s).merge other).keys = w.order s.keys := by
    rw [keys_merge, foldl_addName hsubset, w.keys_run hs]
  refine hrun.eq_of_keys_of_get? ?_ fun name => ?_
  · rw [w.keys_run hmerge, hkeys, h.order_order, w.keys_run hs]
  · rw [h.get?_run hmerge, h.get?_run hs, get?_merge, h.get?_run hs]
    split
    case isTrue => rfl
    case isFalse =>
      by_cases hname : name ∈ other.keys
      · rw [hcarries name hname, Option.or_self]
      · rw [List.lookup_eq_none_iff.mpr, Option.none_or]
        intro entry hentry
        have hmem : entry.1 ∈ other.keys := List.mem_map_of_mem (List.mem_reverse.mp hentry)
        simpa using fun heq : name = entry.1 => hname (heq ▸ hmem)

end Replaces

end Write

end Store

namespace Effect

-- What an effect adds to the options before anything is stored.
def brought : Effect → List (String × Value)
  | merge options => options.entries
  | _ => []

-- All that a list of effects merges, in its order.
def merged (effects : List Effect) : Store :=
  ⟨effects.flatMap brought⟩

-- The effect asks for a plugin or merges options.
def Prepares : Effect → Prop
  | activate _ | merge _ => True
  | _ => False

theorem merged_append (first second : List Effect) :
    merged (first ++ second) = ⟨(merged first).entries ++ (merged second).entries⟩ :=
  congrArg Store.mk List.flatMap_append

section Prepares

variable {effects : List Effect} (hprepares : ∀ e ∈ effects, e.Prepares)
include hprepares

-- What was merged is found until it is merged over: a plugin that is registered has its line under
-- another name.
theorem carries_runAll (hplugin : "plugin" ∉ (merged effects).keys) (s : Section) :
    (runAll effects s).options.Carries (merged effects) := by
  induction effects using List.reverseRecOn with
  | nil => exact fun key hkey => nomatch hkey
  | append_singleton before last ih =>
    rw [List.forall_mem_append, List.forall_mem_singleton] at hprepares
    rw [merged_append] at hplugin ⊢
    rw [Store.keys, List.map_append, List.mem_append, not_or] at hplugin
    have hbefore := ih hprepares.1 hplugin.1
    rw [runAll_append]
    cases last with
    | activate plugin =>
      have hnone : (merged [activate plugin]).entries = [] := rfl
      rw [hnone, List.append_nil]
      refine hbefore.congr fun key hkey => ?_
      have hne : key ∉ ["plugin"] := by
        rintro hmem
        exact hplugin.1 (List.mem_singleton.mp hmem ▸ hkey)
      exact Store.get?_congr_without _ _ ["plugin"] key hne
        ((runAll before s).editedIn_registerPlugin "plugin" plugin).without
    | merge options =>
      have hone : (merged [merge options]).entries = options.entries := List.append_nil _
      rw [hone]
      exact hbefore.merge options
    | erase | insert | extend | insertAt => exact (hprepares.2).elim

-- In a section that has all the plugins nothing is left but to merge.
theorem runAll_of_has {s : Section}
    (hhas : ∀ plugin ∈ effects.filterMap activated?, s.Has plugin) :
    runAll effects s = { s with options := s.options.merge (merged effects) } := by
  induction effects generalizing s with
  | nil => rfl
  | cons first rest ih =>
    rw [List.forall_mem_cons] at hprepares
    cases first with
    | activate plugin =>
      have hhas : ∀ other ∈ plugin :: rest.filterMap activated?, s.Has other := hhas
      rw [List.forall_mem_cons] at hhas
      have hsame : run s (activate plugin) = s := Section.registerPlugin_of_has hhas.1 "plugin"
      have hmerged : merged (activate plugin :: rest) = merged rest := rfl
      rw [hmerged, ← ih hprepares.2 hhas.2]
      exact congrArg (runAll rest) hsame
    | merge options =>
      have hrest := ih hprepares.2 (s := run s (merge options)) hhas
      have hmerged : (s.options.merge options).merge (merged rest) =
          s.options.merge (merged (merge options :: rest)) :=
        List.foldl_append.symm
      rw [← hmerged]
      exact hrest
    | erase | insert | extend | insertAt => exact (hprepares.1).elim

end Prepares

end Effect

namespace Mutation

variable (m : Mutation) (groupPlugin : Option String)

theorem prepares_preparation : ∀ e ∈ m.preparation groupPlugin, e.Prepares := by
  have hactivate : ∀ plugin : Option String, ∀ e ∈ Effect.activateAll plugin, e.Prepares :=
    Effect.forall_mem_activateAll fun _ => trivial
  unfold preparation
  simp only [List.forall_mem_append]
  refine ⟨⟨hactivate groupPlugin, hactivate m.plugin⟩, fun e he => ?_⟩
  obtain ⟨a, _, hmem⟩ := List.mem_flatMap.mp he
  cases a with
  | param p =>
    rcases List.mem_append.mp hmem with hasked | hmerged
    · exact hactivate p.plugin e hasked
    · rw [List.mem_singleton.mp hmerged]
      trivial
  | _ => exact nomatch hmem

-- Only the options that come with a value are merged.
theorem exists_param_of_merged {key : String}
    (hkey : key ∈ (Effect.merged (m.preparation groupPlugin)).keys) :
    ∃ p ∈ m.value.params, key ∈ p.options.keys := by
  obtain ⟨entry, hentry, rfl⟩ := List.mem_map.mp hkey
  obtain ⟨e, he, hbrought⟩ := List.mem_flatMap.mp hentry
  have hnone : ∀ plugin : Option String, e ∉ Effect.activateAll plugin := by
    intro plugin hmem
    have hempty : e.brought = [] :=
      Effect.forall_mem_activateAll (P := (·.brought = [])) (fun _ => rfl) plugin e hmem
    exact List.not_mem_nil (hempty ▸ hbrought)
  unfold preparation at he
  simp only [List.mem_append, hnone, false_or] at he
  obtain ⟨a, ha, hmem⟩ := List.mem_flatMap.mp he
  cases a with
  | param p =>
    rcases List.mem_append.mp hmem with hasked | hmerged
    · exact absurd hasked (hnone p.plugin)
    · rw [List.mem_singleton.mp hmerged] at hbrought
      have hp : p ∈ m.value.params :=
        mem_params_value_iff.mpr (.inl (m.mem_surface_of_param ha))
      exact ⟨p, hp, List.mem_map_of_mem hbrought⟩
  | _ => exact nomatch hmem

variable {m}

theorem exists_replaces_of_single (hmulti : m.multi = false) :
    ∃ w value, Store.Write.Replaces m.storedKey value w ∧
      ∀ s : Section, Effect.runAll m.placement s = { s with options := w.run s.options } := by
  unfold placement
  simp only [hmulti, Bool.false_eq_true, if_false]
  cases m.priority with
  | none => exact ⟨_, _, .insert (.single m.joined.render), fun _ => rfl⟩
  | some position => exact ⟨_, _, .insertAt m.joined.render position, fun _ => rfl⟩

-- A call of an option that is not repeated can be made again without leaving a trace: the plugins
-- that it asks for are there, what its values bring along has been merged, and its own text goes
-- where it stands already. That the values bring along no lines that load plugins is needed: such
-- a line would be merged over those of the plugins that the first call has registered.
theorem apply_apply (hmulti : m.multi = false)
    (hnested : ∀ p ∈ m.value.params, "plugin" ∉ p.options.keys) {s : Section}
    (hdistinct : s.options.Distinct) :
    m.apply groupPlugin (m.apply groupPlugin s) = m.apply groupPlugin s := by
  rcases m.effects_cases groupPlugin with hnone | herase | hall
  · unfold apply
    rw [hnone]
    rfl
  · unfold apply
    rw [herase]
    exact congrArg (fun options => { s with options }) (hdistinct.erase_erase m.key)
  · obtain ⟨w, value, hreplaces, hplacement⟩ := exists_replaces_of_single hmulti
    have hprepares := m.prepares_preparation groupPlugin
    have hplugin : "plugin" ∉ (Effect.merged (m.preparation groupPlugin)).keys := by
      intro hmem
      obtain ⟨p, hp, hkey⟩ := m.exists_param_of_merged groupPlugin hmem
      exact hnested p hp hkey
    have happly : ∀ t : Section, m.apply groupPlugin t =
        { m.prepared groupPlugin t with
          options := w.run (m.prepared groupPlugin t).options } := by
      intro t
      rw [apply, hall, Effect.runAll_append, hplacement]
      rfl
    have hbefore : (m.prepared groupPlugin s).options.Distinct :=
      Effect.distinct_runAll (t := s) hdistinct _
    have hcarries := Effect.carries_runAll hprepares hplugin s
    have hhas : ∀ plugin ∈ (m.preparation groupPlugin).filterMap Effect.activated?,
        (m.apply groupPlugin s).Has plugin := by
      intro plugin hmem
      rw [happly]
      exact Section.has_runAll _ s hmem
    have hagain : m.prepared groupPlugin (m.apply groupPlugin s) =
        { m.apply groupPlugin s with
          options := (m.apply groupPlugin s).options.merge
            (Effect.merged (m.preparation groupPlugin)) } :=
      Effect.runAll_of_has hprepares hhas
    rw [happly (m.apply groupPlugin s), hagain, happly s]
    simp only [hreplaces.run_merge_run hbefore hcarries]

-- Two parts of a tuple bring the same option along, and the text goes between the options that were
-- there before.
theorem apply_apply_of_tuple :
    let gzip : Param :=
      { name := "gzip", stripped := true, plugin := some "transformation_gzip"
        options := ⟨[("buffer-size", .single "4096"), ("route", .single "none")]⟩ }
    let cache : Param :=
      { name := "cache", args := ["key=x"], plugin := some "router_cache"
        options := ⟨[("cache2", .single "name=x"), ("buffer-size", .single "8192")]⟩ }
    let m : Mutation :=
      { key := "route", value := .tuple [.text "^/", .param gzip, .param cache]
        plugin := some "geoip", priority := some 1 }
    let s : Section :=
      { options := ⟨[("master", .single "true"), ("workers", .single "2")]⟩
        embedded := ["router_cache"] }
    (∀ p ∈ m.value.params, "plugin" ∉ p.options.keys) ∧ s.options.Distinct ∧
    m.apply (some "python") (m.apply (some "python") s) = m.apply (some "python") s ∧
    (m.apply (some "python") s).lines =
      ["[uwsgi]", "master = true", "route = ^/ gzip cache:key=x", "workers = 2", "plugin = python",
        "plugin = geoip", "plugin = transformation_gzip", "buffer-size = 8192",
        "cache2 = name=x"] := by
  intro gzip cache m s
  have hnested : ∀ p ∈ m.value.params, "plugin" ∉ p.options.keys := by decide
  have hdistinct : s.options.Distinct := by
    unfold Store.Distinct
    decide
  exact ⟨hnested, hdistinct, apply_apply (some "python") rfl hnested hdistinct, by decide +kernel⟩

end Mutation

end Vassal
