import Vassal.Proofs.Options.Frame
import Vassal.Proofs.Section.Plugins
import Vassal.Proofs.Section.PythonVersion

-- Plugins that a server must not start without.
--
-- A directive of their own names them. A plugin is registered once and keeps the directive that it
-- was registered with, so that one which is merely loaded cannot be required later on.

namespace Vassal.Section

open Store

section Quiet

variable {keys : List String} (s : Section)

-- Effects that ask for no plugin change nothing but options.
theorem exists_options_runAll {effects : List Effect} (hkeys : ∀ e ∈ effects, e.keys ⊆ keys)
    (hquiet : ∀ e ∈ effects, ∀ plugin, e ≠ .activate plugin) :
    ∃ options, s.options.EditedIn keys options ∧ Effect.runAll effects s = { s with options } := by
  induction effects generalizing s with
  | nil => exact ⟨s.options, .refl _ _, rfl⟩
  | cons e rest ih =>
    rw [List.forall_mem_cons] at hkeys hquiet
    obtain ⟨f, hrun, hf⟩ := Effect.run_of_ne_activate (τ := Section) hquiet.1
    have hfirst : e.run s = { s with options := f s.options } := hrun s
    obtain ⟨options, hedited, hrest⟩ := ih (e.run s) hkeys.2 hquiet.2
    rw [hfirst] at hedited hrest
    refine ⟨options, (hf keys hkeys.1 s.options).trans hedited, ?_⟩
    rw [← hrest, ← hfirst]
    rfl

theorem exists_options_set {m : Mutation} (hm : m.Plain) :
    ∃ options, s.options.EditedIn [m.key] options ∧ s.set m = { s with options } := by
  have hrun : s.set m = Effect.runAll (m.effects none) s := rfl
  rw [hrun]
  refine s.exists_options_runAll ?_ ?_
  · exact hm.keys_eq ▸ m.keys_effects none
  · rintro e he plugin rfl
    have hplugin : plugin ∈ m.activations none := List.mem_filterMap.mpr ⟨_, he, rfl⟩
    simpa using hm.of_mem_activations none hplugin

end Quiet

section Register

variable (command : String) (plugins : List String) (s : Section)

theorem editedIn_registerAll :
    s.options.EditedIn [command] (plugins.foldl (·.registerPlugin command) s).options := by
  induction plugins generalizing s with
  | nil => exact .refl _ _
  | cons plugin rest ih => exact (s.editedIn_registerPlugin command plugin).trans (ih _)

theorem Has.registerAll {s : Section} {plugin : String} (h : s.Has plugin) :
    (plugins.foldl (·.registerPlugin command) s).Has plugin := by
  induction plugins generalizing s with
  | nil => exact h
  | cons other rest ih => exact ih (h.registerPlugin command other)

theorem has_registerAll {plugin : String} (hplugin : plugin ∈ plugins) :
    (plugins.foldl (·.registerPlugin command) s).Has plugin := by
  induction plugins generalizing s with
  | nil => cases hplugin
  | cons first rest ih =>
    rcases List.mem_cons.mp hplugin with rfl | hrest
    · exact (s.has_registerPlugin command plugin).registerAll command rest
    · exact ih _ hrest

end Register

-- Apart from registering the plugins, the call works on two options.
theorem exists_options_setPlugins (s : Section) (p : PluginsParams) :
    let registered := p.plugins.foldl (·.registerPlugin p.command) s
    ∃ options, registered.options.EditedIn ["plugins-dir", "autoload"] options ∧
      s.setPlugins p = { registered with options } := by
  intro registered
  obtain ⟨dirs, hdirs, hset⟩ := registered.exists_options_set (plain_searchDirs p.searchDirs)
  obtain ⟨options, hoptions, hflag⟩ :=
    exists_options_set { registered with options := dirs }
      (Mutation.Plain.ofFlag "autoload" p.autoload)
  refine ⟨options, (hdirs.mono (by simp [searchDirsMutation])).trans
    (hoptions.mono (by simp [Mutation.ofFlag])), ?_⟩
  rw [setPlugins_eq, hset, hflag]

-- One of the two directives names a registered plugin, and only one of them.
theorem Registered.mem_need_iff {s : Section} (h : s.Registered) {plugin : String}
    (hplugin : plugin ∈ s.plugins) :
    plugin ∈ s.options.texts "need-plugin" ↔ plugin ∉ s.options.texts "plugin" := by
  have hnodup : (s.options.texts "plugin" ++ s.options.texts "need-plugin").Nodup :=
    h.perm.nodup_iff.mpr h.nodup
  have hlisted := h.perm.mem_iff.mpr hplugin
  rw [List.mem_append] at hlisted
  constructor
  · exact fun hneed hload => (List.nodup_append.mp hnodup).2.2 _ hload _ hneed rfl
  · exact fun hload => hlisted.resolve_left hload

-- After any history, a plugin that is required from then on is named as such, unless the server has
-- it built in or a line loads it already. Such a line stays as it is.
theorem required_iff_not_loaded (env : Environment) (ops : List Operation) (name : Option String)
    {p : PluginsParams} (hrequired : p.required = true) :
    let s := Operation.reachAll env ops (named name)
    (s.setPlugins p).linesUnder "plugin" = s.linesUnder "plugin" ∧
    ∀ plugin ∈ p.plugins, plugin ∉ s.embedded →
      (plugin ∈ (s.setPlugins p).linesUnder "need-plugin" ↔ plugin ∉ s.linesUnder "plugin") := by
  intro s
  have hs : s.Registered := registered_reachAll env ops name
  have hedit : Edit (fun _ => True) s (s.setPlugins p) := .plugins s p
  have ht : (s.setPlugins p).Registered := hs.editStep hedit
  have hcommand : p.command = "need-plugin" := by simp [PluginsParams.command, hrequired]
  have hregistered := editedIn_registerAll "need-plugin" p.plugins s
  obtain ⟨options, hedited, hset⟩ := s.exists_options_setPlugins p
  rw [hcommand] at hedited hset
  have hloaded : (s.setPlugins p).options.texts "plugin" = s.options.texts "plugin" := by
    rw [hset]
    exact (Store.texts_congr_without _ _ _ _ (by decide) hedited.without).trans
      (Store.texts_congr_without _ _ _ _ (by decide) hregistered.without)
  rw [linesUnder_eq_texts hs.distinct, linesUnder_eq_texts ht.distinct,
    linesUnder_eq_texts ht.distinct]
  refine ⟨hloaded, fun plugin hplugin hembedded => ?_⟩
  have hhas : (s.setPlugins p).Has plugin :=
    hset ▸ has_registerAll "need-plugin" p.plugins s hplugin
  have hkept : (s.setPlugins p).embedded = s.embedded := by
    obtain ⟨_, _, _, hframe⟩ := hedit.framed
    rw [hframe]
  rw [ht.mem_need_iff (hhas.resolve_right (hkept ▸ hembedded)), hloaded]

-- Of the plugins that are named the first is built in, and the second has been required before.
theorem required_beside_built_in :
    let ops : List Operation :=
      [.embed (.listed ["http"]), .plugins { plugins := ["geoip"], required := true },
        .logger (.socket "/run/log.sock") false none]
    let s := Operation.reachAll (fun _ => none) ops (named (some "app"))
    let p : PluginsParams := { plugins := ["http", "geoip", "python3"], required := true }
    p.required = true ∧ "python3" ∈ p.plugins ∧ "python3" ∉ s.embedded ∧
    (s.setPlugins p).linesUnder "plugin" = ["logsocket"] ∧
    (s.setPlugins p).linesUnder "need-plugin" = ["geoip", "python3"] ∧
    "python3" ∈ (s.setPlugins p).linesUnder "need-plugin" := by
  intro ops s p
  have hembedded : "python3" ∉ s.embedded := by decide +kernel
  have hloaded : "python3" ∉ s.linesUnder "plugin" := by decide +kernel
  refine ⟨rfl, by decide, hembedded, by decide +kernel, by decide +kernel, ?_⟩
  exact ((required_iff_not_loaded _ ops (some "app") rfl).2 "python3" (by decide)
    hembedded).mpr hloaded

-- The preset has asked for its plugin already, and the server starts without it all the same.
theorem preset_plugin_not_required :
    let ops : List Operation := [.nicePython {} {} none]
    let s := Operation.reachAll (fun _ => none) ops (named none)
    let p : PluginsParams := { plugins := ["python"], required := true }
    "python" ∈ p.plugins ∧ "python" ∉ s.embedded ∧
    (s.setPlugins p).linesUnder "plugin" = ["python"] ∧
    (s.setPlugins p).linesUnder "need-plugin" = [] := by
  decide +kernel

end Vassal.Section
