import Vassal.Proofs.Section.Reach

-- Registered plugins and the lines that load them.

namespace Vassal.Section

-- What a section writes under a name, line by line.
def linesUnder (s : Section) (key : String) : List String :=
  (s.options.directives.filter (·.1 = key)).map Prod.snd

-- Every registered plugin has its line, under one of the two directives that load plugins.
structure Registered (s : Section) : Prop where
  distinct : s.options.Distinct
  nodup : s.plugins.Nodup
  perm : (s.options.texts "plugin" ++ s.options.texts "need-plugin").Perm s.plugins
  plugin_sublist : (s.options.texts "plugin").Sublist s.plugins
  need_sublist : (s.options.texts "need-plugin").Sublist s.plugins

theorem linesUnder_eq_texts {s : Section} (h : s.options.Distinct) (key : String) :
    s.linesUnder key = s.options.texts key :=
  h.map_filter_directives key

theorem registered_named (name : Option String) : (named name).Registered where
  distinct := Store.distinct_empty
  nodup := List.nodup_nil
  perm := .refl _
  plugin_sublist := .refl _
  need_sublist := .refl _

namespace Registered

variable {s : Section} (h : s.Registered)
include h

-- Only the options and the plugins count.
theorem congr {t : Section} (hoptions : t.options = s.options) (hplugins : t.plugins = s.plugins) :
    t.Registered where
  distinct := hoptions ▸ h.distinct
  nodup := hplugins ▸ h.nodup
  perm := by rw [hoptions, hplugins]; exact h.perm
  plugin_sublist := by rw [hoptions, hplugins]; exact h.plugin_sublist
  need_sublist := by rw [hoptions, hplugins]; exact h.need_sublist

theorem edit {keys : List String} {options : Store}
    (hkeys : ∀ command ∈ pluginCommands, command ∉ keys)
    (hedit : s.options.EditedIn keys options) : Registered { s with options } := by
  have htexts : ∀ command ∈ pluginCommands, options.texts command = s.options.texts command :=
    fun command hcommand =>
      Store.texts_congr_without options s.options keys command (hkeys command hcommand)
        hedit.without
  have hplugin := htexts "plugin" (by decide)
  have hneed := htexts "need-plugin" (by decide)
  exact {
    distinct := hedit.distinct h.distinct
    nodup := h.nodup
    perm := by rw [hplugin, hneed]; exact h.perm
    plugin_sublist := by rw [hplugin]; exact h.plugin_sublist
    need_sublist := by rw [hneed]; exact h.need_sublist }

-- A plugin that is neither built in nor registered gets one line, after all others of its
-- directive; the other directive keeps its lines.
theorem registerPlugin {command : String} (hcommand : command ∈ pluginCommands) (plugin : String) :
    (s.registerPlugin command plugin).Registered := by
  unfold Section.registerPlugin
  split
  · exact h
  rename_i hnew
  have hfresh : plugin ∉ s.plugins := by
    intro hmem
    simp [hmem] at hnew
  have hnodup : (s.plugins ++ [plugin]).Nodup :=
    List.nodup_append.mpr ⟨h.nodup, List.nodup_singleton _, by
      rintro a ha b hb rfl
      exact hfresh (List.mem_singleton.mp hb ▸ ha)⟩
  have hsub : ∀ texts : List String, texts.Sublist s.plugins →
      texts.Sublist (s.plugins ++ [plugin]) :=
    fun _ htexts => htexts.trans (List.sublist_append_left _ _)
  have hself := s.options.texts_extend command [plugin]
  have hother : ∀ other ≠ command,
      (s.options.extend command [plugin]).texts other = s.options.texts other :=
    fun other hne => Store.texts_congr_without _ _ [command] other (by simpa using hne)
      (s.options.without_extend [command] command [plugin] (by simp))
  have hdistinct := h.distinct.upsert command fun old =>
    .list ((old.map Value.lines).getD [] ++ [plugin])
  simp only [pluginCommands, List.mem_cons, List.not_mem_nil, or_false] at hcommand
  rcases hcommand with rfl | rfl
  · have hneed := hother "need-plugin" (by decide)
    refine ⟨hdistinct, hnodup, ?_, ?_, ?_⟩
    · rw [hself, hneed, List.append_assoc]
      refine (List.perm_append_comm.append_left _).trans ?_
      rw [← List.append_assoc]
      exact h.perm.append_right [plugin]
    · rw [hself]
      exact h.plugin_sublist.append (.refl _)
    · rw [hneed]
      exact hsub _ h.need_sublist
  · have hplugin := hother "plugin" (by decide)
    refine ⟨hdistinct, hnodup, ?_, ?_, ?_⟩
    · rw [hself, hplugin, ← List.append_assoc]
      exact h.perm.append_right [plugin]
    · rw [hplugin]
      exact hsub _ h.plugin_sublist
    · rw [hself]
      exact h.need_sublist.append (.refl _)

theorem editStep {targets : String → Prop} {t : Section} (hedit : Edit targets s t) :
    t.Registered :=
  hedit.induction (fun _ _ hs => hs.congr rfl rfl)
    (fun _ _ plugin hcommand hs => hs.registerPlugin hcommand plugin)
    (fun _ _ _ hkeys hedited hs => hs.edit hkeys hedited) h

theorem edits {targets : String → Prop} {t : Section} (hedits : Edits targets s t) :
    t.Registered := by
  induction hedits with
  | refl => exact h
  | tail _ hedit ih => exact ih.editStep hedit

theorem step {t : Section} (hstep : Operation.Step s t) : t.Registered := by
  cases hstep with
  | edit hedit => exact h.editStep hedit
  | enter | name | embedded | stylePrints => exact h.congr rfl rfl

end Registered

theorem registered_reachAll (env : Environment) (ops : List Operation) (name : Option String) :
    (Operation.reachAll env ops (named name)).Registered :=
  Operation.reachAll_induction env Registered (fun _ _ hstep hs => hs.step hstep) ops _
    (registered_named name)

-- After any history every registered plugin is written exactly once, by one of the two directives
-- that load plugins, and nothing else is written by them. Each of them keeps the order of
-- registration.
theorem plugin_lines_perm_plugins (env : Environment) (ops : List Operation)
    (name : Option String) :
    let s := Operation.reachAll env ops (named name)
    s.plugins.Nodup ∧
    (s.linesUnder "plugin" ++ s.linesUnder "need-plugin").Perm s.plugins ∧
    (s.linesUnder "plugin").Sublist s.plugins ∧
    (s.linesUnder "need-plugin").Sublist s.plugins := by
  intro s
  have h : s.Registered := registered_reachAll env ops name
  rw [linesUnder_eq_texts h.distinct, linesUnder_eq_texts h.distinct]
  exact ⟨h.nodup, h.perm, h.plugin_sublist, h.need_sublist⟩

end Vassal.Section
