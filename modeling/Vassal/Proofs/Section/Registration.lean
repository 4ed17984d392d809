import Vassal.Proofs.Section.PythonVersion

-- The plugins that a section comes by.
--
-- Between two states of a section some plugins have been asked for. Those that it had stay as they
-- are, and each of the others gets one line, after all the lines of the directive.

namespace Vassal.Section

-- From one state to the next the fresh plugins are registered: the ones asked for that the section
-- did not have.
structure Registers (asked : String → Prop) (fresh : List String) (s t : Section) : Prop where
  embedded : t.embedded = s.embedded
  nodup : fresh.Nodup
  mem_iff : ∀ plugin, plugin ∈ fresh ↔ asked plugin ∧ ¬s.Has plugin
  plugins : t.plugins = s.plugins ++ fresh
  value : t.options.get? "plugin" = s.options.added "plugin" fresh

namespace Registers

variable {asked : String → Prop} {fresh : List String} {s t u : Section}

theorem refl (s : Section) : Registers (fun _ => False) [] s s where
  embedded := rfl
  nodup := List.nodup_nil
  mem_iff := by simp
  plugins := (List.append_nil _).symm
  value := (s.options.added_nil "plugin").symm

theorem mono {more : String → Prop} (h : Registers asked fresh s t)
    (hmore : ∀ plugin, asked plugin ↔ more plugin) : Registers more fresh s t :=
  { h with mem_iff := fun plugin => by rw [← hmore, h.mem_iff] }

-- What the groups were before is of no account.
theorem of_groups {groups : GroupCache (Option Version)}
    (h : Registers asked fresh { s with groups } t) : Registers asked fresh s t :=
  ⟨h.embedded, h.nodup, h.mem_iff, h.plugins, h.value⟩

theorem has_iff (h : Registers asked fresh s t) {plugin : String} :
    t.Has plugin ↔ s.Has plugin ∨ asked plugin := by
  unfold Has
  rw [h.plugins, h.embedded, List.mem_append, h.mem_iff]
  unfold Has
  tauto

-- What is asked for later is fresh unless it was asked for before.
theorem trans {later : String → Prop} {fresher : List String} (h : Registers asked fresh s t)
    (hlater : Registers later fresher t u) :
    Registers (fun plugin => asked plugin ∨ later plugin) (fresh ++ fresher) s u where
  embedded := hlater.embedded.trans h.embedded
  nodup := by
    refine List.nodup_append.mpr ⟨h.nodup, hlater.nodup, ?_⟩
    rintro plugin hfresh _ hfresher rfl
    have hasked : t.Has plugin := h.has_iff.mpr (.inr ((h.mem_iff plugin).mp hfresh).1)
    exact ((hlater.mem_iff plugin).mp hfresher).2 hasked
  mem_iff plugin := by
    rw [List.mem_append, h.mem_iff, hlater.mem_iff, h.has_iff]
    tauto
  plugins := by rw [hlater.plugins, h.plugins, List.append_assoc]
  value := hlater.value.trans (Store.added_of_added h.value fresher)

-- Options that do not load plugins are of no account.
theorem edit (h : Registers asked fresh s t) {keys : List String} (hkeys : "plugin" ∉ keys)
    {options : Store} (hedit : t.options.EditedIn keys options) :
    Registers asked fresh s { t with options } :=
  { h with
    value := (Store.get?_congr_without _ _ keys "plugin" hkeys hedit.without).trans h.value }

theorem activate (s : Section) (plugin : String) :
    ∃ fresh, Registers (· = plugin) fresh s (s.activate plugin) := by
  unfold Section.activate registerPlugin
  split
  case isTrue hhas =>
    have hhas : s.Has plugin := by simpa [Has, or_comm] using hhas
    refine ⟨[], { Registers.refl s with mem_iff := fun other => ?_ }⟩
    have hnone : ¬(other = plugin ∧ ¬s.Has other) := fun h => h.2 (h.1 ▸ hhas)
    simpa using hnone
  case isFalse hnot =>
    have hnot : ¬s.Has plugin := by simpa [Has, or_comm] using hnot
    refine ⟨[plugin], rfl, List.nodup_singleton _, fun other => ?_, rfl,
      s.options.get?_extend "plugin" (List.cons_ne_nil _ _)⟩
    rw [List.mem_singleton]
    exact ⟨fun h => ⟨h, h ▸ hnot⟩, And.left⟩

end Registers

-- Effects on other options register the plugins that they ask for, and no others.
theorem registers_runAll {effects : List Effect} (hkeys : ∀ e ∈ effects, "plugin" ∉ e.keys)
    (s : Section) : ∃ fresh, Registers (· ∈ effects.filterMap Effect.activated?) fresh s
      (Effect.runAll effects s) := by
  induction effects generalizing s with
  | nil => exact ⟨[], (Registers.refl s).mono fun plugin => by simp⟩
  | cons e rest ih =>
    rw [List.forall_mem_cons] at hkeys
    have hfirst : ∃ fresh, Registers (e.activated? = some ·) fresh s (e.run s) := by
      by_cases he : ∃ plugin, e = .activate plugin
      · obtain ⟨plugin, rfl⟩ := he
        obtain ⟨fresh, hfresh⟩ := Registers.activate s plugin
        exact ⟨fresh, hfresh.mono fun other => by simp [Effect.activated?, eq_comm]⟩
      · obtain ⟨f, hrun, hf⟩ := Effect.run_of_ne_activate (τ := Section) (not_exists.mp he)
        have hnone : e.activated? = none := by
          cases e <;> first | rfl | exact absurd ⟨_, rfl⟩ he
        rw [hrun s, hnone]
        exact ⟨[], ((Registers.refl s).edit hkeys.1 (hf _ (List.Subset.refl _) _)).mono
          fun plugin => by simp⟩
    obtain ⟨fresh, hfresh⟩ := hfirst
    obtain ⟨fresher, hfresher⟩ := ih hkeys.2 (e.run s)
    refine ⟨fresh ++ fresher, (hfresh.trans hfresher).mono fun plugin => ?_⟩
    cases h : e.activated? <;> simp [h, eq_comm]

section Groups

variable {kind : GroupKind}

-- The plugin that a group asks for with each of its options.
def groupPlugin (s : Section) (kind : GroupKind) : Option String :=
  if kind.autoPlugin then some (s.groupName kind) else none

theorem groupName_congr {s t : Section} (hgroups : t.groups = s.groups) (kind : GroupKind) :
    t.groupName kind = s.groupName kind := by
  unfold groupName
  rw [hgroups]

theorem groupPlugin_congr {s t : Section} (hgroups : t.groups = s.groups) (kind : GroupKind) :
    t.groupPlugin kind = s.groupPlugin kind := by
  unfold groupPlugin
  rw [groupName_congr hgroups]

theorem enter_enter (s : Section) (kind : GroupKind) :
    (s.enter kind).enter kind = s.enter kind := by
  unfold enter GroupCache.enter
  rw [GroupCache.modify_modify]
  rfl

-- A version is remembered, and only a new one replaces it.
theorem enter_rememberVersion (s : Section) (kind : GroupKind) (version : Option Version) :
    ((s.enter kind).rememberVersion kind version).enter kind =
      { s with groups := s.groups.modify kind (version <|> ·) } := by
  unfold rememberVersion setVersion enter GroupCache.enter
  cases version <;> simp only [GroupCache.modify_modify] <;> rfl

-- A group that has been asked for once is not changed by its own calls, so all of them ask for the
-- same plugin.
theorem foldl_setIn_eq {s : Section} (hentered : s.enter kind = s) (ms : List Mutation) :
    ms.foldl (fun s m => s.setIn kind m) s =
      Effect.runAll (ms.flatMap (·.effects (s.groupPlugin kind))) s := by
  induction ms generalizing s with
  | nil => rfl
  | cons m rest ih =>
    have hset : s.setIn kind m = m.apply (s.groupPlugin kind) s := by
      unfold setIn
      rw [hentered]
      rfl
    have hgroups : (m.apply (s.groupPlugin kind) s).groups = s.groups := groups_apply _ _ s
    have hkept : s.groups.enter kind = s.groups := congrArg Section.groups hentered
    have hstays : (m.apply (s.groupPlugin kind) s).enter kind =
        m.apply (s.groupPlugin kind) s := by
      rw [enter, hgroups, hkept, ← hgroups]
    rw [List.foldl_cons, hset, ih hstays, groupPlugin_congr hgroups, List.flatMap_cons,
      Effect.runAll_append]
    rfl

theorem setAllIn_eq (s : Section) (kind : GroupKind) (ms : List Mutation) :
    s.setAllIn kind ms =
      Effect.runAll (ms.flatMap (·.effects ((s.enter kind).groupPlugin kind))) (s.enter kind) :=
  foldl_setIn_eq (s.enter_enter kind) ms

-- The settings of a group leave all plugin lines to the plugins that they ask for.
theorem registers_setAllIn {ms : List Mutation} (hms : ∀ m ∈ ms, GroupSetting kind m)
    (s : Section) : ∃ fresh, Registers
      (fun plugin => ∃ m ∈ ms, plugin ∈ m.activations ((s.enter kind).groupPlugin kind))
      fresh s (s.setAllIn kind ms) := by
  have hkeys : ∀ e ∈ ms.flatMap (·.effects ((s.enter kind).groupPlugin kind)),
      "plugin" ∉ e.keys := by
    intro e he hplugin
    obtain ⟨m, hm, hmem⟩ := List.mem_flatMap.mp he
    exact (hms m hm).not_mem_keys (by decide) (m.keys_effects _ e hmem hplugin)
  obtain ⟨fresh, hfresh⟩ := registers_runAll hkeys (s.enter kind)
  rw [← setAllIn_eq] at hfresh
  refine ⟨fresh, hfresh.of_groups.mono fun plugin => ?_⟩
  rw [List.filterMap_flatMap, List.mem_flatMap]
  rfl

end Groups

end Vassal.Section
