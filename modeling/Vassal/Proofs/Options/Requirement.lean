import Vassal.Proofs.Options.Placement

-- The plugins that a call asks for, and the plugins that its value requires.
--
-- A value is a tree, and its text is made from all of it. The plugins are looked for on the surface
-- of the tree only: a parametrized value further down is written, but not heard.

namespace Vassal

namespace Arg

mutual

-- All parametrized values in a tree, however deep.
def params : Arg → List Param
  | param p => [p]
  | tuple parts => paramsOf parts
  | list elements => paramsOf elements
  | null => []
  | bool _ => []
  | text _ => []

def paramsOf : List Arg → List Param
  | [] => []
  | a :: rest => params a ++ paramsOf rest

end

theorem paramsOf_eq (args : List Arg) : paramsOf args = args.flatMap params := by
  induction args with
  | nil => simp [paramsOf]
  | cons a rest ih => simp [paramsOf, ih]

def plugin? : Arg → Option String
  | param p => p.plugin
  | _ => none

-- The parametrized values below the root of a tree.
def inner : Arg → List Param
  | param _ => []
  | a => a.params

theorem mem_params_iff {a : Arg} {p : Param} : p ∈ a.params ↔ a = .param p ∨ p ∈ a.inner := by
  cases a <;> simp [params, inner, eq_comm]

end Arg

namespace Effect

def activated? : Effect → Option String
  | activate plugin => some plugin
  | _ => none

theorem filterMap_activateAll (plugin : Option String) :
    (activateAll plugin).filterMap activated? = plugin.toList := by
  cases plugin <;> rfl

theorem filterMap_contributions (a : Arg) :
    a.contributions.filterMap activated? = a.plugin?.toList := by
  cases a with
  | param p => simp [Arg.contributions, filterMap_activateAll, activated?, Arg.plugin?]
  | _ => rfl

-- A record of activations holds those of the effects, in their order.
theorem activations_runAll (effects : List Effect) (d : Draft) :
    (runAll effects d).activations = d.activations ++ effects.filterMap activated? := by
  induction effects generalizing d with
  | nil => simp [runAll]
  | cons e rest ih =>
    have hrest := ih (e.run d)
    have hfirst : (e.run d).activations = d.activations ++ e.activated?.toList := by
      cases e <;> simp [run, Target.edit, Target.activate, activated?]
    rw [hfirst, List.append_assoc] at hrest
    cases h : e.activated? <;> simpa [runAll, h] using hrest

end Effect

namespace Section

-- The plugins that need not be asked for any more.
def Has (s : Section) (plugin : String) : Prop :=
  plugin ∈ s.plugins ∨ plugin ∈ s.embedded

theorem has_registerPlugin (s : Section) (command plugin : String) :
    (s.registerPlugin command plugin).Has plugin := by
  unfold registerPlugin
  split
  · rename_i h
    simpa [Has, or_comm] using h
  · simp [Has]

theorem registerPlugin_of_has {s : Section} {plugin : String} (h : s.Has plugin)
    (command : String) : s.registerPlugin command plugin = s :=
  if_pos (by simpa [Has, or_comm] using h)

theorem Has.registerPlugin {s : Section} {plugin : String} (h : s.Has plugin)
    (command other : String) : (s.registerPlugin command other).Has plugin := by
  unfold Section.registerPlugin
  split
  · exact h
  · exact h.imp (List.mem_append_left _) id

theorem Has.runAll {s : Section} {plugin : String} (h : s.Has plugin) (effects : List Effect) :
    (Effect.runAll effects s).Has plugin :=
  Effect.runAll_induction (P := fun s : Section => s.Has plugin)
    (fun _ he _ hkey => List.mem_flatMap_of_mem he hkey)
    (fun other _ hs => hs.registerPlugin "plugin" other) (fun _ _ _ hs => hs) h

theorem has_runAll (effects : List Effect) (s : Section) {plugin : String}
    (hplugin : plugin ∈ effects.filterMap Effect.activated?) :
    (Effect.runAll effects s).Has plugin := by
  induction effects generalizing s with
  | nil => simp at hplugin
  | cons e rest ih =>
    cases e with
    | activate other =>
      simp only [List.filterMap_cons, Effect.activated?, List.mem_cons] at hplugin
      rcases hplugin with rfl | hrest
      · exact (s.has_registerPlugin "plugin" plugin).runAll rest
      · exact ih _ hrest
    | _ => exact ih _ hplugin

theorem has_of_registerPlugin {s : Section} {command other plugin : String}
    (h : (s.registerPlugin command other).Has plugin) : s.Has plugin ∨ plugin = other := by
  unfold registerPlugin at h
  split at h
  · exact .inl h
  · rcases h with hplugin | hembedded
    · rw [List.mem_append, List.mem_singleton] at hplugin
      exact hplugin.imp_left .inl
    · exact .inl (.inr hembedded)

-- No plugin comes without being asked for.
theorem has_of_runAll {effects : List Effect} {s : Section} {plugin : String}
    (h : (Effect.runAll effects s).Has plugin) :
    s.Has plugin ∨ plugin ∈ effects.filterMap Effect.activated? := by
  induction effects generalizing s with
  | nil => exact .inl h
  | cons e rest ih =>
    cases e with
    | activate other =>
      simp only [List.filterMap_cons, Effect.activated?, List.mem_cons]
      rcases ih h with hfirst | hrest
      · exact (has_of_registerPlugin hfirst).imp_right .inl
      · exact .inr (.inr hrest)
    | merge | erase | insert | extend | insertAt => exact (ih h).imp_left id

end Section

namespace Mutation

-- The arguments that a call looks at one by one: the parts of a tuple, the elements of a list if
-- the option may be repeated, else the value as it stands.
def surface (m : Mutation) : List Arg :=
  match m.value with
  | .tuple parts => parts
  | .list elements => if m.multi then elements else [.list elements]
  | value => [value]

-- The parametrized values that are out of sight for a call.
def buried (m : Mutation) : List Param :=
  m.surface.flatMap Arg.inner

theorem params_value (m : Mutation) : m.value.params = m.surface.flatMap Arg.params := by
  unfold surface
  cases m.value with
  | list elements => cases m.multi <;> simp [Arg.params, Arg.paramsOf_eq]
  | tuple parts => simp [Arg.params, Arg.paramsOf_eq]
  | _ => simp

theorem mem_params_value_iff {m : Mutation} {p : Param} :
    p ∈ m.value.params ↔ .param p ∈ m.surface ∨ p ∈ m.buried := by
  unfold buried
  simp only [params_value, List.mem_flatMap, Arg.mem_params_iff, and_or_left, exists_or]
  simp

-- The plugins that a call asks for, in order.
def activations (m : Mutation) (groupPlugin : Option String) : List String :=
  (m.effects groupPlugin).filterMap Effect.activated?

section Activations

variable {m : Mutation} (groupPlugin : Option String)

theorem filterMap_placement : m.placement.filterMap Effect.activated? = [] := by
  unfold placement
  cases m.multi <;> cases m.priority <;> simp [Effect.activated?]

theorem filterMap_surface (hflag : m.flag = false) :
    (m.parts ++ m.stored).filterMap Arg.plugin? = m.surface.filterMap Arg.plugin? := by
  unfold stored joined parts surface flagged
  rw [if_neg (by simp [hflag])]
  cases m.value <;> cases m.multi <;> simp [Arg.elements, Arg.plugin?]

theorem activations_eq (hproceeds : m.proceeds = true) (hflag : m.flag = false) :
    m.activations groupPlugin =
      groupPlugin.toList ++ m.plugin.toList ++ m.surface.filterMap Arg.plugin? := by
  unfold activations
  rw [effects_eq groupPlugin hproceeds hflag, List.filterMap_append, filterMap_placement,
    List.append_nil]
  unfold preparation
  rw [List.filterMap_append, List.filterMap_append, List.filterMap_flatMap,
    Effect.filterMap_activateAll, Effect.filterMap_activateAll, ← filterMap_surface hflag,
    List.filterMap_eq_flatMap_toList Arg.plugin?]
  simp only [Effect.filterMap_contributions]

theorem mem_activations_iff (hproceeds : m.proceeds = true) (hflag : m.flag = false)
    {plugin : String} :
    plugin ∈ m.activations groupPlugin ↔
      groupPlugin = some plugin ∨ m.plugin = some plugin ∨
        ∃ p, .param p ∈ m.surface ∧ p.plugin = some plugin := by
  have hheard : (∃ a ∈ m.surface, a.plugin? = some plugin) ↔
      ∃ p, .param p ∈ m.surface ∧ p.plugin = some plugin := by
    constructor
    · rintro ⟨a, ha, hplugin⟩
      cases a with
      | param p => exact ⟨p, ha, hplugin⟩
      | _ => cases hplugin
    · rintro ⟨p, hp, hplugin⟩
      exact ⟨.param p, hp, hplugin⟩
  rw [activations_eq groupPlugin hproceeds hflag]
  simp only [List.mem_append, List.mem_filterMap, Option.mem_toList, hheard, or_assoc]

-- What is asked for is recorded, or had by the section from then on. What the values in the tree
-- require is asked for exactly if that is so for the ones that are out of sight, whose plugins the
-- call has to ask for on another account.
theorem requirements_activated_iff (hproceeds : m.proceeds = true) (hflag : m.flag = false) :
    (∀ d : Draft,
      (m.apply groupPlugin d).activations = d.activations ++ m.activations groupPlugin) ∧
    (∀ s : Section, ∀ plugin ∈ m.activations groupPlugin, (m.apply groupPlugin s).Has plugin) ∧
    ((∀ p ∈ m.value.params, ∀ plugin ∈ p.plugin, plugin ∈ m.activations groupPlugin) ↔
      ∀ p ∈ m.buried, ∀ plugin ∈ p.plugin,
        groupPlugin = some plugin ∨ m.plugin = some plugin ∨
          ∃ q, .param q ∈ m.surface ∧ q.plugin = some plugin) := by
  refine ⟨fun d => Effect.activations_runAll _ d,
    fun s plugin hplugin => Section.has_runAll _ s hplugin, ?_⟩
  simp only [← mem_activations_iff groupPlugin hproceeds hflag]
  constructor
  · intro h p hp
    exact h p (mem_params_value_iff.mpr (.inr hp))
  · intro h p hp plugin hplugin
    rcases mem_params_value_iff.mp hp with hsurface | hburied
    · exact (mem_activations_iff groupPlugin hproceeds hflag).mpr (.inr (.inr ⟨p, hsurface, hplugin⟩))
    · exact h p hburied plugin hplugin

end Activations

theorem requirements_activated_of_repeated_action :
    let gzip : Param := { name := "gzip", stripped := true, plugin := some "transformation_gzip" }
    let m := adding "route" (.tuple [.text "^/static/", .param gzip, .list [.param gzip]])
    gzip ∈ m.buried ∧ ∀ p ∈ m.value.params, ∀ plugin ∈ p.plugin,
      (m.apply none (∅ : Section)).Has plugin := by
  intro gzip m
  have hburied : m.buried = [gzip] := rfl
  have h := requirements_activated_iff (m := m) none rfl rfl
  have hheard : ∀ p ∈ m.buried, ∀ plugin ∈ p.plugin,
      none = some plugin ∨ m.plugin = some plugin ∨
        ∃ q, .param q ∈ m.surface ∧ q.plugin = some plugin := by
    rw [hburied, List.forall_mem_singleton]
    exact fun plugin hplugin => .inr (.inr ⟨gzip, by simp [m, adding, surface], hplugin⟩)
  refine ⟨by simp [hburied], fun p hp plugin hplugin => ?_⟩
  exact h.2.1 ∅ plugin (h.2.2.mpr hheard p hp plugin hplugin)

-- The same action in a list of tuples is written, and its plugin is forgotten.
theorem requirement_lost_in_list_of_tuples :
    let gzip : Param := { name := "gzip", stripped := true, plugin := some "transformation_gzip" }
    let m := adding "route" (.list [.tuple [.text "^/static/", .param gzip]])
    let s : Section := m.apply none (∅ : Section)
    gzip ∈ m.value.params ∧ s.options.get? "route" = some (.list ["^/static/ gzip"]) ∧
    (m.apply none ({} : Draft)).activations = [] ∧ s.plugins = [] ∧ s.embedded = [] := by
  decide +kernel

end Mutation

end Vassal
