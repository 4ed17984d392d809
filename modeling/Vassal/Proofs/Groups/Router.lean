import Vassal.Groups.Routing.Basic
import Vassal.Proofs.Options.Frame
import Vassal.Proofs.Options.History
import Vassal.Proofs.Options.Param

-- Several routers in one section.
--
-- A router is bound by a directive of its own kind. The addresses that it forwards to stand under a
-- directive of its plugin, and two kinds have one plugin: whichever of the two is used last puts
-- its addresses in the place of the other's.

namespace Vassal

namespace Router

-- The address that a router is bound to, with the files of a secure one.
def bindText (r : Router) : String :=
  Text.trim (String.intercalate "," r.args)

-- Where the addresses to forward to are stored.
def forwardKey (r : Router) : String :=
  r.plugin ++ "-to"

-- What a router adds to a section, the loading of its plugin apart.
def directives (r : Router) : List (String × String) :=
  (r.directive, r.bindText) :: r.forwardTo.map (r.forwardKey, ·)

section Names

variable (r other : Router)

theorem directive_ne_forwardKey : r.directive ≠ other.forwardKey := by
  cases r <;> cases other <;> simp [directive, forwardKey, plugin]

theorem forwardKey_eq_iff : r.forwardKey = other.forwardKey ↔ r.plugin = other.plugin := by
  cases r <;> cases other <;> simp [forwardKey, plugin]

theorem names_not_mem : r.directive ∉ ["plugin", "force-gateway"] ∧
    r.forwardKey ∉ ["plugin", "force-gateway"] := by
  cases r <;> simp [directive, forwardKey, plugin]

end Names

theorem toParam_eq (r : Router) :
    r.toParam =
      { name := r.directive, key := some r.directive, joiner := ",", plugin := some r.plugin
        args := r.args
        options := if r.forwardTo = [] then ∅ else ⟨[(r.forwardKey, .list r.forwardTo)]⟩ } := by
  have hrender : (r.forwardTo.map Arg.text).map Arg.render = r.forwardTo := by
    simp [Arg.render, Function.comp_def]
  unfold toParam
  rw [Param.withArgs_texts]
  cases hforward : r.forwardTo with
  | nil => rfl
  | cons first rest =>
    rw [hforward] at hrender
    simp only [List.isEmpty_cons, Bool.false_eq_true, if_false, Param.withOptions, hrender,
      List.nil_append, List.cons_ne_nil]
    rfl

theorem render_toParam (r : Router) : r.toParam.render = r.bindText := by
  rw [toParam_eq]
  simp [Param.render, Param.labelled, Param.body, Param.heading, bindText]

end Router

namespace Section

open Router

theorem get?_set_flag (s : Section) (flag : String) (given : Option Bool) {key : String}
    (hkey : key ∉ ["plugin", flag]) :
    ((Mutation.ofFlag flag given).apply none s).options.get? key = s.options.get? key := by
  have hmentioned : (Mutation.ofFlag flag given).mentioned = [flag] := by
    cases given <;> rfl
  have hframe := (Mutation.ofFlag flag given).without_apply_section none s
  rw [hmentioned] at hframe
  exact Store.get?_congr_without _ _ _ _ hkey hframe

-- The call that binds a router.
def routerMutation (r : Router) : Mutation :=
  { key := "gateway", value := .param r.toParam }

theorem effects_routerMutation (r : Router) :
    (routerMutation r).effects none =
      [.activate r.plugin, .merge r.toParam.options, .insert r.directive (.single r.bindText)] := by
  have hkey : r.toParam.key = some r.directive := by rw [toParam_eq]
  have hplugin : r.toParam.plugin = some r.plugin := by rw [toParam_eq]
  have hkept : (routerMutation r).storedKey = r.directive := by
    change r.toParam.key.getD "gateway" = r.directive
    rw [hkey, Option.getD_some]
  have hasked : (routerMutation r).preparation none =
      [.activate r.plugin, .merge r.toParam.options] := by
    change Effect.activateAll r.toParam.plugin ++ [.merge r.toParam.options] ++ [] = _
    rw [hplugin]
    rfl
  rw [Mutation.effects_eq none rfl rfl, hasked, ← render_toParam, ← hkept]
  rfl

theorem get?_activate (s : Section) (plugin : String) {key : String} (hkey : key ≠ "plugin") :
    (s.activate plugin).options.get? key = s.options.get? key :=
  Store.get?_congr_without _ _ ["plugin"] key (by simpa using hkey)
    (s.editedIn_registerPlugin "plugin" plugin).without

-- What is found in a section that runs a router: the router's own directives, and everything that
-- was there under other names.
theorem get?_useRouter (s : Section) (r : Router) (force : Option Bool) {key : String}
    (hkey : key ∉ ["plugin", "force-gateway"]) :
    (s.useRouter r force).options.get? key =
      if key = r.directive then some (.single r.bindText)
      else if key = r.forwardKey ∧ r.forwardTo ≠ [] then some (.list r.forwardTo)
      else s.options.get? key := by
  let forced :=
    ((s.enter routingKind).setIn routingKind (.ofFlag "force-gateway" force)).enter routingKind
  have hforced : forced.options.get? key = s.options.get? key :=
    get?_set_flag ((s.enter routingKind).enter routingKind) "force-gateway" force hkey
  have hrun : (s.useRouter r force).options =
      ((forced.activate r.plugin).options.merge r.toParam.options).insert r.directive
        (.single r.bindText) := by
    change (Effect.runAll ((routerMutation r).effects none) forced).options = _
    rw [effects_routerMutation]
    rfl
  have hplugin : key ≠ "plugin" := fun heq => hkey (by simp [heq])
  have hmerged : ((forced.activate r.plugin).options.merge r.toParam.options).get? key =
      if key = r.forwardKey ∧ r.forwardTo ≠ [] then some (.list r.forwardTo)
      else s.options.get? key := by
    rw [Store.get?_merge, get?_activate forced r.plugin hplugin, hforced, r.toParam_eq]
    by_cases hnone : r.forwardTo = []
    · rw [if_pos hnone, if_neg fun h => h.2 hnone]
      rfl
    · by_cases hforward : key = r.forwardKey
      · simp [hnone, hforward]
      · simp [hnone, hforward, List.lookup_cons, beq_eq_false_iff_ne.mpr hforward]
  rw [hrun, Store.insert, Store.get?_upsert, hmerged]

-- Of what a router has contributed, a router of another kind replaces nothing but the addresses to
-- forward to, and those only if both have one plugin and both have addresses.
theorem router_directives_kept_iff (s : Section) {first second : Router}
    (hkind : first.directive ≠ second.directive) (force force' : Option Bool) :
    let after := ((s.useRouter first force).useRouter second force').options
    after.get? first.directive = some (.single first.bindText) ∧
    (first.forwardTo ≠ [] → after.get? first.forwardKey =
      some (.list (if second.plugin = first.plugin ∧ second.forwardTo ≠ [] then second.forwardTo
        else first.forwardTo))) ∧
    ((∀ d ∈ first.directives, d.2 ∈ after.texts d.1) ↔
      (second.plugin = first.plugin → second.forwardTo ≠ [] →
        first.forwardTo ⊆ second.forwardTo)) := by
  intro after
  have hbind : after.get? first.directive = some (.single first.bindText) := by
    rw [get?_useRouter _ second force' first.names_not_mem.1, if_neg hkind,
      if_neg fun h => first.directive_ne_forwardKey second h.1,
      get?_useRouter s first force first.names_not_mem.1, if_pos rfl]
  have hforward : first.forwardTo ≠ [] → after.get? first.forwardKey =
      some (.list (if second.plugin = first.plugin ∧ second.forwardTo ≠ [] then second.forwardTo
        else first.forwardTo)) := by
    intro hsome
    have hnotBind : ∀ r : Router, first.forwardKey ≠ r.directive :=
      fun r => (r.directive_ne_forwardKey first).symm
    have hfirst : (s.useRouter first force).options.get? first.forwardKey =
        some (.list first.forwardTo) := by
      rw [get?_useRouter s first force first.names_not_mem.2, if_neg (hnotBind first),
        if_pos ⟨rfl, hsome⟩]
    have hshared : first.forwardKey = second.forwardKey ↔ second.plugin = first.plugin :=
      (first.forwardKey_eq_iff second).trans eq_comm
    rw [get?_useRouter _ second force' first.names_not_mem.2, if_neg (hnotBind second), hfirst]
    simp only [hshared]
    split <;> rfl
  refine ⟨hbind, hforward, ?_⟩
  have hbindKept : first.bindText ∈ after.texts first.directive := by
    simp [Store.texts, hbind, Value.lines]
  have hkept : (∀ d ∈ first.directives, d.2 ∈ after.texts d.1) ↔
      first.forwardTo ⊆ after.texts first.forwardKey := by
    simp [directives, hbindKept, List.subset_def]
  rw [hkept]
  by_cases hnone : first.forwardTo = []
  · simp [hnone]
  · simp only [Store.texts, hforward hnone, Option.map_some, Option.getD_some, Value.lines]
    split
    · rename_i hboth
      simp [hboth]
    · rename_i hnot
      simp only [List.Subset.refl, true_iff]
      exact fun hplugin hsome => absurd ⟨hplugin, hsome⟩ hnot

theorem secure_router_kept_beside_fast :
    let first : Router := .https ":443" "s.crt" "s.key" ["127.0.0.1:3031"]
    let second : Router := .fast ":3017" ["127.0.0.1:3032"]
    let s := (named none).activate "python"
    let after := ((s.useRouter first none).useRouter second none).options
    first.directive ≠ second.directive ∧ ∀ d ∈ first.directives, d.2 ∈ after.texts d.1 := by
  intro first second s after
  have hkind : first.directive ≠ second.directive := by decide
  have hplugin : second.plugin ≠ first.plugin := by decide
  exact ⟨hkind, (router_directives_kept_iff s hkind none none).2.2.mpr fun h => absurd h hplugin⟩

-- The two routers share the plugin, and the address of the first one is gone.
theorem plain_router_loses_address_to_secure :
    let first : Router := .http ":80" ["127.0.0.1:3031"]
    let second : Router := .https ":443" "s.crt" "s.key" ["127.0.0.1:3032"]
    let after := (((∅ : Section).useRouter first none).useRouter second none).options
    first.directive ≠ second.directive ∧ ("http-to", "127.0.0.1:3031") ∈ first.directives ∧
    after.texts "http-to" = ["127.0.0.1:3032"] ∧
    ¬ ∀ d ∈ first.directives, d.2 ∈ after.texts d.1 := by
  decide +kernel

end Section

end Vassal
