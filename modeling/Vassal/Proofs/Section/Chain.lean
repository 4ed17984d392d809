import Vassal.Proofs.Options.Grouping
import Vassal.Proofs.Options.Placement
import Vassal.Proofs.Section.Setting

-- Chains of routing directives, as registered and as written.

namespace Vassal

-- Effects that bring no options along leave all options alone but the one that loads plugins.
theorem Section.editedIn_runAll (s : Section) {effects : List Effect}
    (hkeys : ∀ e ∈ effects, e.keys = []) :
    s.options.EditedIn ["plugin"] (Effect.runAll effects s).options :=
  Effect.runAll_induction (P := fun t : Section => s.options.EditedIn ["plugin"] t.options)
    (fun e he => by simp [hkeys e he])
    (fun plugin t ht => ht.trans (t.editedIn_registerPlugin "plugin" plugin))
    (fun _ t hf ht => ht.trans (hf t.options)) (.refl _ _)

namespace Mutation

-- A call that adds one directive, whatever it does to the plugins of a section.
def Appends (m : Mutation) (d : String × String) : Prop :=
  ∀ s : Section, ∃ options, s.options.EditedIn ["plugin"] options ∧
    (m.apply none s).options = options.extend d.1 [d.2]

theorem appends_of_keys {m : Mutation} (hproceeds : m.proceeds = true) (hflag : m.flag = false)
    (hmulti : m.multi = true) (hpriority : m.priority = none) (hkeys : m.keys = [m.key])
    {text : String} (htext : m.stored.map Arg.render = [text]) : m.Appends (m.key, text) := by
  intro s
  have hkey : m.storedKey = m.key := storedKey_eq_of_keys hkeys
  have hstored : m.stored ≠ [] := by
    intro hnil
    simp [hnil] at htext
  have hvalues : (m.parts ++ m.stored).flatMap Arg.keys = [] := (List.cons.inj hkeys).2
  have hprepared : s.options.EditedIn ["plugin"] (m.prepared none s).options :=
    s.editedIn_runAll fun e he => List.subset_nil.mp (hvalues ▸ keys_preparation he)
  refine ⟨(m.prepared none s).options, hprepared, ?_⟩
  have hoptions := options_runAll_placement hmulti hstored (m.prepared none s)
  rw [htext, hkey] at hoptions
  simp only [storeTexts, hpriority] at hoptions
  rw [apply_eq none hproceeds hflag]
  exact hoptions

-- The group of routing asks for no plugin of its own.
theorem Appends.setIn {m : Mutation} {d : String × String} (h : m.Appends d) (s : Section) :
    ∃ options, s.options.EditedIn ["plugin"] options ∧
      (s.setIn routingKind m).options = options.extend d.1 [d.2] :=
  h (s.enter routingKind)

theorem appends_adding_text (key text : String) : (adding key (.text text)).Appends (key, text) :=
  appends_of_keys rfl rfl rfl rfl (Plain.adding key text).keys_eq rfl

end Mutation

namespace RouteRule

def directive (r : RouteRule) : String × String :=
  (r.command, r.value.render)

theorem appends_ruleMutation (r : RouteRule) : (Section.ruleMutation r).Appends r.directive :=
  Mutation.appends_of_keys rfl rfl rfl rfl (Mutation.keys_ruleMutation r) (by
    simp [Section.ruleMutation, Mutation.stored, Mutation.joined, Mutation.flagged,
      Mutation.adding, Arg.elements, value, Arg.render])

end RouteRule

-- Rules that are registered together, with a label for the first of them.
structure RouteCall where
  rules : List RouteRule
  label : Option String := none

namespace RouteCall

-- The directives of a call in the order of registration, with the chains that they belong to.
def staged (call : RouteCall) : List (Stage × String × String) :=
  (match call.rules.head?, call.label with
    | some first, some label => [(first.stage, first.labelCommand, label)]
    | _, _ => [])
  ++ call.rules.map fun r => (r.stage, r.directive)

-- The directives of a chain in the order of registration.
def registered (stage : Stage) (calls : List RouteCall) : List (String × String) :=
  ((calls.flatMap staged).filter (·.1 = stage)).map Prod.snd

theorem mem_names_of_mem_staged {call : RouteCall} {entry : Stage × String × String}
    (hentry : entry ∈ call.staged) : entry.2.1 ∈ entry.1.names := by
  rcases List.mem_append.mp hentry with hlabel | hrule
  · split at hlabel
    · rw [List.mem_singleton.mp hlabel]
      exact List.mem_cons_self
    · cases hlabel
  · obtain ⟨r, _, rfl⟩ := List.mem_map.mp hrule
    exact r.command_mem_names

theorem filter_names_eq_registered (stage : Stage) (calls : List RouteCall) :
    ((calls.flatMap staged).map Prod.snd).filter (·.1 ∈ stage.names) = registered stage calls := by
  unfold registered
  rw [List.filter_map]
  refine congrArg (List.map Prod.snd) (List.filter_congr fun entry hentry => ?_)
  obtain ⟨call, _, hmem⟩ := List.mem_flatMap.mp hentry
  have hname := mem_names_of_mem_staged hmem
  have hiff : entry.2.1 ∈ stage.names ↔ entry.1 = stage :=
    ⟨fun h => Stage.eq_of_mem_names hname h, fun h => h ▸ hname⟩
  simp [hiff]

theorem appends_mutations (call : RouteCall) :
    List.Forall₂ Mutation.Appends
      (Section.labelMutations call.rules call.label ++ call.rules.map Section.ruleMutation)
      (call.staged.map Prod.snd) := by
  have hrules : List.Forall₂ Mutation.Appends (call.rules.map Section.ruleMutation)
      ((call.rules.map fun r => (r.stage, r.directive)).map Prod.snd) := by
    induction call.rules with
    | nil => exact .nil
    | cons r rest ih => exact .cons r.appends_ruleMutation ih
  unfold staged Section.labelMutations
  rw [List.map_append]
  cases call.rules.head? with
  | none => exact hrules
  | some first =>
    cases call.label with
    | none => exact hrules
    | some label => exact .cons (Mutation.appends_adding_text _ _) hrules

end RouteCall

namespace Section

def routeAll (s : Section) (calls : List RouteCall) : Section :=
  calls.foldl (fun s call => s.route call.rules call.label) s

-- What a section writes of a chain.
def chain (s : Section) (stage : Stage) : List (String × String) :=
  s.options.directives.filter (·.1 ∈ stage.names)

section Files

variable {s : Section} {names : List String} {before : List (String × String)}
  (hplugin : "plugin" ∉ names) (h : s.options.Files names before)
include hplugin h

theorem files_foldl_setIn {ms : List Mutation} {ds : List (String × String)}
    (happends : List.Forall₂ Mutation.Appends ms ds) :
    (ms.foldl (fun s m => s.setIn routingKind m) s).options.Files names
      (before ++ ds.filter (·.1 ∈ names)) := by
  induction happends generalizing s before with
  | nil => simpa using h
  | @cons m d ms ds hm _ ih =>
    obtain ⟨options, hedit, hset⟩ := hm.setIn s
    have hkept : options.Files names before := h.edit hedit (by simpa using hplugin)
    have hstep : (s.setIn routingKind m).options.Files names
        (before ++ [d].filter (·.1 ∈ names)) := by
      rw [hset]
      exact hkept.extend d
    have hrest := ih hstep
    rwa [List.append_assoc, ← List.filter_append] at hrest

theorem files_route (call : RouteCall) :
    (s.route call.rules call.label).options.Files names
      (before ++ (call.staged.map Prod.snd).filter (·.1 ∈ names)) :=
  files_foldl_setIn (s := s.enter routingKind) hplugin h call.appends_mutations

theorem files_routeAll (calls : List RouteCall) :
    (s.routeAll calls).options.Files names
      (before ++ ((calls.flatMap RouteCall.staged).map Prod.snd).filter (·.1 ∈ names)) := by
  induction calls generalizing s before with
  | nil => simpa [routeAll] using h
  | cons call rest ih =>
    have hrest := ih (files_route hplugin h call)
    rw [List.append_assoc, ← List.filter_append, ← List.map_append] at hrest
    exact hrest

end Files

-- The directives of a chain are written name by name. That is the order in which they were
-- registered exactly if no name comes back after another one.
theorem chain_routeAll (s : Section) (calls : List RouteCall) (stage : Stage)
    (hnew : ∀ name ∈ stage.names, name ∉ s.options.keys) :
    (s.routeAll calls).chain stage = Directives.grouped (RouteCall.registered stage calls) ∧
    ((s.routeAll calls).chain stage = RouteCall.registered stage calls ↔
      Directives.Unbroken (RouteCall.registered stage calls)) := by
  have hfiles := files_routeAll (stage.pluginCommand_not_mem_names (by decide))
    (Store.files_nil hnew) calls
  rw [List.nil_append, RouteCall.filter_names_eq_registered] at hfiles
  have hchain : (s.routeAll calls).chain stage =
      Directives.grouped (RouteCall.registered stage calls) := hfiles.directives
  exact ⟨hchain, hchain ▸ Directives.grouped_eq_self_iff⟩

theorem chain_of_labelled_call :
    let s := (named none).setStrict (some true)
    let call : RouteCall :=
      { rules := [{ action := .gzip, subject := some (.pathInfo "^/static/") },
          { action := .redirect "/" true }, { action := .chunked, stage := .response }]
        label := some "start" }
    (∀ name ∈ Stage.request.names, name ∉ s.options.keys) ∧
    (s.routeAll [call]).chain .request =
      [("route-label", "start"), ("route", "^/static/ gzip"), ("route-run", "redirect-301:/")] := by
  intro s call
  have hnew : ∀ name ∈ Stage.request.names, name ∉ s.options.keys := by decide +kernel
  have hregistered : RouteCall.registered .request [call] =
      [("route-label", "start"), ("route", "^/static/ gzip"), ("route-run", "redirect-301:/")] := by
    decide +kernel
  have hunbroken : Directives.Unbroken (RouteCall.registered .request [call]) := by
    rw [hregistered]
    exact Directives.grouped_eq_self_iff.mp (by decide +kernel)
  exact ⟨hnew, ((chain_routeAll s [call] .request hnew).2.mpr hunbroken).trans hregistered⟩

-- Each label is meant for the rule of its own call, and both end up above the first rule.
theorem labels_above_first_rule :
    let first : RouteCall :=
      { rules := [{ action := .goto "b", subject := some (.pathInfo "^/a/") }], label := some "a" }
    let second : RouteCall :=
      { rules := [{ action := .continue, subject := some (.pathInfo "^/b/") }], label := some "b" }
    let s := (∅ : Section).routeAll [first, second]
    RouteCall.registered .request [first, second] =
      [("route-label", "a"), ("route", "^/a/ goto:b"), ("route-label", "b"),
        ("route", "^/b/ continue")] ∧
    s.lines = ["[uwsgi]", "route-label = a", "route-label = b", "route = ^/a/ goto:b",
      "route = ^/b/ continue"] ∧
    s.chain .request ≠ RouteCall.registered .request [first, second] := by
  decide +kernel

end Section

end Vassal
