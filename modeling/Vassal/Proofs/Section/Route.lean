import Vassal.Proofs.Groups.Router
import Vassal.Proofs.Section.Chain
import Vassal.Proofs.Section.Registration

-- What the registering of rules adds to a section, name by name.
--
-- The lines of a name are those that stood there, the label if the name is the one for labels in
-- the chain of the first rule, and the rules of that name. The plugins that the rules require come
-- in between, under a name that no rule and no label has.

namespace Vassal

namespace Store

-- One directive more, whatever happens to the plugins on the way.
theorem get?_extend_of_editedIn {s t : Store} (h : s.EditedIn ["plugin"] t) {key : String}
    (hkey : key ≠ "plugin") (d : String × String) :
    (t.extend d.1 [d.2]).get? key = s.added key (textsIn [d] key) := by
  have hbefore : t.get? key = s.get? key :=
    get?_congr_without t s ["plugin"] key (by simpa using hkey) h.without
  exact (t.get?_extend_directive d key).trans (added_congr hbefore (textsIn [d] key))

end Store

theorem Action.plugin_toParam (a : Action) : a.toParam.plugin = a.plugin := by
  unfold toParam
  rw [Param.withArgs_texts]

namespace RouteRule

-- A label never stands among rules, of whichever chain.
theorem command_ne_labelCommand (r first : RouteRule) : r.command ≠ first.labelCommand := by
  have hall : ∀ stage ∈ Stage.all, ∀ other ∈ Stage.all, ∀ suffix ∈ Subject.suffixes,
      Text.dropEnds (· == '-') (stage.word.toList ++ '-' :: ("route-".toList ++ suffix.toList)) ≠
        Text.dropEnds (· == '-') (other.word.toList ++ '-' :: "route-label".toList) := by
    decide +kernel
  intro heq
  refine hall r.stage r.stage.mem_all first.stage first.stage.mem_all _ r.suffix_mem ?_
  rw [← String.toList_append, ← Stage.toList_directive, ← Stage.toList_directive]
  exact congrArg String.toList heq

theorem activations_ruleMutation (r : RouteRule) :
    (Section.ruleMutation r).activations none = r.action.plugin.toList := by
  have hsurface : (Section.ruleMutation r).surface =
      [.text ((r.subject.map Subject.render).getD ""), .param r.action.toParam] := rfl
  have hheard : Arg.plugin? (.param r.action.toParam) = r.action.plugin := r.action.plugin_toParam
  rw [Mutation.activations_eq none rfl rfl, hsurface, List.filterMap_cons_none rfl,
    List.filterMap_eq_flatMap_toList, List.flatMap_singleton, hheard]
  rfl

end RouteRule

namespace RouteCall

-- The label of the call, if this is the name that it goes under.
def labelTexts (call : RouteCall) (key : String) : List String :=
  match call.rules.head?, call.label with
  | some first, some label => if first.labelCommand = key then [label] else []
  | _, _ => []

-- The rules of the call that go under a name, as they are written.
def ruleTexts (call : RouteCall) (key : String) : List String :=
  (call.rules.filter (·.command = key)).map (·.value.render)

theorem textsIn_staged (call : RouteCall) (key : String) :
    Store.textsIn (call.staged.map Prod.snd) key = call.labelTexts key ++ call.ruleTexts key := by
  have hrules : Store.textsIn ((call.rules.map fun r => (r.stage, r.directive)).map Prod.snd) key =
      call.ruleTexts key := by
    unfold Store.textsIn ruleTexts
    rw [List.map_map, List.filter_map, List.map_map]
    simp only [Function.comp_def, RouteRule.directive]
  unfold staged labelTexts
  rw [List.map_append, Store.textsIn_append, hrules]
  congr 1
  cases call.rules.head? with
  | none => rfl
  | some first =>
    cases call.label with
    | none => rfl
    | some label => by_cases hkey : first.labelCommand = key <;> simp [Store.textsIn, hkey]

-- The plugins that the rules of a call require.
def Requires (call : RouteCall) (plugin : String) : Prop :=
  ∃ r ∈ call.rules, r.action.plugin = some plugin

end RouteCall

namespace Section

section Lines

variable {key : String} (hkey : key ≠ "plugin")
include hkey

theorem get?_foldl_setIn {ms : List Mutation} {ds : List (String × String)}
    (happends : List.Forall₂ Mutation.Appends ms ds) (s : Section) :
    (ms.foldl (fun s m => s.setIn routingKind m) s).options.get? key =
      s.options.added key (Store.textsIn ds key) := by
  induction happends generalizing s with
  | nil => exact (s.options.added_nil key).symm
  | @cons m d ms ds hm _ ih =>
    obtain ⟨options, hedit, hset⟩ := hm.setIn s
    have hstep : (s.setIn routingKind m).options.get? key =
        s.options.added key (Store.textsIn [d] key) := by
      rw [hset]
      exact Store.get?_extend_of_editedIn hedit hkey d
    rw [List.foldl_cons, ih, Store.added_of_added hstep, ← Store.textsIn_append]
    rfl

theorem get?_route (s : Section) (call : RouteCall) :
    (s.route call.rules call.label).options.get? key =
      s.options.added key (call.labelTexts key ++ call.ruleTexts key) := by
  rw [← call.textsIn_staged]
  exact get?_foldl_setIn hkey call.appends_mutations (s.enter routingKind)

end Lines

-- A label asks for no plugin, and a rule for the one of its action.
theorem exists_activations_iff (call : RouteCall) (plugin : String) :
    (∃ m ∈ labelMutations call.rules call.label ++ call.rules.map ruleMutation,
      plugin ∈ m.activations none) ↔ call.Requires plugin := by
  have hlabel : ∀ m ∈ labelMutations call.rules call.label, plugin ∉ m.activations none := by
    intro m hm hplugin
    unfold labelMutations at hm
    split at hm
    · rename_i first label _ _
      rw [List.mem_singleton.mp hm] at hplugin
      exact nomatch (Mutation.Plain.adding first.labelCommand label).of_mem_activations none hplugin
    · cases hm
  unfold RouteCall.Requires
  constructor
  · rintro ⟨m, hm, hplugin⟩
    rcases List.mem_append.mp hm with hmark | hrule
    · exact absurd hplugin (hlabel m hmark)
    · obtain ⟨r, hr, rfl⟩ := List.mem_map.mp hrule
      rw [r.activations_ruleMutation, Option.mem_toList] at hplugin
      exact ⟨r, hr, hplugin⟩
  · rintro ⟨r, hr, hplugin⟩
    refine ⟨ruleMutation r, List.mem_append_right _ (List.mem_map_of_mem hr), ?_⟩
    rwa [r.activations_ruleMutation, Option.mem_toList]

theorem registers_route (s : Section) (call : RouteCall) :
    ∃ fresh, Registers call.Requires fresh s (s.route call.rules call.label) := by
  obtain ⟨fresh, hfresh⟩ := registers_setAllIn (route_settings call.rules call.label) s
  exact ⟨fresh, hfresh.mono fun plugin => exists_activations_iff call plugin⟩

theorem distinct_route {s : Section} (h : s.options.Distinct) (rules : List RouteRule)
    (label : Option String) : (s.route rules label).options.Distinct := by
  rw [route, setAllIn_eq]
  exact Effect.distinct_runAll (t := s.enter routingKind) h _

-- Registering rules loses no line and writes none twice. A name keeps its value unless a line comes
-- to it; new lines stand below the old ones, the label first and then the rules in their order. The
-- plugins that are required are there afterwards, with one line for each that was not there before.
theorem route_exact (s : Section) (rules : List RouteRule) (label : Option String) :
    let call : RouteCall := { rules, label }
    let t := s.route rules label
    (∀ key, key ≠ "plugin" →
      t.options.get? key = s.options.added key (call.labelTexts key ++ call.ruleTexts key) ∧
      t.options.texts key = s.options.texts key ++ (call.labelTexts key ++ call.ruleTexts key)) ∧
    (s.options.Distinct → t.options.Distinct ∧ ∀ key, key ≠ "plugin" →
      Store.textsIn t.options.directives key = Store.textsIn s.options.directives key ++
        (call.labelTexts key ++ call.ruleTexts key)) ∧
    (∀ r ∈ rules, ∀ first ∈ rules, r.command ≠ first.labelCommand) ∧
    (∀ r ∈ rules, ∀ plugin ∈ r.action.plugin, t.Has plugin) ∧
    ∃ fresh, Registers call.Requires fresh s t := by
  intro call t
  have hvalue : ∀ key, key ≠ "plugin" →
      t.options.get? key = s.options.added key (call.labelTexts key ++ call.ruleTexts key) :=
    fun key hkey => get?_route hkey s call
  have htexts : ∀ key, key ≠ "plugin" → t.options.texts key =
      s.options.texts key ++ (call.labelTexts key ++ call.ruleTexts key) :=
    fun key hkey => Store.texts_of_added (hvalue key hkey)
  obtain ⟨fresh, hfresh⟩ := registers_route s call
  refine ⟨fun key hkey => ⟨hvalue key hkey, htexts key hkey⟩, fun hdistinct => ?_,
    fun r _ first _ => r.command_ne_labelCommand first,
    fun r hr plugin hplugin => hfresh.has_iff.mpr (.inr ⟨r, hr, hplugin⟩), fresh, hfresh⟩
  have hafter : t.options.Distinct := distinct_route hdistinct rules label
  refine ⟨hafter, fun key hkey => ?_⟩
  have hwritten := htexts key hkey
  rwa [← hafter.map_filter_directives, ← hdistinct.map_filter_directives] at hwritten

-- A rule that stood alone is joined by those of its name, and the plugin that two of the rules
-- require is loaded once; the one that the server has built in is not loaded at all.
theorem route_exact_beside_rule :
    let s : Section :=
      { options := ⟨[("route", .single "^/old/ last"), ("workers", .single "2")]⟩
        embedded := ["router_redirect"] }
    let rules : List RouteRule :=
      [{ action := .gzip, subject := some (.pathInfo "^/static/") },
       { action := .redirect "/" true },
       { action := .chunked, stage := .response },
       { action := .gzip, subject := some (.pathInfo "^/media/") }]
    let t := s.route rules (some "start")
    s.options.Distinct ∧
    Store.textsIn t.options.directives "route" =
      ["^/old/ last", "^/static/ gzip", "^/media/ gzip"] ∧
    t.options.texts "route-label" = ["start"] ∧
    t.options.get? "workers" = some (.single "2") ∧
    t.plugins = ["transformation_gzip", "transformation_chunked"] := by
  intro s rules t
  have hdistinct : s.options.Distinct := by
    unfold Store.Distinct
    decide
  obtain ⟨hvalues, hwritten, -⟩ := route_exact s rules (some "start")
  exact ⟨hdistinct, ((hwritten hdistinct).2 "route" (by decide)).trans (by decide +kernel),
    (hvalues "route-label" (by decide)).2.trans (by decide +kernel),
    (hvalues "workers" (by decide)).1.trans (by decide +kernel), by decide +kernel⟩

end Section

end Vassal
