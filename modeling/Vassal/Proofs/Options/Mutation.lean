import Vassal.Proofs.Options.Store

namespace Vassal

namespace Store

-- One store comes from another by working on the given names alone.
structure EditedIn (keys : List String) (before after : Store) : Prop where
  without : after.without keys = before.without keys
  distinct : before.Distinct → after.Distinct

theorem EditedIn.refl (keys : List String) (s : Store) : s.EditedIn keys s :=
  ⟨rfl, id⟩

theorem EditedIn.trans {keys : List String} {first second third : Store}
    (h : first.EditedIn keys second) (hnext : second.EditedIn keys third) :
    first.EditedIn keys third :=
  ⟨hnext.without.trans h.without, fun hdistinct => hnext.distinct (h.distinct hdistinct)⟩

-- A name that an edit does not work on stands afterwards only if it stood before.
theorem EditedIn.mem_keys {keys : List String} {before after : Store}
    (h : before.EditedIn keys after) {key : String} (hkey : key ∉ keys) (hmem : key ∈ after.keys) :
    key ∈ before.keys := by
  obtain ⟨entry, hentry, rfl⟩ := List.mem_map.mp hmem
  have hkept : entry ∈ after.without keys := List.mem_filter.mpr ⟨hentry, by simpa using hkey⟩
  rw [h.without] at hkept
  exact List.mem_map_of_mem (List.mem_of_mem_filter hkept)

section Edits

variable (s : Store) {keys : List String} {key : String} (hkey : key ∈ keys)
include hkey

theorem editedIn_upsert (f : Option Value → Value) : s.EditedIn keys (s.upsert key f) :=
  ⟨s.without_upsert keys key f hkey, fun h => h.upsert key f⟩

theorem editedIn_extend (texts : List String) : s.EditedIn keys (s.extend key texts) :=
  s.editedIn_upsert hkey _

theorem editedIn_erase : s.EditedIn keys (s.erase key) :=
  ⟨s.without_erase keys key hkey, fun h => h.erase key⟩

end Edits

-- Erasing a name takes back any edit that was made under it.
theorem EditedIn.erase_eq {s t : Store} {key : String} (h : s.EditedIn [key] t)
    (hs : s.Distinct) : t.erase key = s.erase key := by
  have hentries : (t.erase key).entries = (s.erase key).entries := by
    rw [(h.distinct hs).entries_erase, hs.entries_erase, h.without]
  exact congrArg Store.mk hentries

theorem Distinct.erase_erase {s : Store} (h : s.Distinct) (key : String) :
    (s.erase key).erase key = s.erase key :=
  (s.editedIn_erase (List.mem_singleton_self key)).erase_eq h

end Store

theorem Section.editedIn_registerPlugin (s : Section) (command plugin : String) :
    s.options.EditedIn [command] (s.registerPlugin command plugin).options := by
  unfold registerPlugin
  split
  · exact .refl _ _
  · exact s.options.editedIn_extend (by simp) [plugin]

-- The names an effect works on. A plugin that is asked for is no option yet.
def Effect.keys : Effect → List String
  | activate _ => []
  | merge options => options.keys
  | erase key | insert key _ | extend key _ | insertAt key _ _ => [key]

namespace Effect

theorem forall_mem_activateAll {P : Effect → Prop} (h : ∀ plugin, P (activate plugin))
    (plugin : Option String) : ∀ e ∈ activateAll plugin, P e := by
  intro e he
  obtain ⟨name, _, rfl⟩ := List.mem_map.mp he
  exact h name

variable {τ : Type} [Target τ]

-- An effect that asks for no plugin edits options, under the names that it works on.
theorem run_of_ne_activate {e : Effect} (he : ∀ plugin, e ≠ activate plugin) :
    ∃ f, (∀ t : τ, e.run t = Target.edit f t) ∧
      ∀ keys, e.keys ⊆ keys → ∀ s : Store, s.EditedIn keys (f s) := by
  cases e with
  | activate plugin => exact absurd rfl (he plugin)
  | merge options =>
    exact ⟨_, fun _ => rfl, fun keys hkeys s =>
      ⟨s.without_merge keys options hkeys, fun h => h.merge options⟩⟩
  | erase key =>
    exact ⟨_, fun _ => rfl, fun keys hkeys s => s.editedIn_erase (hkeys (by simp [Effect.keys]))⟩
  | insert key value =>
    exact ⟨_, fun _ => rfl, fun keys hkeys s => s.editedIn_upsert (hkeys (by simp [Effect.keys])) _⟩
  | extend key texts =>
    exact ⟨_, fun _ => rfl, fun keys hkeys s =>
      s.editedIn_extend (hkeys (by simp [Effect.keys])) texts⟩
  | insertAt key value position =>
    exact ⟨_, fun _ => rfl, fun keys hkeys s =>
      ⟨s.without_insertAt keys key value position (hkeys (by simp [Effect.keys])),
        fun h => h.insertAt key value position⟩⟩

-- A holder of options is asked for a plugin or has its options edited; an effect does nothing else.
theorem run_cases (e : Effect) :
    (∃ plugin, ∀ t : τ, e.run t = Target.activate plugin t) ∨
    (∃ f, (∀ t : τ, e.run t = Target.edit f t) ∧
      ∀ keys, e.keys ⊆ keys → ∀ s : Store, s.EditedIn keys (f s)) := by
  by_cases he : ∃ plugin, e = activate plugin
  · obtain ⟨plugin, rfl⟩ := he
    exact .inl ⟨plugin, fun _ => rfl⟩
  · exact .inr (run_of_ne_activate (not_exists.mp he))

-- What survives each request for a plugin, and each edit of options under the names that the
-- effects work on, survives them all.
theorem runAll_induction {P : τ → Prop} {keys : List String} {effects : List Effect}
    (hkeys : ∀ e ∈ effects, e.keys ⊆ keys)
    (hactivate : ∀ plugin t, P t → P (Target.activate plugin t))
    (hedit : ∀ f t, (∀ s : Store, s.EditedIn keys (f s)) → P t → P (Target.edit f t))
    {t : τ} (ht : P t) : P (runAll effects t) := by
  induction effects generalizing t with
  | nil => exact ht
  | cons e rest ih =>
    rw [List.forall_mem_cons] at hkeys
    refine ih hkeys.2 (t := e.run t) ?_
    obtain ⟨plugin, hrun⟩ | ⟨f, hrun, hf⟩ := e.run_cases (τ := τ)
    · exact hrun t ▸ hactivate plugin t ht
    · exact hrun t ▸ hedit f t (hf keys hkeys.1) ht

end Effect

namespace Arg

-- The names that a value brings along: the one it is stored under, and those of its options.
def keys : Arg → List String
  | param p => p.key.toList ++ p.options.keys
  | _ => []

theorem keyOr_mem (key : String) (a : Arg) : a.keyOr key ∈ key :: a.keys := by
  cases a with
  | param p => cases hkey : p.key <;> simp [keyOr, keys, hkey]
  | _ => simp [keyOr]

theorem settleKey_mem (key : String) (values : List Arg) :
    settleKey key values ∈ key :: values.flatMap keys := by
  unfold settleKey
  induction values generalizing key with
  | nil => simp
  | cons a rest ih =>
    have hrest := ih (a.keyOr key)
    have hfirst := keyOr_mem key a
    simp only [List.foldl_cons, List.flatMap_cons, List.mem_cons, List.mem_append] at *
    rcases hrest with hrest | hrest
    · rw [hrest]
      exact hfirst.imp id .inl
    · exact .inr (.inr hrest)

theorem keys_contributions (a : Arg) (e : Effect) (he : e ∈ a.contributions) :
    e.keys ⊆ a.keys := by
  cases a with
  | param p =>
    simp only [contributions, Effect.activateAll, List.mem_append, List.mem_map,
      List.mem_singleton] at he
    rcases he with ⟨plugin, _, rfl⟩ | rfl
    · exact List.nil_subset _
    · exact List.subset_append_right _ _
  | _ => simp [contributions] at he

end Arg

namespace Mutation

-- All names that a call may work on.
def keys (m : Mutation) : List String :=
  m.key :: (m.parts ++ m.stored).flatMap Arg.keys

theorem storedKey_mem_keys (m : Mutation) : m.storedKey ∈ m.keys := by
  have hparts := Arg.settleKey_mem m.key m.parts
  have hstored := Arg.settleKey_mem (Arg.settleKey m.key m.parts) m.stored
  simp only [storedKey, keys, List.flatMap_append, List.mem_cons, List.mem_append] at *
  rcases hstored with hstored | hstored
  · rw [hstored]
    exact hparts.imp id .inl
  · exact .inr (.inr hstored)

theorem storedKey_eq_of_keys {m : Mutation} (hkeys : m.keys = [m.key]) : m.storedKey = m.key := by
  have hmem := m.storedKey_mem_keys
  rwa [hkeys, List.mem_singleton] at hmem

theorem keys_placement (m : Mutation) (e : Effect) (he : e ∈ m.placement) :
    e.keys = [m.storedKey] := by
  unfold placement at he
  by_cases hmulti : m.multi
  · by_cases hnone : (m.stored.map Arg.render).isEmpty
    · simp [hmulti, hnone] at he
    · cases hpriority : m.priority <;>
        simp only [hmulti, hnone, hpriority, if_true, if_false, Bool.false_eq_true,
          List.mem_singleton] at he <;> subst he <;> rfl
  · cases hpriority : m.priority <;>
      simp only [hmulti, hpriority, if_false, Bool.false_eq_true, List.mem_singleton] at he <;>
      subst he <;> rfl

section Flag

variable {m : Mutation} (hflag : m.flag = true)
include hflag

theorem joined_of_flag : m.joined = .text "true" := by
  simp [joined, flagged, hflag]

theorem stored_of_flag : m.stored = [.text "true"] := by
  unfold stored
  rw [joined_of_flag hflag]
  split <;> rfl

-- A flag is stored as `true`, so that nothing in its value is heard.
theorem keys_of_flag : m.keys = [m.key] := by
  unfold keys parts flagged
  rw [stored_of_flag hflag]
  simp [hflag, Arg.keys]

end Flag

-- Everything that a call does before it stores its values.
def preparation (m : Mutation) (groupPlugin : Option String) : List Effect :=
  Effect.activateAll groupPlugin ++ Effect.activateAll m.plugin
    ++ (m.parts ++ m.stored).flatMap Arg.contributions

theorem keys_preparation {m : Mutation} {groupPlugin : Option String} {e : Effect}
    (he : e ∈ m.preparation groupPlugin) : e.keys ⊆ (m.parts ++ m.stored).flatMap Arg.keys := by
  simp only [preparation, Effect.activateAll, List.mem_append, List.mem_map] at he
  rcases he with (⟨plugin, _, rfl⟩ | ⟨plugin, _, rfl⟩) | hvalues
  · exact List.nil_subset _
  · exact List.nil_subset _
  · obtain ⟨a, ha, hea⟩ := List.mem_flatMap.mp hvalues
    exact fun key hkey => List.mem_flatMap.mpr ⟨a, ha, Arg.keys_contributions a e hea hkey⟩

-- A call is dropped, takes an option away, or prepares for its values and stores them.
theorem effects_cases (m : Mutation) (groupPlugin : Option String) :
    m.effects groupPlugin = [] ∨ m.effects groupPlugin = [.erase m.key] ∨
      m.effects groupPlugin = m.preparation groupPlugin ++ m.placement := by
  unfold effects
  split
  · exact .inl rfl
  · split
    · exact .inr (.inl rfl)
    · exact .inr (.inr rfl)

theorem keys_effects (m : Mutation) (groupPlugin : Option String) (e : Effect)
    (he : e ∈ m.effects groupPlugin) : e.keys ⊆ m.keys := by
  rcases m.effects_cases groupPlugin with hnone | herase | hall
  · simp [hnone] at he
  · rw [herase, List.mem_singleton] at he
    subst he
    simp [Effect.keys, keys]
  · rw [hall] at he
    rcases List.mem_append.mp he with hbefore | hstored
    · exact List.Subset.trans (keys_preparation hbefore) (List.subset_cons_self _ _)
    · rw [keys_placement m e hstored]
      exact List.cons_subset.mpr ⟨m.storedKey_mem_keys, List.nil_subset _⟩

theorem not_insertAt_mem_effects {m : Mutation} {groupPlugin : Option String}
    (hpriority : m.priority = none) {key : String} {value : Value} {position : Nat} :
    .insertAt key value position ∉ m.effects groupPlugin := by
  have hplacement : .insertAt key value position ∉ m.placement := by
    unfold placement
    cases m.multi <;> simp [hpriority]
  have hvalues : ∀ a : Arg, .insertAt key value position ∉ a.contributions := by
    intro a
    cases a <;> simp [Arg.contributions, Effect.activateAll]
  rcases m.effects_cases groupPlugin with hnone | herase | hall
  · simp [hnone]
  · simp [herase]
  · simp [hall, preparation, Effect.activateAll, hvalues, hplacement]

-- What holds of a section still holds after a call, if it survives each of its effects.
theorem apply_induction (P : Section → Prop) (m : Mutation) (groupPlugin : Option String)
    (s : Section) (hs : P s)
    (hactivate : ∀ s plugin, P s → P (s.activate plugin))
    (hedit : ∀ s options, s.options.EditedIn m.keys options → P s → P { s with options }) :
    P (m.apply groupPlugin s) :=
  Effect.runAll_induction (m.keys_effects groupPlugin) (fun plugin s => hactivate s plugin)
    (fun f s hf => hedit s (f s.options) (hf s.options)) hs

end Mutation

end Vassal
