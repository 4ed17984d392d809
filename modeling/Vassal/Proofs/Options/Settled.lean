import Vassal.Proofs.Options.History
import Vassal.Proofs.Options.Requirement

-- Effects that are run a second time.
--
-- If each name is worked on by one effect only, then all effects that do not add texts find done
-- what they do: the plugin is registered, the value stands under the name. Running the whole list
-- again adds the texts in it once more, each to what stands under its own name.

namespace Vassal

theorem Store.insert_eq_self {s : Store} {key : String} {value : Value}
    (h : s.get? key = some value) : s.insert key value = s := by
  obtain ⟨entries⟩ := s
  unfold get? at h
  unfold insert upsert
  congr 1
  induction entries with
  | nil => cases h
  | cons entry rest ih =>
    obtain ⟨name, old⟩ := entry
    rw [Ascending.lookup_cons] at h
    by_cases hname : name = key
    · rw [if_pos hname.symm] at h
      rw [upsertEntry, if_pos hname, Option.some.inj h]
    · rw [if_neg (Ne.symm hname)] at h
      rw [upsertEntry, if_neg hname, ih h]

-- Nothing changes from one section to the other but the texts that some options gain.
structure Section.Gains (given : String → List String) (s t : Section) : Prop where
  rest : t = { s with options := t.options }
  keys : t.options.keys = s.options.keys
  value : ∀ key, t.options.get? key = s.options.added key (given key)

namespace Section.Gains

variable {given later : String → List String} {s t u : Section}

theorem refl (s : Section) : Gains (fun _ => []) s s :=
  ⟨rfl, rfl, fun key => (s.options.added_nil key).symm⟩

theorem trans (h : Gains given s t) (hlater : Gains later t u) :
    Gains (fun key => given key ++ later key) s u where
  rest := by rw [hlater.rest, h.rest]
  keys := hlater.keys.trans h.keys
  value key := (hlater.value key).trans (Store.added_of_added (h.value key) (later key))

theorem extend {key : String} (hkey : key ∈ s.options.keys) {texts : List String}
    (htexts : texts ≠ []) :
    Gains (fun name => if name = key then texts else []) s
      { s with options := s.options.extend key texts } where
  rest := rfl
  keys := (s.options.keys_upsert_eq_addName key _).trans (Store.addName_of_mem hkey)
  value name := by
    split
    case isTrue hname => exact hname ▸ s.options.get?_extend key htexts
    case isFalse hname =>
      rw [Store.added_nil]
      exact (s.options.get?_upsert name _ key).trans (if_neg hname)

end Section.Gains

namespace Effect

-- The effect asks for a plugin, puts a value under a name or adds texts there.
def Simple : Effect → Prop
  | activate _ | insert _ _ => True
  | extend _ texts => texts ≠ []
  | _ => False

-- The texts that an effect adds to an option.
def textsFor (key : String) : Effect → List String
  | extend name texts => if key = name then texts else []
  | _ => []

-- The section has what the effect is for. Of texts that were added only their name is certain to
-- stay: there may be more of them by now.
def DoneIn (s : Section) : Effect → Prop
  | activate plugin => s.Has plugin
  | insert key value => s.options.get? key = some value
  | extend key _ => (s.options.get? key).isSome
  | _ => False

section Done

variable {e first : Effect} {s : Section}

theorem Simple.doneIn_run (h : e.Simple) (s : Section) : e.DoneIn (e.run s) := by
  cases e with
  | activate plugin => exact s.has_registerPlugin "plugin" plugin
  | insert key value => exact s.options.get?_upsert_self key fun _ => value
  | extend key texts => exact Option.isSome_of_eq_some (s.options.get?_upsert_self key _)
  | merge | erase | insertAt => exact h.elim

theorem get?_run_of_not_mem {key : String} (hplugin : key ≠ "plugin") (hkey : key ∉ first.keys)
    (s : Section) : (first.run s).options.get? key = s.options.get? key := by
  by_cases hactivate : ∃ plugin, first = activate plugin
  · obtain ⟨plugin, rfl⟩ := hactivate
    exact Store.get?_congr_without _ _ ["plugin"] key (by simpa using hplugin)
      (s.editedIn_registerPlugin "plugin" plugin).without
  · obtain ⟨f, hrun, hf⟩ := run_of_ne_activate (τ := Section) (not_exists.mp hactivate)
    rw [hrun]
    exact Store.get?_congr_without _ _ first.keys key hkey
      (hf first.keys (List.Subset.refl _) s.options).without

-- What is done stays done under the effects on other names.
theorem DoneIn.run (h : e.DoneIn s) (hplugin : "plugin" ∉ e.keys)
    (hkeys : e.keys.Disjoint first.keys) : e.DoneIn (first.run s) := by
  have hkept : ∀ key, e.keys = [key] →
      (first.run s).options.get? key = s.options.get? key := by
    intro key hkey
    rw [hkey] at hplugin hkeys
    exact get?_run_of_not_mem (by simpa using Ne.symm (List.ne_of_not_mem_cons hplugin))
      (List.singleton_disjoint.mp hkeys) s
  cases e with
  | activate plugin => exact Section.Has.runAll h [first]
  | insert key value => exact (hkept key rfl).trans h
  | extend key texts =>
    show ((first.run s).options.get? key).isSome
    rw [hkept key rfl]
    exact h
  | merge | erase | insertAt => exact h.elim

theorem DoneIn.runAll {effects : List Effect} (h : e.DoneIn s) (hplugin : "plugin" ∉ e.keys)
    (hkeys : e.keys.Disjoint (effects.flatMap keys)) : e.DoneIn (runAll effects s) := by
  induction effects generalizing s with
  | nil => exact h
  | cons first rest ih =>
    rw [List.flatMap_cons, List.disjoint_append_right] at hkeys
    exact ih (h.run hplugin hkeys.1) hkeys.2

-- A section that has what an effect is for gains texts at most.
theorem DoneIn.gains_run (h : e.DoneIn s) (hsimple : e.Simple) :
    s.Gains e.textsFor (e.run s) := by
  cases e with
  | activate plugin =>
    have hsame : (activate plugin).run s = s := Section.registerPlugin_of_has h "plugin"
    rw [hsame]
    exact .refl s
  | insert key value =>
    have hsame : (insert key value).run s = s :=
      congrArg (fun options => { s with options }) (Store.insert_eq_self h)
    rw [hsame]
    exact .refl s
  | extend key texts =>
    obtain ⟨value, hvalue⟩ := Option.isSome_iff_exists.mp h
    exact .extend (Store.mem_keys_of_get? hvalue) hsimple
  | merge | erase | insertAt => exact h.elim

end Done

section Again

variable {effects : List Effect} (hsimple : ∀ e ∈ effects, e.Simple)
  (hplugin : "plugin" ∉ effects.flatMap keys) (hnodup : (effects.flatMap keys).Nodup)
include hsimple hplugin hnodup

theorem doneIn_runAll (s : Section) : ∀ e ∈ effects, e.DoneIn (runAll effects s) := by
  induction effects generalizing s with
  | nil => exact fun e he => nomatch he
  | cons first rest ih =>
    rw [List.forall_mem_cons] at hsimple ⊢
    rw [List.flatMap_cons] at hplugin hnodup
    rw [List.mem_append, not_or] at hplugin
    obtain ⟨-, hrest, hapart⟩ := List.nodup_append'.mp hnodup
    exact ⟨(hsimple.1.doneIn_run s).runAll hplugin.1 hapart,
      ih hsimple.2 hplugin.2 hrest (first.run s)⟩

theorem gains_runAll_of_doneIn {s : Section} (hdone : ∀ e ∈ effects, e.DoneIn s) :
    s.Gains (fun key => effects.flatMap (textsFor key)) (runAll effects s) := by
  induction effects generalizing s with
  | nil => exact .refl s
  | cons first rest ih =>
    rw [List.forall_mem_cons] at hsimple hdone
    rw [List.flatMap_cons] at hplugin hnodup
    rw [List.mem_append, not_or] at hplugin
    obtain ⟨-, hrest, hapart⟩ := List.nodup_append'.mp hnodup
    have hkept : ∀ e ∈ rest, e.DoneIn (first.run s) := by
      intro e he
      refine (hdone.2 e he).run ?_ fun key hkey hfirst => ?_
      · exact fun hkey => hplugin.2 (List.mem_flatMap_of_mem he hkey)
      · exact hapart hfirst (List.mem_flatMap_of_mem he hkey)
    exact (hdone.1.gains_run hsimple.1).trans (ih hsimple.2 hplugin.2 hrest hkept)

-- All that a second run leaves behind are the texts that the effects add.
theorem gains_runAll_runAll (s : Section) :
    (runAll effects s).Gains (fun key => effects.flatMap (textsFor key))
      (runAll effects (runAll effects s)) :=
  gains_runAll_of_doneIn hsimple hplugin hnodup (doneIn_runAll hsimple hplugin hnodup s)

end Again

end Effect

end Vassal
