import Vassal.Proofs.Options.Frame

-- Options that say yes or no.
--
-- Whatever a call that says yes does to the options, it does under its own name. So a call that
-- says no afterwards takes all of it away again, wherever it was put.

namespace Vassal

-- A holder of options that puts a plugin into no option when it is asked for one, and that is left
-- alone by an edit which changes nothing.
class PlainTarget (τ : Type) [Target τ] : Prop extends LawfulTarget τ where
  options_activate (plugin : String) (t : τ) :
    Target.options (Target.activate plugin t) = Target.options t
  edit_eq_self {f : Store → Store} {t : τ} (h : f (Target.options t) = Target.options t) :
    Target.edit f t = t

instance : PlainTarget Draft where
  options_activate _ _ := rfl
  edit_eq_self {_ d} h := congrArg (fun options => { d with options }) h

namespace Mutation

-- The call says yes or no to an option and is not dropped, which for a call without a condition means
-- that its value is not null.
structure Answers (m : Mutation) (key : String) (yes : Bool) : Prop where
  key_eq : m.key = key
  flag : m.flag = true
  proceeds : m.proceeds = true
  isTruthy : m.value.isTruthy = yes

section Plain

variable {τ : Type} [Target τ] [PlainTarget τ] {m : Mutation} {key : String}
  (groupPlugin : Option String)

theorem editedIn_apply (m : Mutation) (t : τ) :
    (Target.options t).EditedIn m.keys (Target.options (m.apply groupPlugin t)) := by
  refine Effect.runAll_induction
    (P := fun u : τ => (Target.options t).EditedIn m.keys (Target.options u))
    (m.keys_effects groupPlugin) (fun plugin u hu => ?_) (fun f u hf hu => ?_) (.refl _ _)
  · rw [PlainTarget.options_activate]
    exact hu
  · rw [LawfulTarget.options_edit]
    exact hu.trans (hf (Target.options u))

namespace Answers

omit [PlainTarget τ] in
theorem apply_no (h : m.Answers key false) (t : τ) :
    m.apply groupPlugin t = Target.edit (·.erase key) t := by
  have heffects : m.effects groupPlugin = [.erase key] := by
    simp [effects, h.proceeds, h.flag, h.isTruthy, h.key_eq]
  rw [apply, heffects]
  rfl

theorem options_apply_no (h : m.Answers key false) (t : τ) :
    Target.options (m.apply groupPlugin t) = (Target.options t).erase key := by
  rw [h.apply_no, LawfulTarget.options_edit]

-- A yes is written after whatever stays under the name.
theorem texts_apply_yes (h : m.Answers key true) {t : τ} (hdistinct : (Target.options t).Distinct) :
    ((Target.options (m.apply groupPlugin t)).texts key).getLast? = some "true" := by
  have hstores : m.Stores := ⟨h.proceeds, fun _ => h.isTruthy, by simp [stored_of_flag h.flag]⟩
  have hkey : m.storedKey = key := (storedKey_eq_of_keys (keys_of_flag h.flag)).trans h.key_eq
  have hbefore : (Target.options (m.prepared groupPlugin t)).Distinct :=
    Effect.distinct_runAll hdistinct _
  have hplaced : ∀ (old : Option Value) (value : Value), value.lines = ["true"] →
      (Store.placed old value).lines.getLast? = some "true" := by
    rintro (_ | _ | old) (_ | texts) hlines <;> simp_all [Store.placed, Value.lines]
  rw [apply, effects_of_stores hstores, Effect.runAll_append, ← prepared]
  unfold placement Store.texts
  rw [stored_of_flag h.flag, joined_of_flag h.flag, hkey]
  cases m.priority with
  | none =>
    cases m.multi <;>
      simp [Effect.runAll, Effect.run, LawfulTarget.options_edit, Arg.render, Store.insert,
        Store.extend, Store.get?_upsert_self, Value.lines]
  | some position =>
    cases m.multi with
    | false =>
      simpa [Effect.runAll, Effect.run, LawfulTarget.options_edit, Arg.render,
        hbefore.get?_insertAt_self] using hplaced _ (.single "true") rfl
    | true =>
      simpa [Effect.runAll, Effect.run, LawfulTarget.options_edit, Arg.render,
        hbefore.get?_insertAt_self] using hplaced _ (.list ["true"]) rfl

theorem editedIn_apply_yes (h : m.Answers key true) (t : τ) :
    (Target.options t).EditedIn [key] (Target.options (m.apply groupPlugin t)) := by
  have hedit := m.editedIn_apply groupPlugin t
  rwa [keys_of_flag h.flag, h.key_eq] at hedit

end Answers

-- A yes is stored, wherever the call puts it. After a no the options are those from before without
-- the name, all others being as they were and in their order, and to say no once more changes
-- nothing.
theorem apply_no_after_yes {set unset again : Mutation} (hset : set.Answers key true)
    (hunset : unset.Answers key false) (hagain : again.Answers key false)
    (setPlugin unsetPlugin againPlugin : Option String) {t : τ}
    (hdistinct : (Target.options t).Distinct) :
    let after := unset.apply unsetPlugin (set.apply setPlugin t)
    ((Target.options (set.apply setPlugin t)).texts key).getLast? = some "true" ∧
    Target.options after = (Target.options t).erase key ∧
    (Target.options after).entries = (Target.options t).without [key] ∧
    again.apply againPlugin after = after := by
  intro after
  have hafter : Target.options after = (Target.options t).erase key := by
    rw [hunset.options_apply_no]
    exact (hset.editedIn_apply_yes setPlugin t).erase_eq hdistinct
  refine ⟨hset.texts_apply_yes setPlugin hdistinct, hafter, ?_, ?_⟩
  · rw [hafter, hdistinct.entries_erase]
  · rw [hagain.apply_no]
    exact PlainTarget.edit_eq_self (by rw [hafter, hdistinct.erase_erase])

end Plain

-- The flag is said in the front of the list that stood under its name, and taken away with it.
theorem apply_no_after_yes_of_list :
    let set : Mutation :=
      { key := "lazy", value := .tuple [.text "yes", .null], flag := true, multi := true
        plugin := some "router", priority := some 0 }
    let unset : Mutation := { key := "lazy", value := .text "", flag := true, priority := some 2 }
    let again : Mutation := { unset with value := .list [], multi := true }
    let d : Draft :=
      { options := ⟨[("master", .single "true"), ("lazy", .list ["a"]), ("workers", .single "2")]⟩ }
    let after := unset.apply none (set.apply (some "python") d)
    set.Answers "lazy" true ∧ unset.Answers "lazy" false ∧ again.Answers "lazy" false ∧
    d.options.Distinct ∧
    (set.apply (some "python") d).options.entries =
      [("lazy", .list ["a", "true"]), ("master", .single "true"), ("workers", .single "2")] ∧
    after.options = ⟨[("master", .single "true"), ("workers", .single "2")]⟩ ∧
    again.apply none after = after := by
  intro set unset again d after
  have hset : set.Answers "lazy" true := ⟨rfl, rfl, rfl, rfl⟩
  have hunset : unset.Answers "lazy" false := ⟨rfl, rfl, rfl, rfl⟩
  have hagain : again.Answers "lazy" false := ⟨rfl, rfl, rfl, rfl⟩
  have hdistinct : d.options.Distinct := by
    unfold Store.Distinct
    decide
  obtain ⟨-, hoptions, -, hsame⟩ :=
    apply_no_after_yes (t := d) hset hunset hagain (some "python") none none hdistinct
  exact ⟨hset, hunset, hagain, hdistinct, by decide +kernel, hoptions, hsame⟩

end Mutation

end Vassal
