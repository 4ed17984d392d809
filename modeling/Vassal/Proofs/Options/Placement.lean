import Mathlib.Data.List.Induction
import Vassal.Proofs.Options.Mutation

-- Where a call puts the values that it stores.
--
-- A call first asks for plugins and merges the options that its values bring along; only then does
-- it store anything. All of its values go under one name, even if they are the elements of a list
-- and have different names of their own.

namespace Vassal

-- A holder of options whose store changes by edits as told, and in which registering a plugin
-- makes no name stand twice.
class LawfulTarget (τ : Type) [Target τ] : Prop where
  options_edit (f : Store → Store) (t : τ) :
    Target.options (Target.edit f t) = f (Target.options t)
  distinct_activate (plugin : String) (t : τ) (h : (Target.options t).Distinct) :
    (Target.options (Target.activate plugin t)).Distinct

instance : LawfulTarget Section where
  options_edit _ _ := rfl
  distinct_activate plugin s h := (s.editedIn_registerPlugin "plugin" plugin).distinct h

instance : LawfulTarget Draft where
  options_edit _ _ := rfl
  distinct_activate _ _ h := h

variable {τ : Type} [Target τ]

namespace Effect

theorem runAll_append (first second : List Effect) (t : τ) :
    runAll (first ++ second) t = runAll second (runAll first t) :=
  List.foldl_append

variable [LawfulTarget τ]

theorem distinct_runAll {t : τ} (h : (Target.options t).Distinct) (effects : List Effect) :
    (Target.options (runAll effects t)).Distinct := by
  refine runAll_induction (P := fun t : τ => (Target.options t).Distinct)
    (fun _ he _ hkey => List.mem_flatMap_of_mem he hkey)
    LawfulTarget.distinct_activate (fun f t hf ht => ?_) h
  simp only [LawfulTarget.options_edit]
  exact (hf _).distinct ht

end Effect

namespace Arg

-- The name that a value asks to be stored under, if it asks for one.
def ownKey : Arg → Option String
  | param p => p.key
  | _ => none

theorem keyOr_eq (key : String) (a : Arg) : a.keyOr key = a.ownKey.getD key := by
  cases a <;> rfl

-- The last value with a name of its own has the say.
theorem settleKey_eq (key : String) (values : List Arg) :
    settleKey key values = (values.filterMap ownKey).getLast?.getD key := by
  unfold settleKey
  induction values using List.reverseRecOn with
  | nil => rfl
  | append_singleton before last ih =>
    rw [List.foldl_append, ih, List.filterMap_append]
    simp only [List.foldl_cons, List.foldl_nil, keyOr_eq]
    cases hlast : last.ownKey <;> simp [hlast]

end Arg

namespace Mutation

def prepared (m : Mutation) (groupPlugin : Option String) (t : τ) : τ :=
  Effect.runAll (m.preparation groupPlugin) t

-- How a call puts several texts under a name.
def storeTexts (m : Mutation) (key : String) (texts : List String) (s : Store) : Store :=
  match m.priority with
  | some position => s.insertAt key (.list texts) position
  | none => s.extend key texts

-- What stands under a name after a call has put texts there, given what stood there before.
def grown (m : Mutation) (old : Option Value) (texts : List String) : Option Value :=
  if texts = [] then old
  else
    match m.priority with
    | some _ => some (Store.placed old (.list texts))
    | none => some (.list ((old.map Value.lines).getD [] ++ texts))

section Stages

variable {m : Mutation} (groupPlugin : Option String)

theorem effects_eq (hproceeds : m.proceeds = true) (hflag : m.flag = false) :
    m.effects groupPlugin = m.preparation groupPlugin ++ m.placement := by
  simp [effects, preparation, hproceeds, hflag]

theorem apply_eq (hproceeds : m.proceeds = true) (hflag : m.flag = false) (t : τ) :
    m.apply groupPlugin t = Effect.runAll m.placement (m.prepared groupPlugin t) := by
  unfold apply prepared
  rw [effects_eq groupPlugin hproceeds hflag, Effect.runAll_append]

theorem placement_of_stored_nil (hmulti : m.multi = true) (hstored : m.stored = []) :
    m.placement = [] := by
  simp [placement, hmulti, hstored]

variable [LawfulTarget τ]

theorem options_runAll_placement (hmulti : m.multi = true) (hstored : m.stored ≠ []) (t : τ) :
    Target.options (Effect.runAll m.placement t) =
      m.storeTexts m.storedKey (m.stored.map Arg.render) (Target.options t) := by
  have hsome : (m.stored.map Arg.render).isEmpty = false := by simpa using hstored
  unfold placement storeTexts
  cases m.priority <;>
    simp [hmulti, hsome, Effect.runAll, Effect.run, LawfulTarget.options_edit]

end Stages

section Grown

variable (m : Mutation)

@[simp] theorem grown_nil (old : Option Value) : m.grown old [] = old := by
  simp [grown]

theorem grown_ne_self (old : Option Value) {texts : List String} (htexts : texts ≠ []) :
    m.grown old texts ≠ old := by
  unfold grown
  rw [if_neg htexts]
  cases m.priority with
  | none =>
    cases old with
    | none => simp
    | some old => cases old <;> simp [Value.lines, htexts]
  | some position =>
    cases old with
    | none => simp [Store.placed]
    | some old => cases old <;> simp [Store.placed, htexts]

theorem get?_storeTexts {s : Store} (h : s.Distinct) (key : String) {texts : List String}
    (htexts : texts ≠ []) (name : String) :
    (m.storeTexts key texts s).get? name =
      m.grown (s.get? name) (if name = key then texts else []) := by
  by_cases hname : name = key
  · subst hname
    unfold storeTexts grown
    rw [if_pos rfl, if_neg htexts]
    cases m.priority with
    | none => exact s.get?_upsert_self name _
    | some position => exact h.get?_insertAt_self name _ position
  · have hnot : name ∉ [key] := by simpa using hname
    rw [if_neg hname, grown_nil]
    unfold storeTexts
    cases m.priority with
    | none =>
      exact Store.get?_congr_without _ _ _ _ hnot (s.without_extend [key] key texts (by simp))
    | some position =>
      exact Store.get?_congr_without _ _ _ _ hnot
        (s.without_insertAt [key] key (.list texts) position (by simp))

end Grown

section Elements

variable {m : Mutation} {elements : List Arg}

-- The name that the elements of a list end up under: the last one that any of them asks for.
def commonKey (m : Mutation) (elements : List Arg) : String :=
  (elements.filterMap Arg.ownKey).getLast?.getD m.key

-- The texts that belong under a name when each element goes where it asks to go, and an element
-- that asks for nothing goes where the call says.
def dealt (m : Mutation) (elements : List Arg) (key : String) : List String :=
  (elements.filter fun e => e.keyOr m.key = key).map Arg.render

theorem dealt_of_forall_eq {key : String} (h : ∀ e ∈ elements, e.keyOr m.key = key) :
    m.dealt elements key = elements.map Arg.render := by
  unfold dealt
  rw [List.filter_eq_self.mpr fun e he => by simpa using h e he]

theorem dealt_eq_nil_iff {key : String} :
    m.dealt elements key = [] ↔ ∀ e ∈ elements, e.keyOr m.key ≠ key := by
  simp [dealt]

variable (hvalue : m.value = .list elements) (hmulti : m.multi = true) (hflag : m.flag = false)
include hvalue hmulti hflag

theorem stored_of_list : m.stored = elements := by
  simp [stored, joined, flagged, hvalue, hmulti, hflag, Arg.elements]

theorem storedKey_of_list : m.storedKey = m.commonKey elements := by
  have hparts : m.parts = [] := by simp [parts, flagged, hvalue, hflag]
  unfold storedKey commonKey
  rw [hparts, stored_of_list hvalue hmulti hflag, Arg.settleKey_eq, Arg.settleKey_eq]
  rfl

variable [LawfulTarget τ] (groupPlugin : Option String) {t : τ}
  (hcondition : m.condition ≠ .never) (hdistinct : (Target.options t).Distinct)
include hcondition hdistinct

-- All elements are added under the one name, in their order; nothing else changes any more.
theorem get?_apply_of_list (key : String) :
    (Target.options (m.apply groupPlugin t)).get? key =
      m.grown ((Target.options (m.prepared groupPlugin t)).get? key)
        (if key = m.commonKey elements then elements.map Arg.render else []) := by
  have hproceeds : m.proceeds = true := by
    unfold proceeds
    cases h : m.condition with
    | unlessNull => simp [hvalue, Arg.isNull]
    | always => rfl
    | never => exact absurd h hcondition
  have hstored := stored_of_list hvalue hmulti hflag
  have hbefore : (Target.options (m.prepared groupPlugin t)).Distinct :=
    Effect.distinct_runAll hdistinct _
  rw [apply_eq groupPlugin hproceeds hflag]
  by_cases hnone : elements = []
  · rw [placement_of_stored_nil hmulti (hstored.trans hnone), hnone]
    simp [Effect.runAll]
  · rw [options_runAll_placement hmulti (hstored ▸ hnone), hstored,
      storedKey_of_list hvalue hmulti hflag]
    exact m.get?_storeTexts hbefore _ (by simpa using hnone) key

-- Each element stands under the name that it asks for exactly if all of them ask for the same one.
theorem get?_apply_eq_dealt_iff :
    (∀ key, (Target.options (m.apply groupPlugin t)).get? key =
      m.grown ((Target.options (m.prepared groupPlugin t)).get? key)
        (if key = m.commonKey elements then elements.map Arg.render else [])) ∧
    ((∀ key, (Target.options (m.apply groupPlugin t)).get? key =
        m.grown ((Target.options (m.prepared groupPlugin t)).get? key) (m.dealt elements key)) ↔
      ∀ e ∈ elements, e.keyOr m.key = m.commonKey elements) := by
  have happly := get?_apply_of_list hvalue hmulti hflag groupPlugin hcondition hdistinct
  refine ⟨happly, ?_, ?_⟩
  · intro hdealt e he
    by_contra hne
    have hkept := (hdealt (e.keyOr m.key)).symm.trans (happly (e.keyOr m.key))
    rw [if_neg hne, grown_nil] at hkept
    refine m.grown_ne_self _ (fun hnil => ?_) hkept
    exact dealt_eq_nil_iff.mp hnil e he rfl
  · intro hsame key
    rw [happly key]
    split
    · rename_i hkey
      rw [hkey, dealt_of_forall_eq hsame]
    · rename_i hkey
      rw [dealt_eq_nil_iff.mpr fun e he heq => hkey (heq.symm.trans (hsame e he))]

end Elements

theorem get?_apply_eq_dealt_of_one_name :
    let elements : List Arg :=
      [.param { name := "http-socket", key := some "http-socket", args := [":80"] },
       .param { name := "http-socket", key := some "http-socket", args := [":8080"] }]
    let m := adding "socket" (.list elements)
    let d : Draft := { options := .ofList [("http-socket", .single ":8000")] }
    ∀ key, (Target.options (m.apply none d)).get? key =
      m.grown ((Target.options (m.prepared none d)).get? key) (m.dealt elements key) := by
  intro elements m d
  have hdistinct : d.options.Distinct := by
    unfold Store.Distinct
    decide
  exact (get?_apply_eq_dealt_iff rfl rfl rfl none (by decide) hdistinct).2.mpr (by decide)

-- The first socket has a name of its own and is still filed with the second one.
theorem first_element_under_name_of_second :
    let http : Arg := .param { name := "http-socket", key := some "http-socket", args := [":8080"] }
    let uwsgi : Arg := .param { name := "uwsgi-socket", key := some "uwsgi-socket", args := [":3031"] }
    let m := adding "socket" (.list [http, uwsgi])
    http.keyOr m.key = "http-socket" ∧ uwsgi.keyOr m.key = "uwsgi-socket" ∧
    (m.apply none ({} : Draft)).options.get? "http-socket" = none ∧
    (m.apply none ({} : Draft)).options.get? "uwsgi-socket" = some (.list [":8080", ":3031"]) := by
  decide +kernel

end Mutation

end Vassal
