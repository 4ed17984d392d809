import Vassal.Proofs.Options.Mutation

-- Stores that agree on some names, and effects that cannot tell them apart.
--
-- An effect reads no other names than it works on. So it keeps two stores in agreement, whether the
-- names are its own or not; only an effect that puts a value at a place among all others is apart.

namespace Vassal

namespace Store

-- The entries under the given names are the same, and in the same order.
def AgreeOn (names : List String) (s t : Store) : Prop :=
  s.entries.filter (·.1 ∈ names) = t.entries.filter (·.1 ∈ names)

namespace AgreeOn

variable {names : List String} {s t u : Store}

theorem refl (names : List String) (s : Store) : AgreeOn names s s :=
  rfl

theorem symm (h : AgreeOn names s t) : AgreeOn names t s :=
  Eq.symm h

theorem trans (h : AgreeOn names s t) (hnext : AgreeOn names t u) : AgreeOn names s u :=
  Eq.trans h hnext

theorem get?_eq (h : AgreeOn names s t) {key : String} (hkey : key ∈ names) :
    s.get? key = t.get? key := by
  have hlookup : ∀ store : Store,
      (store.entries.filter (·.1 ∈ names)).lookup key = store.get? key :=
    fun store => Ascending.lookup_filter (p := (· ∈ names)) (decide_eq_true hkey) store.entries
  rw [← hlookup, ← hlookup, h]

end AgreeOn

section Edits

variable {names : List String} {s t : Store}

-- An edit under other names is not seen.
theorem EditedIn.agreeOn {keys : List String} (h : s.EditedIn keys t)
    (hkeys : ∀ key ∈ keys, key ∉ names) : AgreeOn names s t := by
  have hwithin : ∀ store : Store, (store.without keys).filter (·.1 ∈ names) =
      store.entries.filter (·.1 ∈ names) :=
    fun store => store.filter_without (p := (· ∈ names)) fun key hkey => by
      simpa using hkeys key hkey
  unfold AgreeOn
  rw [← hwithin, ← h.without, hwithin]

theorem filter_upsertEntry {key : String} (hkey : key ∈ names) (f : Option Value → Value)
    (entries : List (String × Value)) :
    (upsertEntry key f entries).filter (·.1 ∈ names) =
      upsertEntry key f (entries.filter (·.1 ∈ names)) := by
  induction entries with
  | nil => simp [upsertEntry, hkey]
  | cons entry rest ih =>
    obtain ⟨name, value⟩ := entry
    by_cases hname : name = key
    · subst hname
      simp [upsertEntry, hkey]
    · by_cases hmem : name ∈ names <;> simp [upsertEntry, hname, hmem, ih]

theorem filter_erase {key : String} (hkey : key ∈ names) (entries : List (String × Value)) :
    (entries.eraseP (·.1 == key)).filter (·.1 ∈ names) =
      (entries.filter (·.1 ∈ names)).eraseP (·.1 == key) := by
  induction entries with
  | nil => rfl
  | cons entry rest ih =>
    obtain ⟨name, value⟩ := entry
    by_cases hname : name = key
    · subst hname
      simp [hkey]
    · by_cases hmem : name ∈ names <;> simp [hname, hmem, ih]

variable (h : AgreeOn names s t) (key : String)
include h

theorem AgreeOn.upsert (f : Option Value → Value) :
    AgreeOn names (s.upsert key f) (t.upsert key f) := by
  by_cases hkey : key ∈ names
  · unfold AgreeOn Store.upsert
    rw [filter_upsertEntry hkey, filter_upsertEntry hkey, h]
  · have hunseen : ∀ store : Store, AgreeOn names store (store.upsert key f) := fun store =>
      (store.editedIn_upsert (List.mem_singleton_self key) f).agreeOn (by simpa using hkey)
    exact ((hunseen s).symm.trans h).trans (hunseen t)

theorem AgreeOn.erase : AgreeOn names (s.erase key) (t.erase key) := by
  by_cases hkey : key ∈ names
  · unfold AgreeOn Store.erase
    rw [filter_erase hkey, filter_erase hkey, h]
  · have hunseen : ∀ store : Store, AgreeOn names store (store.erase key) := fun store =>
      (store.editedIn_erase (List.mem_singleton_self key)).agreeOn (by simpa using hkey)
    exact ((hunseen s).symm.trans h).trans (hunseen t)

omit key in
theorem AgreeOn.merge (other : Store) : AgreeOn names (s.merge other) (t.merge other) := by
  unfold Store.merge
  induction other.entries generalizing s t with
  | nil => exact h
  | cons entry rest ih => exact ih (h.upsert entry.1 _)

end Edits

end Store

namespace Section

variable {names : List String} (hplugin : "plugin" ∉ names) {s t : Section}
include hplugin

theorem agreeOn_activate (s : Section) (plugin : String) :
    s.options.AgreeOn names (s.activate plugin).options :=
  (s.editedIn_registerPlugin "plugin" plugin).agreeOn (by simpa using hplugin)

-- The same effects on two sections that agree on some names leave them in agreement.
theorem agreeOn_runAll {effects : List Effect}
    (hplace : ∀ key value position, .insertAt key value position ∉ effects)
    (h : s.options.AgreeOn names t.options) :
    (Effect.runAll effects s).options.AgreeOn names (Effect.runAll effects t).options := by
  induction effects generalizing s t with
  | nil => exact h
  | cons e rest ih =>
    have hrest : ∀ key value position, .insertAt key value position ∉ rest :=
      fun key value position hmem => hplace key value position (List.mem_cons_of_mem _ hmem)
    refine ih hrest (s := e.run s) (t := e.run t) ?_
    cases e with
    | activate plugin =>
      exact ((agreeOn_activate hplugin s plugin).symm.trans h).trans
        (agreeOn_activate hplugin t plugin)
    | merge options => exact h.merge options
    | erase key => exact h.erase key
    | insert key value => exact h.upsert key _
    | extend key texts => exact h.upsert key _
    | insertAt key value position => exact absurd List.mem_cons_self (hplace key value position)

-- Effects under other names are not seen.
theorem agreeOn_runAll_self {effects : List Effect}
    (hkeys : ∀ e ∈ effects, ∀ key ∈ e.keys, key ∉ names) (s : Section) :
    s.options.AgreeOn names (Effect.runAll effects s).options := by
  have hwithin : ∀ e ∈ effects, e.keys ⊆ effects.flatMap Effect.keys :=
    fun e he key hkey => List.mem_flatMap_of_mem he hkey
  refine Effect.runAll_induction (P := fun t : Section => s.options.AgreeOn names t.options)
    hwithin (fun plugin t ht => ht.trans (agreeOn_activate hplugin t plugin))
    (fun f t hf ht => ht.trans ((hf t.options).agreeOn fun key hkey => ?_)) (.refl _ _)
  obtain ⟨e, he, hmem⟩ := List.mem_flatMap.mp hkey
  exact hkeys e he key hmem

end Section

end Vassal
