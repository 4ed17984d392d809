import Mathlib.Data.List.Nodup
import Vassal.Proofs.Ascending
import Vassal.Section.Ini

namespace Vassal.Store

-- No name stands twice. Every operation on stores keeps this.
def Distinct (s : Store) : Prop :=
  s.keys.Nodup

-- The entries that stand under none of the given names. An operation leaves them alone, order
-- included, as soon as the name it works on is among the given ones.
def without (s : Store) (keys : List String) : List (String × Value) :=
  s.entries.filter fun entry => entry.1 ∉ keys

-- The texts stored under a name, none if the name is not there.
def texts (s : Store) (key : String) : List String :=
  ((s.get? key).map Value.lines).getD []

-- What stands under a name once some texts have been added to those that stood there. If there are
-- none to add, a single text stays a single text.
def added (s : Store) (key : String) (texts : List String) : Option Value :=
  if texts = [] then s.get? key else some (.list (s.texts key ++ texts))

section Lookup

variable (s t : Store) (keys : List String) (key : String)

theorem get?_eq_lookup_without (hkey : key ∉ keys) :
    s.get? key = (s.without keys).lookup key :=
  (Ascending.lookup_filter (p := (· ∉ keys)) (decide_eq_true hkey) s.entries).symm

theorem get?_congr_without (hkey : key ∉ keys) (h : s.without keys = t.without keys) :
    s.get? key = t.get? key := by
  rw [get?_eq_lookup_without s keys key hkey, h, ← get?_eq_lookup_without t keys key hkey]

theorem texts_congr_without (hkey : key ∉ keys) (h : s.without keys = t.without keys) :
    s.texts key = t.texts key := by
  unfold texts
  rw [get?_congr_without s t keys key hkey h]

theorem get?_eq_none (hkey : key ∉ s.keys) : s.get? key = none := by
  refine List.lookup_eq_none_iff.mpr fun entry hentry => ?_
  have hne : entry.1 ≠ key := fun h => hkey (h ▸ List.mem_map_of_mem hentry)
  simpa using Ne.symm hne

theorem mem_keys_of_get? {s : Store} {key : String} {value : Value}
    (h : s.get? key = some value) : key ∈ s.keys := by
  by_contra hkey
  rw [get?_eq_none s key hkey] at h
  cases h

end Lookup

-- What concerns none of the given names is not affected by leaving them out.
theorem filter_without (s : Store) {keys : List String} {p : String → Bool}
    (hp : ∀ key ∈ keys, p key = false) :
    (s.without keys).filter (p ·.1) = s.entries.filter (p ·.1) := by
  unfold without
  rw [List.filter_filter]
  refine List.filter_congr fun entry _ => ?_
  by_cases hentry : entry.1 ∈ keys
  · simp [hp _ hentry]
  · simp [hentry]

section Without

variable (s : Store) (keys : List String) (key : String)

theorem without_upsert (f : Option Value → Value) (hkey : key ∈ keys) :
    (s.upsert key f).without keys = s.without keys := by
  unfold without upsert
  induction s.entries with
  | nil => simp [upsertEntry, hkey]
  | cons entry rest ih =>
    obtain ⟨name, value⟩ := entry
    by_cases hname : name = key
    · simp [upsertEntry, hname, hkey]
    · simp only [upsertEntry, hname, if_false, List.filter_cons, ih]

theorem without_insert (value : Value) (hkey : key ∈ keys) :
    (s.insert key value).without keys = s.without keys :=
  without_upsert s keys key _ hkey

theorem without_extend (texts : List String) (hkey : key ∈ keys) :
    (s.extend key texts).without keys = s.without keys :=
  without_upsert s keys key _ hkey

theorem without_erase (hkey : key ∈ keys) : (s.erase key).without keys = s.without keys := by
  unfold without erase
  induction s.entries with
  | nil => rfl
  | cons entry rest ih =>
    obtain ⟨name, value⟩ := entry
    by_cases hname : name = key
    · simp [hname, hkey]
    · have hne : (name == key) = false := by simpa using hname
      simp only [List.eraseP_cons, hne, cond_false, List.filter_cons, ih]

theorem filter_insertIdx {α : Type} (p : α → Bool) (l : List α) (i : Nat) (a : α)
    (ha : p a = false) : (l.insertIdx i a).filter p = l.filter p := by
  induction l generalizing i with
  | nil => cases i <;> simp [ha]
  | cons head tail ih =>
    cases i with
    | zero => simp [ha]
    | succ i => simp only [List.insertIdx_succ_cons, List.filter_cons, ih]

theorem without_insertAt (value : Value) (position : Nat) (hkey : key ∈ keys) :
    (s.insertAt key value position).without keys = s.without keys := by
  rw [← without_erase s keys key hkey]
  exact filter_insertIdx _ _ _ _ (by simp [hkey])

theorem without_merge (other : Store) (hkeys : ∀ name ∈ other.keys, name ∈ keys) :
    (s.merge other).without keys = s.without keys := by
  obtain ⟨entries⟩ := other
  unfold merge
  induction entries generalizing s with
  | nil => rfl
  | cons entry rest ih =>
    simp only [Store.keys, List.map_cons, List.forall_mem_cons] at hkeys ih
    rw [List.foldl_cons, ih _ hkeys.2, without_insert s keys entry.1 entry.2 hkeys.1]

end Without

section Distinct

variable {s : Store}

theorem keys_upsert (s : Store) (key : String) (f : Option Value → Value) :
    (s.upsert key f).keys = if key ∈ s.keys then s.keys else s.keys ++ [key] := by
  unfold upsert keys
  induction s.entries with
  | nil => simp [upsertEntry]
  | cons entry rest ih =>
    obtain ⟨name, value⟩ := entry
    by_cases hname : name = key
    · simp [upsertEntry, hname]
    · simp only [upsertEntry, hname, if_false, List.map_cons, ih, List.mem_cons, Ne.symm hname,
        false_or]
      split <;> rfl

@[simp] theorem keys_empty : (∅ : Store).keys = [] :=
  rfl

theorem distinct_empty : (∅ : Store).Distinct :=
  List.nodup_nil

theorem Distinct.upsert (h : s.Distinct) (key : String) (f : Option Value → Value) :
    (s.upsert key f).Distinct := by
  unfold Distinct
  rw [keys_upsert]
  split
  · exact h
  · rename_i hkey
    exact List.nodup_append.mpr ⟨h, List.nodup_singleton _, by
      rintro name hname _ hlast rfl
      exact hkey (List.mem_singleton.mp hlast ▸ hname)⟩

theorem keys_erase_sublist (s : Store) (key : String) : (s.erase key).keys.Sublist s.keys :=
  (List.eraseP_sublist).map _

theorem Distinct.erase (h : s.Distinct) (key : String) : (s.erase key).Distinct :=
  h.sublist (keys_erase_sublist s key)

theorem Distinct.not_mem_keys_erase (h : s.Distinct) (key : String) :
    key ∉ (s.erase key).keys := by
  obtain ⟨entries⟩ := s
  unfold Distinct keys at h
  unfold Store.erase keys
  induction entries with
  | nil => simp
  | cons entry rest ih =>
    obtain ⟨name, value⟩ := entry
    simp only [List.map_cons, List.nodup_cons] at h
    by_cases hname : name = key
    · subst hname
      rw [List.eraseP_cons_of_pos (by simp)]
      exact h.1
    · have hne : (name == key) = false := by simpa using hname
      simp only [List.eraseP_cons, hne, cond_false, List.map_cons, List.mem_cons, not_or]
      exact ⟨Ne.symm hname, ih h.2⟩

-- What is left of a store without a name are the other entries, as they stand.
theorem Distinct.entries_erase (h : s.Distinct) (key : String) :
    (s.erase key).entries = s.without [key] := by
  have hothers : ∀ entry ∈ (s.erase key).entries, decide (entry.1 ∉ [key]) = true := by
    intro entry hentry
    have hmem : entry.1 ∈ (s.erase key).keys := List.mem_map_of_mem hentry
    have hne : entry.1 ≠ key := fun heq => h.not_mem_keys_erase key (heq ▸ hmem)
    simpa using hne
  have hkept : (s.erase key).without [key] = (s.erase key).entries :=
    List.filter_eq_self.mpr hothers
  rw [← hkept, s.without_erase [key] key (by simp)]

theorem keys_insertAt_perm (s : Store) (key : String) (value : Value) (position : Nat) :
    (s.insertAt key value position).keys.Perm (key :: (s.erase key).keys) := by
  have hpos : min position (s.erase key).entries.length ≤ (s.erase key).entries.length :=
    Nat.min_le_right _ _
  exact (List.perm_insertIdx _ _ hpos).map Prod.fst

theorem Distinct.insertAt (h : s.Distinct) (key : String) (value : Value) (position : Nat) :
    (s.insertAt key value position).Distinct :=
  (keys_insertAt_perm s key value position).nodup_iff.mpr
    (List.nodup_cons.mpr ⟨h.not_mem_keys_erase key, h.erase key⟩)

theorem Distinct.merge (h : s.Distinct) (other : Store) : (s.merge other).Distinct := by
  unfold Store.merge
  induction other.entries generalizing s with
  | nil => exact h
  | cons entry rest ih => exact ih (h.upsert entry.1 _)

theorem Distinct.get?_eq_some_iff (h : s.Distinct) {key : String} {value : Value} :
    s.get? key = some value ↔ (key, value) ∈ s.entries := by
  obtain ⟨entries⟩ := s
  unfold Distinct keys at h
  unfold get?
  induction entries with
  | nil => simp
  | cons entry rest ih =>
    obtain ⟨name, old⟩ := entry
    simp only [List.map_cons, List.nodup_cons] at h
    by_cases hname : key = name
    · subst hname
      have hrest : ∀ value, (key, value) ∉ rest :=
        fun value hmem => h.1 (List.mem_map_of_mem hmem)
      simp [hrest, eq_comm]
    · have hne : (key == name) = false := by simpa using hname
      simp [List.lookup_cons, hne, hname, ih h.2]

theorem Distinct.map_entries (h : s.Distinct) :
    s.entries.map (fun entry => (entry.1, some entry.2)) =
      s.keys.map fun key => (key, s.get? key) := by
  rw [keys, List.map_map]
  refine List.map_congr_left fun entry hentry => ?_
  have hget : s.get? entry.1 = some entry.2 := h.get?_eq_some_iff.mpr hentry
  rw [Function.comp_apply, hget]

-- The names in their order and the values under them are all there is to a store.
theorem Distinct.eq_of_keys_of_get? {t : Store} (h : s.Distinct) (hkeys : t.keys = s.keys)
    (hget : ∀ key, t.get? key = s.get? key) : t = s := by
  have ht : t.Distinct := by
    unfold Distinct
    rwa [hkeys]
  have hinjective : Function.Injective
      fun entry : String × Value => (entry.1, some entry.2) := by
    rintro ⟨key, value⟩ ⟨key', value'⟩ heq
    simpa using heq
  have hentries : t.entries = s.entries := by
    refine List.map_injective_iff.mpr hinjective ?_
    rw [ht.map_entries, h.map_entries, hkeys]
    exact List.map_congr_left fun key _ => by rw [hget]
  cases s
  cases t
  exact congrArg Store.mk hentries

theorem Distinct.get?_insertAt_self (h : s.Distinct) (key : String) (value : Value)
    (position : Nat) :
    (s.insertAt key value position).get? key = some (placed (s.get? key) value) := by
  rw [(h.insertAt key value position).get?_eq_some_iff]
  exact (List.mem_insertIdx (Nat.min_le_right _ _)).mpr (.inl rfl)

end Distinct

section Texts

variable (s : Store) (key : String)

theorem get?_upsert_self (f : Option Value → Value) :
    (s.upsert key f).get? key = some (f (s.get? key)) := by
  unfold get? upsert
  induction s.entries with
  | nil => simp [upsertEntry]
  | cons entry rest ih =>
    obtain ⟨name, value⟩ := entry
    by_cases hname : name = key
    · simp [upsertEntry, hname]
    · have hne : (key == name) = false := by simpa using Ne.symm hname
      simp only [upsertEntry, hname, if_false, List.lookup_cons, hne, ih]

theorem texts_extend (texts : List String) :
    (s.extend key texts).texts key = s.texts key ++ texts := by
  unfold extend
  unfold Store.texts
  rw [get?_upsert_self]
  rfl

@[simp] theorem added_nil : s.added key [] = s.get? key :=
  if_pos rfl

theorem added_congr {s t : Store} {key : String} (h : t.get? key = s.get? key)
    (texts : List String) : t.added key texts = s.added key texts := by
  unfold added Store.texts
  rw [h]

theorem texts_of_added {s t : Store} {key : String} {texts : List String}
    (h : t.get? key = s.added key texts) : t.texts key = s.texts key ++ texts := by
  unfold added at h
  split at h
  case isTrue hnone => rw [hnone, List.append_nil, Store.texts, h, Store.texts]
  case isFalse => rw [Store.texts, h]; rfl

theorem added_of_added {s t : Store} {key : String} {first : List String}
    (h : t.get? key = s.added key first) (second : List String) :
    t.added key second = s.added key (first ++ second) := by
  by_cases hnone : second = []
  · rw [hnone, added_nil, List.append_nil, h]
  · have hboth : first ++ second ≠ [] := by simp [hnone]
    rw [added, added, if_neg hnone, if_neg hboth, texts_of_added h, List.append_assoc]

theorem get?_extend {texts : List String} (htexts : texts ≠ []) :
    (s.extend key texts).get? key = s.added key texts := by
  rw [extend, get?_upsert_self, added, if_neg htexts]
  rfl

theorem mem_directives_extend {s : Store} {key : String} {texts : List String}
    {directive : String × String} (h : directive ∈ (s.extend key texts).directives) :
    directive ∈ s.directives ∨ directive.1 = key ∧ directive.2 ∈ texts := by
  obtain ⟨entries⟩ := s
  unfold extend upsert directives at h
  unfold directives
  induction entries with
  | nil =>
    obtain ⟨text, htext, rfl⟩ : ∃ text ∈ texts, (key, text) = directive := by
      simpa [upsertEntry, Value.lines] using h
    exact .inr ⟨rfl, htext⟩
  | cons entry rest ih =>
    obtain ⟨name, value⟩ := entry
    rw [List.flatMap_cons, List.mem_append]
    by_cases hname : name = key
    · subst hname
      simp only [upsertEntry, if_true, List.flatMap_cons, List.mem_append, Value.lines,
        Option.map_some, Option.getD_some, List.map_append] at h
      rcases h with (hold | hnew) | hrest
      · exact .inl (.inl hold)
      · obtain ⟨text, htext, rfl⟩ := List.mem_map.mp hnew
        exact .inr ⟨rfl, htext⟩
      · exact .inl (.inr hrest)
    · simp only [upsertEntry, if_neg hname, List.flatMap_cons, List.mem_append] at h
      rcases h with hold | hrest
      · exact .inl (.inl hold)
      · exact (ih hrest).imp_left .inr

-- In a store whose names are distinct, the lines written under a name are those of its one entry.
theorem Distinct.map_filter_directives {s : Store} (h : s.Distinct) :
    (s.directives.filter (·.1 = key)).map Prod.snd = s.texts key := by
  obtain ⟨entries⟩ := s
  unfold Distinct keys at h
  unfold directives texts get?
  induction entries with
  | nil => rfl
  | cons entry rest ih =>
    obtain ⟨name, value⟩ := entry
    simp only [List.map_cons, List.nodup_cons] at h
    simp only [List.flatMap_cons, List.filter_append, List.map_append, ih h.2]
    by_cases hname : name = key
    · have hrest : rest.lookup key = none := get?_eq_none ⟨rest⟩ key (hname ▸ h.1)
      simp [hname, hrest, List.filter_map, Function.comp_def]
    · have hne : (key == name) = false := by simpa using Ne.symm hname
      simp [hname, List.lookup_cons, hne, List.filter_map, Function.comp_def]

end Texts

end Vassal.Store
