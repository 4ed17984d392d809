import Mathlib.Data.List.InsertIdx
import Vassal.Proofs.Options.Store

-- Stores after any history of operations.
--
-- What an operation does is told by three readings of a store: its names in order, the value under
-- each name, and the entries under all names that the operation does not work on.

namespace Vassal.Store

-- One operation on a store.
inductive Write
  | insert (key : String) (value : Value)
  | erase (key : String)
  | extend (key : String) (texts : List String)
  | insertAt (key : String) (value : Value) (position : Nat)
  | merge (other : Store)

-- A new name comes last; a name that is there already stays where it is.
def addName (names : List String) (key : String) : List String :=
  if key ∈ names then names else names ++ [key]

namespace Write

def run (s : Store) : Write → Store
  | insert key value => s.insert key value
  | erase key => s.erase key
  | extend key texts => s.extend key texts
  | insertAt key value position => s.insertAt key value position
  | merge other => s.merge other

-- The names that an operation works on.
def keys : Write → List String
  | insert key _ | erase key | extend key _ | insertAt key _ _ => [key]
  | merge other => other.keys

-- The names after an operation, from those before it.
def order (names : List String) : Write → List String
  | insert key _ | extend key _ => addName names key
  | erase key => names.filter (· ≠ key)
  | insertAt key _ position =>
    let others := names.filter (· ≠ key)
    others.insertIdx (min position others.length) key
  | merge other => other.keys.foldl addName names

-- What an operation leaves under a name that it works on, given what stood there before.
def outcome (key : String) (old : Option Value) : Write → Option Value
  | insert _ value => some value
  | erase _ => none
  | extend _ texts => some (.list ((old.map Value.lines).getD [] ++ texts))
  | insertAt _ value _ => some (placed old value)
  | merge other => other.entries.reverse.lookup key

end Write

def replay (history : List Write) : Store :=
  history.foldl Write.run ∅

section Order

variable {names : List String} {key : String}

theorem addName_of_mem (h : key ∈ names) : addName names key = names :=
  if_pos h

theorem subset_addName (names : List String) (key : String) : names ⊆ addName names key := by
  unfold addName
  split
  · exact List.Subset.refl _
  · exact List.subset_append_left _ _

theorem mem_addName_self (names : List String) (key : String) : key ∈ addName names key := by
  unfold addName
  split
  · assumption
  · exact List.mem_append_right _ (List.mem_singleton_self _)

theorem foldl_addName {keys : List String} (h : ∀ key ∈ keys, key ∈ names) :
    keys.foldl addName names = names := by
  induction keys with
  | nil => rfl
  | cons key rest ih =>
    rw [List.forall_mem_cons] at h
    rw [List.foldl_cons, addName_of_mem h.1, ih h.2]

variable (s : Store) (key)

theorem keys_upsert_eq_addName (f : Option Value → Value) :
    (s.upsert key f).keys = addName s.keys key :=
  keys_upsert s key f

theorem keys_merge (other : Store) : (s.merge other).keys = other.keys.foldl addName s.keys := by
  obtain ⟨entries⟩ := other
  unfold merge
  induction entries generalizing s with
  | nil => rfl
  | cons entry rest ih =>
    have hstep := s.keys_upsert_eq_addName entry.1 fun _ => entry.2
    simp only [Store.keys, List.map_cons, List.foldl_cons] at ih hstep ⊢
    rw [ih, insert, hstep]

variable {s}

theorem Distinct.keys_erase (h : s.Distinct) : (s.erase key).keys = s.keys.filter (· ≠ key) := by
  obtain ⟨entries⟩ := s
  unfold Distinct keys at h
  unfold Store.erase keys
  induction entries with
  | nil => rfl
  | cons entry rest ih =>
    obtain ⟨name, value⟩ := entry
    simp only [List.map_cons, List.nodup_cons] at h
    by_cases hname : name = key
    · subst hname
      have hrest : ∀ other ∈ rest.map Prod.fst, decide (other ≠ name) = true := by
        intro other hother
        exact decide_eq_true fun heq => h.1 (heq ▸ hother)
      rw [List.eraseP_cons_of_pos (by simp), List.map_cons, List.filter_cons_of_neg (by simp),
        List.filter_eq_self.mpr hrest]
    · have hne : (name == key) = false := by simpa using hname
      rw [List.eraseP_cons_of_neg (by simp [hne]), List.map_cons, List.map_cons,
        List.filter_cons_of_pos (by simpa using hname), ih h.2]

theorem Distinct.keys_insertAt (h : s.Distinct) (value : Value) (position : Nat) :
    (s.insertAt key value position).keys =
      (Write.insertAt key value position).order s.keys := by
  have herase := h.keys_erase key
  have hlength : (s.erase key).entries.length = (s.keys.filter (· ≠ key)).length := by
    rw [← herase, keys, List.length_map]
  simp only [keys] at herase hlength
  simp only [Store.insertAt, keys, List.map_insertIdx, hlength, herase]
  rfl

end Order

section Values

variable (s : Store) (key : String)

theorem get?_upsert (f : Option Value → Value) (name : String) :
    (s.upsert name f).get? key = if key = name then some (f (s.get? key)) else s.get? key := by
  by_cases hkey : key = name
  · subst hkey
    rw [if_pos rfl, get?_upsert_self]
  · rw [if_neg hkey]
    exact get?_congr_without _ _ [name] key (by simpa using hkey)
      (s.without_upsert [name] name f (by simp))

theorem isSome_lookup_reverse {other : Store} {key : String} (hkey : key ∈ other.keys) :
    (other.entries.reverse.lookup key).isSome := by
  rw [Option.isSome_iff_ne_none, Ne, List.lookup_eq_none_iff]
  intro hnone
  obtain ⟨entry, hentry, rfl⟩ := List.mem_map.mp hkey
  simpa using hnone entry (List.mem_reverse.mpr hentry)

-- Entries are merged from first to last, so that the last one of a name stays.
theorem get?_merge (other : Store) :
    (s.merge other).get? key = (other.entries.reverse.lookup key).or (s.get? key) := by
  obtain ⟨entries⟩ := other
  unfold merge
  induction entries generalizing s with
  | nil => rfl
  | cons entry rest ih =>
    obtain ⟨name, value⟩ := entry
    have hstep : (s.insert name value).get? key = if key = name then some value else s.get? key :=
      s.get?_upsert key (fun _ => value) name
    rw [List.foldl_cons, ih, List.reverse_cons, List.lookup_append, Option.or_assoc, hstep]
    congr 1
    by_cases hkey : key = name
    · simp [hkey]
    · simp [hkey, List.lookup_cons, beq_eq_false_iff_ne.mpr hkey]

end Values

namespace Write

variable (w : Write) {s : Store}

theorem without_run (s : Store) : (w.run s).without w.keys = s.without w.keys := by
  cases w with
  | insert key value => exact s.without_insert [key] key value (by simp)
  | erase key => exact s.without_erase [key] key (by simp)
  | extend key texts => exact s.without_extend [key] key texts (by simp)
  | insertAt key value position => exact s.without_insertAt [key] key value position (by simp)
  | merge other => exact s.without_merge other.keys other fun _ hname => hname

theorem distinct_run (h : s.Distinct) : (w.run s).Distinct := by
  cases w with
  | insert key value => exact h.upsert key _
  | erase key => exact h.erase key
  | extend key texts => exact h.upsert key _
  | insertAt key value position => exact h.insertAt key value position
  | merge other => exact h.merge other

theorem keys_run (h : s.Distinct) : (w.run s).keys = w.order s.keys := by
  cases w with
  | insert key value => exact s.keys_upsert_eq_addName key _
  | erase key => exact h.keys_erase key
  | extend key texts => exact s.keys_upsert_eq_addName key _
  | insertAt key value position => exact h.keys_insertAt key value position
  | merge other => exact s.keys_merge other

theorem get?_run_of_mem (h : s.Distinct) {key : String} (hkey : key ∈ w.keys) :
    (w.run s).get? key = w.outcome key (s.get? key) := by
  cases w with
  | insert name value =>
    obtain rfl := List.mem_singleton.mp hkey
    exact s.get?_upsert_self key _
  | erase name =>
    obtain rfl := List.mem_singleton.mp hkey
    exact get?_eq_none _ key (h.not_mem_keys_erase key)
  | extend name texts =>
    obtain rfl := List.mem_singleton.mp hkey
    exact s.get?_upsert_self key _
  | insertAt name value position =>
    obtain rfl := List.mem_singleton.mp hkey
    exact h.get?_insertAt_self key value position
  | merge other =>
    exact (s.get?_merge key other).trans (Option.or_of_isSome (isSome_lookup_reverse hkey))

theorem get?_run (h : s.Distinct) (key : String) :
    (w.run s).get? key = if key ∈ w.keys then w.outcome key (s.get? key) else s.get? key := by
  by_cases hkey : key ∈ w.keys
  · rw [if_pos hkey, w.get?_run_of_mem h hkey]
  · rw [if_neg hkey]
    exact get?_congr_without _ _ w.keys key hkey (w.without_run s)

end Write

theorem distinct_replay (history : List Write) : (replay history).Distinct := by
  have hfold : ∀ s : Store, s.Distinct → (history.foldl Write.run s).Distinct := by
    induction history with
    | nil => exact fun _ h => h
    | cons w rest ih => exact fun s h => ih (w.run s) (w.distinct_run h)
  exact hfold ∅ distinct_empty

-- After any history a store is an ordered map, and one more operation changes what it names, where
-- it says, and nothing else.
theorem replay_ordered_map (history : List Write) :
    let s := replay history
    s.keys.Nodup ∧
    (∀ key value, s.get? key = some value ↔ (key, value) ∈ s.entries) ∧
    ∀ w : Write,
      (w.run s).without w.keys = s.without w.keys ∧
      (w.run s).keys = w.order s.keys ∧
      ∀ key, (w.run s).get? key =
        if key ∈ w.keys then w.outcome key (s.get? key) else s.get? key := by
  intro s
  have h : s.Distinct := distinct_replay history
  exact ⟨h, fun _ _ => h.get?_eq_some_iff, fun w => ⟨w.without_run s, w.keys_run h, w.get?_run h⟩⟩

end Vassal.Store
