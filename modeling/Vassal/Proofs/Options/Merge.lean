import Vassal.Proofs.Options.History

-- Stores that are merged into each other.
--
-- A merge keeps the names that are there and appends the new ones, and the store that is merged has
-- the say on the values. Both readings of a store say so in one equation, and the laws of merging
-- follow from the two equations.

namespace Vassal.Store

section Order

variable {names keys : List String}

-- Of a list of names without repetition those are appended that are new.
theorem foldl_addName_of_nodup (h : keys.Nodup) :
    keys.foldl addName names = names ++ keys.filter (· ∉ names) := by
  induction keys generalizing names with
  | nil => simp
  | cons key rest ih =>
    rw [List.nodup_cons] at h
    rw [List.foldl_cons, ih h.2]
    by_cases hkey : key ∈ names
    · rw [addName_of_mem hkey, List.filter_cons_of_neg (by simpa using hkey)]
    · have hadded : addName names key = names ++ [key] := if_neg hkey
      -- The name that was just added does not come again.
      have hrest : rest.filter (· ∉ names ++ [key]) = rest.filter (· ∉ names) := by
        refine List.filter_congr fun name hname => ?_
        have hne : name ≠ key := fun heq => h.1 (heq ▸ hname)
        simp [hne]
      rw [hadded, hrest, List.filter_cons_of_pos (by simpa using hkey), List.append_assoc]
      rfl

theorem filter_not_mem_append (names more keys : List String) :
    keys.filter (· ∉ names ++ more.filter (· ∉ names)) =
      (keys.filter (· ∉ more)).filter (· ∉ names) := by
  rw [List.filter_filter]
  refine List.filter_congr fun key _ => ?_
  by_cases hnames : key ∈ names <;> simp [hnames]

end Order

section Distinct

variable {s t u : Store}

-- No later entry has the name of an earlier one, so that it does not matter from where one looks.
theorem Distinct.lookup_reverse (h : s.Distinct) (key : String) :
    s.entries.reverse.lookup key = s.get? key := by
  have hreverse : Distinct ⟨s.entries.reverse⟩ := by
    unfold Distinct keys
    rw [List.map_reverse, List.nodup_reverse]
    exact h
  refine Option.ext fun value => ?_
  have hmem : s.entries.reverse.lookup key = some value ↔ (key, value) ∈ s.entries.reverse :=
    hreverse.get?_eq_some_iff
  rw [hmem, List.mem_reverse, h.get?_eq_some_iff]

variable (s) in
theorem Distinct.get?_merge_eq_or (ht : t.Distinct) (key : String) :
    (s.merge t).get? key = (t.get? key).or (s.get? key) := by
  rw [get?_merge, ht.lookup_reverse]

variable (s) in
theorem Distinct.keys_merge_eq_append (ht : t.Distinct) :
    (s.merge t).keys = s.keys ++ t.keys.filter (· ∉ s.keys) := by
  rw [keys_merge, foldl_addName_of_nodup ht]

theorem Distinct.merge_assoc (hs : s.Distinct) (ht : t.Distinct) (hu : u.Distinct) :
    (s.merge t).merge u = s.merge (t.merge u) := by
  have htu : (t.merge u).Distinct := ht.merge u
  refine (hs.merge (t.merge u)).eq_of_keys_of_get? ?_ fun key => ?_
  · rw [hu.keys_merge_eq_append, ht.keys_merge_eq_append, htu.keys_merge_eq_append,
      hu.keys_merge_eq_append, filter_not_mem_append, List.filter_append, List.append_assoc]
  · rw [hu.get?_merge_eq_or, ht.get?_merge_eq_or, htu.get?_merge_eq_or, hu.get?_merge_eq_or,
      Option.or_assoc]

theorem Distinct.merge_self (h : s.Distinct) : s.merge s = s := by
  refine h.eq_of_keys_of_get? ?_ fun key => ?_
  · rw [keys_merge, foldl_addName fun _ hkey => hkey]
  · rw [h.get?_merge_eq_or, Option.or_self]

end Distinct

-- Of stores with any history. The names of a merged store are those that were there, in their
-- order, and then the new ones, in theirs.
theorem merge_laws (first second third : List Write) :
    let a := replay first
    let b := replay second
    let c := replay third
    (a.merge b).merge c = a.merge (b.merge c) ∧
    a.merge a = a ∧ (a.merge b).merge b = a.merge b ∧
    (∀ key, (a.merge b).get? key = (b.get? key).or (a.get? key)) ∧
    (a.merge b).keys = a.keys ++ b.keys.filter (· ∉ a.keys) := by
  intro a b c
  have ha : a.Distinct := distinct_replay first
  have hb : b.Distinct := distinct_replay second
  have hc : c.Distinct := distinct_replay third
  have htwice : (a.merge b).merge b = a.merge b := by rw [ha.merge_assoc hb hb, hb.merge_self]
  exact ⟨ha.merge_assoc hb hc, ha.merge_self, htwice, hb.get?_merge_eq_or a,
    hb.keys_merge_eq_append a⟩

end Vassal.Store
