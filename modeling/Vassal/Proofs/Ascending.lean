import Mathlib.Data.List.Induction
import Vassal.Options.Store

-- Lists of entries by key, and the maps among them that are kept in ascending order: what is found
-- under a key, also after an entry is put in, and which lists are such maps already.

namespace Vassal.Ascending

variable {κ α : Type} [DecidableEq κ]

section Lookup

theorem lookup_cons (name k : κ) (v : α) (rest : List (κ × α)) :
    ((k, v) :: rest).lookup name = if name = k then some v else rest.lookup name := by
  by_cases hname : name = k
  · subst hname
    rw [List.lookup_cons_self, if_pos rfl]
  · have hne : (name == k) = false := by simpa using hname
    rw [List.lookup_cons, hne, if_neg hname]

theorem mem_of_lookup {entries : List (κ × α)} {name : κ} {v : α}
    (h : entries.lookup name = some v) : (name, v) ∈ entries := by
  obtain ⟨before, after, hentries, _⟩ := List.lookup_eq_some_iff.mp h
  rw [hentries]
  simp

-- A function is found again in its table.
theorem lookup_table (f : κ → α) {keys : List κ} {key : κ} (h : key ∈ keys) :
    (keys.map fun k => (k, f k)).lookup key = some (f key) := by
  induction keys with
  | nil => exact nomatch h
  | cons first rest ih =>
    rw [List.map_cons, lookup_cons]
    split
    case isTrue hsame => rw [hsame]
    case isFalse hne => exact ih ((List.mem_cons.mp h).resolve_left hne)

-- What is found under a name does not depend on entries under other names.
theorem lookup_filter {ι : Type} [BEq ι] [LawfulBEq ι] {p : ι → Bool} {name : ι}
    (hname : p name = true) (entries : List (ι × α)) :
    (entries.filter fun e => p e.1).lookup name = entries.lookup name := by
  induction entries with
  | nil => rfl
  | cons entry rest ih =>
    obtain ⟨k, v⟩ := entry
    by_cases hk : name = k
    · subst hk
      rw [List.filter_cons, if_pos hname, List.lookup_cons_self, List.lookup_cons_self]
    · have hne : (name == k) = false := by simpa using hk
      rw [List.lookup_cons, hne, ← ih, List.filter_cons]
      split
      · rw [List.lookup_cons, hne]
      · rfl

variable [LT κ] [DecidableLT κ]

theorem lookup_put (key : κ) (value : α) (entries : List (κ × α)) (name : κ) :
    (put key value entries).lookup name = if name = key then some value else entries.lookup name := by
  induction entries with
  | nil => exact lookup_cons name key value []
  | cons entry rest ih =>
    obtain ⟨k, v⟩ := entry
    unfold put
    split
    · rename_i hk
      rw [lookup_cons, lookup_cons, hk]
      split <;> rfl
    · rename_i hk
      split
      · rw [lookup_cons name key]
      · rw [lookup_cons, lookup_cons, ih]
        -- The two keys differ, so that it does not matter which is looked at first.
        by_cases hname : name = k
        · rw [if_pos hname, if_neg (hname ▸ hk), if_pos hname]
        · rw [if_neg hname, if_neg hname]

-- The entry that stands last is the one that stays.
theorem lookup_ofList (entries : List (κ × α)) (name : κ) :
    (ofList entries).lookup name = entries.reverse.lookup name := by
  induction entries using List.reverseRecOn with
  | nil => rfl
  | append_singleton kept e ih =>
    rw [ofList, List.foldl_append, List.reverse_append, List.reverse_singleton,
      List.singleton_append, lookup_cons, List.foldl_cons, List.foldl_nil, lookup_put, ← ofList, ih]

end Lookup

section Order

variable [LT κ] [DecidableLT κ] [Std.Asymm (α := κ) (· < ·)] {entries : List (κ × α)}

-- A key above all others goes to the end.
theorem put_of_forall_lt {key : κ} (value : α) (h : ∀ e ∈ entries, e.1 < key) :
    put key value entries = entries ++ [(key, value)] := by
  induction entries with
  | nil => rfl
  | cons entry rest ih =>
    rw [List.forall_mem_cons] at h
    have hnot : ¬key < entry.1 := Std.Asymm.asymm entry.1 key h.1
    have hne : entry.1 ≠ key := fun heq => hnot (by simpa only [heq] using h.1)
    rw [put, if_neg hne, if_neg hnot, ih h.2, List.cons_append]

theorem ofList_of_pairwise (h : (entries.map Prod.fst).Pairwise (· < ·)) :
    ofList entries = entries := by
  induction entries using List.reverseRecOn with
  | nil => rfl
  | append_singleton kept e ih =>
    rw [List.map_append, List.pairwise_append] at h
    have habove : ∀ d ∈ kept, d.1 < e.1 :=
      fun d hd => h.2.2 d.1 (List.mem_map_of_mem hd) e.1 List.mem_cons_self
    rw [ofList, List.foldl_append, List.foldl_cons, List.foldl_nil, ← ofList, ih h.1,
      put_of_forall_lt e.2 habove]

end Order

section Put

variable [LT κ] [DecidableLT κ] {entries : List (κ × α)}

theorem mem_keys_put {key k : κ} {value : α} :
    k ∈ (put key value entries).map Prod.fst ↔ k = key ∨ k ∈ entries.map Prod.fst := by
  induction entries with
  | nil => simp [put]
  | cons entry rest ih =>
    unfold put
    split
    case isTrue hsame => simp [hsame]
    case isFalse =>
      split
      · simp
      · rw [List.map_cons, List.mem_cons, ih, List.map_cons, List.mem_cons, or_left_comm]

variable [Std.Trichotomous (α := κ) (· < ·)] [IsTrans κ (· < ·)]

theorem pairwise_put (h : (entries.map Prod.fst).Pairwise (· < ·)) (key : κ) (value : α) :
    ((put key value entries).map Prod.fst).Pairwise (· < ·) := by
  induction entries with
  | nil => exact List.pairwise_singleton _ _
  | cons entry rest ih =>
    obtain ⟨habove, hrest⟩ := List.pairwise_cons.mp h
    unfold put
    split
    case isTrue hsame =>
      rw [List.map_cons, ← hsame]
      exact h
    case isFalse hne =>
      split
      case isTrue hlt =>
        refine List.pairwise_cons.mpr ⟨fun k hk => ?_, h⟩
        rcases List.mem_cons.mp hk with rfl | hbelow
        · exact hlt
        · exact IsTrans.trans _ _ _ hlt (habove k hbelow)
      case isFalse hnot =>
        have hfirst : entry.1 < key := by
          rcases trichotomous_of (· < ·) entry.1 key with hlt | heq | hgt
          · exact hlt
          · exact absurd heq hne
          · exact absurd hgt hnot
        refine List.pairwise_cons.mpr ⟨fun k hk => ?_, ih hrest⟩
        rcases mem_keys_put.mp hk with rfl | hbelow
        · exact hfirst
        · exact habove k hbelow

theorem pairwise_ofList (entries : List (κ × α)) :
    ((ofList entries).map Prod.fst).Pairwise (· < ·) := by
  induction entries using List.reverseRecOn with
  | nil => exact List.Pairwise.nil
  | append_singleton kept e ih =>
    rw [ofList, List.foldl_append]
    exact pairwise_put ih e.1 e.2

end Put

end Vassal.Ascending
