import Mathlib.Data.List.Induction
import Vassal.Proofs.Options.Agreement
import Vassal.Proofs.Options.History

-- Directives that are added to a store one at a time, and the order in which they are written.
--
-- A store keeps the texts of a name in one place. Directives that were added in turns are written
-- name by name, so their order survives only if no name comes back after another one.

namespace Vassal

namespace Directives

-- The directives of one name together, names in the order in which they were first used.
def grouped (ds : List (String × String)) : List (String × String) :=
  (ds.map Prod.fst).eraseDups.flatMap fun name => ds.filter (·.1 = name)

-- Between two directives of one name there is none of another name.
def Unbroken (ds : List (String × String)) : Prop :=
  ∀ a b c, [a, b, c].Sublist ds → a.1 = c.1 → b.1 = a.1

theorem eraseDups_concat (names : List String) (name : String) :
    (names ++ [name]).eraseDups =
      if name ∈ names then names.eraseDups else names.eraseDups ++ [name] := by
  rw [List.eraseDups_append]
  by_cases hname : name ∈ names <;> simp [hname, List.removeAll, List.eraseDups_cons]

theorem nodup_eraseDups (names : List String) : names.eraseDups.Nodup := by
  induction names using List.reverseRecOn with
  | nil => simp
  | append_singleton before last ih =>
    rw [eraseDups_concat]
    split
    · exact ih
    · rename_i hlast
      refine List.nodup_append.mpr ⟨ih, List.nodup_singleton _, ?_⟩
      rintro name hname _ hother rfl
      exact hlast (List.mem_eraseDups.mp (List.mem_singleton.mp hother ▸ hname))

theorem grouped_cons (d : String × String) (rest : List (String × String)) :
    grouped (d :: rest) =
      d :: rest.filter (·.1 = d.1) ++ grouped (rest.filter (·.1 ≠ d.1)) := by
  have hnames : (rest.map Prod.fst).filter (fun name => !name == d.1) =
      (rest.filter (·.1 ≠ d.1)).map Prod.fst := by
    rw [List.filter_map]
    congr 2
    funext e
    simp [beq_eq_decide]
  unfold grouped
  rw [List.map_cons, List.eraseDups_cons, List.flatMap_cons, hnames]
  congr 1
  · simp
  · refine List.flatMap_congr fun name hname => ?_
    obtain ⟨e, he, rfl⟩ := List.mem_map.mp (List.mem_eraseDups.mp hname)
    have hne : e.1 ≠ d.1 := by simpa using (List.mem_filter.mp he).2
    rw [List.filter_cons_of_neg (by simpa using Ne.symm hne), List.filter_filter]
    refine List.filter_congr fun a _ => ?_
    by_cases ha : a.1 = e.1 <;> simp [ha, hne]

theorem Unbroken.tail {d : String × String} {rest : List (String × String)}
    (h : Unbroken (d :: rest)) : Unbroken rest :=
  fun a b c habc => h a b c (habc.cons d)

-- Directives of one name, followed by those of other names.
theorem Unbroken.append (name : String) {first rest : List (String × String)}
    (hfirst : ∀ d ∈ first, d.1 = name) (hrest : ∀ d ∈ rest, d.1 ≠ name) (h : Unbroken rest) :
    Unbroken (first ++ rest) := by
  intro a b c habc hac
  obtain ⟨left, right, hsplit, hleft, hright⟩ := List.sublist_append_iff.mp habc
  match left with
  | [] =>
    obtain rfl : [a, b, c] = right := hsplit
    exact h a b c hright hac
  | [x] =>
    obtain ⟨rfl, rfl⟩ : a = x ∧ [b, c] = right := by simpa using hsplit
    have ha := hfirst a (hleft.subset (by simp))
    exact absurd (hac.symm.trans ha) (hrest c (hright.subset (by simp)))
  | [x, y] =>
    obtain ⟨rfl, rfl, rfl⟩ : a = x ∧ b = y ∧ [c] = right := by simpa using hsplit
    have ha := hfirst a (hleft.subset (by simp))
    exact absurd (hac.symm.trans ha) (hrest c (hright.subset (by simp)))
  | x :: y :: z :: more =>
    obtain ⟨rfl, rfl, -⟩ : a = x ∧ b = y ∧ [c] = z :: more ++ right := by simpa using hsplit
    exact (hfirst b (hleft.subset (by simp))).trans (hfirst a (hleft.subset (by simp))).symm

theorem unbroken_grouped (ds : List (String × String)) : Unbroken (grouped ds) := by
  have hnodup := nodup_eraseDups (ds.map Prod.fst)
  unfold grouped
  generalize (ds.map Prod.fst).eraseDups = names at hnodup
  induction names with
  | nil =>
    intro a b c habc
    cases habc
  | cons name rest ih =>
    rw [List.nodup_cons] at hnodup
    rw [List.flatMap_cons]
    refine Unbroken.append name (fun d hd => ?_) (fun d hd => ?_) (ih hnodup.2)
    · simpa using (List.mem_filter.mp hd).2
    · obtain ⟨other, hother, hmem⟩ := List.mem_flatMap.mp hd
      have hname : d.1 = other := by simpa using (List.mem_filter.mp hmem).2
      rintro rfl
      exact hnodup.1 (hname ▸ hother)

theorem grouped_of_unbroken {ds : List (String × String)} (h : Unbroken ds) : grouped ds = ds := by
  induction ds with
  | nil => rfl
  | cons d rest ih =>
    have hrest := ih h.tail
    rw [grouped_cons]
    cases rest with
    | nil => rfl
    | cons e more =>
      by_cases hname : e.1 = d.1
      · rw [grouped_cons, hname] at hrest
        rw [List.filter_cons_of_pos (by simpa using hname),
          List.filter_cons_of_neg (by simpa using hname), List.cons_append, hrest]
      · -- The name of `d` has been left and does not come back.
        have hleft : ∀ a ∈ e :: more, a.1 ≠ d.1 := by
          intro a ha hda
          rcases List.mem_cons.mp ha with rfl | hmore
          · exact hname hda
          · have hthree : [d, e, a].Sublist (d :: e :: more) := by simpa using hmore
            exact hname (h d e a hthree hda.symm)
        have hnone : (e :: more).filter (·.1 = d.1) = [] :=
          List.filter_eq_nil_iff.mpr fun a ha => by simpa using hleft a ha
        have hall : (e :: more).filter (·.1 ≠ d.1) = e :: more :=
          List.filter_eq_self.mpr fun a ha => by simpa using hleft a ha
        rw [hnone, hall, hrest]
        rfl

theorem grouped_eq_self_iff {ds : List (String × String)} : grouped ds = ds ↔ Unbroken ds :=
  ⟨fun h => h ▸ unbroken_grouped ds, grouped_of_unbroken⟩

end Directives

namespace Store

def fileAll (s : Store) (ds : List (String × String)) : Store :=
  ds.foldl (fun s d => s.extend d.1 [d.2]) s

-- The texts of a name among directives.
def textsIn (ds : List (String × String)) (name : String) : List String :=
  (ds.filter (·.1 = name)).map Prod.snd

theorem textsIn_concat (ds : List (String × String)) (d : String × String) (name : String) :
    textsIn (ds ++ [d]) name = textsIn ds name ++ if d.1 = name then [d.2] else [] := by
  unfold textsIn
  rw [List.filter_append, List.map_append]
  by_cases hname : d.1 = name <;> simp [hname]

theorem textsIn_append (first second : List (String × String)) (name : String) :
    textsIn (first ++ second) name = textsIn first name ++ textsIn second name := by
  simp [textsIn]

theorem textsIn_of_not_mem {ds : List (String × String)} {name : String}
    (hname : name ∉ ds.map Prod.fst) : textsIn ds name = [] := by
  unfold textsIn
  rw [List.map_eq_nil_iff, List.filter_eq_nil_iff]
  intro d hd hsame
  exact hname (of_decide_eq_true hsame ▸ List.mem_map_of_mem hd)

theorem textsIn_of_mem {ds : List (String × String)} (hnodup : (ds.map Prod.fst).Nodup)
    {d : String × String} (hd : d ∈ ds) : textsIn ds d.1 = [d.2] := by
  obtain ⟨first, second, rfl⟩ := List.append_of_mem hd
  rw [List.map_append, List.map_cons, List.nodup_middle, List.nodup_cons, List.mem_append,
    not_or] at hnodup
  have hself : textsIn (d :: second) d.1 = d.2 :: textsIn second d.1 := by simp [textsIn]
  rw [textsIn_append, hself, textsIn_of_not_mem hnodup.1.1, textsIn_of_not_mem hnodup.1.2,
    List.nil_append]

-- One directive more.
theorem get?_extend_directive (s : Store) (d : String × String) (key : String) :
    (s.extend d.1 [d.2]).get? key = s.added key (textsIn [d] key) := by
  by_cases hname : d.1 = key
  · have htexts : textsIn [d] key = [d.2] := by simp [textsIn, hname]
    rw [htexts, ← hname]
    exact s.get?_extend d.1 (List.cons_ne_nil _ _)
  · have htexts : textsIn [d] key = [] := by simp [textsIn, hname]
    rw [htexts, added_nil]
    exact (s.get?_upsert key _ d.1).trans (if_neg (Ne.symm hname))

theorem get?_fileAll (s : Store) (ds : List (String × String)) (key : String) :
    (s.fileAll ds).get? key = s.added key (textsIn ds key) := by
  induction ds generalizing s with
  | nil => exact (s.added_nil key).symm
  | cons d rest ih =>
    have hrest := ih (s.extend d.1 [d.2])
    rw [added_of_added (s.get?_extend_directive d key), ← textsIn_append] at hrest
    exact hrest

theorem keys_fileAll (s : Store) (ds : List (String × String)) :
    (s.fileAll ds).keys = (ds.map Prod.fst).foldl addName s.keys := by
  induction ds generalizing s with
  | nil => rfl
  | cons d rest ih =>
    have hrest := ih (s.extend d.1 [d.2])
    rw [extend, keys_upsert_eq_addName] at hrest
    exact hrest

theorem without_fileAll (s : Store) {ds : List (String × String)} {names : List String}
    (hnames : ∀ d ∈ ds, d.1 ∈ names) : (s.fileAll ds).without names = s.without names := by
  induction ds generalizing s with
  | nil => rfl
  | cons d rest ih =>
    rw [List.forall_mem_cons] at hnames
    exact (ih (s.extend d.1 [d.2]) hnames.2).trans (s.without_extend names d.1 [d.2] hnames.1)

theorem upsertEntry_map {names : List String} (hnodup : names.Nodup) (g : String → Value)
    (key : String) (f : Option Value → Value) :
    upsertEntry key f (names.map fun name => (name, g name)) =
      if key ∈ names then names.map fun name => (name, if name = key then f (some (g name)) else g name)
      else names.map (fun name => (name, g name)) ++ [(key, f none)] := by
  induction names with
  | nil => rfl
  | cons name rest ih =>
    rw [List.nodup_cons] at hnodup
    by_cases hname : name = key
    · subst hname
      have hrest : ∀ other ∈ rest, other ≠ name := fun other hother h => hnodup.1 (h ▸ hother)
      simp only [List.map_cons, upsertEntry, if_true, List.mem_cons, true_or]
      congr 1
      exact List.map_congr_left fun other hother => by rw [if_neg (hrest other hother)]
    · simp only [List.map_cons, upsertEntry, if_neg hname, ih hnodup.2, List.mem_cons,
        Ne.symm hname, false_or]
      split <;> rfl

theorem entries_fileAll (ds : List (String × String)) :
    ((∅ : Store).fileAll ds).entries =
      (ds.map Prod.fst).eraseDups.map fun name => (name, .list (textsIn ds name)) := by
  induction ds using List.reverseRecOn with
  | nil => rfl
  | append_singleton before d ih =>
    have hstep : ((∅ : Store).fileAll (before ++ [d])).entries =
        upsertEntry d.1 (fun old => .list ((old.map Value.lines).getD [] ++ [d.2]))
          ((∅ : Store).fileAll before).entries := by
      unfold fileAll
      rw [List.foldl_append]
      rfl
    rw [hstep, ih, upsertEntry_map (Directives.nodup_eraseDups _), List.map_append, List.map_singleton,
      Directives.eraseDups_concat]
    simp only [List.mem_eraseDups]
    split
    · refine List.map_congr_left fun name _ => ?_
      rw [textsIn_concat]
      by_cases hname : name = d.1
      · simp [hname, Value.lines]
      · simp [hname, Ne.symm hname]
    · rename_i hnew
      have hnone : textsIn before d.1 = [] := textsIn_of_not_mem hnew
      rw [List.map_append, List.map_singleton, textsIn_concat, hnone, if_pos rfl]
      congr 1
      refine List.map_congr_left fun name hname => ?_
      have hne : d.1 ≠ name := fun h => hnew (h ▸ List.mem_eraseDups.mp hname)
      rw [textsIn_concat, if_neg hne, List.append_nil]

theorem directives_fileAll (ds : List (String × String)) :
    ((∅ : Store).fileAll ds).directives = Directives.grouped ds := by
  unfold directives Directives.grouped
  rw [entries_fileAll, List.flatMap_map]
  refine List.flatMap_congr fun name _ => ?_
  have hself : ∀ d ∈ ds.filter (·.1 = name), (name, d.2) = d := by
    intro d hd
    have hname : d.1 = name := by simpa using (List.mem_filter.mp hd).2
    rw [← hname]
  simp only [Value.lines, textsIn, List.map_map]
  exact (List.map_congr_left hself).trans (List.map_id _)

-- Under the given names a store holds these directives, as if nothing else had ever been added.
def Files (s : Store) (names : List String) (ds : List (String × String)) : Prop :=
  s.entries.filter (·.1 ∈ names) = ((∅ : Store).fileAll ds).entries

section Files

variable {s t : Store} {names : List String} {ds : List (String × String)}

theorem files_nil (hnew : ∀ name ∈ names, name ∉ s.keys) : s.Files names [] := by
  refine List.filter_eq_nil_iff.mpr fun entry hentry hname => ?_
  exact hnew entry.1 (of_decide_eq_true hname) (List.mem_map_of_mem hentry)

theorem Files.edit (h : s.Files names ds) {keys : List String} (hedit : s.EditedIn keys t)
    (hkeys : ∀ key ∈ keys, key ∉ names) : t.Files names ds :=
  Eq.trans (hedit.agreeOn hkeys).symm h

theorem Files.extend (h : s.Files names ds) (d : String × String) :
    (s.extend d.1 [d.2]).Files names (ds ++ [d].filter (·.1 ∈ names)) := by
  by_cases hname : d.1 ∈ names
  · have hone : [d].filter (·.1 ∈ names) = [d] := by simp [hname]
    unfold Files fileAll at h ⊢
    rw [hone, List.foldl_append]
    exact (filter_upsertEntry hname _ _).trans (congrArg (upsertEntry d.1 _) h)
  · have hnone : [d].filter (·.1 ∈ names) = [] := by simp [hname]
    have hedit : s.EditedIn [d.1] (s.extend d.1 [d.2]) :=
      s.editedIn_extend (by simp) [d.2]
    rw [hnone, List.append_nil]
    exact h.edit hedit (by simpa using hname)

theorem Files.directives (h : s.Files names ds) :
    s.directives.filter (·.1 ∈ names) = Directives.grouped ds := by
  rw [← directives_fileAll]
  unfold Store.directives
  rw [← h, List.filter_flatMap]
  induction s.entries with
  | nil => rfl
  | cons entry rest ih =>
    obtain ⟨name, value⟩ := entry
    rw [List.flatMap_cons, ih]
    by_cases hname : name ∈ names <;> simp [hname, List.filter_map, Function.comp_def]

end Files

end Store

end Vassal
