import Mathlib.Data.List.Basic

-- Texts that are joined by a separator: what stands in them, and how they are taken apart again.

namespace Vassal.Text

theorem intercalate_ne_empty (separator : String) {texts : List String}
    (htexts : ∀ text ∈ texts, text ≠ "") (hne : texts ≠ []) :
    String.intercalate separator texts ≠ "" := by
  cases texts with
  | nil => exact absurd rfl hne
  | cons text rest =>
    have htext : text ≠ "" := htexts text List.mem_cons_self
    by_cases hrest : rest = []
    · rwa [hrest, String.intercalate_singleton]
    · rw [String.intercalate_cons_of_ne_nil hrest]
      simp [htext]

-- Texts without the separator are found again where it stands.
theorem splitOn_intercalate (separator : String) (c : Char) (hseparator : separator.toList = [c])
    {texts : List String} (htexts : ∀ text ∈ texts, c ∉ text.toList) (hne : texts ≠ []) :
    (String.intercalate separator texts).toList.splitOn c = texts.map String.toList := by
  rw [String.toList_intercalate, hseparator]
  exact List.splitOn_intercalate c (by simpa using htexts) (by simpa using hne)

section Commas

theorem toList_commas_cons {first : String} {others : List String} (hne : others ≠ []) :
    (String.intercalate "," (first :: others)).toList =
      first.toList ++ ',' :: (String.intercalate "," others).toList := by
  rw [String.intercalate_cons_of_ne_nil hne, String.toList_append, String.toList_append,
    List.append_assoc]
  rfl

theorem mem_commas {fields : List String} {c : Char}
    (h : c ∈ (String.intercalate "," fields).toList) :
    c = ',' ∨ ∃ field ∈ fields, c ∈ field.toList := by
  induction fields with
  | nil => cases h
  | cons first others ih =>
    cases others with
    | nil =>
      rw [String.intercalate_singleton] at h
      exact .inr ⟨first, List.mem_cons_self, h⟩
    | cons second rest =>
      rw [toList_commas_cons (List.cons_ne_nil _ _), List.mem_append, List.mem_cons] at h
      obtain hfirst | hcomma | hothers := h
      · exact .inr ⟨first, List.mem_cons_self, hfirst⟩
      · exact .inl hcomma
      · obtain hcomma | ⟨field, hfield, hc⟩ := ih hothers
        · exact .inl hcomma
        · exact .inr ⟨field, List.mem_cons_of_mem _ hfield, hc⟩

theorem commas_inj {fields others : List String} (hfields : ∀ field ∈ fields, ',' ∉ field.toList)
    (hothers : ∀ field ∈ others, ',' ∉ field.toList) (hne : fields ≠ []) (hne' : others ≠ []) :
    String.intercalate "," fields = String.intercalate "," others ↔ fields = others := by
  refine ⟨fun h => ?_, congrArg _⟩
  have hmap : fields.map String.toList = others.map String.toList := by
    rw [← splitOn_intercalate "," ',' rfl hfields hne, h,
      splitOn_intercalate "," ',' rfl hothers hne']
  exact List.map_injective_iff.mpr (fun _ _ => String.toList_inj.mp) hmap

end Commas

end Vassal.Text
