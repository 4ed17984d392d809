import Vassal.Path
import Vassal.Proofs.Text.Reader

-- The names that a path goes through, and those of a path that is joined to another one.

namespace Vassal

namespace ByteString

theorem toByteArray_ofText (s : String) : (ofText s).toByteArray = s.toUTF8 := by
  apply ByteArray.ext
  apply Array.toList_inj.mp
  exact List.toList_data_toByteArray

theorem ofText_append (s t : String) : ofText (s ++ t) = ofText s ++ ofText t := by
  have hbytes : (s ++ t).toUTF8 = s.toUTF8 ++ t.toUTF8 := String.toByteArray_append
  rw [ofText, hbytes, ByteArray.data_append, Array.toList_append, ofText, ofText]

-- A text is printed as it is.
theorem display_ofText (s : String) : display (ofText s) = s := by
  rw [display, toByteArray_ofText, Text.Utf8.lossy_toUTF8]

-- Nothing else is.
theorem ofText_display_iff (b : ByteString) : ofText (display b) = b ↔ ∃ s, b = ofText s := by
  constructor
  · exact fun h => ⟨display b, h.symm⟩
  · rintro ⟨s, rfl⟩
    rw [display_ofText]

end ByteString

namespace RawPath

theorem splitOn_concat (path : RawPath) {b : UInt8} (hb : b ≠ slash) :
    ∃ front last, (path ++ [b]).splitOn slash = front ++ [last] ∧ last ≠ [] := by
  induction path with
  | nil => exact ⟨[], [b], by simp [List.splitOn_cons_eq_if_modifyHead, hb], by simp⟩
  | cons first rest ih =>
    obtain ⟨front, last, hsplit, hlast⟩ := ih
    rw [List.cons_append, List.splitOn_cons_eq_if_modifyHead, hsplit]
    by_cases hslash : first = slash
    · exact ⟨[] :: front, last, by simp [hslash], hlast⟩
    · cases front with
      | nil => exact ⟨[], first :: last, by simp [hslash], by simp⟩
      | cons name front => exact ⟨(first :: name) :: front, last, by simp [hslash], hlast⟩

-- Without a slash at its end a path ends in a name.
theorem dropWhile_names {path : RawPath} (hsome : path ≠ []) (hslash : endsInSlash path = false) :
    ((names path).reverse.dropWhile List.isEmpty).reverse = names path := by
  obtain ⟨front, b, rfl⟩ : ∃ front b, path = front ++ [b] :=
    ⟨_, _, (List.dropLast_concat_getLast hsome).symm⟩
  have hb : b ≠ slash := by simpa [endsInSlash] using hslash
  obtain ⟨before, last, hsplit, hlast⟩ := splitOn_concat front hb
  simp [names, hsplit, hlast]

end RawPath

namespace Path

theorem join_eq (base path : String) :
    join base path =
      if isAbsolute path = true then path
      else if base = "" ∨ base.toList.getLast? = some '/' then base ++ path
      else base ++ "/" ++ path := by
  have hbase : base.toList = [] ↔ base = "" := String.toList_eq_nil_iff
  simp only [join, joinUnits, isAbsolute, beq_iff_eq, hbase]
  split
  case isTrue => exact String.ofList_toList
  case isFalse => split <;> simp [String.ofList_append, String.append_assoc]

-- The names between the slashes; two slashes in a row have an empty name between them.
def names (path : String) : List String :=
  (path.toList.splitOn '/').map String.ofList

-- The names on the way, without the empty ones between slashes.
def steps (path : String) : List String :=
  (names path).filter (· ≠ "")

theorem steps_append_slash (first second : String) :
    steps (first ++ "/" ++ second) = steps first ++ steps second := by
  have hletters : (first ++ "/" ++ second).toList = first.toList ++ '/' :: second.toList := by
    simp
  rw [steps, names, hletters, List.splitOn_append_cons_self, List.map_append, List.filter_append,
    steps, names, steps, names]

-- An absolute path begins anew. Any other one goes on from where the first one leads to.
theorem steps_join (base path : String) :
    steps (join base path) =
      if isAbsolute path = true then steps path else steps base ++ steps path := by
  have hnone : steps "" = [] := by decide
  rw [join_eq]
  split
  case isTrue => rfl
  case isFalse =>
    split
    case isFalse => exact steps_append_slash base path
    case isTrue hgap =>
      rcases hgap with rfl | hslash
      · rw [hnone, String.empty_append, List.nil_append]
      · -- The slash at the end of the first path is the one between the two.
        obtain ⟨front, hfront⟩ := List.getLast?_eq_some_iff.mp hslash
        have hbase : base = String.ofList front ++ "/" ++ "" := by
          rw [← String.toList_inj]
          simp [hfront]
        rw [hbase, steps_append_slash, hnone, List.append_nil, String.append_empty,
          steps_append_slash]

theorem isAbsolute_join (base path : String) :
    isAbsolute (join base path) = (isAbsolute path || isAbsolute base) := by
  have hhead : ∀ first second : String, first ≠ "" →
      isAbsolute (first ++ second) = isAbsolute first := by
    intro first second hsome
    have hletters : first.toList ≠ [] := fun hnil => hsome (String.toList_eq_nil_iff.mp hnil)
    have hsome : first.toList.head?.isSome := List.isSome_head?.mpr hletters
    rw [isAbsolute, String.toList_append, List.head?_append, Option.or_of_isSome hsome,
      isAbsolute]
  rw [join_eq]
  split
  case isTrue habsolute => simp [habsolute]
  case isFalse hrelative =>
    by_cases hempty : base = ""
    · simp [hempty, isAbsolute]
    · split
      · rw [hhead base path hempty]
        simp [hrelative]
      · rw [String.append_assoc, hhead base _ hempty]
        simp [hrelative]

-- One path after another: where the second one leads to, seen from where the first one leads to.
structure Joins (base path joined : String) : Prop where
  text : ∃ gap ∈ ["", "/"], joined = if isAbsolute path = true then path else base ++ gap ++ path
  isAbsolute : isAbsolute joined = (Path.isAbsolute path || Path.isAbsolute base)
  steps : steps joined =
    if Path.isAbsolute path = true then Path.steps path else Path.steps base ++ Path.steps path

theorem joins_join (base path : String) : Joins base path (join base path) := by
  refine ⟨?_, isAbsolute_join base path, steps_join base path⟩
  rw [join_eq]
  by_cases hgap : base = "" ∨ base.toList.getLast? = some '/'
  · exact ⟨"", by simp, by rw [if_pos hgap, String.append_empty]⟩
  · exact ⟨"/", by simp, by rw [if_neg hgap]⟩

end Path

end Vassal
