import Vassal.Host.FileTree
import Vassal.Proofs.Ascending
import Vassal.Proofs.Path

-- What is found in a tree of files after one of them has been written.
--
-- A file is written where a path leads to, and the path goes on leading there: each directory on
-- the way stays one, because the new file has come where no directory was.

namespace Vassal

theorem Except.bind_eq_ok_iff {ε α β : Type} {x : Except ε α} {f : α → Except ε β} {b : β} :
    (x >>= f) = .ok b ↔ ∃ a, x = .ok a ∧ f a = .ok b := by
  cases x <;> simp [bind, Except.bind]

namespace FileTree

variable {t t' : FileTree} {path : RawPath} {place other : List ByteString} {bytes : ByteArray}

theorem checkDirectory_eq_ok_iff :
    t.checkDirectory other = .ok () ↔ t.node? other = some .directory := by
  unfold checkDirectory
  split <;> simp_all

theorem lookup_put_of_ne (hne : other ≠ place) :
    (t.put place bytes).files.lookup other = t.files.lookup other := by
  have hbeq : (other == place) = false := by simpa using hne
  rw [put, List.lookup_cons, hbeq]
  exact Ascending.lookup_filter (p := (· ≠ place)) (by simpa using hne) t.files

theorem node?_put_self : (t.put place bytes).node? place = some (.file bytes) := by
  simp [node?, put]

-- A directory holds no bytes, and something is below it.
theorem node?_eq_directory_iff :
    t.node? place = some .directory ↔
      t.files.lookup place = none ∧
        (place <+: t.current ∨ ∃ file ∈ t.files, place <+: file.1) := by
  unfold node?
  split
  next bytes hlookup => simp [hlookup]
  next hlookup => simp [hlookup, or_iff_not_imp_left]

section Put

-- A file takes the place of no directory.
variable (hplace : t.node? place ≠ some .directory)
include hplace

theorem node?_put_of_directory (h : t.node? other = some .directory) :
    (t.put place bytes).node? other = some .directory := by
  have hne : other ≠ place := by
    rintro rfl
    exact hplace h
  rw [node?_eq_directory_iff] at h ⊢
  obtain ⟨hlookup, hbelow⟩ := h
  refine ⟨by rw [lookup_put_of_ne hne, hlookup], hbelow.imp_right ?_⟩
  rintro ⟨file, hfile, hprefix⟩
  by_cases hsame : file.1 = place
  · exact ⟨(place, bytes), List.mem_cons_self, hsame ▸ hprefix⟩
  · have hkept : file ∈ t.files.filter (·.1 ≠ place) :=
      List.mem_filter.mpr ⟨hfile, by simpa using hsame⟩
    exact ⟨file, List.mem_cons_of_mem _ hkept, hprefix⟩

-- A way that leads from directory to directory goes on leading there.
theorem step_put {next : List ByteString} {name : ByteString} (h : t.step other name = .ok next) :
    (t.put place bytes).step other name = .ok next := by
  unfold step at h ⊢
  rw [Except.bind_eq_ok_iff] at h ⊢
  obtain ⟨_, hcheck, hname⟩ := h
  have hdirectory : (t.put place bytes).node? other = some .directory :=
    node?_put_of_directory hplace (checkDirectory_eq_ok_iff.mp hcheck)
  exact ⟨(), checkDirectory_eq_ok_iff.mpr hdirectory, hname⟩

theorem foldlM_step_put {names : List ByteString} {next : List ByteString}
    (h : names.foldlM t.step other = .ok next) :
    names.foldlM (t.put place bytes).step other = .ok next := by
  induction names generalizing other with
  | nil => exact h
  | cons name rest ih =>
    rw [List.foldlM_cons, Except.bind_eq_ok_iff] at h ⊢
    obtain ⟨middle, hstep, hrest⟩ := h
    exact ⟨middle, step_put hplace hstep, ih hrest⟩

theorem place_put (h : t.place path = .ok other) : (t.put place bytes).place path = .ok other := by
  unfold FileTree.place walk at h ⊢
  split at h
  case isTrue => exact nomatch h
  case isFalse =>
    split at h
    case isTrue => exact nomatch h
    case isFalse =>
      split at h
      case isTrue => exact nomatch h
      case isFalse =>
        simp only [*, if_false]
        exact foldlM_step_put hplace h

end Put

-- A path to a file has no slash at its end, so it is followed to its last name.
theorem write_eq_ok (h : t.write path bytes = .ok t') :
    ∃ place, t.place path = .ok place ∧ t.node? place ≠ some .directory ∧
      t' = t.put place bytes := by
  unfold write at h
  obtain ⟨place, hwalk, hput⟩ := Except.bind_eq_ok_iff.mp h
  have hsome : path ≠ [] := by
    rintro rfl
    exact nomatch hwalk
  split at hput
  case h_1 => exact nomatch hput
  case h_2 hnode =>
    split at hput
    case isTrue => exact nomatch hput
    case isFalse hslash =>
      rw [RawPath.dropWhile_names hsome (by simpa using hslash)] at hwalk
      exact ⟨place, hwalk, hnode, (Except.ok.inj hput).symm⟩

theorem read_write (h : t.write path bytes = .ok t') : t'.read path = .ok bytes := by
  obtain ⟨place, hplace, hnode, rfl⟩ := write_eq_ok h
  have hsame : (t.put place bytes).place path = .ok place := place_put hnode hplace
  simp only [read, hsame, node?_put_self, bind, Except.bind]
  rfl

end FileTree

end Vassal
