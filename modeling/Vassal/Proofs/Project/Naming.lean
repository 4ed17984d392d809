import Vassal.Proofs.Project.Build

-- The names that sections are checked under and the names that they are built under.
--
-- A section without a name counts as "uwsgi" while the project is checked. Once built it has the
-- name of its base, if it has a base. The two names differ for such a section and for no other.

namespace Vassal

namespace SectionSpec

-- The section has no name of its own and a base to take one from.
def BorrowsName (spec : SectionSpec) : Prop :=
  spec.name = none ∧ spec.deriveFrom.isSome

instance : DecidablePred BorrowsName :=
  fun spec => inferInstanceAs (Decidable (spec.name = none ∧ spec.deriveFrom.isSome))

def builtName (spec : SectionSpec) : String :=
  (spec.name <|> spec.deriveFrom).getD defaultSectionName

variable {spec : SectionSpec}

theorem builtName_of_not_borrows (h : ¬ spec.BorrowsName) :
    spec.builtName = spec.effectiveName := by
  unfold BorrowsName at h
  unfold builtName effectiveName
  cases hname : spec.name with
  | some name => rfl
  | none =>
    have hderive : spec.deriveFrom = none := by simpa [hname] using h
    rw [hderive]
    rfl

theorem deriveFrom_of_borrows (h : spec.BorrowsName) : spec.deriveFrom = some spec.builtName := by
  obtain ⟨hname, hderive⟩ := h
  obtain ⟨base, hbase⟩ := Option.isSome_iff_exists.mp hderive
  simp [builtName, hname, hbase]

theorem effectiveName_of_borrows (h : spec.BorrowsName) :
    spec.effectiveName = defaultSectionName := by
  simp [effectiveName, h.1]

end SectionSpec

namespace Project

namespace Checked

variable {specs : List SectionSpec} (h : Checked specs) {i j : Nat} {spec other : SectionSpec}
include h

-- The place of a section is known from its name.
theorem index_unique (hi : specs[i]? = some spec) (hj : specs[j]? = some other)
    (hname : spec.effectiveName = other.effectiveName) : i = j := by
  have hlt : i < (specs.map SectionSpec.effectiveName).length := by
    rw [List.length_map]
    exact (List.getElem?_eq_some_iff.mp hi).1
  refine (List.getElem?_inj hlt h.nodup).mp ?_
  simp only [List.getElem?_map, hi, hj, Option.map_some, hname]

theorem exists_earlier {base : String} (hi : specs[i]? = some spec)
    (hderive : spec.deriveFrom = some base) :
    ∃ (j : Nat) (baseSpec : SectionSpec), j < i ∧ specs[j]? = some baseSpec ∧
      baseSpec.effectiveName = base := by
  obtain ⟨baseSpec, hmem, hname⟩ := List.mem_map.mp (h.earlier i spec base hi hderive)
  obtain ⟨j, hj⟩ := List.mem_iff_getElem?.mp hmem
  rw [List.getElem?_take] at hj
  split at hj
  · exact ⟨j, baseSpec, ‹_›, hj, hname⟩
  · cases hj

-- A section that borrows its name has it from a section with a name of its own, because only one
-- section can do without.
theorem exists_lender (hi : specs[i]? = some spec) (hborrows : spec.BorrowsName) :
    ∃ (j : Nat) (lender : SectionSpec), j < i ∧ specs[j]? = some lender ∧
      lender.effectiveName = spec.builtName ∧ ¬ lender.BorrowsName := by
  have hderive := SectionSpec.deriveFrom_of_borrows hborrows
  obtain ⟨j, lender, hlt, hj, hname⟩ := h.exists_earlier hi hderive
  refine ⟨j, lender, hlt, hj, hname, fun hlender => ?_⟩
  have hsame : spec.effectiveName = lender.effectiveName :=
    (SectionSpec.effectiveName_of_borrows hborrows).trans
      (SectionSpec.effectiveName_of_borrows hlender).symm
  have heq := h.index_unique hi hj hsame
  omega

-- Every name that a section is built under was checked as the name of a section that borrows none,
-- not later in the project.
theorem exists_owner (hj : specs[j]? = some other) :
    ∃ (k : Nat) (owner : SectionSpec), k ≤ j ∧ specs[k]? = some owner ∧
      owner.effectiveName = other.builtName ∧ ¬ owner.BorrowsName := by
  by_cases hborrows : other.BorrowsName
  · obtain ⟨k, lender, hlt, hk, hname, hown⟩ := h.exists_lender hj hborrows
    exact ⟨k, lender, by omega, hk, hname, hown⟩
  · exact ⟨j, other, Nat.le_refl j, hj, (SectionSpec.builtName_of_not_borrows hborrows).symm,
      hborrows⟩

-- Nothing before a section is built under the name that the section was checked under.
theorem builtName_ne (hi : specs[i]? = some spec) (hj : specs[j]? = some other) (hlt : j < i) :
    other.builtName ≠ spec.effectiveName := by
  intro hname
  obtain ⟨k, owner, hle, hk, howner, -⟩ := h.exists_owner hj
  have heq := h.index_unique hi hk (by rw [howner, hname])
  omega

-- Nothing at all is built under the name that a borrower was checked under.
theorem builtName_ne_default (hi : specs[i]? = some spec) (hborrows : spec.BorrowsName)
    (hj : specs[j]? = some other) : other.builtName ≠ defaultSectionName := by
  intro hname
  obtain ⟨k, owner, -, hk, howner, hown⟩ := h.exists_owner hj
  have heq := h.index_unique hi hk (by
    rw [howner, hname, SectionSpec.effectiveName_of_borrows hborrows])
  subst heq
  obtain rfl : spec = owner := Option.some.inj (hi.symm.trans hk)
  exact hown hborrows

-- Two sections are built under one name only if one of them has borrowed it.
theorem borrows_of_builtName_eq (hi : specs[i]? = some spec) (hj : specs[j]? = some other)
    (hne : i ≠ j) (hname : spec.builtName = other.builtName) :
    ∃ borrower ∈ specs, borrower.BorrowsName ∧ borrower.deriveFrom = some spec.builtName := by
  by_cases hspec : spec.BorrowsName
  · exact ⟨spec, List.mem_of_getElem? hi, hspec, SectionSpec.deriveFrom_of_borrows hspec⟩
  · by_cases hother : other.BorrowsName
    · exact ⟨other, List.mem_of_getElem? hj, hother,
        hname ▸ SectionSpec.deriveFrom_of_borrows hother⟩
    · rw [SectionSpec.builtName_of_not_borrows hspec,
        SectionSpec.builtName_of_not_borrows hother] at hname
      exact absurd (h.index_unique hi hj hname) hne

theorem nodup_builtNames_iff :
    (specs.map SectionSpec.builtName).Nodup ↔ ∀ spec ∈ specs, ¬ spec.BorrowsName := by
  rw [List.nodup_iff_getElem?_ne_getElem?]
  constructor
  · intro hdistinct spec hmem hborrows
    obtain ⟨i, hi⟩ := List.mem_iff_getElem?.mp hmem
    obtain ⟨j, lender, hlt, hj, hname, hown⟩ := h.exists_lender hi hborrows
    refine hdistinct j i hlt ?_ ?_
    · rw [List.length_map]
      exact (List.getElem?_eq_some_iff.mp hi).1
    · rw [← SectionSpec.builtName_of_not_borrows hown] at hname
      simp only [List.getElem?_map, hi, hj, Option.map_some, hname]
  · intro hown i j hlt hj heq
    rw [List.length_map] at hj
    have hi : i < specs.length := by omega
    simp only [List.getElem?_map, List.getElem?_eq_getElem hi, List.getElem?_eq_getElem hj,
      Option.map_some, Option.some.injEq] at heq
    obtain ⟨borrower, hmem, hborrows, -⟩ := h.borrows_of_builtName_eq
      (List.getElem?_eq_getElem hi) (List.getElem?_eq_getElem hj) (by omega) heq
    exact hown borrower hmem hborrows

end Checked

namespace Built

variable {env : Environment} {specs : List SectionSpec} {sections : List Section}
variable (h : Built env specs sections) {i j : Nat} {spec baseSpec : SectionSpec} {s base : Section}
include h

theorem exists_spec (hs : sections[i]? = some s) : ∃ spec, specs[i]? = some spec := by
  have hlt := (List.getElem?_eq_some_iff.mp hs).1
  rw [h.length] at hlt
  exact ⟨specs[i], List.getElem?_eq_getElem hlt⟩

theorem build_eq (hi : specs[i]? = some spec) (hs : sections[i]? = some s) :
    spec.build env (spec.base? (sections.take i)) = .ok s := by
  obtain ⟨t, ht, hbuild⟩ := h.build i spec hi
  rw [hs] at ht
  exact Option.some.inj ht ▸ hbuild

-- A section that borrows no name is built under the one it was checked under.
theorem effectiveName_of_not_borrows (hi : specs[i]? = some spec) (hs : sections[i]? = some s)
    (hown : ¬ spec.BorrowsName) : s.effectiveName = spec.builtName := by
  have hname := SectionSpec.name_of_build (h.build_eq hi hs)
  rw [SectionSpec.builtName_of_not_borrows hown]
  unfold Section.effectiveName SectionSpec.effectiveName
  rw [hname]
  cases hspec : spec.name with
  | some name => rfl
  | none =>
    have hderive : spec.deriveFrom = none := by simpa [SectionSpec.BorrowsName, hspec] using hown
    simp [SectionSpec.base?, hderive]

theorem effectiveName_eq (hi : specs[i]? = some spec) (hs : sections[i]? = some s) :
    s.effectiveName = spec.builtName := by
  by_cases hborrows : spec.BorrowsName
  · have hderive := SectionSpec.deriveFrom_of_borrows hborrows
    have hname := SectionSpec.name_of_build (h.build_eq hi hs)
    obtain ⟨j, lender, hlt, hj, hlender, hown⟩ := h.exists_lender hi hborrows
    obtain ⟨t, ht, -⟩ := h.build j lender hj
    have htname := h.effectiveName_of_not_borrows hj ht hown
    rw [SectionSpec.builtName_of_not_borrows hown, hlender] at htname
    -- Some section before this one has the name, so the search finds one that has it.
    cases hfind : spec.base? (sections.take i) with
    | none =>
      simp only [SectionSpec.base?, hderive, Option.bind_some, List.find?_eq_none] at hfind
      have hmem : t ∈ sections.take i :=
        List.mem_of_getElem? ((List.getElem?_take_of_lt hlt).trans ht)
      exact absurd htname (by simpa using hfind t hmem)
    | some base =>
      simp only [SectionSpec.base?, hderive, Option.bind_some] at hfind
      have hbase : base.effectiveName = spec.builtName := by simpa using List.find?_some hfind
      have hne := h.builtName_ne_default hi hborrows hi
      have hbaseName : base.name = some spec.builtName := by
        unfold Section.effectiveName at hbase
        cases hcase : base.name with
        | none => exact absurd (by simpa [hcase] using hbase.symm) hne
        | some name => simpa [hcase] using hbase
      have hfound : spec.base? (sections.take i) = some base := by
        simp only [SectionSpec.base?, hderive, Option.bind_some, hfind]
      rw [hfound, hborrows.1, Option.bind_some, hbaseName] at hname
      unfold Section.effectiveName
      rw [hname]
      rfl
  · exact h.effectiveName_of_not_borrows hi hs hborrows

theorem map_effectiveName_eq :
    sections.map Section.effectiveName = specs.map SectionSpec.builtName := by
  apply List.ext_getElem?
  intro i
  simp only [List.getElem?_map]
  cases hs : sections[i]? with
  | none =>
    have hlt : specs.length ≤ i := h.length ▸ List.getElem?_eq_none_iff.mp hs
    rw [List.getElem?_eq_none hlt]
    rfl
  | some s =>
    obtain ⟨spec, hi⟩ := h.exists_spec hs
    rw [hi, Option.map_some, Option.map_some, h.effectiveName_eq hi hs]

-- A base with a name of its own is found, and no section before it is mistaken for it.
theorem base?_of_not_borrows (hlt : j < i) (hj : specs[j]? = some baseSpec)
    (hderive : spec.deriveFrom = some baseSpec.effectiveName) (hown : ¬ baseSpec.BorrowsName)
    (hbase : sections[j]? = some base) : spec.base? (sections.take i) = some base := by
  have hjlt := (List.getElem?_eq_some_iff.mp hbase).1
  simp only [SectionSpec.base?, hderive, Option.bind_some, List.find?_eq_some_iff_getElem]
  refine ⟨?_, j, by rw [List.length_take]; omega, ?_, fun k hk => ?_⟩
  · rw [h.effectiveName_eq hj hbase, SectionSpec.builtName_of_not_borrows hown, beq_self_eq_true]
  · rw [List.getElem_take]
    exact (List.getElem?_eq_some_iff.mp hbase).2
  · have hget : sections[k]? = some sections[k] := List.getElem?_eq_getElem (by omega)
    obtain ⟨other, hother⟩ := h.exists_spec hget
    have hne := h.builtName_ne hj hother hk
    rw [List.getElem_take, h.effectiveName_eq hother hget]
    simpa using hne

-- A base that has borrowed its name is not found under the one it was checked under.
theorem base?_of_borrows (hj : specs[j]? = some baseSpec)
    (hderive : spec.deriveFrom = some baseSpec.effectiveName) (hborrows : baseSpec.BorrowsName) :
    spec.base? (sections.take i) = none := by
  simp only [SectionSpec.base?, hderive, Option.bind_some, List.find?_eq_none]
  intro s hmem
  obtain ⟨k, hk⟩ := List.mem_iff_getElem?.mp (List.mem_of_mem_take hmem)
  obtain ⟨other, hother⟩ := h.exists_spec hk
  have hne := h.builtName_ne_default hj hborrows hother
  rw [h.effectiveName_eq hother hk, SectionSpec.effectiveName_of_borrows hborrows]
  simpa using hne

end Built

-- The document of a project has a text exactly if every section with a base has a name of its own.
-- Otherwise it is refused for repeating a name that one of its sections has borrowed.
theorem render_of_build {env : Environment} {p : Project} {d : Document}
    (hbuild : p.build env = .ok d) :
    ((∃ text, d.render = .ok text) ↔ ∀ spec ∈ p.sections, ¬ spec.BorrowsName) ∧
    ∀ e, d.render = .error e → ∃ spec ∈ p.sections, ∃ base,
      spec.BorrowsName ∧ spec.deriveFrom = some base ∧ e = .duplicateSection base := by
  obtain ⟨sections, hbuilt, rfl⟩ := built_of_build hbuild
  refine ⟨?_, fun e he => ?_⟩
  · rw [← hbuilt.nodup_builtNames_iff, ← hbuilt.map_effectiveName_eq]
    simp only [Document.render_eq_ok_iff, Document.checkEntries_eq_ok_iff]
    constructor
    · rintro ⟨text, ss, ⟨hentries, hnodup, -⟩, -⟩
      rwa [Document.map_section_injective hentries]
    · intro hnodup
      exact ⟨_, sections, ⟨rfl, hnodup, by simp⟩, rfl⟩
  · rw [Document.render_eq_error_iff] at he
    obtain ⟨i, j, s, t, hlt, hs, ht, hname, rfl⟩ := Document.exists_repeated_of_checkEntries he
    obtain ⟨other, hother⟩ := hbuilt.exists_spec ht
    obtain ⟨spec, hspec⟩ := hbuilt.exists_spec hs
    rw [hbuilt.effectiveName_eq hother ht, hbuilt.effectiveName_eq hspec hs] at hname
    obtain ⟨borrower, hmem, hborrows, hderive⟩ :=
      hbuilt.borrows_of_builtName_eq hother hspec (by omega) hname
    refine ⟨borrower, hmem, _, hborrows, hderive, ?_⟩
    rw [hbuilt.effectiveName_eq hspec hs, hname]

theorem render_of_named_heir :
    let p : Project :=
      { sections := [{ name := some "a" }, { name := some "b", deriveFrom := some "a" }] }
    ∃ d, p.build (fun _ => none) = .ok d ∧ ∃ text, d.render = .ok text := by
  intro p
  obtain ⟨d, hbuild⟩ : ∃ d, p.build (fun _ => none) = .ok d := ⟨_, rfl⟩
  have hnamed : ∀ spec ∈ p.sections, ¬ spec.BorrowsName := by
    unfold p
    decide
  exact ⟨d, hbuild, (render_of_build hbuild).1.mpr hnamed⟩

-- The check has nothing against a section without a name that derives from another one.
theorem not_render_of_unnamed_heir :
    let p : Project := { sections := [{ name := some "a" }, { deriveFrom := some "a" }] }
    p.check = .ok () ∧ ∃ d, p.build (fun _ => none) = .ok d ∧ ¬ ∃ text, d.render = .ok text := by
  refine ⟨rfl, _, rfl, ?_⟩
  rintro ⟨text, htext⟩
  have herror : Except.error (Error.duplicateSection "a") = Except.ok text := htext
  cases herror

-- Deriving from a section starts with a copy of the only earlier section of that name, unless that
-- section has borrowed another name; then there is nothing to start with.
theorem build_on_base {env : Environment} {p : Project} {d : Document}
    (hbuild : p.build env = .ok d) {i : Nat} {spec : SectionSpec} {name : String}
    (hspec : p.sections[i]? = some spec) (hderive : spec.deriveFrom = some name) :
    ∃ (j : Nat) (baseSpec : SectionSpec) (base s : Section),
      j < i ∧ p.sections[j]? = some baseSpec ∧ baseSpec.effectiveName = name ∧
      (∀ (k : Nat) (other : SectionSpec), p.sections[k]? = some other →
        other.effectiveName = name → k = j) ∧
      d.sections[j]? = some base ∧ d.sections[i]? = some s ∧
      spec.build env (if baseSpec.BorrowsName then none else some base) = .ok s := by
  obtain ⟨sections, hbuilt, rfl⟩ := built_of_build hbuild
  obtain ⟨j, baseSpec, hlt, hj, rfl⟩ := hbuilt.exists_earlier hspec hderive
  obtain ⟨base, hbase, -⟩ := hbuilt.build j baseSpec hj
  obtain ⟨s, hs, hbuildSpec⟩ := hbuilt.build i spec hspec
  rw [sections_documentOf]
  refine ⟨j, baseSpec, base, s, hlt, hj, rfl,
    fun k other hk hname => hbuilt.index_unique hk hj hname, hbase, hs, ?_⟩
  by_cases hborrows : baseSpec.BorrowsName
  · rwa [if_pos hborrows, ← hbuilt.base?_of_borrows hj hderive hborrows]
  · rwa [if_neg hborrows, ← hbuilt.base?_of_not_borrows hlt hj hderive hborrows hbase]

-- The option of the base is an option of its heir.
theorem build_on_named_base :
    let heir : SectionSpec := { name := some "b", deriveFrom := some "a" }
    let p : Project := { sections := [
      { name := some "a", groups := [("workers", .table [("count", .integer 2)])] }, heir] }
    ∃ d base s, p.build (fun _ => none) = .ok d ∧ d.sections[0]? = some base ∧
      d.sections[1]? = some s ∧ heir.build (fun _ => none) (some base) = .ok s ∧
      base.options.get? "workers" = some (.single "2") ∧
      s.options.get? "workers" = some (.single "2") := by
  intro heir p
  obtain ⟨d, hbuild, hworkers⟩ : ∃ d, p.build (fun _ => none) = .ok d ∧
      d.sections.map (·.options.get? "workers") = [some (.single "2"), some (.single "2")] :=
    ⟨_, rfl, rfl⟩
  have hoption : ∀ {i : Nat} {t : Section}, d.sections[i]? = some t →
      t.options.get? "workers" = some (.single "2") := by
    intro i t ht
    have hmem := List.mem_map_of_mem (f := (·.options.get? "workers")) (List.mem_of_getElem? ht)
    rw [hworkers] at hmem
    simpa using hmem
  have hspec : p.sections[1]? = some heir := rfl
  have hderive : heir.deriveFrom = some "a" := rfl
  obtain ⟨j, baseSpec, base, s, hlt, hj, -, -, hbase, hs, hbuildSpec⟩ :=
    build_on_base hbuild hspec hderive
  obtain rfl : j = 0 := by omega
  cases hj
  exact ⟨d, base, s, hbuild, hbase, hs, hbuildSpec, hoption hbase, hoption hs⟩

-- The second section is built under the name "a", so the third one begins with nothing.
theorem build_ignores_renamed_base :
    let p : Project := { sections := [
      { name := some "a", groups := [("workers", .table [("count", .integer 2)])] },
      { deriveFrom := some "a" },
      { name := some "c", deriveFrom := some "uwsgi" }] }
    p.sections.map SectionSpec.effectiveName = ["a", "uwsgi", "c"] ∧
    ∃ first base s t : Section,
      p.build (fun _ => none) =
        .ok { entries := [.section first, .section base, .section s], banner := true } ∧
      SectionSpec.build (fun _ => none) { name := some "c", deriveFrom := some "uwsgi" }
        (some base) = .ok t ∧ s ≠ t := by
  refine ⟨rfl, _, _, _, _, rfl, rfl, fun heq => ?_⟩
  exact absurd (congrArg Section.options heq) (by decide)

end Project

end Vassal
