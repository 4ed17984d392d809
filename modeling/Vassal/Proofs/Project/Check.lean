import Vassal.Proofs.Project.References

-- Which projects pass their check, and what the others are refused for.
--
-- The check goes through the descriptions once. A description is held against those before it, but
-- its references are held against the whole project.

namespace Vassal

namespace SectionSpec

variable (before : List SectionSpec) (spec : SectionSpec)

-- The base that is asked for is among the descriptions before.
def BasedOn : Prop :=
  ∀ base, spec.deriveFrom = some base → ∃ earlier ∈ before, earlier.effectiveName = base

def NewAfter : Prop :=
  ∀ earlier ∈ before, earlier.effectiveName ≠ spec.effectiveName

end SectionSpec

namespace Project

-- What a reference to a section asks for: a section that has this name of its own, wherever it
-- stands.
def Known (p : Project) (reference : String) : Prop :=
  ∀ name, reference = ":" ++ name → ∃ owner ∈ p.sections, owner.name = some name

def KnowsTargets (p : Project) (spec : SectionSpec) : Prop :=
  ∀ reference ∈ spec.includes ++ spec.fallback.toList, p.Known reference

-- A description that is in order, if these are the ones before it.
structure Sound (p : Project) (before : List SectionSpec) (spec : SectionSpec) : Prop where
  base : spec.BasedOn before
  name : spec.NewAfter before
  references : p.KnowsTargets spec
  module : spec.wsgiModule.isSome → spec.preset = .python

-- What a description after these is refused for, the first of its offences.
inductive Offence (p : Project) (before : List SectionSpec) (spec : SectionSpec) : Error → Prop
  | base {base : String} (hderive : spec.deriveFrom = some base)
      (habsent : ∀ earlier ∈ before, earlier.effectiveName ≠ base) :
      Offence p before spec (.invalidProject (.undefinedBase spec.effectiveName base))
  | name (hbase : spec.BasedOn before) (hname : ¬ spec.NewAfter before) :
      Offence p before spec (.duplicateSection spec.effectiveName)
  | reference (hbase : spec.BasedOn before) (hname : spec.NewAfter before)
      {known rest : List String} {target : String}
      (hreferences : spec.includes ++ spec.fallback.toList = known ++ (":" ++ target) :: rest)
      (hknown : ∀ reference ∈ known, p.Known reference)
      (hunknown : ∀ owner ∈ p.sections, owner.name ≠ some target) :
      Offence p before spec (.invalidProject (.unknownReference spec.effectiveName target))
  | module (hbase : spec.BasedOn before) (hname : spec.NewAfter before)
      (hreferences : p.KnowsTargets spec) (hmodule : spec.wsgiModule.isSome)
      (hpreset : spec.preset ≠ .python) :
      Offence p before spec (.invalidProject (.moduleWithoutPython spec.effectiveName))

section References

theorem mem_explicitNames {p : Project} {name : String} :
    name ∈ p.explicitNames ↔ ∃ owner ∈ p.sections, owner.name = some name :=
  List.mem_filterMap

theorem sectionReference?_eq_some_iff {reference name : String} :
    sectionReference? reference = some name ↔ reference = ":" ++ name := by
  constructor
  · intro h
    unfold sectionReference? at h
    split at h
    · rename_i letters hletters
      obtain rfl := Option.some.inj h
      apply String.toList_injective
      simp [hletters]
    · cases h
  · rintro rfl
    simp [sectionReference?]

theorem known_iff {p : Project} {reference : String} :
    p.Known reference ↔
      ∀ name, sectionReference? reference = some name → name ∈ p.explicitNames := by
  simp only [Known, sectionReference?_eq_some_iff, mem_explicitNames]

theorem knowsTargets_iff {p : Project} {spec : SectionSpec} :
    p.KnowsTargets spec ↔ unknownReference? p.explicitNames spec.references = none := by
  simp only [unknownReference?_eq_none_iff, KnowsTargets, known_iff, SectionSpec.references]

-- The unknown target that is reported is the first one.
theorem unknownReference?_eq_some_iff {p : Project} {references : List String} {target : String} :
    unknownReference? p.explicitNames references = some target ↔
      ∃ known rest, references = known ++ (":" ++ target) :: rest ∧
        (∀ reference ∈ known, p.Known reference) ∧
        ∀ owner ∈ p.sections, owner.name ≠ some target := by
  let unknown (reference : String) : Bool :=
    (sectionReference? reference).any fun name => !p.explicitNames.contains name
  have hunknown : ∀ reference, unknown reference = false ↔ p.Known reference := by
    intro reference
    rw [known_iff]
    cases h : sectionReference? reference <;> simp [unknown, h]
  have htarget : unknown (":" ++ target) = true ↔
      ∀ owner ∈ p.sections, owner.name ≠ some target := by
    have hsome : sectionReference? (":" ++ target) = some target :=
      sectionReference?_eq_some_iff.mpr rfl
    simp only [unknown, hsome, Option.any_some, Bool.not_eq_true', List.contains_eq_mem,
      decide_eq_false_iff_not, mem_explicitNames]
    simp
  have hfind : unknownReference? p.explicitNames references =
      (references.find? unknown).bind sectionReference? :=
    List.find?_filterMap
  simp only [hfind, Option.bind_eq_some_iff, List.find?_eq_some_iff_append,
    sectionReference?_eq_some_iff]
  constructor
  · rintro ⟨reference, ⟨hfails, known, rest, rfl, hknown⟩, rfl⟩
    exact ⟨known, rest, rfl, fun r hr => (hunknown r).mp (by simpa using hknown r hr),
      htarget.mp hfails⟩
  · rintro ⟨known, rest, rfl, hknown, habsent⟩
    exact ⟨_, ⟨htarget.mpr habsent, known, rest, rfl,
      fun r hr => by simpa using (hunknown r).mpr (hknown r hr)⟩, rfl⟩

end References

section Spec

variable {p : Project} {before : List SectionSpec} {seen : List String} (spec : SectionSpec)
  (hseen : ∀ name, name ∈ seen ↔ ∃ earlier ∈ before, earlier.effectiveName = name)
include hseen

theorem newAfter_iff : spec.NewAfter before ↔ spec.effectiveName ∉ seen := by
  rw [hseen]
  simp [SectionSpec.NewAfter]

theorem basedOn_iff :
    spec.BasedOn before ↔ spec.deriveFrom.filter (!seen.contains ·) = none := by
  simp [SectionSpec.BasedOn, Option.filter_eq_none_iff, hseen]

theorem specFault?_eq_none_iff_sound :
    specFault? p.explicitNames seen spec = none ↔ p.Sound before spec := by
  rw [specFault?_eq_none_iff, ← knowsTargets_iff, ← newAfter_iff spec hseen]
  simp only [hseen]
  exact ⟨fun ⟨hbase, hname, hreferences, hmodule⟩ => ⟨hbase, hname, hreferences, hmodule⟩,
    fun h => ⟨h.base, h.name, h.references, h.module⟩⟩

theorem specFault?_of_offence {e : Error} (h : p.Offence before spec e) :
    specFault? p.explicitNames seen spec = some e := by
  have hname := newAfter_iff spec hseen
  have hbase := basedOn_iff spec hseen
  unfold specFault?
  cases h with
  | @base base hderive habsent =>
    have hnot : base ∉ seen := fun hmem => by
      obtain ⟨earlier, hearlier, hsame⟩ := (hseen base).mp hmem
      exact habsent earlier hearlier hsame
    have hfilter : spec.deriveFrom.filter (!seen.contains ·) = some base := by
      rw [hderive, Option.filter_some_pos (by simpa using hnot)]
    rw [hfilter]
  | name hbased htaken =>
    have hmem : spec.effectiveName ∈ seen := not_not.mp (mt hname.mpr htaken)
    rw [hbase.mp hbased]
    simp [hmem]
  | reference hbased hnew hreferences hknown hunknown =>
    have hfind : unknownReference? p.explicitNames spec.references = some _ :=
      unknownReference?_eq_some_iff.mpr ⟨_, _, hreferences, hknown, hunknown⟩
    rw [hbase.mp hbased, hfind]
    simp [hname.mp hnew]
  | module hbased hnew hreferences hmodule hpreset =>
    rw [hbase.mp hbased, knowsTargets_iff.mp hreferences]
    simp [hname.mp hnew, hmodule, hpreset]

end Spec

theorem sound_or_offence (p : Project) (before : List SectionSpec) (spec : SectionSpec) :
    p.Sound before spec ∨ ∃ e, p.Offence before spec e := by
  by_cases hbase : spec.BasedOn before
  · by_cases hname : spec.NewAfter before
    · cases hfind : unknownReference? p.explicitNames spec.references with
      | some target =>
        obtain ⟨known, rest, hreferences, hknown, hunknown⟩ :=
          unknownReference?_eq_some_iff.mp hfind
        exact .inr ⟨_, .reference hbase hname hreferences hknown hunknown⟩
      | none =>
        have hreferences := knowsTargets_iff.mpr hfind
        by_cases hmodule : spec.wsgiModule.isSome → spec.preset = .python
        · exact .inl ⟨hbase, hname, hreferences, hmodule⟩
        · obtain ⟨hsome, hpreset⟩ := not_forall.mp hmodule
          exact .inr ⟨_, .module hbase hname hreferences hsome hpreset⟩
    · exact .inr ⟨_, .name hbase hname⟩
  · simp only [SectionSpec.BasedOn, not_forall] at hbase
    obtain ⟨base, hderive, habsent⟩ := hbase
    refine .inr ⟨_, .base hderive fun earlier hearlier hname => ?_⟩
    exact habsent ⟨earlier, hearlier, hname⟩

-- Descriptions after these that are all in order.
def SoundAfter (p : Project) (before specs : List SectionSpec) : Prop :=
  ∀ earlier spec later, specs = earlier ++ spec :: later → p.Sound (before ++ earlier) spec

theorem soundAfter_cons {p : Project} {before rest : List SectionSpec} {first : SectionSpec} :
    p.SoundAfter before (first :: rest) ↔
      p.Sound before first ∧ p.SoundAfter (before ++ [first]) rest := by
  constructor
  · intro h
    refine ⟨by simpa using h [] first rest rfl, fun earlier spec later hrest => ?_⟩
    simpa using h (first :: earlier) spec later (by rw [hrest]; rfl)
  · rintro ⟨hfirst, hrest⟩ earlier spec later hsplit
    cases earlier with
    | nil =>
      obtain ⟨rfl, rfl⟩ := List.cons.inj hsplit
      simpa using hfirst
    | cons _ earlier =>
      obtain ⟨rfl, hlater⟩ := List.cons.inj hsplit
      simpa using hrest earlier spec later hlater

-- The first description that is not in order, if there is one.
theorem soundAfter_or_first_offence (p : Project) (before specs : List SectionSpec) :
    p.SoundAfter before specs ∨ ∃ earlier spec later e, specs = earlier ++ spec :: later ∧
      p.SoundAfter before earlier ∧ p.Offence (before ++ earlier) spec e := by
  induction specs generalizing before with
  | nil => exact .inl (by simp [SoundAfter])
  | cons first rest ih =>
    rcases p.sound_or_offence before first with hsound | ⟨e, hoffence⟩
    · rcases ih (before ++ [first]) with hrest | ⟨earlier, spec, later, e, rfl, hearlier, hfault⟩
      · exact .inl (soundAfter_cons.mpr ⟨hsound, hrest⟩)
      · refine .inr ⟨first :: earlier, spec, later, e, rfl,
          soundAfter_cons.mpr ⟨hsound, hearlier⟩, ?_⟩
        simpa using hfault
    · exact .inr ⟨[], first, rest, e, rfl, by simp [SoundAfter], by simpa using hoffence⟩

-- The check passes over descriptions that are in order, and remembers their names.
theorem checkSpecs_of_soundAfter {p : Project} {before earlier : List SectionSpec}
    {seen : List String}
    (hseen : ∀ name, name ∈ seen ↔ ∃ spec ∈ before, spec.effectiveName = name)
    (h : p.SoundAfter before earlier) :
    ∃ seen', (∀ name, name ∈ seen' ↔ ∃ spec ∈ before ++ earlier, spec.effectiveName = name) ∧
      ∀ rest, checkSpecs p.explicitNames seen (earlier ++ rest) =
        checkSpecs p.explicitNames seen' rest := by
  induction earlier generalizing before seen with
  | nil => exact ⟨seen, by simpa using hseen, fun _ => rfl⟩
  | cons first others ih =>
    obtain ⟨hfirst, hothers⟩ := soundAfter_cons.mp h
    have hnone := (specFault?_eq_none_iff_sound first hseen).mpr hfirst
    have hnext : ∀ name, name ∈ first.effectiveName :: seen ↔
        ∃ spec ∈ before ++ [first], spec.effectiveName = name := by
      intro name
      simp only [List.mem_cons, hseen, List.mem_append, List.not_mem_nil, or_false, or_and_right,
        exists_or, exists_eq_left]
      rw [or_comm, eq_comm]
    obtain ⟨seen', hseen', hrun⟩ := ih hnext hothers
    refine ⟨seen', by simpa using hseen', fun rest => ?_⟩
    rw [List.cons_append, checkSpecs, hnone]
    exact hrun rest

section Check

variable {p : Project}

-- Nothing is remembered at first.
theorem check_after {earlier : List SectionSpec} (h : p.SoundAfter [] earlier) :
    ∃ seen, (∀ name, name ∈ seen ↔ ∃ spec ∈ earlier, spec.effectiveName = name) ∧
      ∀ rest, checkSpecs p.explicitNames [] (earlier ++ rest) =
        checkSpecs p.explicitNames seen rest :=
  checkSpecs_of_soundAfter (by simp) h

theorem check_of_sound (h : p.SoundAfter [] p.sections) : p.check = .ok () := by
  obtain ⟨seen, -, hrun⟩ := check_after h
  simpa [check, checkSpecs] using hrun []

theorem check_of_offence {earlier later : List SectionSpec} {spec : SectionSpec} {e : Error}
    (hsections : p.sections = earlier ++ spec :: later) (hearlier : p.SoundAfter [] earlier)
    (hoffence : p.Offence earlier spec e) : p.check = .error e := by
  obtain ⟨seen, hseen, hrun⟩ := check_after hearlier
  rw [check, hsections, hrun, checkSpecs, specFault?_of_offence spec hseen hoffence]

theorem check_eq_ok_iff_soundAfter : p.check = .ok () ↔ p.SoundAfter [] p.sections := by
  refine ⟨fun hok => ?_, check_of_sound⟩
  rcases p.soundAfter_or_first_offence [] p.sections with
    hsound | ⟨earlier, spec, later, e, hsections, hearlier, hoffence⟩
  · exact hsound
  · rw [check_of_offence hsections hearlier hoffence] at hok
    cases hok

theorem check_eq_error_iff {e : Error} :
    p.check = .error e ↔ ∃ earlier spec later, p.sections = earlier ++ spec :: later ∧
      p.SoundAfter [] earlier ∧ p.Offence earlier spec e := by
  refine ⟨fun herror => ?_, fun ⟨_, _, _, hsections, hearlier, hoffence⟩ =>
    check_of_offence hsections hearlier hoffence⟩
  rcases p.soundAfter_or_first_offence [] p.sections with
    hsound | ⟨earlier, spec, later, e', hsections, hearlier, hoffence⟩
  · rw [check_of_sound hsound] at herror
    cases herror
  · rw [check_of_offence hsections hearlier hoffence] at herror
    obtain rfl := Except.error.inj herror
    exact ⟨earlier, spec, later, hsections, hearlier, hoffence⟩

end Check

-- A project passes exactly if each description derives from one before it, all names differ, each
-- reference to a section finds one in the project, and a module comes with the interpreter. Any
-- other project is refused for the first description that is not in order, and for the first of its
-- offences.
theorem check_exact (p : Project) :
    (p.check = .ok () ↔
      (∀ earlier spec later, p.sections = earlier ++ spec :: later →
        ∀ base, spec.deriveFrom = some base → ∃ first ∈ earlier, first.effectiveName = base) ∧
      (p.sections.map SectionSpec.effectiveName).Nodup ∧
      (∀ spec ∈ p.sections, ∀ reference ∈ spec.includes ++ spec.fallback.toList, ∀ name,
        reference = ":" ++ name → ∃ owner ∈ p.sections, owner.name = some name) ∧
      ∀ spec ∈ p.sections, spec.wsgiModule.isSome → spec.preset = .python) ∧
    ∀ e, p.check = .error e ↔ ∃ earlier spec later, p.sections = earlier ++ spec :: later ∧
      p.SoundAfter [] earlier ∧ p.Offence earlier spec e := by
  refine ⟨⟨fun hok => ?_, fun ⟨hbase, hnodup, hreferences, hmodule⟩ => ?_⟩,
    fun e => check_eq_error_iff⟩
  · have hsound := check_eq_ok_iff_soundAfter.mp hok
    have hmem : ∀ spec ∈ p.sections, ∃ earlier, p.Sound earlier spec := by
      intro spec hspec
      obtain ⟨earlier, later, hsections⟩ := List.append_of_mem hspec
      exact ⟨_, hsound earlier spec later hsections⟩
    refine ⟨fun earlier spec later hsections => (hsound earlier spec later hsections).base,
      (checked_of_check hok).nodup, fun spec hspec => ?_, fun spec hspec => ?_⟩
    · obtain ⟨_, h⟩ := hmem spec hspec
      exact h.references
    · obtain ⟨_, h⟩ := hmem spec hspec
      exact h.module
  · refine check_of_sound fun earlier spec later hsections => ?_
    have hspec : spec ∈ p.sections := by simp [hsections]
    rw [hsections, List.map_append, List.map_cons] at hnodup
    have hnew : spec.NewAfter earlier := fun first hfirst =>
      (List.nodup_append.mp hnodup).2.2 _ (List.mem_map_of_mem hfirst) _ List.mem_cons_self
    exact ⟨hbase earlier spec later hsections, hnew, hreferences spec hspec, hmodule spec hspec⟩

end Project

end Vassal
