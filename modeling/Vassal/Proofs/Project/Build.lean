import Mathlib.Data.List.Nodup
import Vassal.Proofs.Document.Check
import Vassal.Proofs.Project.History
import Vassal.Proofs.Section.Reach

-- Projects that have been built: what their checks have established, and what each section was
-- built from.

namespace Vassal

namespace SectionSpec

open Section Attempt

theorem along_applyPreset {targets : String → Prop} (spec : SectionSpec) :
    Along (Edit targets) spec.applyPreset := by
  unfold applyPreset
  split
  · exact along_pure ()
  · exact along_edit_of_turns (along_turns (turns_applyNice · spec.nice))
  · split
    · exact along_edit_of_moves (along_modify fun s => moves_applyPython s _ _ _)
    · exact along_throw _

-- A section refers to nothing but what its description refers to.
theorem along_steps (env : Environment) (spec : SectionSpec) :
    Along (Edit (· ∈ spec.references)) (spec.steps env) := by
  have hinclude : ∀ path ∈ spec.includes,
      Along (Edit (· ∈ spec.references)) (addInclude (.file path)) := by
    refine fun path hpath => along_addInclude fun s text m htext hm => .refer s ?_ hm
    obtain rfl : path = text := Option.some.inj htext
    exact List.mem_append_left _ hpath
  have hfallback : ∀ path, spec.fallback = some path →
      Along (Edit (· ∈ spec.references)) (setFallback (.file path)) := by
    refine fun path hpath => along_setFallback fun s text m htext hm => .refer s ?_ hm
    obtain rfl : path = text := Option.some.inj htext
    exact List.mem_append_right _ (by simp [hpath])
  have hlater : ∀ op ∈ spec.laterOperations (groupTables spec.remainingGroups),
      Along (Edit (· ∈ spec.references)) (op.run env) := by
    intro op hop
    simp only [laterOperations, loadingOperations, List.mem_append, List.mem_map,
      Option.mem_toList] at hop
    rcases hop with (hstrict | ⟨plugins, -, rfl⟩) |
      ((((⟨call, -, rfl⟩ | ⟨entry, -, rfl⟩) | ⟨path, hpath, rfl⟩) | ⟨path, hpath, rfl⟩) | hprint)
    · split at hstrict
      · obtain rfl := List.mem_singleton.mp hstrict
        exact along_edit_of_turns (along_turns (turns_setStrict · spec.strictConfig))
      · cases hstrict
    · exact along_modify fun s => .single (.plugins s plugins)
    · exact along_edit_of_moves (along_discard (along_applyGroup call.1 call.2))
    · exact along_edit_of_turns (along_exportVariable _ _)
    · exact hinclude path hpath
    · exact hfallback path hpath
    · split at hprint
      · obtain rfl := List.mem_singleton.mp hprint
        exact along_edit_of_turns (along_turns turns_printVariables)
      · cases hprint
  rw [steps_eq]
  exact along_bind spec.along_applyPreset fun _ => along_forM hlater

theorem name_start (spec : SectionSpec) (base : Option Section) :
    (spec.start base).name = (spec.name <|> base.bind Section.name) := by
  unfold start
  cases base with
  | none => cases spec.embedded <;> cases spec.name <;> rfl
  | some base => cases spec.embedded <;> rfl

theorem edits_of_build {env : Environment} {spec : SectionSpec} {base : Option Section}
    {s : Section} (h : spec.build env base = .ok s) :
    Edits (· ∈ spec.references) (spec.start base) s := by
  have hedits : Edits (· ∈ spec.references) (spec.start base)
      (left (spec.steps env) (spec.start base)) := spec.along_steps env _
  rw [build_eq_outcome, outcome_eq_ok_iff] at h
  unfold left at hedits
  rwa [h] at hedits

-- Building gives a section the name that it has or, failing that, the name of its base.
theorem name_of_build {env : Environment} {spec : SectionSpec} {base : Option Section} {s : Section}
    (h : spec.build env base = .ok s) : s.name = (spec.name <|> base.bind Section.name) := by
  rw [(edits_of_build h).name_eq, name_start]

-- What a section derives from, among the sections built so far.
def base? (spec : SectionSpec) (built : List Section) : Option Section :=
  spec.deriveFrom.bind fun name => built.find? (·.effectiveName == name)

end SectionSpec

namespace Project

variable {named seen : List String}

-- A section without a fault.
theorem specFault?_eq_none_iff (spec : SectionSpec) :
    specFault? named seen spec = none ↔
      (∀ base, spec.deriveFrom = some base → base ∈ seen) ∧
      spec.effectiveName ∉ seen ∧
      unknownReference? named spec.references = none ∧
      (spec.wsgiModule.isSome → spec.preset = .python) := by
  unfold specFault?
  have hfilter : spec.deriveFrom.filter (!seen.contains ·) = none ↔
      ∀ base, spec.deriveFrom = some base → base ∈ seen := by
    simp [Option.filter_eq_none_iff]
  rw [← hfilter]
  cases spec.deriveFrom.filter (!seen.contains ·) with
  | some base => simp
  | none =>
    by_cases hseen : spec.effectiveName ∈ seen
    · simp [hseen]
    · cases unknownReference? named spec.references with
      | some target => simp [hseen]
      | none => simp [hseen]

-- The names in a project that has passed its check: they differ from each other, and a section
-- derives only from one before it.
structure Checked (specs : List SectionSpec) : Prop where
  nodup : (specs.map SectionSpec.effectiveName).Nodup
  earlier : ∀ (i : Nat) (spec : SectionSpec) (base : String), specs[i]? = some spec →
    spec.deriveFrom = some base → base ∈ (specs.take i).map SectionSpec.effectiveName

theorem names_of_checkSpecs {specs : List SectionSpec} (h : checkSpecs named seen specs = .ok ()) :
    (specs.map SectionSpec.effectiveName).Nodup ∧
    (∀ spec ∈ specs, spec.effectiveName ∉ seen) ∧
    ∀ (i : Nat) (spec : SectionSpec) (base : String), specs[i]? = some spec →
      spec.deriveFrom = some base →
        base ∈ seen ∨ base ∈ (specs.take i).map SectionSpec.effectiveName := by
  induction specs generalizing seen with
  | nil => simp
  | cons first rest ih =>
    unfold checkSpecs at h
    cases hfault : specFault? named seen first with
    | some fault => simp [hfault] at h
    | none =>
      simp only [hfault] at h
      obtain ⟨hbase, hnew, -, -⟩ := (specFault?_eq_none_iff first).mp hfault
      obtain ⟨hnodup, hdisjoint, hearlier⟩ := ih h
      refine ⟨?_, ?_, ?_⟩
      · rw [List.map_cons, List.nodup_cons]
        refine ⟨fun hmem => ?_, hnodup⟩
        obtain ⟨spec, hspec, hname⟩ := List.mem_map.mp hmem
        exact hdisjoint spec hspec (hname ▸ List.mem_cons_self)
      · rw [List.forall_mem_cons]
        exact ⟨hnew, fun spec hspec hmem => hdisjoint spec hspec (List.mem_cons_of_mem _ hmem)⟩
      · intro i spec base hspec hderive
        cases i with
        | zero =>
          obtain rfl : first = spec := by simpa using hspec
          exact .inl (hbase base hderive)
        | succ i =>
          rw [List.getElem?_cons_succ] at hspec
          have hcases := hearlier i spec base hspec hderive
          simp only [List.take_succ_cons, List.map_cons, List.mem_cons] at hcases ⊢
          tauto

theorem checked_of_check {p : Project} (h : p.check = .ok ()) : Checked p.sections := by
  obtain ⟨hnodup, -, hearlier⟩ := names_of_checkSpecs h
  refine ⟨hnodup, fun i spec base hspec hderive => ?_⟩
  exact (hearlier i spec base hspec hderive).resolve_left (List.not_mem_nil)

-- Sections built from the specs of a checked project, each on the sections before it.
structure Built (env : Environment) (specs : List SectionSpec) (sections : List Section) : Prop
    extends Checked specs where
  length : sections.length = specs.length
  build : ∀ (i : Nat) (spec : SectionSpec), specs[i]? = some spec →
    ∃ s, sections[i]? = some s ∧ spec.build env (spec.base? (sections.take i)) = .ok s

theorem build_of_buildSpecs {env : Environment} {specs : List SectionSpec}
    {built out : List Section} (h : buildSpecs env built specs = .ok out) :
    ∃ new, out = built ++ new ∧ new.length = specs.length ∧
      ∀ (i : Nat) (spec : SectionSpec), specs[i]? = some spec → ∃ s, new[i]? = some s ∧
        spec.build env (spec.base? (built ++ new.take i)) = .ok s := by
  induction specs generalizing built with
  | nil => exact ⟨[], by simpa [buildSpecs] using h.symm, rfl, by simp⟩
  | cons first rest ih =>
    have hcons : buildSpecs env built (first :: rest) =
        first.build env (first.base? built) >>= fun s => buildSpecs env (built ++ [s]) rest := rfl
    rw [hcons] at h
    cases hfirst : first.build env (first.base? built) with
    | error e => simp [hfirst, bind, Except.bind] at h
    | ok s =>
      simp only [hfirst, bind, Except.bind] at h
      obtain ⟨new, rfl, hlength, hbuild⟩ := ih h
      refine ⟨s :: new, by simp, by simp [hlength], fun i spec hspec => ?_⟩
      cases i with
      | zero =>
        obtain rfl : first = spec := by simpa using hspec
        exact ⟨s, rfl, by simpa using hfirst⟩
      | succ i =>
        obtain ⟨t, hget, ht⟩ := hbuild i spec (by simpa using hspec)
        exact ⟨t, by simpa using hget, by simpa using ht⟩

-- The document that the sections of a project are put into.
def documentOf (p : Project) (sections : List Section) : Document where
  entries := sections.map .section
  autoinclude := p.autoinclude
  banner := p.banner

theorem sections_documentOf (p : Project) (sections : List Section) :
    (p.documentOf sections).sections = sections :=
  Document.sections_map_section sections

-- A project is built exactly if it passes its check and all of its sections are built.
theorem build_eq_ok_iff (env : Environment) (p : Project) (d : Document) :
    p.build env = .ok d ↔ p.check = .ok () ∧ ∃ sections,
      buildSpecs env [] p.sections = .ok sections ∧ d = p.documentOf sections := by
  unfold build
  cases p.check with
  | error e => simp [bind, Except.bind]
  | ok _ =>
    cases buildSpecs env [] p.sections with
    | error e => simp [bind, Except.bind]
    | ok sections => simp [bind, Except.bind, pure, Except.pure, documentOf, eq_comm]

theorem built_of_build {env : Environment} {p : Project} {d : Document} (h : p.build env = .ok d) :
    ∃ sections, Built env p.sections sections ∧ d = p.documentOf sections := by
  obtain ⟨hcheck, sections, hsections, hd⟩ := (build_eq_ok_iff env p d).mp h
  obtain ⟨new, hnew, hlength, hbuild⟩ := build_of_buildSpecs hsections
  rw [List.nil_append] at hnew
  subst hnew
  exact ⟨sections, { checked_of_check hcheck with length := hlength, build := hbuild }, hd⟩

end Project

end Vassal
