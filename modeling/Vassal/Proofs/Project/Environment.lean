import Vassal.Proofs.Project.Build
import Vassal.Proofs.Project.History

-- Building reads the environment only where a description leaves the value of a variable empty.
-- Two environments that agree on these variables are interchangeable, and none of these variables
-- can be missing.

namespace Vassal

variable {env env' : Environment}

theorem Section.exportVariable_congr {key : String} {value : Option String}
    (h : value = none → env key = env' key) :
    exportVariable env key value = exportVariable env' key value := by
  cases value with
  | some value => rfl
  | none =>
    have hcopy : env.copy key = env'.copy key := by
      rw [Environment.copy, Environment.copy, h rfl]
    rw [exportVariable, exportVariable, hcopy]

namespace SectionSpec

variable {spec : SectionSpec}

theorem build_congr (h : ∀ key, (key, "") ∈ spec.env → env key = env' key)
    (base : Option Section) : spec.build env base = spec.build env' base := by
  have hexport : spec.exportVariables env = spec.exportVariables env' := by
    refine Attempt.forM_congr fun (key, value) hentry => ?_
    refine Section.exportVariable_congr fun hnone => ?_
    have hempty : value = "" := by simpa using hnone
    exact h key (hempty ▸ hentry)
  simp only [build, steps, hexport]

-- A section is not built without the variables that it copies.
theorem exists_copy_of_build {base : Option Section} {s : Section} (h : spec.build env base = .ok s)
    {key : String} (hkey : (key, "") ∈ spec.env) : ∃ value, env.copy key = .ok value := by
  rw [build_eq_outcome, Attempt.outcome_eq_ok_iff, steps_eq] at h
  obtain ⟨_, m, -, hlater⟩ := Attempt.exists_of_bind_ok h
  have hmem : .exportVariable key none ∈
      spec.laterOperations (Section.groupTables spec.remainingGroups) := by
    have hexport : .exportVariable key none ∈ spec.env.map (fun entry =>
        Operation.exportVariable entry.1 (if entry.2.isEmpty then none else some entry.2)) :=
      List.mem_map.mpr ⟨(key, ""), hkey, rfl⟩
    simp only [laterOperations, loadingOperations, List.mem_append, hexport, true_or, or_true]
  obtain ⟨n, n', hrun⟩ := Attempt.exists_of_forM_ok hlater _ hmem
  have hcopied : Section.exportVariable env key none n = .ok () n' := hrun
  unfold Section.exportVariable at hcopied
  cases hcopy : env.copy key with
  | ok value => exact ⟨value, rfl⟩
  | error reason =>
    simp only [hcopy] at hcopied
    cases hcopied

end SectionSpec

namespace Project

variable {p : Project}

theorem mem_copiedVariables {key : String} :
    key ∈ p.copiedVariables ↔ ∃ spec ∈ p.sections, (key, "") ∈ spec.env := by
  simp only [copiedVariables, List.mem_flatMap, List.mem_filterMap]
  constructor
  · rintro ⟨spec, hspec, ⟨name, value⟩, hentry, hkey⟩
    obtain ⟨rfl, rfl⟩ : value = "" ∧ name = key := by simpa using hkey
    exact ⟨spec, hspec, hentry⟩
  · rintro ⟨spec, hspec, hentry⟩
    exact ⟨spec, hspec, (key, ""), hentry, by simp⟩

theorem buildSpecs_congr {specs : List SectionSpec}
    (h : ∀ spec ∈ specs, ∀ key, (key, "") ∈ spec.env → env key = env' key)
    (built : List Section) : buildSpecs env built specs = buildSpecs env' built specs := by
  induction specs generalizing built with
  | nil => rfl
  | cons spec rest ih =>
    rw [List.forall_mem_cons] at h
    rw [buildSpecs, buildSpecs, SectionSpec.build_congr h.1]
    simp only [ih h.2]

theorem build_congr (h : ∀ key ∈ p.copiedVariables, env key = env' key) :
    p.build env = p.build env' := by
  have hspecs : buildSpecs env [] p.sections = buildSpecs env' [] p.sections :=
    buildSpecs_congr
      (fun spec hspec key hkey => h key (mem_copiedVariables.mpr ⟨spec, hspec, hkey⟩)) []
  simp only [build, hspecs]

theorem exists_copy_of_build {d : Document} (h : p.build env = .ok d) {spec : SectionSpec}
    (hspec : spec ∈ p.sections) {key : String} (hkey : (key, "") ∈ spec.env) :
    ∃ value, env.copy key = .ok value := by
  obtain ⟨sections, hbuilt, -⟩ := built_of_build h
  obtain ⟨i, hi⟩ := List.mem_iff_getElem?.mp hspec
  obtain ⟨s, -, hs⟩ := hbuilt.build i spec hi
  exact SectionSpec.exists_copy_of_build hs hkey

-- A project comes out the same in any two environments that agree on the variables whose values it
-- leaves empty: the same sections or the same error, and the same text. Each of these variables is
-- asked for: without one of them the project is not built.
theorem build_reads_empty_variables
    (h : ∀ spec ∈ p.sections, ∀ key, (key, "") ∈ spec.env → env key = env' key) :
    p.build env = p.build env' ∧
    (p.build env >>= Document.render) = (p.build env' >>= Document.render) ∧
    ∀ d, p.build env = .ok d → ∀ spec ∈ p.sections, ∀ key, (key, "") ∈ spec.env →
      ∃ value, env.copy key = .ok value := by
  have hcopied : ∀ key ∈ p.copiedVariables, env key = env' key := by
    intro key hkey
    obtain ⟨spec, hspec, hmem⟩ := mem_copiedVariables.mp hkey
    exact h spec hspec key hmem
  have hbuild : p.build env = p.build env' := build_congr hcopied
  exact ⟨hbuild, by rw [hbuild], fun d hd spec hspec key hkey => exists_copy_of_build hd hspec hkey⟩

-- A variable that has a value of its own is not looked up.
theorem build_reads_empty_variables_only :
    let p : Project :=
      { sections := [{ name := some "web", env := [("HOME", ""), ("LANG", "C")] },
          { name := some "api", deriveFrom := some "web", env := [("TZ", "UTC")] }] }
    let env : Environment := fun key => if key = "HOME" then some "/srv".toUTF8 else none
    let env' : Environment := fun _ => some "/srv".toUTF8
    env "LANG" ≠ env' "LANG" ∧ (p.build env).isOk = true ∧ p.build env = p.build env' := by
  intro p env env'
  have hagree : ∀ spec ∈ p.sections, ∀ key, (key, "") ∈ spec.env → env key = env' key := by
    simp [p, env, env']
  exact ⟨by simp [env, env'], by decide +kernel, (build_reads_empty_variables hagree).1⟩

end Project

end Vassal
