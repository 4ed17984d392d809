import Vassal.Proofs.Project.Naming
import Vassal.Proofs.Section.Embedded

-- Built-in plugins in the sections of projects.
--
-- A section that derives from another one begins with everything that its base has registered, and
-- only then is told what is built in.

namespace Vassal

namespace SectionSpec

open Section

variable (spec : SectionSpec)

theorem clashes_start_none : (spec.start none).clashes = [] := by
  unfold start
  cases spec.embedded <;> rfl

theorem clashes_start_some (base : Section) :
    (spec.start (some base)).clashes =
      if spec.embedded = .unstated then base.clashes
      else base.plugins.filter (· ∈ spec.embedded.names) := by
  unfold start
  cases spec.embedded <;> rfl

theorem registered_start {base : Option Section} (hbase : ∀ s ∈ base, s.Registered) :
    (spec.start base).Registered := by
  unfold start
  cases base with
  | none =>
    have h := registered_named spec.name
    cases spec.embedded
    · exact h
    all_goals exact h.congr rfl rfl
  | some base =>
    have h := hbase base rfl
    cases spec.embedded <;> exact h.congr rfl rfl

end SectionSpec

namespace Project.Built

variable {env : Environment} {specs : List SectionSpec} {sections : List Section}
variable (h : Built env specs sections)

theorem exists_base {spec : SectionSpec} {i : Nat} {base : Section}
    (hbase : spec.base? (sections.take i) = some base) :
    ∃ j < i, sections[j]? = some base := by
  unfold SectionSpec.base? at hbase
  obtain ⟨name, _, hfind⟩ := Option.bind_eq_some_iff.mp hbase
  obtain ⟨j, hj⟩ := List.mem_iff_getElem?.mp (List.mem_of_find?_eq_some hfind)
  rw [List.getElem?_take] at hj
  split at hj
  · exact ⟨j, ‹_›, hj⟩
  · cases hj

include h

-- What a section has as soon as its base has it, all sections have.
theorem induction {P : Section → Prop}
    (hstep : ∀ (i : Nat) (spec : SectionSpec) (s : Section), specs[i]? = some spec →
      sections[i]? = some s → (∀ base ∈ spec.base? (sections.take i), P base) → P s) :
    ∀ s ∈ sections, P s := by
  intro s hmem
  obtain ⟨i, hs⟩ := List.mem_iff_getElem?.mp hmem
  clear hmem
  induction i using Nat.strongRecOn generalizing s with
  | ind i ih =>
    obtain ⟨spec, hspec⟩ := h.exists_spec hs
    refine hstep i spec s hspec hs fun base hbase => ?_
    obtain ⟨j, hlt, hj⟩ := exists_base hbase
    exact ih j hlt base hj

theorem registered : ∀ s ∈ sections, s.Registered :=
  h.induction fun _ spec _ hspec hs hbase =>
    (spec.registered_start hbase).edits (SectionSpec.edits_of_build (h.build_eq hspec hs))

theorem clashes_eq {i : Nat} {spec : SectionSpec} {s : Section} (hspec : specs[i]? = some spec)
    (hs : sections[i]? = some s) :
    s.clashes = (spec.start (spec.base? (sections.take i))).clashes :=
  (SectionSpec.edits_of_build (h.build_eq hspec hs)).clashes_eq

-- Clashes are handed down from bases, and come up where a section states as built in what its base
-- has registered.
theorem clashes_eq_nil_iff :
    (∀ s ∈ sections, s.clashes = []) ↔
      ∀ (i : Nat) (spec : SectionSpec) (base : Section), specs[i]? = some spec →
        spec.base? (sections.take i) = some base →
        ∀ plugin ∈ spec.embedded.names, plugin ∉ base.plugins := by
  constructor
  · intro hnone i spec base hspec hbase plugin hplugin hmem
    obtain ⟨s, hs, -⟩ := h.build i spec hspec
    have hclashes := h.clashes_eq hspec hs
    have hstated : spec.embedded ≠ .unstated := by
      intro hunstated
      rw [hunstated] at hplugin
      cases hplugin
    rw [hnone s (List.mem_of_getElem? hs), hbase, SectionSpec.clashes_start_some,
      if_neg hstated, eq_comm, List.filter_eq_nil_iff] at hclashes
    exact hclashes plugin hmem (by simpa using hplugin)
  · refine fun hdisjoint => h.induction fun i spec s hspec hs hinherited => ?_
    rw [h.clashes_eq hspec hs]
    cases hbase : spec.base? (sections.take i) with
    | none => exact spec.clashes_start_none
    | some base =>
      rw [SectionSpec.clashes_start_some]
      split
      · exact hinherited base hbase
      · rw [List.filter_eq_nil_iff]
        intro plugin hmem hplugin
        exact hdisjoint i spec base hspec hbase plugin (by simpa using hplugin) hmem

theorem sparesEmbedded_iff :
    (∀ s ∈ sections, s.SparesEmbedded) ↔ ∀ s ∈ sections, s.clashes = [] :=
  forall₂_congr fun s hs => (h.registered s hs).sparesEmbedded_iff

end Project.Built

namespace Project

-- Built-in plugins are registered or loaded only where they had been registered at the last moment
-- that they were stated as built in. In a history that is by an earlier operation, in a project by
-- the base of the section that states them.
theorem sparesEmbedded_iff_stated_first (env : Environment) :
    (∀ (ops : List Operation) (name : Option String),
      (Operation.reachAll env ops (Section.named name)).SparesEmbedded ↔
        ∀ before embedded after, ops = before ++ .embed embedded :: after →
          (∀ op ∈ after, ∀ other, op ≠ .embed other) →
          ∀ plugin ∈ embedded.names,
            plugin ∉ (Operation.reachAll env before (Section.named name)).plugins) ∧
    (∀ (p : Project) (d : Document), p.build env = .ok d →
      ((∀ s ∈ d.sections, s.SparesEmbedded) ↔
        ∀ (i : Nat) (spec : SectionSpec) (base : Section), p.sections[i]? = some spec →
          spec.base? (d.sections.take i) = some base →
          ∀ plugin ∈ spec.embedded.names, plugin ∉ base.plugins)) := by
  refine ⟨Operation.sparesEmbedded_reachAll_iff env, fun p d hbuild => ?_⟩
  obtain ⟨sections, hbuilt, rfl⟩ := built_of_build hbuild
  rw [sections_documentOf, hbuilt.sparesEmbedded_iff, hbuilt.clashes_eq_nil_iff]

theorem sparesEmbedded_of_other_plugin :
    let p : Project := { sections := [
      { name := some "base", plugins := some { plugins := ["http"] } },
      { name := some "heir", deriveFrom := some "base", embedded := .listed ["python"] }] }
    ∃ d, p.build (fun _ => none) = .ok d ∧ ∀ s ∈ d.sections, s.SparesEmbedded := by
  intro p
  obtain ⟨d, hbuild⟩ : ∃ d, p.build (fun _ => none) = .ok d := ⟨_, rfl⟩
  refine ⟨d, hbuild, ((sparesEmbedded_iff_stated_first _).2 p d hbuild).mpr ?_⟩
  intro i spec base hspec hbase plugin hplugin
  match i with
  | 0 =>
    obtain rfl := Option.some.inj hspec
    cases hplugin
  | 1 =>
    obtain rfl := Option.some.inj hspec
    obtain rfl := Except.ok.inj hbuild
    obtain rfl := Option.some.inj hbase
    obtain rfl : plugin = "python" := List.mem_singleton.mp hplugin
    decide
  | i + 2 => cases hspec

-- The heir is told that its server has the plugin built in, and loads it all the same.
theorem heir_loads_embedded_plugin :
    let p : Project := { sections := [
      { name := some "base", plugins := some { plugins := ["http"] } },
      { name := some "heir", deriveFrom := some "base", embedded := .listed ["http"] }] }
    ∃ d s, p.build (fun _ => none) = .ok d ∧ d.sections[1]? = some s ∧ s.embedded = ["http"] ∧
      s.plugins = ["http"] ∧ s.linesUnder "plugin" = ["http"] ∧ ¬ s.SparesEmbedded := by
  refine ⟨_, _, rfl, rfl, rfl, rfl, rfl, fun hspares => ?_⟩
  exact (hspares "http" List.mem_cons_self).1 List.mem_cons_self

end Project

end Vassal
