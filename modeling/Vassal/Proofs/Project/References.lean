import Vassal.Proofs.Document.Links
import Vassal.Proofs.Project.Embedded

-- References between the sections of a project.
--
-- The check holds the references of each description against the names in all descriptions. What a
-- section refers to once it is built comes from its own description, from the description of a
-- section that it derives from, or from the document that it is written in.

namespace Vassal

theorem Store.mem_texts_upsert {s : Store} {key name text : String} {f : Option Value → Value}
    (h : text ∈ (s.upsert name f).texts key) :
    text ∈ s.texts key ∨ text ∈ (f (s.get? key)).lines := by
  unfold texts at h
  rw [get?_upsert] at h
  split at h
  · exact .inr h
  · exact .inl h

namespace Section

variable {targets : String → Prop} {s t : Section}

theorem ReferenceSetting.mem_texts {target : String} {m : Mutation}
    (hm : ReferenceSetting target m) {key text : String}
    (htext : text ∈ (s.set m).options.texts key) :
    text ∈ s.options.texts key ∨ text = target := by
  cases hm with
  | adding =>
    rcases Store.mem_texts_upsert htext with hold | hnew
    · exact .inl hold
    · exact (List.mem_append.mp hnew).imp_right List.mem_singleton.mp
  | text => exact (Store.mem_texts_upsert htext).imp_right List.mem_singleton.mp

-- No edit contributes a reference but the one that it is made for.
theorem Edit.references (h : Edit targets s t) {key : String} (hkey : key ∈ referenceOptions) :
    ∀ text ∈ t.options.texts key, text ∈ s.options.texts key ∨ targets text := by
  have hreserved := reference_reserved hkey
  refine h.induction_references
    (P := fun u => ∀ text ∈ u.options.texts key, text ∈ s.options.texts key ∨ targets text)
    (fun _ _ hu => hu) (fun u command plugin hcommand hu => ?_)
    (fun u keys options hkeys hedit hu => ?_) (fun u target m htarget hm hu text htext => ?_)
    (fun _ => .inl)
  · have hne : ∀ key ∈ referenceOptions, ∀ command ∈ pluginCommands, key ≠ command := by decide
    have hnot : key ∉ [command] := by simpa using hne key hkey command hcommand
    rwa [Store.texts_congr_without _ _ _ _ hnot (u.editedIn_registerPlugin command plugin).without]
  · rwa [Store.texts_congr_without _ _ _ _ (hkeys key hreserved) hedit.without]
  · rcases hm.mem_texts htext with hold | rfl
    · exact hu text hold
    · exact .inr htarget

theorem Edits.references (h : Edits targets s t) {key : String} (hkey : key ∈ referenceOptions) :
    ∀ text ∈ t.options.texts key, text ∈ s.options.texts key ∨ targets text := by
  induction h with
  | refl => exact fun _ => .inl
  | tail _ hedit ih =>
    intro text htext
    rcases hedit.references hkey text htext with hold | htarget
    · exact ih text hold
    · exact .inr htarget

end Section

namespace SectionSpec

theorem options_start (spec : SectionSpec) (base : Option Section) :
    (spec.start base).options = (base.map Section.options).getD ∅ := by
  unfold start
  cases base <;> cases spec.embedded <;> rfl

-- A section refers to what its description says and to what its base refers to.
theorem references_of_build {env : Environment} {spec : SectionSpec} {base : Option Section}
    {s : Section} (h : spec.build env base = .ok s) {key : String}
    (hkey : key ∈ Section.referenceOptions) {text : String} (htext : text ∈ s.options.texts key) :
    (∃ b ∈ base, text ∈ b.options.texts key) ∨ text ∈ spec.references := by
  rcases (edits_of_build h).references hkey text htext with hstart | hown
  · rw [options_start] at hstart
    cases base with
    | none => cases hstart
    | some b => exact .inl ⟨b, rfl, hstart⟩
  · exact .inr hown

end SectionSpec

namespace Document

variable {others : List Section} {s t : Section}

theorem Refers.distinct (h : Refers others s t) (hs : s.options.Distinct) :
    t.options.Distinct := by
  unfold Store.Distinct
  rw [h.keys]
  split
  · exact hs
  · rw [← s.options.keys_upsert_eq_addName "ini" fun _ => .list []]
    exact hs.upsert "ini" _

-- What a section refers to as it is written: the other sections, besides what it refers to itself.
theorem Refers.references (h : Refers others s t) {key : String}
    (hkey : key ∈ Section.referenceOptions) {text : String} (htext : text ∈ t.options.texts key) :
    text ∈ s.options.texts key ∨ ∃ other ∈ others, ∃ name, other.name = some name ∧
      text = ":" ++ name := by
  by_cases hini : key = "ini"
  · subst hini
    rw [h.texts, List.mem_append] at htext
    refine htext.imp_right fun hlink => ?_
    obtain ⟨name, hname, rfl⟩ := List.mem_map.mp hlink
    obtain ⟨other, hother, hsome⟩ := List.mem_filterMap.mp hname
    exact ⟨other, hother, name, hsome, rfl⟩
  · rw [Store.texts_congr_without _ _ ["ini"] key (by simpa using hini) h.without] at htext
    exact .inl htext

end Document

namespace Project

-- A text that begins with a colon names one of the given sections.
def Resolves (sections : List Section) (text : String) : Prop :=
  text.toList.head? = some ':' →
    ∃ t ∈ sections, ∃ name, t.name = some name ∧ text = ":" ++ name

theorem sectionReference?_of_head {text : String} (h : text.toList.head? = some ':') :
    ∃ name, sectionReference? text = some name ∧ text = ":" ++ name := by
  obtain ⟨letters, hletters⟩ := List.head?_eq_some_iff.mp h
  refine ⟨String.ofList letters, by simp [sectionReference?, hletters], ?_⟩
  apply String.toList_injective
  simp [hletters]

theorem unknownReference?_eq_none_iff {named references : List String} :
    unknownReference? named references = none ↔
      ∀ text ∈ references, ∀ name, sectionReference? text = some name → name ∈ named := by
  unfold unknownReference?
  simp only [List.find?_eq_none, List.mem_filterMap, Bool.not_eq_true']
  constructor
  · exact fun h text htext name hname => by simpa using h name ⟨text, htext, hname⟩
  · rintro h name ⟨text, htext, hname⟩
    simpa using h text htext name hname

theorem references_of_checkSpecs {named seen : List String} {specs : List SectionSpec}
    (h : checkSpecs named seen specs = .ok ()) :
    ∀ spec ∈ specs, unknownReference? named spec.references = none := by
  induction specs generalizing seen with
  | nil => simp
  | cons first rest ih =>
    unfold checkSpecs at h
    cases hfault : specFault? named seen first with
    | some fault => simp [hfault] at h
    | none =>
      simp only [hfault] at h
      rw [List.forall_mem_cons]
      exact ⟨((specFault?_eq_none_iff first).mp hfault).2.2.1, ih h⟩

namespace Built

variable {env : Environment} {specs : List SectionSpec} {sections : List Section}
variable (h : Built env specs sections)
include h

-- A name that a description has of its own is the name of the section built from it.
theorem exists_named {spec : SectionSpec} (hspec : spec ∈ specs) {name : String}
    (hname : spec.name = some name) : ∃ s ∈ sections, s.name = some name := by
  obtain ⟨i, hi⟩ := List.mem_iff_getElem?.mp hspec
  obtain ⟨s, hs, hbuild⟩ := h.build i spec hi
  refine ⟨s, List.mem_of_getElem? hs, ?_⟩
  rw [SectionSpec.name_of_build hbuild, hname]
  rfl

-- References are handed down from bases, so each of them stands in some description.
theorem exists_reference {key : String} (hkey : key ∈ Section.referenceOptions) :
    ∀ s ∈ sections, ∀ text ∈ s.options.texts key, ∃ spec ∈ specs, text ∈ spec.references := by
  refine h.induction fun i spec s hspec hs hinherited text htext => ?_
  rcases SectionSpec.references_of_build (h.build_eq hspec hs) hkey htext with
    ⟨base, hbase, hmem⟩ | hown
  · exact hinherited base hbase text hmem
  · exact ⟨spec, List.mem_of_getElem? hspec, hown⟩

end Built

theorem resolves_of_build {env : Environment} {p : Project} {d : Document}
    (hbuild : p.build env = .ok d) {s : Section} (hs : s ∈ d.sections) {key : String}
    (hkey : key ∈ Section.referenceOptions) {text : String} (htext : text ∈ s.options.texts key) :
    Resolves d.sections text := by
  obtain ⟨hcheck, -⟩ := (build_eq_ok_iff env p d).mp hbuild
  obtain ⟨sections, hbuilt, rfl⟩ := built_of_build hbuild
  rw [sections_documentOf] at hs ⊢
  intro hcolon
  obtain ⟨name, hname, rfl⟩ := sectionReference?_of_head hcolon
  obtain ⟨spec, hspec, href⟩ := hbuilt.exists_reference hkey s hs _ htext
  have hknown := unknownReference?_eq_none_iff.mp (references_of_checkSpecs hcheck spec hspec)
  obtain ⟨owner, howner, hown⟩ := List.mem_filterMap.mp (hknown _ href name hname)
  obtain ⟨t, ht, htname⟩ := hbuilt.exists_named howner hown
  exact ⟨t, ht, name, htname, rfl⟩

-- A line that refers to a section refers to one of the sections of the project, by the name that
-- this section has of its own. That holds of the sections as built and as written.
theorem references_resolve {env : Environment} {p : Project} {d : Document}
    (hbuild : p.build env = .ok d) :
    ∀ s, s ∈ d.sections ∨ s ∈ d.written → ∀ key ∈ ["ini", "fallback-config"],
      ∀ text ∈ s.linesUnder key, text.toList.head? = some ':' →
        ∃ t ∈ d.sections, ∃ name, t.name = some name ∧ text = ":" ++ name := by
  have hdistinct : ∀ s ∈ d.sections, s.options.Distinct := by
    obtain ⟨sections, hbuilt, rfl⟩ := built_of_build hbuild
    rw [sections_documentOf]
    exact fun s hs => (hbuilt.registered s hs).distinct
  have hown : ∀ s ∈ d.sections, ∀ key ∈ Section.referenceOptions, ∀ text ∈ s.linesUnder key,
      Resolves d.sections text := by
    intro s hs key hkey text htext
    rw [Section.linesUnder_eq_texts (hdistinct s hs)] at htext
    exact resolves_of_build hbuild hs hkey htext
  rintro t (ht | ht) key hkey text htext
  · exact hown t ht key hkey text htext
  · obtain ⟨i, hi⟩ := List.mem_iff_getElem?.mp ht
    have hlt : i < d.sections.length := by
      rw [← d.length_written]
      exact (List.getElem?_eq_some_iff.mp hi).1
    have hs : d.sections[i] ∈ d.sections := List.getElem_mem hlt
    obtain ⟨t', ht', hwritten⟩ := d.exists_written (List.getElem?_eq_getElem hlt)
    obtain rfl : t' = t := Option.some.inj (ht'.symm.trans hi)
    split at hwritten
    · rw [Section.linesUnder_eq_texts (hwritten.distinct (hdistinct _ hs))] at htext
      rcases hwritten.references hkey htext with hold | ⟨other, hother, name, hname, rfl⟩
      · exact resolves_of_build hbuild hs hkey hold
      · exact fun _ => ⟨other, List.mem_of_mem_eraseIdx hother, name, hname, rfl⟩
    · subst hwritten
      exact hown _ hs key hkey text htext

-- The second section has its first reference from its base, and the other one from the document.
theorem inherited_reference_resolves :
    let p : Project :=
      { sections := [{ name := some "a", includes := ["common.ini", ":b"] },
          { name := some "b", deriveFrom := some "a", fallback := some ":a" }]
        autoinclude := true }
    ∃ d s, p.build (fun _ => none) = .ok d ∧ s ∈ d.written ∧
      s.linesUnder "ini" = ["common.ini", ":b", ":a"] ∧ s.linesUnder "fallback-config" = [":a"] ∧
      (∃ t ∈ d.sections, ∃ name, t.name = some name ∧ ":b" = ":" ++ name) ∧
      ∃ t ∈ d.sections, ∃ name, t.name = some name ∧ ":a" = ":" ++ name := by
  intro p
  obtain ⟨d, s, hbuild, hs, hini, hfallback⟩ : ∃ d s, p.build (fun _ => none) = .ok d ∧
      s ∈ d.written ∧ s.linesUnder "ini" = ["common.ini", ":b", ":a"] ∧
      s.linesUnder "fallback-config" = [":a"] := by
    refine ⟨_, _, rfl, List.mem_of_getElem? (i := 1) rfl, ?_, ?_⟩ <;> decide +kernel
  have hb : ":b" ∈ s.linesUnder "ini" := by simp [hini]
  have ha : ":a" ∈ s.linesUnder "fallback-config" := by simp [hfallback]
  have hresolve := references_resolve hbuild s (.inr hs)
  exact ⟨d, s, hbuild, hs, hini, hfallback, hresolve "ini" (by simp) ":b" hb rfl,
    hresolve "fallback-config" (by simp) ":a" ha rfl⟩

end Project

end Vassal
