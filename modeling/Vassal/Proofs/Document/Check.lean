import Mathlib.Data.List.Nodup
import Vassal.Document

-- Which documents are accepted, and what the others are refused for.

namespace Vassal.Document

theorem map_section_injective {ss ss' : List Section}
    (h : ss.map Entry.section = ss'.map Entry.section) : ss = ss' :=
  List.map_injective_iff.mpr (fun _ _ => Entry.section.inj) h

-- The sections of a document that consists of sections.
theorem sections_map_section (ss : List Section) :
    (ss.map Entry.section).filterMap Entry.section? = ss := by
  rw [List.filterMap_map]
  exact List.filterMap_some

section Entries

variable {seen : List String} {s : Section}

theorem checkEntries_of_mem (rest : List Entry) (h : s.effectiveName ∈ seen) :
    checkEntries seen (.section s :: rest) = .error (.duplicateSection s.effectiveName) := by
  simp [checkEntries, h]

theorem checkEntries_of_not_mem (rest : List Entry) (h : s.effectiveName ∉ seen) :
    checkEntries seen (.section s :: rest) =
      (checkEntries (s.effectiveName :: seen) rest).map (s :: ·) := by
  simp [checkEntries, h]

end Entries

theorem checkEntries_eq_ok_iff (seen : List String) (entries : List Entry) (ss : List Section) :
    checkEntries seen entries = .ok ss ↔
      entries = ss.map .section ∧ (ss.map Section.effectiveName).Nodup ∧
        ∀ s ∈ ss, s.effectiveName ∉ seen := by
  induction entries generalizing seen ss with
  | nil => cases ss <;> simp [checkEntries]
  | cons entry rest ih =>
    cases entry with
    | foreign text => cases ss <;> simp [checkEntries]
    | «section» s =>
      by_cases hseen : s.effectiveName ∈ seen
      · rw [checkEntries_of_mem rest hseen]
        cases ss with
        | nil => simp
        | cons first others =>
          simp only [reduceCtorEq, false_iff, List.map_cons, List.cons.injEq,
            Entry.section.injEq, List.forall_mem_cons]
          rintro ⟨⟨rfl, _⟩, _, hfirst, _⟩
          exact hfirst hseen
      · rw [checkEntries_of_not_mem rest hseen]
        cases ss with
        | nil => cases checkEntries (s.effectiveName :: seen) rest <;> simp [Except.map]
        | cons first others =>
          have hrest := ih (s.effectiveName :: seen) others
          have hmap : (checkEntries (s.effectiveName :: seen) rest).map (s :: ·) =
              .ok (first :: others) ↔
                s = first ∧ checkEntries (s.effectiveName :: seen) rest = .ok others := by
            cases checkEntries (s.effectiveName :: seen) rest <;> simp [Except.map]
          rw [hmap, hrest, List.forall_mem_cons]
          simp only [List.map_cons, List.cons.injEq, Entry.section.injEq, List.nodup_cons,
            List.mem_map, List.mem_cons, not_or]
          constructor
          · rintro ⟨rfl, hentries, hnodup, hnew⟩
            refine ⟨⟨rfl, hentries⟩, ⟨?_, hnodup⟩, hseen, fun t ht => (hnew t ht).2⟩
            rintro ⟨t, ht, hname⟩
            exact (hnew t ht).1 hname
          · rintro ⟨⟨rfl, hentries⟩, ⟨hfresh, hnodup⟩, _, hnew⟩
            refine ⟨rfl, hentries, hnodup, fun t ht => ⟨?_, hnew t ht⟩⟩
            exact fun hname => hfresh ⟨t, ht, hname⟩

theorem sections_of_checkEntries {d : Document} {seen : List String} {ss : List Section}
    (h : checkEntries seen d.entries = .ok ss) : d.sections = ss := by
  obtain ⟨hentries, -, -⟩ := (checkEntries_eq_ok_iff seen d.entries ss).mp h
  rw [sections, hentries, sections_map_section]

-- What an entry is refused for when some names are taken.
inductive Fault (taken : List String) : Entry → Error → Prop
  | foreign (text : String) : Fault taken (.foreign text) (.notASection text)
  | repeated {s : Section} (h : s.effectiveName ∈ taken) :
    Fault taken (.section s) (.duplicateSection s.effectiveName)

theorem Fault.mono {taken more : List String} {entry : Entry} {e : Error}
    (h : Fault taken entry e) (hmore : taken ⊆ more) : Fault more entry e := by
  cases h with
  | foreign text => exact .foreign text
  | repeated hname => exact .repeated (hmore hname)

theorem checkEntries_of_fault {seen : List String} {before : List Section} {entry : Entry}
    {e : Error} (after : List Entry) (hnodup : (before.map Section.effectiveName).Nodup)
    (hnew : ∀ s ∈ before, s.effectiveName ∉ seen)
    (hfault : Fault (seen ++ before.map Section.effectiveName) entry e) :
    checkEntries seen (before.map .section ++ entry :: after) = .error e := by
  induction before generalizing seen with
  | nil =>
    rw [List.map_nil, List.append_nil] at hfault
    cases hfault with
    | foreign text => rfl
    | repeated hname => exact checkEntries_of_mem after hname
  | cons s rest ih =>
    rw [List.map_cons, List.nodup_cons] at hnodup
    rw [List.forall_mem_cons] at hnew
    have hrest : checkEntries (s.effectiveName :: seen) (rest.map .section ++ entry :: after) =
        .error e := by
      refine ih hnodup.2 (fun t ht => ?_) (hfault.mono fun name => ?_)
      · rw [List.mem_cons, not_or]
        exact ⟨fun heq => hnodup.1 (heq ▸ List.mem_map_of_mem ht), hnew.2 t ht⟩
      · simp only [List.map_cons, List.mem_append, List.mem_cons]
        tauto
    rw [List.map_cons, List.cons_append, checkEntries_of_not_mem _ hnew.1, hrest]
    rfl

-- The entry that a document is refused for: the first that is foreign or repeats a name.
theorem checkEntries_eq_error_iff (seen : List String) (entries : List Entry) (e : Error) :
    checkEntries seen entries = .error e ↔
      ∃ (before : List Section) (entry : Entry) (after : List Entry),
        entries = before.map .section ++ entry :: after ∧
        (before.map Section.effectiveName).Nodup ∧ (∀ s ∈ before, s.effectiveName ∉ seen) ∧
        Fault (seen ++ before.map Section.effectiveName) entry e := by
  refine ⟨fun h => ?_, fun ⟨_, _, after, hentries, hnodup, hnew, hfault⟩ =>
    hentries ▸ checkEntries_of_fault after hnodup hnew hfault⟩
  induction entries generalizing seen with
  | nil => simp [checkEntries] at h
  | cons entry rest ih =>
    cases entry with
    | foreign text =>
      obtain rfl : .notASection text = e := Except.error.inj h
      exact ⟨[], .foreign text, rest, rfl, List.nodup_nil, List.forall_mem_nil _, .foreign text⟩
    | «section» s =>
      by_cases hseen : s.effectiveName ∈ seen
      · rw [checkEntries_of_mem rest hseen] at h
        obtain rfl := Except.error.inj h
        exact ⟨[], .section s, rest, rfl, List.nodup_nil, List.forall_mem_nil _,
          .repeated (List.mem_append_left _ hseen)⟩
      · rw [checkEntries_of_not_mem rest hseen] at h
        have hrest : checkEntries (s.effectiveName :: seen) rest = .error e := by
          cases hcheck : checkEntries (s.effectiveName :: seen) rest with
          | ok ss => simp [hcheck, Except.map] at h
          | error e' => simpa [hcheck, Except.map] using h
        obtain ⟨before, fault, after, rfl, hnodup, hnew, hfault⟩ := ih _ hrest
        refine ⟨s :: before, fault, after, rfl, ?_, ?_, hfault.mono fun name => ?_⟩
        · rw [List.map_cons, List.nodup_cons]
          refine ⟨fun hmem => ?_, hnodup⟩
          obtain ⟨t, ht, hname⟩ := List.mem_map.mp hmem
          exact hnew t ht (hname ▸ List.mem_cons_self)
        · rw [List.forall_mem_cons]
          exact ⟨hseen, fun t ht hmem => hnew t ht (List.mem_cons_of_mem _ hmem)⟩
        · simp only [List.map_cons, List.mem_append, List.mem_cons]
          tauto

-- Nothing but sections can only be refused for two sections with one name.
theorem exists_repeated_of_checkEntries {ss : List Section} {e : Error}
    (h : checkEntries [] (ss.map .section) = .error e) :
    ∃ (i j : Nat) (s t : Section), j < i ∧ ss[i]? = some s ∧ ss[j]? = some t ∧
      t.effectiveName = s.effectiveName ∧ e = .duplicateSection s.effectiveName := by
  obtain ⟨before, entry, after, hentries, -, -, hfault⟩ := (checkEntries_eq_error_iff _ _ _).mp h
  obtain ⟨front, back, rfl, hfront, hback⟩ := List.map_eq_append_iff.mp hentries
  obtain ⟨s, rest, rfl, rfl, -⟩ := List.map_eq_cons_iff.mp hback
  obtain rfl := map_section_injective hfront
  cases hfault with
  | repeated hname =>
    obtain ⟨t, ht, hname⟩ := List.mem_map.mp hname
    obtain ⟨j, hj⟩ := List.mem_iff_getElem?.mp ht
    have hlt : j < front.length := (List.getElem?_eq_some_iff.mp hj).1
    have ht : (front ++ s :: rest)[j]? = some t := by rw [List.getElem?_append_left hlt, hj]
    exact ⟨front.length, j, s, t, hlt, by simp, ht, hname, rfl⟩

-- A document has a text exactly if its entries pass the check.
theorem render_eq_ok_iff (d : Document) (text : String) :
    d.render = .ok text ↔ ∃ ss, checkEntries [] d.entries = .ok ss ∧
      text = String.intercalate "\n" ((if d.banner then [bannerLine] else []) ++
        (if d.autoinclude then linkAll ss else ss).map (·.render false)) := by
  unfold render
  cases checkEntries [] d.entries with
  | error e => simp [bind, Except.bind]
  | ok ss =>
    have hbanner : ∀ texts : List String, (if d.banner then bannerLine :: texts else texts) =
        (if d.banner then [bannerLine] else []) ++ texts := by
      intro texts
      cases d.banner <;> rfl
    simp only [bind, Except.bind, pure, Except.pure, Except.ok.injEq, exists_eq_left']
    rw [hbanner]
    exact eq_comm

theorem render_eq_error_iff (d : Document) (e : Error) :
    d.render = .error e ↔ checkEntries [] d.entries = .error e := by
  unfold render
  cases checkEntries [] d.entries with
  | error e' => simp [bind, Except.bind]
  | ok ss => simp [bind, Except.bind, pure, Except.pure]

end Vassal.Document
