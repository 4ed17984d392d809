import Vassal.Proofs.Document.Reader
import Vassal.Proofs.Options.History

-- The text of a document, and the references that its sections make to each other.
--
-- A document is refused for the first of its entries that is no section or takes a name again. Any
-- other document has a text. With `autoinclude` each section then refers to the others by the names
-- that they have of their own; a section without one is never referred to.

namespace Vassal.Document

-- A section once it refers to those of the others that have a name of their own.
structure Refers (others : List Section) (s t : Section) : Prop where
  effectiveName : t.effectiveName = s.effectiveName
  -- Its earlier references come first, among the stored texts and among the lines.
  texts : t.options.texts "ini" =
    s.options.texts "ini" ++ (others.filterMap Section.name).map (":" ++ ·)
  lines (h : s.options.Distinct) : (t.options.directives.filter (·.1 = "ini")).map Prod.snd =
    (s.options.directives.filter (·.1 = "ini")).map Prod.snd ++
      (others.filterMap Section.name).map (":" ++ ·)
  keys : t.options.keys = if others.filterMap Section.name = [] then s.options.keys
    else Store.addName s.options.keys "ini"
  without : t.options.without ["ini"] = s.options.without ["ini"]
  -- Referring to them one by one is never refused.
  includes : ((others.filter (·.name.isSome)).forM fun other =>
    Section.addInclude (.section other.name)) s = .ok () t

section References

variable (s : Section) (names : List String)

theorem texts_foldl_link : (names.foldl link s).options.texts "ini" =
    s.options.texts "ini" ++ names.map (":" ++ ·) := by
  induction names generalizing s with
  | nil => simp
  | cons name rest ih =>
    rw [List.foldl_cons, ih, link_eq, Store.texts_extend, List.append_assoc]
    rfl

theorem keys_foldl_link : (names.foldl link s).options.keys =
    if names = [] then s.options.keys else Store.addName s.options.keys "ini" := by
  induction names generalizing s with
  | nil => rfl
  | cons name rest ih =>
    have hlink : (link s name).options.keys = Store.addName s.options.keys "ini" :=
      s.options.keys_upsert_eq_addName "ini" _
    have hagain : Store.addName (Store.addName s.options.keys "ini") "ini" =
        Store.addName s.options.keys "ini" :=
      Store.addName_of_mem (Store.mem_addName_self s.options.keys "ini")
    rw [List.foldl_cons, ih, hlink, hagain, ite_self, if_neg (List.cons_ne_nil _ _)]

theorem without_foldl_link :
    (names.foldl link s).options.without ["ini"] = s.options.without ["ini"] :=
  foldl_link_induction (·.options.without ["ini"] = s.options.without ["ini"]) rfl
    fun t name _ ht => (t.options.without_extend ["ini"] "ini" [":" ++ name] (by simp)).trans ht

theorem distinct_foldl_link {s : Section} (h : s.options.Distinct) (names : List String) :
    (names.foldl link s).options.Distinct :=
  foldl_link_induction (·.options.Distinct) h fun _ _ _ ht => ht.upsert "ini" _

theorem addInclude_of_name {other : Section} {name : String} (h : other.name = some name) :
    Section.addInclude (.section other.name) s = .ok () (link s name) := by
  rw [h]
  rfl

theorem includes_eq (others : List Section) :
    ((others.filter (·.name.isSome)).forM fun other =>
      Section.addInclude (.section other.name)) s =
        .ok () ((others.filterMap Section.name).foldl link s) := by
  induction others generalizing s with
  | nil => rfl
  | cons other rest ih =>
    cases hname : other.name with
    | none =>
      rw [List.filter_cons_of_neg (by simp [hname]), List.filterMap_cons_none hname]
      exact ih s
    | some name =>
      rw [List.filter_cons_of_pos (by simp [hname]), List.filterMap_cons_some hname]
      simp only [List.forM, bind, EStateM.bind, addInclude_of_name s hname]
      exact ih (link s name)

theorem refers_foldl_link (others : List Section) :
    Refers others s ((others.filterMap Section.name).foldl link s) where
  effectiveName := effectiveName_foldl_link s _
  texts := texts_foldl_link s _
  lines h := by
    rw [h.map_filter_directives, (distinct_foldl_link h _).map_filter_directives, texts_foldl_link]
  keys := keys_foldl_link s _
  without := without_foldl_link s _
  includes := includes_eq s others

end References

-- Counting may start anywhere; a place before the start is no section's.
theorem map_fst_filter_zipIdx (ss : List Section) (i start : Nat) :
    ((ss.zipIdx start).filter (·.2 ≠ i)).map Prod.fst =
      if i < start then ss else ss.eraseIdx (i - start) := by
  induction ss generalizing start with
  | nil => simp
  | cons s rest ih =>
    rw [List.zipIdx_cons]
    rcases Nat.lt_trichotomy i start with hlt | heq | hgt
    · rw [List.filter_cons_of_pos (by simpa using Nat.ne_of_gt hlt), List.map_cons, ih, if_pos hlt,
        if_pos (by omega)]
    · rw [List.filter_cons_of_neg (by simp [heq]), ih, heq, if_pos (Nat.lt_succ_self _),
        if_neg (Nat.lt_irrefl _), Nat.sub_self, List.eraseIdx_cons_zero]
    · obtain ⟨k, rfl⟩ : ∃ k, i = start + (k + 1) := ⟨i - start - 1, by omega⟩
      have hrest : start + (k + 1) - (start + 1) = k := by omega
      have hcons : start + (k + 1) - start = k + 1 := by omega
      rw [List.filter_cons_of_pos (by simp), List.map_cons, ih, if_neg (by omega), hrest,
        if_neg (by omega), hcons, List.eraseIdx_cons_succ]

-- The names that a section is given to refer to are those of all sections but itself.
theorem names_other_than (ss : List Section) (i : Nat) :
    ((explicitNames ss).filter (·.2 ≠ i)).map Prod.fst = (ss.eraseIdx i).filterMap Section.name := by
  have hnames : ∀ placed : List (Section × Nat),
      ((placed.filterMap fun e => e.1.name.map (·, e.2)).filter (·.2 ≠ i)).map Prod.fst =
        ((placed.filter (·.2 ≠ i)).map Prod.fst).filterMap Section.name := by
    intro placed
    induction placed with
    | nil => rfl
    | cons entry rest ih =>
      obtain ⟨s, j⟩ := entry
      by_cases hj : j = i <;> cases hname : s.name <;>
        simp only [List.filterMap_cons, hname, Option.map_none, Option.map_some, List.filter_cons,
          hj, ne_eq, not_true_eq_false, not_false_eq_true, decide_true, decide_false, if_true,
          Bool.false_eq_true, if_false, List.map_cons, ih]
  have hplaced : explicitNames ss = ss.zipIdx.filterMap fun e => e.1.name.map (·, e.2) := rfl
  rw [hplaced, hnames, map_fst_filter_zipIdx]
  simp

-- With `autoinclude` the text is made of sections that refer to all others.
theorem exists_written (d : Document) {i : Nat} {s : Section} (hs : d.sections[i]? = some s) :
    ∃ t, d.written[i]? = some t ∧
      if d.autoinclude then Refers (d.sections.eraseIdx i) s t else t = s := by
  unfold written
  split
  · refine ⟨_, ?_, refers_foldl_link s (d.sections.eraseIdx i)⟩
    rw [← names_other_than, linkAll, List.getElem?_map, List.getElem?_zipIdx, hs]
    simp
  · exact ⟨s, hs, rfl⟩

theorem length_written (d : Document) : d.written.length = d.sections.length := by
  unfold written linkAll
  split <;> simp

-- A document has a text exactly if all of its entries are sections whose names differ.
theorem exists_render_iff (d : Document) :
    (∃ text, d.render = .ok text) ↔
      d.entries = d.sections.map .section ∧ (d.sections.map Section.effectiveName).Nodup := by
  have hcheck : (∃ text, d.render = .ok text) ↔ ∃ ss, checkEntries [] d.entries = .ok ss := by
    simp only [render_eq_ok_iff]
    exact ⟨fun ⟨_, ss, hss, _⟩ => ⟨ss, hss⟩, fun ⟨ss, hss⟩ => ⟨_, ss, hss, rfl⟩⟩
  rw [hcheck]
  constructor
  · rintro ⟨ss, hss⟩
    obtain ⟨hentries, hnodup, -⟩ := (checkEntries_eq_ok_iff [] d.entries ss).mp hss
    rw [sections_of_checkEntries hss]
    exact ⟨hentries, hnodup⟩
  · rintro ⟨hentries, hnodup⟩
    exact ⟨d.sections, (checkEntries_eq_ok_iff [] d.entries d.sections).mpr
      ⟨hentries, hnodup, fun _ _ => List.not_mem_nil⟩⟩

-- The entry that a document is refused for, after sections with names that differ.
def FirstFault (d : Document) (e : Error) : Prop :=
  ∃ (before : List Section) (entry : Entry) (after : List Entry),
    d.entries = before.map .section ++ entry :: after ∧
    (before.map Section.effectiveName).Nodup ∧ Fault (before.map Section.effectiveName) entry e

theorem render_eq_error_iff_firstFault (d : Document) (e : Error) :
    d.render = .error e ↔ d.FirstFault e := by
  rw [render_eq_error_iff, checkEntries_eq_error_iff]
  simp [FirstFault]

theorem render_ne_unnamedTarget (d : Document) (directive : String) :
    d.render ≠ .error (.unnamedTarget directive) := by
  rw [Ne, render_eq_error_iff_firstFault]
  rintro ⟨before, entry, after, -, -, hfault⟩
  cases hfault

-- The lines of a text: the banner, then for each section its header, a line for each of its
-- directives, and a blank line.
theorem text_eq_lines {d : Document} {text : String} (h : d.render = .ok text) :
    text = String.intercalate "\n" ((if d.banner then [bannerLine] else []) ++
      d.written.flatMap fun s => ("[" ++ s.effectiveName ++ "]") ::
        s.options.directives.map (fun (key, value) => key ++ " = " ++ value) ++ [""]) := by
  rw [render_eq_intercalate h, List.flatMap_map]
  rfl

-- Whether a document has a text, which fault it is refused for, and what the text says, section by
-- section and line by line.
theorem render_exact (d : Document) :
    ((∃ text, d.render = .ok text) ↔
      d.entries = d.sections.map .section ∧ (d.sections.map Section.effectiveName).Nodup) ∧
    (∀ e, d.render = .error e ↔ d.FirstFault e) ∧
    (∀ directive, d.render ≠ .error (.unnamedTarget directive)) ∧
    (∀ text, d.render = .ok text →
      text = String.intercalate "\n"
        ((if d.banner then [bannerLine] else []) ++ d.written.map (·.render false)) ∧
      text = String.intercalate "\n" ((if d.banner then [bannerLine] else []) ++
        d.written.flatMap fun s => ("[" ++ s.effectiveName ++ "]") ::
          s.options.directives.map (fun (key, value) => key ++ " = " ++ value) ++ [""])) ∧
    d.written.length = d.sections.length ∧
    ∀ i s, d.sections[i]? = some s → ∃ t, d.written[i]? = some t ∧
      if d.autoinclude then Refers (d.sections.eraseIdx i) s t else t = s :=
  ⟨d.exists_render_iff, d.render_eq_error_iff_firstFault, d.render_ne_unnamedTarget,
    fun _ htext => ⟨text_of_render htext, text_eq_lines htext⟩, d.length_written,
    fun _ _ => d.exists_written⟩

-- A reference of its own stays in front, and the section without a name is passed over.
theorem references_past_unnamed :
    let first : Section :=
      { name := some "a", options := ⟨[("ini", .single "base.ini"), ("master", .single "true")]⟩ }
    let d : Document :=
      { entries := [.section first, .section ∅, .section (.named (some "b"))], autoinclude := true }
    d.render = .ok ("[a]\nini = base.ini\nini = :b\nmaster = true\n\n" ++
      "[uwsgi]\nini = :a\nini = :b\n\n[b]\nini = :a\n") ∧
    ∃ t, d.written[0]? = some t ∧ t.options.texts "ini" = ["base.ini", ":b"] ∧
      t.options.keys = ["ini", "master"] := by
  intro first d
  obtain ⟨hsucceeds, -, -, htext, -, hlinked⟩ := d.render_exact
  obtain ⟨text, hrender⟩ := hsucceeds.mpr ⟨rfl, by decide⟩
  obtain ⟨t, ht, hrefers⟩ := hlinked 0 first rfl
  refine ⟨?_, t, ht, hrefers.texts, hrefers.keys⟩
  rw [hrender, (htext text hrender).2]
  exact congrArg Except.ok (by decide +kernel)

end Vassal.Document
