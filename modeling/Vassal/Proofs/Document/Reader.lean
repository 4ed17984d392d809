import Vassal.Proofs.Document.Check
import Vassal.Proofs.Options.Store
import Vassal.Proofs.Text.Joined

-- Reading documents back.
--
-- The reader knows nothing but the form of the text: one line for each directive, headers in
-- brackets and a blank line after every section. It finds what was written as long as no name and
-- no text brings a line of its own and no key is cut too early.

namespace Vassal

-- What the text of a document says: whether it opens with the banner, and the name and the
-- directives of every section.
structure Outline where
  banner : Bool
  sections : List (String × List (String × String))
deriving DecidableEq

namespace Outline

def linesOf (text : String) : List String :=
  (text.toList.splitOn '\n').map String.ofList

-- The runs of lines between blank lines.
def paragraphs (lines : List String) : List (List String) :=
  (lines.splitOn "").filter (· ≠ [])

def readHeader? (line : String) : Option String :=
  match line.toList with
  | '[' :: rest => if rest.getLast? = some ']' then some (String.ofList rest.dropLast) else none
  | _ => none

-- Everything before the first " = " and everything after it.
def cut? : List Char → Option (List Char × List Char)
  | ' ' :: '=' :: ' ' :: text => some ([], text)
  | c :: rest => (cut? rest).map fun (key, text) => (c :: key, text)
  | [] => none

def readDirective? (line : String) : Option (String × String) :=
  (cut? line.toList).map fun (key, text) => (String.ofList key, String.ofList text)

def readSection? : List String → Option (String × List (String × String))
  | [] => none
  | header :: directives => do
    return (← readHeader? header, ← directives.mapM readDirective?)

def read? (text : String) : Option Outline := do
  let lines := linesOf text
  let banner := lines.head? = some bannerLine
  let sections ← (paragraphs (if banner then lines.tail else lines)).mapM readSection?
  return { banner, sections }

section Lines

theorem linesOf_intercalate {lines : List String} (hlines : ∀ line ∈ lines, '\n' ∉ line.toList)
    (hne : lines ≠ []) : linesOf (String.intercalate "\n" lines) = lines := by
  have hid : String.ofList ∘ String.toList = id := funext fun _ => String.ofList_toList
  rw [linesOf, Text.splitOn_intercalate "\n" '\n' rfl hlines hne, List.map_map, hid, List.map_id]

theorem intercalate_flatten {sep : String} {blocks : List (List String)}
    (hblocks : ∀ block ∈ blocks, block ≠ []) :
    String.intercalate sep (blocks.map (String.intercalate sep)) =
      String.intercalate sep blocks.flatten := by
  induction blocks with
  | nil => rfl
  | cons block rest ih =>
    rw [List.forall_mem_cons] at hblocks
    cases rest with
    | nil => simp
    | cons next others =>
      have hflatten : (next :: others).flatten ≠ [] := by
        simp [hblocks.2 next List.mem_cons_self]
      rw [List.map_cons, List.flatten_cons,
        String.intercalate_cons_of_ne_nil (by simp), ih hblocks.2,
        String.intercalate_append_of_ne_nil hblocks.1 hflatten]

theorem paragraphs_flatMap {blocks : List (List String)}
    (hblocks : ∀ block ∈ blocks, block ≠ [] ∧ "" ∉ block) :
    paragraphs (blocks.flatMap (· ++ [""])) = blocks := by
  induction blocks with
  | nil => rfl
  | cons block rest ih =>
    rw [List.forall_mem_cons] at hblocks
    obtain ⟨⟨hne, hblank⟩, hrest⟩ := hblocks
    have hcons : (block :: rest).flatMap (· ++ [""]) =
        block ++ "" :: rest.flatMap (· ++ [""]) := by simp
    have hih := ih hrest
    unfold paragraphs at hih ⊢
    rw [hcons, List.splitOn_append_cons_self_of_not_mem hblank,
      List.filter_cons_of_pos (by simpa using hne), hih]

-- Reading part by part what was written part by part.
theorem mapM_map_eq_some {α β γ : Type} {write : α → β} {read? : β → Option γ} {view : α → γ}
    {parts : List α} (h : ∀ a ∈ parts, read? (write a) = some (view a)) :
    (parts.map write).mapM read? = some (parts.map view) := by
  induction parts with
  | nil => rfl
  | cons a rest ih =>
    rw [List.forall_mem_cons] at h
    simp [h.1, ih h.2]

theorem read?_eq {text : String} {banner : Bool} {body : List String}
    {sections : List (String × List (String × String))}
    (hbanner : decide ((linesOf text).head? = some bannerLine) = banner)
    (hbody : (if banner then (linesOf text).tail else linesOf text) = body)
    (hread : (paragraphs body).mapM readSection? = some sections) :
    read? text = some { banner, sections } := by
  subst hbanner hbody
  simp only [decide_eq_true_eq] at hread
  simp [read?, hread]

-- A banner is told from a section by the first line of the text.
theorem read?_intercalate {banner : Bool} {blocks : List (List String)}
    {sections : List (String × List (String × String))}
    (hblocks : ∀ block ∈ blocks, block ≠ [] ∧ "" ∉ block)
    (hlines : ∀ block ∈ blocks, ∀ line ∈ block, '\n' ∉ line.toList)
    (hfirst : ∀ block ∈ blocks, block.head? ≠ some bannerLine)
    (hread : blocks.mapM readSection? = some sections) :
    read? (String.intercalate "\n" ((if banner then [bannerLine] else []) ++
      blocks.flatMap (· ++ [""]))) = some { banner, sections } := by
  have hbody : ∀ line ∈ blocks.flatMap (· ++ [""]), '\n' ∉ line.toList := by
    intro line hline
    obtain ⟨block, hblock, hmem⟩ := List.mem_flatMap.mp hline
    rcases List.mem_append.mp hmem with hmem | hmem
    · exact hlines block hblock line hmem
    · rw [List.mem_singleton.mp hmem]
      decide
  have hparagraphs :
      (paragraphs (blocks.flatMap (· ++ [""]))).mapM readSection? = some sections := by
    rw [paragraphs_flatMap hblocks, hread]
  cases banner with
  | true =>
    have hsplit : linesOf (String.intercalate "\n" (bannerLine :: blocks.flatMap (· ++ [""]))) =
        bannerLine :: blocks.flatMap (· ++ [""]) := by
      refine linesOf_intercalate ?_ (List.cons_ne_nil _ _)
      rw [List.forall_mem_cons]
      exact ⟨by decide, hbody⟩
    refine read?_eq ?_ ?_ hparagraphs
    · simp [hsplit]
    · simp [hsplit]
  | false =>
    cases blocks with
    | nil =>
      -- A text without lines still splits into one, which is blank.
      have hblank : (paragraphs [""]).mapM readSection? = some sections := hread
      exact read?_eq (by decide) (by decide) hblank
    | cons block rest =>
      have hsplit := linesOf_intercalate hbody (by simp)
      have hhead : ((block :: rest).flatMap (· ++ [""])).head? ≠ some bannerLine := by
        have hne := (hblocks block List.mem_cons_self).1
        have hb := hfirst block List.mem_cons_self
        cases block with
        | nil => exact absurd rfl hne
        | cons line others => simpa using hb
      refine read?_eq ?_ hsplit hparagraphs
      rw [if_neg Bool.false_ne_true, List.nil_append, hsplit]
      exact decide_eq_false hhead

end Lines

section Directives

-- A key without an equals sign is not cut: the first " = " of its line starts where it ends.
theorem cut?_append {key : List Char} (hkey : '=' ∉ key) (text : List Char) :
    cut? (key ++ ' ' :: '=' :: ' ' :: text) = some (key, text) := by
  induction key with
  | nil => rfl
  | cons c rest ih =>
    rw [List.mem_cons, not_or] at hkey
    have hstep : cut? (c :: (rest ++ ' ' :: '=' :: ' ' :: text)) =
        (cut? (rest ++ ' ' :: '=' :: ' ' :: text)).map fun (key, text) => (c :: key, text) := by
      rw [cut?]
      intro tail _ htail
      cases rest with
      | nil => simp at htail
      | cons c' rest' =>
        have hc' : c' = '=' := by simpa using (List.cons.inj htail).1
        exact hkey.2 (hc' ▸ List.mem_cons_self)
    rw [List.cons_append, hstep, ih hkey.2]
    rfl

theorem readDirective?_directiveLine {directive : String × String}
    (hkey : '=' ∉ directive.1.toList) :
    readDirective? (Section.directiveLine directive) = some directive := by
  have hline : (Section.directiveLine directive).toList =
      directive.1.toList ++ ' ' :: '=' :: ' ' :: directive.2.toList := by
    simp [Section.directiveLine]
  simp [readDirective?, hline, cut?_append hkey]

theorem readHeader?_header (s : Section) : readHeader? s.header = some s.effectiveName := by
  have hline : s.header.toList = '[' :: (s.effectiveName.toList ++ [']']) := by
    simp [Section.header]
  simp [readHeader?, hline]

end Directives

end Outline

namespace Section

-- A section whose lines can be told apart: nothing in it brings a line of its own, and no key of a
-- directive has an equals sign.
structure Readable (s : Section) : Prop where
  name : '\n' ∉ s.effectiveName.toList
  directive : ∀ directive ∈ s.options.directives,
    '\n' ∉ directive.1.toList ∧ '=' ∉ directive.1.toList ∧ '\n' ∉ directive.2.toList

theorem header_ne_empty (s : Section) : s.header ≠ "" := by
  intro h
  have hlist := congrArg String.toList h
  simp [header] at hlist

theorem header_ne_bannerLine (s : Section) : s.header ≠ bannerLine := by
  intro h
  have hlist := congrArg (List.head? ∘ String.toList) h
  simp [header, bannerLine] at hlist

theorem directiveLine_ne_empty (directive : String × String) : directiveLine directive ≠ "" := by
  intro h
  have hlist := congrArg String.toList h
  simp [directiveLine] at hlist

theorem empty_not_mem_lines (s : Section) : "" ∉ s.lines := by
  simp only [lines, List.mem_cons, List.mem_map, not_or, not_exists, not_and]
  exact ⟨s.header_ne_empty.symm, fun directive _ => directiveLine_ne_empty directive⟩

theorem render_eq_intercalate (s : Section) :
    s.render false = String.intercalate "\n" (s.lines ++ [""]) := by
  have hne : s.lines ≠ [] := List.cons_ne_nil _ _
  rw [String.intercalate_append_of_ne_nil hne (List.cons_ne_nil _ _)]
  simp [render]

namespace Readable

variable {s : Section} (h : s.Readable)
include h

theorem newline_not_mem_lines : ∀ line ∈ s.lines, '\n' ∉ line.toList := by
  simp only [lines, List.forall_mem_cons, List.forall_mem_map]
  constructor
  · simpa [header] using h.name
  · intro directive hmem
    obtain ⟨hkey, _, htext⟩ := h.directive directive hmem
    simp [directiveLine, hkey, htext]

theorem readSection?_lines :
    Outline.readSection? s.lines = some (s.effectiveName, s.options.directives) := by
  have hdirectives : (s.options.directives.map directiveLine).mapM Outline.readDirective? =
      some (s.options.directives.map id) :=
    Outline.mapM_map_eq_some fun directive hmem =>
      Outline.readDirective?_directiveLine (h.directive directive hmem).2.1
  simp [Outline.readSection?, lines, Outline.readHeader?_header, hdirectives]

end Readable

end Section

namespace Document

theorem link_eq (s : Section) (name : String) :
    link s name = { s with options := s.options.extend "ini" [":" ++ name] } := by
  rfl

theorem readable_link {s : Section} {name : String} (h : s.Readable) (hname : '\n' ∉ name.toList) :
    (link s name).Readable := by
  rw [link_eq]
  refine ⟨h.name, fun directive hmem => ?_⟩
  rcases Store.mem_directives_extend hmem with hold | ⟨hkey, htext⟩
  · exact h.directive directive hold
  · rw [List.mem_singleton] at htext
    rw [hkey, htext]
    refine ⟨by decide, by decide, ?_⟩
    simpa using hname

theorem foldl_link_induction (P : Section → Prop) {names : List String} {s : Section} (hs : P s)
    (hlink : ∀ t, ∀ name ∈ names, P t → P (link t name)) : P (names.foldl link s) := by
  induction names generalizing s with
  | nil => exact hs
  | cons name rest ih =>
    refine ih (hlink s name List.mem_cons_self hs) fun t other hother ht => ?_
    exact hlink t other (List.mem_cons_of_mem _ hother) ht

theorem effectiveName_foldl_link (s : Section) (names : List String) :
    (names.foldl link s).effectiveName = s.effectiveName :=
  foldl_link_induction (·.effectiveName = s.effectiveName) rfl fun _ _ _ ht => ht

-- Sections that refer to each other keep their names.
theorem effectiveName_linkAll (ss : List Section) :
    (linkAll ss).map Section.effectiveName = ss.map Section.effectiveName := by
  calc (linkAll ss).map Section.effectiveName
      = ss.zipIdx.map (fun entry => entry.1.effectiveName) := by
        rw [linkAll, List.map_map]
        exact List.map_congr_left fun entry _ => effectiveName_foldl_link entry.1 _
    _ = (ss.zipIdx.map Prod.fst).map Section.effectiveName := by
        rw [List.map_map]
        rfl
    _ = ss.map Section.effectiveName := by rw [List.zipIdx_map_fst]

theorem readable_linkAll {ss : List Section} (hss : ∀ s ∈ ss, s.Readable) :
    ∀ s ∈ linkAll ss, s.Readable := by
  -- The names that sections refer to each other by are among the names they are written under.
  have hnames : ∀ entry ∈ explicitNames ss, '\n' ∉ entry.1.toList := by
    intro entry hentry
    obtain ⟨⟨s, i⟩, hmem, hname⟩ := List.mem_filterMap.mp hentry
    obtain ⟨name, hs, rfl⟩ := Option.map_eq_some_iff.mp hname
    have hreadable := (hss s (List.fst_mem_of_mem_zipIdx hmem)).name
    simpa [Section.effectiveName, hs] using hreadable
  intro s hs
  obtain ⟨⟨t, i⟩, hmem, rfl⟩ := List.mem_map.mp hs
  have ht := hss t (List.fst_mem_of_mem_zipIdx hmem)
  refine foldl_link_induction Section.Readable ht fun u name hname hu => ?_
  obtain ⟨entry, hentry, rfl⟩ := List.mem_map.mp hname
  exact readable_link hu (hnames entry (List.mem_of_mem_filter hentry))

-- The sections as they are written, with the references that `autoinclude` adds.
def written (d : Document) : List Section :=
  if d.autoinclude then linkAll d.sections else d.sections

def outline (d : Document) : Outline where
  banner := d.banner
  sections := d.written.map fun s => (s.effectiveName, s.options.directives)

theorem names_outline (d : Document) :
    d.outline.sections.map Prod.fst = d.sections.map Section.effectiveName := by
  have hnames : d.written.map Section.effectiveName = d.sections.map Section.effectiveName := by
    unfold written
    split
    · exact effectiveName_linkAll d.sections
    · rfl
  rw [← hnames]
  simp [outline]

theorem readable_written {d : Document} (h : ∀ s ∈ d.sections, s.Readable) :
    ∀ s ∈ d.written, s.Readable := by
  unfold written
  split
  · exact readable_linkAll h
  · exact h

theorem text_of_render {d : Document} {text : String} (h : d.render = .ok text) :
    text = String.intercalate "\n"
      ((if d.banner then [bannerLine] else []) ++ d.written.map (·.render false)) := by
  obtain ⟨ss, hcheck, rfl⟩ := (render_eq_ok_iff d text).mp h
  rw [written, sections_of_checkEntries hcheck]

-- The lines of a text: the banner, then the lines of every section and a blank line after it.
theorem render_eq_intercalate {d : Document} {text : String} (h : d.render = .ok text) :
    text = String.intercalate "\n" ((if d.banner then [bannerLine] else []) ++
      (d.written.map Section.lines).flatMap (· ++ [""])) := by
  rw [text_of_render h]
  have hblocks : (if d.banner then [bannerLine] else []) ++ d.written.map (·.render false) =
      ((if d.banner then [[bannerLine]] else []) ++ d.written.map (·.lines ++ [""])).map
        (String.intercalate "\n") := by
    rw [List.map_append, List.map_map]
    congr 1
    · cases d.banner <;> rfl
    · exact List.map_congr_left fun s _ => s.render_eq_intercalate
  have hne : ∀ block ∈ (if d.banner then [[bannerLine]] else []) ++
      d.written.map (·.lines ++ [""]), block ≠ [] := by
    intro block hblock
    rcases List.mem_append.mp hblock with hbanner | hsection
    · cases hcase : d.banner with
      | true =>
        rw [hcase, if_pos rfl, List.mem_singleton] at hbanner
        exact hbanner ▸ List.cons_ne_nil _ _
      | false => simp [hcase] at hbanner
    · obtain ⟨s, -, rfl⟩ := List.mem_map.mp hsection
      exact List.append_ne_nil_of_right_ne_nil _ (List.cons_ne_nil _ _)
  rw [hblocks, Outline.intercalate_flatten hne, List.flatten_append, List.flatMap_map]
  congr 2
  cases d.banner <;> rfl

theorem read?_eq_outline {d : Document} {text : String}
    (hreadable : ∀ s ∈ d.sections, s.Readable) (htext : d.render = .ok text) :
    Outline.read? text = some d.outline := by
  have hwritten := readable_written hreadable
  rw [render_eq_intercalate htext]
  apply Outline.read?_intercalate
  · rw [List.forall_mem_map]
    exact fun s _ => ⟨List.cons_ne_nil _ _, s.empty_not_mem_lines⟩
  · rw [List.forall_mem_map]
    exact fun s hs => (hwritten s hs).newline_not_mem_lines
  · rw [List.forall_mem_map]
    exact fun s _ h => s.header_ne_bannerLine (Option.some.inj h)
  · exact Outline.mapM_map_eq_some fun s hs => (hwritten s hs).readSection?_lines

-- Reading the text of a document gives the banner and the sections that were written. Documents
-- with the same text therefore differ in nothing that is read.
theorem read?_render {d : Document} {text : String} (hreadable : ∀ s ∈ d.sections, s.Readable)
    (htext : d.render = .ok text) :
    Outline.read? text = some d.outline ∧
    d.outline.sections.map Prod.fst = d.sections.map Section.effectiveName ∧
    ∀ other : Document, (∀ s ∈ other.sections, s.Readable) → other.render = .ok text →
      other.outline = d.outline := by
  have hread := read?_eq_outline hreadable htext
  refine ⟨hread, d.names_outline, fun other hother hsame => ?_⟩
  rw [read?_eq_outline hother hsame] at hread
  exact Option.some.inj hread

theorem read?_render_linked :
    let d : Document := {
      entries := [
        .section {
          name := some "a"
          options := ⟨[("k", .single "[x] = y"), ("l", .list ["", "1"])]⟩ },
        .section { options := ⟨[("none", .list [])]⟩ }]
      autoinclude := true
      banner := true }
    ∃ text, d.render = .ok text ∧ Outline.read? text = some {
      banner := true
      sections := [
        ("a", [("k", "[x] = y"), ("l", ""), ("l", "1")]),
        ("uwsgi", [("ini", ":a")])] } := by
  intro d
  have hreadable : ∀ s ∈ d.sections, s.Readable := by
    simp only [d, sections, List.filterMap_cons, Entry.section?, List.filterMap_nil,
      List.forall_mem_cons]
    exact ⟨⟨by decide, by decide⟩, ⟨by decide, by decide⟩, List.forall_mem_nil _⟩
  exact ⟨_, rfl, (read?_render hreadable rfl).1⟩

end Document

end Vassal
