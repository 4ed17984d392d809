import Vassal.Proofs.Document.Reader
import Vassal.Proofs.Section.Reach

-- The lines of a rendered section.
--
-- Whatever a setter is given is written as it is. A text without line feeds takes one line; with
-- each line feed in it the text takes one line more, and what stands there is read like any other
-- line. The names of options are the setters' own and never hold a line feed.

namespace Vassal

namespace Outline

-- How often a text starts a new line.
def feeds (text : String) : Nat :=
  text.toList.count '\n'

theorem feeds_append (first second : String) :
    feeds (first ++ second) = feeds first + feeds second := by
  simp [feeds]

theorem feeds_eq_zero_iff {text : String} : feeds text = 0 ↔ '\n' ∉ text.toList :=
  List.count_eq_zero

theorem length_linesOf (text : String) : (linesOf text).length = feeds text + 1 := by
  unfold linesOf feeds
  rw [List.length_map]
  induction text.toList with
  | nil => rfl
  | cons c rest ih =>
    rw [List.splitOn, List.splitOnP_cons_eq_if_modifyHead]
    by_cases hc : c = '\n'
    · subst hc
      simpa [List.splitOn] using ih
    · simpa [List.splitOn, hc] using ih

theorem linesOf_of_feeds {text : String} (h : feeds text = 0) : linesOf text = [text] := by
  have hlines : ∀ line ∈ [text], '\n' ∉ line.toList := by simpa using feeds_eq_zero_iff.mp h
  simpa using linesOf_intercalate hlines (List.cons_ne_nil _ _)

theorem linesOf_append_feed (first second : String) :
    linesOf (first ++ "\n" ++ second) = linesOf first ++ linesOf second := by
  have hsplit : (first ++ "\n" ++ second).toList = first.toList ++ '\n' :: second.toList := by simp
  rw [linesOf, hsplit, List.splitOn_append_cons_self, List.map_append]
  rfl

-- Each line is read on its own, and splits where it has line feeds of its own.
theorem linesOf_intercalate_feed {lines : List String} (hne : lines ≠ []) :
    linesOf (String.intercalate "\n" lines ++ "\n") = lines.flatMap linesOf ++ [""] := by
  induction lines with
  | nil => exact absurd rfl hne
  | cons line rest ih =>
    cases rest with
    | nil =>
      have hlast := linesOf_append_feed line ""
      rw [String.append_empty] at hlast
      rw [String.intercalate_singleton, hlast, List.flatMap_singleton]
      rfl
    | cons next others =>
      rw [String.intercalate_cons_of_ne_nil (List.cons_ne_nil _ _), String.append_assoc,
        linesOf_append_feed, ih (List.cons_ne_nil _ _), List.flatMap_cons (x := line),
        List.append_assoc]

theorem length_flatMap_linesOf (lines : List String) :
    (lines.flatMap linesOf).length = lines.length + (lines.flatMap String.toList).count '\n' := by
  induction lines with
  | nil => rfl
  | cons line rest ih =>
    simp only [List.flatMap_cons, List.length_append, length_linesOf, ih, List.length_cons,
      List.count_append, feeds]
    omega

theorem flatMap_linesOf_of_feeds {lines : List String} (h : ∀ line ∈ lines, feeds line = 0) :
    lines.flatMap linesOf = lines := by
  induction lines with
  | nil => rfl
  | cons line rest ih =>
    rw [List.forall_mem_cons] at h
    rw [List.flatMap_cons, linesOf_of_feeds h.1, ih h.2]
    rfl

-- Counting is enough: lines that come out as they went in had no line feeds.
theorem flatMap_linesOf_eq_self_iff {lines : List String} :
    lines.flatMap linesOf = lines ↔ ∀ line ∈ lines, feeds line = 0 := by
  refine ⟨fun h => ?_, flatMap_linesOf_of_feeds⟩
  have hlength := length_flatMap_linesOf lines
  rw [h] at hlength
  have hnone : (lines.flatMap String.toList).count '\n' = 0 := by omega
  intro line hline
  rw [feeds_eq_zero_iff]
  exact fun hfeed => List.count_eq_zero.mp hnone (List.mem_flatMap_of_mem hline hfeed)

end Outline

namespace Section

open Outline

-- All options that built-in operations set, letter by letter.
def spelledOptions : List (List Char) :=
  (sectionOptions ++ ownOptions).map String.toList ++ spelledGroupOptions

-- The options of a section are all among the built-in ones.
def Spelled (s : Section) : Prop :=
  ∀ key ∈ s.options.keys, key.toList ∈ spelledOptions

theorem spelled_of_mem_sectionOptions {key : String} (hkey : key ∈ sectionOptions) :
    key.toList ∈ spelledOptions :=
  List.mem_append_left _ (List.mem_map_of_mem (List.mem_append_left _ hkey))

theorem OwnSetting.spelled {m : Mutation} (h : OwnSetting m) {key : String} (hkey : key ∈ m.keys) :
    key.toList ∈ spelledOptions := by
  rw [h.plain.keys_eq, List.mem_singleton] at hkey
  subst hkey
  exact List.mem_append_left _ (List.mem_map_of_mem (List.mem_append_right _ h.key_mem))

theorem ReferenceSetting.spelled {target : String} {m : Mutation} (h : ReferenceSetting target m)
    {key : String} (hkey : key ∈ m.keys) : key.toList ∈ spelledOptions := by
  rw [h.keys_eq, List.mem_singleton] at hkey
  subst hkey
  exact spelled_of_mem_sectionOptions (reserved_sectionOption (reference_reserved h.key_mem))

namespace Spelled

variable {s t : Section}

theorem edit (h : s.Spelled) {keys : List String}
    (hkeys : ∀ key ∈ keys, key.toList ∈ spelledOptions)
    (hedit : s.options.EditedIn keys t.options) : t.Spelled := by
  intro key hkey
  by_cases hmem : key ∈ keys
  · exact hkeys key hmem
  · exact h key (hedit.mem_keys hmem hkey)

theorem registerPlugin (h : s.Spelled) {command : String} (hcommand : command ∈ pluginCommands)
    (plugin : String) : (s.registerPlugin command plugin).Spelled := by
  refine h.edit ?_ (s.editedIn_registerPlugin command plugin)
  simpa using spelled_of_mem_sectionOptions
    (reserved_sectionOption (pluginCommand_reserved hcommand))

theorem apply (h : s.Spelled) {m : Mutation} (hm : ∀ key ∈ m.keys, key.toList ∈ spelledOptions)
    (groupPlugin : Option String) : (m.apply groupPlugin s).Spelled :=
  m.apply_induction Spelled groupPlugin s h
    (fun _ plugin hs => hs.registerPlugin (by decide) plugin)
    (fun _ _ hedit hs => hs.edit hm hedit)

theorem setPlugins (h : s.Spelled) (p : PluginsParams) : (s.setPlugins p).Spelled := by
  have hregistered : (p.plugins.foldl (·.registerPlugin p.command) s).Spelled :=
    p.register_induction (fun _ _ plugin hcommand hs => hs.registerPlugin hcommand plugin) h
  have hautoload := OwnSetting.autoload p.autoload
  have hdirs : ∀ key ∈ (searchDirsMutation p.searchDirs).keys, key.toList ∈ spelledOptions := by
    rw [(plain_searchDirs p.searchDirs).keys_eq]
    have hdir : "plugins-dir".toList ∈ spelledOptions :=
      spelled_of_mem_sectionOptions List.mem_cons_self
    simpa [searchDirsMutation] using hdir
  rw [setPlugins_eq]
  exact (hregistered.apply hdirs none).apply (fun _ => hautoload.spelled) none

theorem step (h : s.Spelled) (hstep : Operation.Step s t) : t.Spelled := by
  cases hstep with
  | enter | name | embedded | stylePrints => exact h
  | edit hedit =>
    cases hedit with
    | plugins p => exact h.setPlugins p
    | refer _ hm => exact h.apply (fun _ => hm.spelled) none
    | move hmove =>
      cases hmove with
      | version => exact h
      | turn hturn =>
        cases hturn with
        | enter => exact h
        | register hcommand plugin => exact h.registerPlugin hcommand plugin
        | set hm => exact h.apply (fun _ => hm.spelled) none
        | setIn hm =>
          exact apply (s := s.enter _) h (fun _ hkey => List.mem_append_right _ (hm.spelled hkey)) _

end Spelled

-- Whatever a name is set to, the name itself takes no line of its own.
theorem Spelled.feeds_key {s : Section} (h : s.Spelled) {key : String}
    (hkey : key ∈ s.options.keys) : feeds key = 0 := by
  have hall : ∀ letters ∈ spelledOptions, '\n' ∉ letters := by decide +kernel
  exact feeds_eq_zero_iff.mpr (hall _ (h key hkey))

theorem feeds_header (s : Section) : feeds s.header = feeds s.effectiveName := by
  have hopen : feeds "[" = 0 := by decide
  have hclose : feeds "]" = 0 := by decide
  rw [header, feeds_append, feeds_append, hopen, hclose, Nat.zero_add, Nat.add_zero]

theorem Spelled.feeds_directiveLine {s : Section} (h : s.Spelled) {directive : String × String}
    (hmem : directive ∈ s.options.directives) :
    feeds (directiveLine directive) = feeds directive.2 := by
  have hsign : feeds " = " = 0 := by decide
  have hkey : directive.1 ∈ s.options.keys := by
    obtain ⟨entry, hentry, htext⟩ := List.mem_flatMap.mp hmem
    obtain ⟨text, -, rfl⟩ := List.mem_map.mp htext
    exact List.mem_map_of_mem hentry
  rw [directiveLine, feeds_append, feeds_append, h.feeds_key hkey, hsign, Nat.zero_add]

-- The line feeds in the name of a section and in all that is stored in it.
def excess (s : Section) : Nat :=
  feeds s.effectiveName + (s.options.directives.flatMap (·.2.toList)).count '\n'

theorem linesOf_render (s : Section) :
    linesOf (s.render false) = s.lines.flatMap linesOf ++ [""] :=
  linesOf_intercalate_feed (List.cons_ne_nil _ _)

theorem Spelled.length_linesOf_render {s : Section} (h : s.Spelled) :
    (linesOf (s.render false)).length = s.options.directives.length + 2 + s.excess := by
  have hfeeds : ((s.options.directives.map directiveLine).flatMap String.toList).count '\n' =
      (s.options.directives.flatMap (·.2.toList)).count '\n' := by
    rw [List.flatMap_map, List.count_flatMap, List.count_flatMap]
    exact congrArg List.sum (List.map_congr_left fun _ hmem => h.feeds_directiveLine hmem)
  rw [linesOf_render, List.length_append, length_flatMap_linesOf, lines, List.flatMap_cons,
    List.count_append, hfeeds, List.length_cons, List.length_map, List.length_singleton, excess,
    ← feeds_header, feeds]
  omega

theorem Spelled.linesOf_render_iff {s : Section} (h : s.Spelled) :
    linesOf (s.render false) = s.lines ++ [""] ↔
      feeds s.effectiveName = 0 ∧ ∀ directive ∈ s.options.directives, feeds directive.2 = 0 := by
  rw [linesOf_render, List.append_left_inj, flatMap_linesOf_eq_self_iff, lines,
    List.forall_mem_cons, feeds_header, List.forall_mem_map]
  exact and_congr_right fun _ =>
    forall₂_congr fun directive hmem => by rw [h.feeds_directiveLine hmem]

end Section

namespace Operation

open Outline

theorem spelled_reachAll (env : Environment) (ops : List Operation) (name : Option String) :
    (reachAll env ops (Section.named name)).Spelled :=
  reachAll_induction env Section.Spelled (fun _ _ hstep hs => hs.step hstep) ops _
    (List.forall_mem_nil _)

-- One stored text takes one line, and a line more for each line feed in it, after a header that
-- does the same for the name. So a section reads as it was built exactly as long as neither its
-- name nor one of its texts holds a line feed: nothing on the way to the document takes one out.
theorem one_line_per_text_iff (env : Environment) (ops : List Operation) (name : Option String) :
    let s := reachAll env ops (Section.named name)
    linesOf (s.render false) = linesOf s.header ++
        (s.options.directives.map Section.directiveLine).flatMap linesOf ++ [""] ∧
      (linesOf (s.render false)).length = s.options.directives.length + 2 + s.excess ∧
      (linesOf (s.render false) =
          s.header :: s.options.directives.map Section.directiveLine ++ [""] ↔
        feeds s.effectiveName = 0 ∧ ∀ directive ∈ s.options.directives, feeds directive.2 = 0) := by
  have hspelled := spelled_reachAll env ops name
  exact ⟨Section.linesOf_render _, hspelled.length_linesOf_render, hspelled.linesOf_render_iff⟩

-- A variable of the process that is handed on opens a section of its own and loads a plugin there.
theorem section_opened_by_variable :
    let motto := "x\n[evil]\nplugin = evil"
    let env := Environment.ofVariables [("MOTTO", motto.toUTF8)]
    let s := reachAll env [.exportVariable "MOTTO" none] (Section.named (some "app"))
    s.options.directives = [("env", "MOTTO=" ++ motto)] ∧
      linesOf (s.render false) = ["[app]", "env = MOTTO=x", "[evil]", "plugin = evil", ""] := by
  decide +kernel

end Operation

end Vassal
