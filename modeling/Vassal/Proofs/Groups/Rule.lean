import Mathlib.Logic.Function.Iterate
import Vassal.Proofs.Options.Param
import Vassal.Proofs.Section.Setting

-- The directive of a rule, and what is left of its subject and its action there.
--
-- The name says whether there is a subject, and the value has the text of the subject in front of
-- the action. A pattern without text leaves nothing in front: such a rule has the name of one with
-- a subject and the value of one without.

namespace Vassal

namespace Action

def names : List String :=
  ["return", "break", "continue", "goto", "log", "redirect-301", "redirect-302", "rewrite-last",
   "rewrite", "addheader", "delheader", "disableheaders", "clearheaders", "send-crnl", "send",
   "static", "harakiri", "signal", "basicauth", "setpathinfo", "fixpathinfo", "gzip", "chunked",
   "tofile"]

section Text

variable (a : Action)

theorem name_mem : a.name ∈ names := by
  cases a with
  | «break» _ returnBody => cases returnBody <;> simp [name, names]
  | redirect _ permanent => cases permanent <;> simp [name, names]
  | reroute _ last => cases last <;> simp [name, names]
  | send _ crnl => cases crnl <;> simp [name, names]
  | _ => simp [name, names]

theorem name_word : a.name.toList ≠ [] ∧
    ∀ c ∈ a.name.toList, Text.isBlank c = false ∧ ":".toList.contains c = false := by
  have hall : ∀ word ∈ names, word.toList ≠ [] ∧
      (word.toList.all fun c => !Text.isBlank c && !":".toList.contains c) = true := by
    decide +kernel
  obtain ⟨hne, hchars⟩ := hall a.name a.name_mem
  exact ⟨hne, by simpa using hchars⟩

-- The text of the action in the value of a rule.
def text : String :=
  a.toParam.render

-- The name stays whole, whatever is cut off behind it.
theorem toList_text :
    let rest := ':' :: (String.intercalate a.joiner a.args).toList
    a.text.toList = a.name.toList ++
      if a.stripped = true then
        Text.dropEnd (":".toList.contains ·) (Text.dropEnd Text.isBlank rest)
      else Text.dropEnd Text.isBlank rest := by
  intro rest
  have hparam : a.toParam =
      { name := a.name, args := a.args, joiner := a.joiner, stripped := a.stripped,
        plugin := a.plugin } := by
    unfold toParam
    rw [Param.withArgs_texts, List.nil_append]
  have hlabelled : a.toParam.labelled.toList = a.name.toList ++ rest := by
    rw [hparam]
    simp [Param.labelled, Param.body, Param.heading, rest]
  rw [hparam] at hlabelled
  rw [text, hparam]
  exact Param.toList_render hlabelled a.name_word.1 a.name_word.2

theorem text_ne_empty : a.text ≠ "" := by
  intro hnone
  have hlist := a.toList_text
  rw [hnone] at hlist
  exact a.name_word.1 (List.append_eq_nil_iff.mp hlist.symm).1

end Text

end Action

namespace Subject

-- The pattern that an attribute of the request is matched by.
def pattern? : Subject → Option String
  | httpHost pattern | httpReferer pattern | httpUserAgent pattern | pathInfo pattern
  | queryString pattern | remoteAddr pattern | remoteUser pattern | requestUri pattern
  | status pattern => some pattern
  | custom _ _ _ => none

theorem render_eq_empty_iff (subject : Subject) :
    subject.render = "" ↔ subject.pattern? = some "" := by
  cases subject with
  | custom subject check negated =>
    have htext : check.render subject ≠ "" := by
      intro hnone
      have hlist := congrArg String.toList hnone
      simp [Check.render] at hlist
    simp [render, pattern?, htext]
  | _ => simp [render, pattern?]

theorem suffix_ne_run (subject : Subject) : subject.suffix ≠ "run" := by
  cases subject with
  | custom subject check negated => cases negated <;> simp [suffix]
  | _ => simp [suffix]

-- A negation shows in the name of the directive only.
theorem negate_iterate (subject : Subject) (n : Nat) :
    (negate^[n] subject).render = subject.render ∧
      (negate^[n] subject).pattern? = subject.pattern? := by
  induction n generalizing subject with
  | zero => exact ⟨rfl, rfl⟩
  | succ n ih =>
    have hone : subject.negate.render = subject.render ∧
        subject.negate.pattern? = subject.pattern? := by
      cases subject <;> exact ⟨rfl, rfl⟩
    exact ⟨(ih subject.negate).1.trans hone.1, (ih subject.negate).2.trans hone.2⟩

end Subject

namespace RouteRule

-- The chain of a rule in the name of its directive.
def leading : Stage → String
  | .request => ""
  | .error => "error-"
  | .response => "response-"
  | .final => "final-"

-- The subject of a rule in the name of its directive. Paths are what rules are about if nothing is
-- said.
def ending : Option Subject → String
  | some subject => if subject.suffix = "" then "" else "-" ++ subject.suffix
  | none => "-run"

theorem command_eq (r : RouteRule) :
    r.command = leading r.stage ++ "route" ++ ending r.subject := by
  have hall : ∀ stage ∈ Stage.all, ∀ suffix ∈ Subject.suffixes,
      Text.dropEnds (· == '-') (stage.word.toList ++ '-' :: ("route-".toList ++ suffix.toList)) =
        (leading stage).toList ++ "route".toList ++
          (if suffix = "" then "" else "-" ++ suffix).toList := by decide +kernel
  have hending : ending r.subject =
      if (r.subject.map Subject.suffix).getD "run" = "" then ""
      else "-" ++ (r.subject.map Subject.suffix).getD "run" := by
    cases r.subject <;> rfl
  have hletters := hall r.stage r.stage.mem_all _ r.suffix_mem
  rw [← String.toList_append, ← Stage.toList_directive, ← String.toList_append,
    ← String.toList_append, ← hending] at hletters
  exact String.toList_inj.mp hletters

-- The directives of rules that always run.
def runCommands : List String :=
  ["route-run", "error-route-run", "response-route-run", "final-route-run"]

theorem command_mem_runCommands_iff (r : RouteRule) :
    r.command ∈ runCommands ↔ r.subject = none := by
  have hall : ∀ stage ∈ Stage.all, ∀ suffix ∈ Subject.suffixes,
      Text.dropEnds (· == '-') (stage.word.toList ++ '-' :: ("route-".toList ++ suffix.toList)) ∈
        runCommands.map String.toList ↔ suffix = "run" := by decide +kernel
  have hsuffix : (r.subject.map Subject.suffix).getD "run" = "run" ↔ r.subject = none := by
    cases r.subject with
    | none => simp
    | some subject => simp [subject.suffix_ne_run]
  have hletters := hall r.stage r.stage.mem_all _ r.suffix_mem
  rw [← String.toList_append, ← Stage.toList_directive, hsuffix,
    List.mem_map_of_injective fun _ _ => String.toList_inj.mp] at hletters
  exact hletters

-- What stands in front of the action.
def subjectText (r : RouteRule) : String :=
  (r.subject.map Subject.render).getD ""

theorem render_value (r : RouteRule) :
    r.value.render =
      if r.subjectText = "" then r.action.text else r.subjectText ++ " " ++ r.action.text := by
  have hvalue : r.value = .tuple [.text r.subjectText, .param r.action.toParam] := rfl
  have haction : (Arg.param r.action.toParam).render = r.action.text := by
    rw [Arg.render, Action.text]
  have hsome : r.action.text.isEmpty = false := by simpa using r.action.text_ne_empty
  rw [hvalue, Arg.render, Arg.renderParts, Arg.renderParts, Arg.renderParts, haction, hsome,
    Arg.render]
  by_cases hsubject : r.subjectText = ""
  · simp [hsubject]
  · simp [hsubject, String.intercalate_cons_of_ne_nil]

-- The name of a directive is made from the chain and the subject. A rule without a subject has the
-- name of those that always run, and its value is the action alone. A rule with a subject never has
-- such a name, and its value is the text of the subject, one space and the action, unless the
-- subject is a pattern without text: then the value is the action alone here as well.
theorem command_and_value (action : Action) (stage : Stage) :
    (let r : RouteRule := { action, stage }
     r.command = leading stage ++ "route-run" ∧ r.command ∈ runCommands ∧
      r.value.render = action.text) ∧
    ∀ (subject : Subject) (n : Nat),
      let r : RouteRule := { action, subject := some (Subject.negate^[n] subject), stage }
      r.command = leading stage ++ "route" ++ ending r.subject ∧ r.command ∉ runCommands ∧
      (r.value.render = subject.render ++ " " ++ action.text ↔ subject.pattern? ≠ some "") ∧
      (r.value.render = action.text ↔ subject.pattern? = some "") := by
  refine ⟨?_, fun subject n => ?_⟩
  · intro r
    have hcommand : r.command = leading stage ++ "route" ++ "-run" := r.command_eq
    have hvalue : r.value.render = action.text := r.render_value.trans (if_pos rfl)
    rw [String.append_assoc] at hcommand
    exact ⟨hcommand, r.command_mem_runCommands_iff.mpr rfl, hvalue⟩
  · intro r
    obtain ⟨htext, -⟩ := subject.negate_iterate n
    have hvalue : r.value.render =
        if subject.render = "" then action.text else subject.render ++ " " ++ action.text := by
      rw [← htext]
      exact r.render_value
    -- The action alone is shorter than the action behind a space.
    have hshorter : action.text ≠ subject.render ++ " " ++ action.text := by
      intro heq
      have hlength := congrArg String.length heq
      simp at hlength
    have hcommand : r.command ∉ runCommands :=
      fun hmem => nomatch r.command_mem_runCommands_iff.mp hmem
    rw [hvalue, Ne, ← subject.render_eq_empty_iff]
    split
    case isTrue hnone =>
      exact ⟨r.command_eq, hcommand, iff_of_false hshorter fun hsome => hsome hnone,
        iff_of_true rfl hnone⟩
    case isFalse hsome =>
      exact ⟨r.command_eq, hcommand, iff_of_true rfl hsome, iff_of_false hshorter.symm hsome⟩

-- The rule for all paths reads as if its action were the pattern.
theorem subject_lost_without_text :
    let r : RouteRule := { action := .continue, subject := some (.pathInfo "") }
    r.render = "route = continue" ∧ r.command ∉ runCommands ∧
      r.value.render ≠ "" ++ " " ++ r.action.text := by
  decide +kernel

end RouteRule

end Vassal
