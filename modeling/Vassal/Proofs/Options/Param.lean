import Mathlib.Data.List.DropRight
import Vassal.Options.Arg

-- The text of a value that has a name and arguments.
--
-- What is cut off are characters at the ends. The name is a word without any of them, so all that
-- is ever lost is lost behind the name.

namespace Vassal

namespace Text

section Drop

variable {p : Char → Bool} {cs : List Char}

theorem dropEnd_append (p : Char → Bool) (first second : List Char) :
    dropEnd p (first ++ second) =
      if dropEnd p second = [] then dropEnd p first else first ++ dropEnd p second := by
  rw [dropEnd, List.reverse_append, List.dropWhile_append]
  simp only [dropEnd, List.reverse_eq_nil_iff, List.isEmpty_iff]
  split
  · rfl
  · rw [List.reverse_append, List.reverse_reverse]

theorem dropEnd_append_cons {c : Char} (hc : p c = false) (first second : List Char) :
    dropEnd p (first ++ c :: second) = first ++ c :: dropEnd p second := by
  have hcons : dropEnd p (c :: second) = c :: dropEnd p second := by
    rw [← List.singleton_append, dropEnd_append]
    simp [dropEnd, hc]
  rw [dropEnd_append, hcons, if_neg (List.cons_ne_nil _ _)]

theorem dropEnd_eq_self (h : ∀ c ∈ cs, p c = false) : dropEnd p cs = cs :=
  List.rdropWhile_eq_self_iff.mpr fun hne => by simp [h _ (List.getLast_mem hne)]

-- A word without such characters stays in front of whatever is left of the rest.
theorem dropEnds_append (h : ∀ c ∈ cs, p c = false) (hne : cs ≠ []) (rest : List Char) :
    dropEnds p (cs ++ rest) = cs ++ dropEnd p rest := by
  have hfront : (cs ++ rest).dropWhile p = cs ++ rest := by
    cases cs with
    | nil => exact absurd rfl hne
    | cons c cs => simp [h c List.mem_cons_self]
  rw [dropEnds, hfront, dropEnd_append, dropEnd_eq_self h]
  split
  · simp [*]
  · rfl

end Drop

end Text

namespace Param

theorem withArgs_texts (p : Param) (texts : List String) :
    p.withArgs (texts.map .text) = { p with args := p.args ++ texts } := by
  unfold withArgs
  induction texts generalizing p with
  | nil => simp
  | cons text rest ih =>
    rw [List.map_cons, List.foldl_cons, ih]
    simp [arg, Arg.isNull, Arg.render]

theorem toList_render {p : Param} {word rest : List Char}
    (hlabelled : p.labelled.toList = word ++ rest) (hne : word ≠ [])
    (hword : ∀ c ∈ word, Text.isBlank c = false ∧ p.separator.toList.contains c = false) :
    p.render.toList = word ++
      if p.stripped = true then
        Text.dropEnd (p.separator.toList.contains ·) (Text.dropEnd Text.isBlank rest)
      else Text.dropEnd Text.isBlank rest := by
  have htrim : Text.trim p.labelled = String.ofList (word ++ Text.dropEnd Text.isBlank rest) := by
    rw [Text.trim, Text.trimMatches, hlabelled,
      Text.dropEnds_append (fun c hc => (hword c hc).1) hne]
  rw [render, htrim]
  split
  · rw [Text.trimMatches, String.toList_ofList, String.toList_ofList,
      Text.dropEnds_append (fun c hc => (hword c hc).2) hne]
  · rw [String.toList_ofList]

end Param

end Vassal
