import Mathlib.Data.List.TakeWhile
import Vassal.Proofs.Json.Leaf

-- Lists between brackets: read in full, or refused because of the first item that is.

namespace Vassal.Json

open Text Text.Reader

variable {α : Type}

theorem intercalate_cons (u : Piece) (ws : List Piece) (more : List (List Piece)) :
    [u].intercalate (ws :: more) = ws ++ more.flatMap fun vs => u :: vs := by
  induction more generalizing ws with
  | nil => rw [List.intercalate_singleton, List.flatMap_nil, List.append_nil]
  | cons vs others ih =>
    rw [List.intercalate_cons_cons, ih, List.append_assoc]
    rfl

-- Items as they stand after the first one.
def further (write : α → List Piece) (as : List α) : List Piece :=
  as.flatMap fun a => .char ',' :: write a

-- How the items of a list are written, and which of them are read.
--
-- An empty list ends where its first item would begin, so that none may begin like the end.
structure ItemsRead (item : Reader Piece α) (write : α → List Piece) (fits : α → Bool)
    (right : Char) (as : List α) : Prop where
  right_mem : right ∈ [']', '\x7d']
  begins : ∀ a ∈ as, ∃ c rest, write a = .char c :: rest ∧ isBlank c = false ∧ c ≠ right
  reads : ∀ a ∈ as, ∀ rest, Ends rest →
    item (write a ++ rest) = if fits a then some (a, rest) else none
  refuses : ∀ rest, item (.char right :: rest) = none

namespace ItemsRead

variable {item : Reader Piece α} {write : α → List Piece} {fits : α → Bool} {right : Char}
  {a : α} {as : List α}

theorem of_cons (h : ItemsRead item write fits right (a :: as)) :
    ItemsRead item write fits right as where
  right_mem := h.right_mem
  begins b hb := h.begins b (List.mem_cons_of_mem a hb)
  reads b hb := h.reads b (List.mem_cons_of_mem a hb)
  refuses := h.refuses

theorem right_marks (h : ItemsRead item write fits right as) :
    right ≠ ',' ∧ isBlank right = false := by
  have hright := h.right_mem
  simp only [List.mem_cons, List.not_mem_nil, or_false] at hright
  obtain rfl | rfl := hright <;> decide

theorem ends_comma (rest : List Piece) : Ends (.char ',' :: rest) := by
  intro u hu
  obtain rfl := Option.some.inj hu
  exact List.mem_map_of_mem List.mem_cons_self

theorem ends_further (h : ItemsRead item write fits right as) (more : List α) (rest : List Piece) :
    Ends (further write more ++ .char right :: rest) := by
  cases more with
  | nil =>
    intro u hu
    obtain rfl := Option.some.inj hu
    exact List.mem_map_of_mem (List.mem_cons_of_mem ',' h.right_mem)
  | cons b others => exact ends_comma _

-- The items after the first one are read up to one that does not fit.
theorem manyFrom_further (h : ItemsRead item write fits right as) (rest : List Piece) :
    manyFrom (do mark ','; item) (further write as ++ .char right :: rest) =
      (as.takeWhile fits, further write (as.dropWhile fits) ++ .char right :: rest) := by
  have hstop : (do mark ','; item : Reader Piece α)
      (further write (as.dropWhile fits) ++ .char right :: rest) = none := by
    cases hdrop : as.dropWhile fits with
    | nil => exact bind_of_none (mark_of_ne h.right_marks.1 h.right_marks.2 rest)
    | cons b after =>
      have hb : b ∈ as := (List.dropWhile_sublist fits).subset (hdrop ▸ List.mem_cons_self)
      have hhead := List.head_dropWhile_not fits (l := as) (hdrop ▸ List.cons_ne_nil b after)
      have hfits : fits b = false := by simpa only [hdrop, List.head_cons] using hhead
      have hread := h.reads b hb _ (h.ends_further after rest)
      rw [hfits, if_neg Bool.false_ne_true, ← List.append_assoc] at hread
      exact (bind_of_some (mark_self rfl _)).trans hread
  have hsplit : further write as = further write (as.takeWhile fits) ++
      further write (as.dropWhile fits) := by
    rw [further, further, further, ← List.flatMap_append, List.takeWhile_append_dropWhile]
  rw [hsplit, List.append_assoc]
  refine manyFrom_flatMap Ends (fun _ _ => List.cons_ne_nil _ _) (fun _ _ _ => ends_comma _)
    (fun b hb more hmore => ?_) (h.ends_further _ rest) hstop
  have hread := h.reads b ((List.takeWhile_sublist fits).subset hb) more hmore
  rw [List.mem_takeWhile_imp hb, if_pos rfl] at hread
  exact (bind_of_some (mark_self rfl _)).trans hread

-- What is read of the items, up to one that does not fit, and what is left of them.
theorem separated_written (h : ItemsRead item write fits right (a :: as)) (rest : List Piece) :
    separated item (mark ',') (write a ++ (further write as ++ .char right :: rest)) =
      if fits a then
        some (a :: as.takeWhile fits, further write (as.dropWhile fits) ++ .char right :: rest)
      else none := by
  have hread := h.reads a List.mem_cons_self _ (h.ends_further as rest)
  by_cases hfits : fits a = true
  · rw [if_pos hfits] at hread ⊢
    have hmany : many (do mark ','; item) (further write as ++ .char right :: rest) = _ :=
      congrArg some (h.of_cons.manyFrom_further rest)
    exact (bind_of_some hread).trans (bind_of_some hmany)
  · rw [if_neg hfits] at hread ⊢
    exact bind_of_none hread

theorem enclosed_written (h : ItemsRead item write fits right as) (left : Char)
    (hleft : isBlank left = false) (rest : List Piece) :
    enclosed left right item
        (.char left :: ([.char ','].intercalate (as.map write) ++ .char right :: rest)) =
      if as.all fits then some (as, rest) else none := by
  obtain ⟨hcomma, hblank⟩ := h.right_marks
  refine (bind_of_some (mark_self hleft _)).trans ?_
  cases as with
  | nil =>
    have hnone : separated item (mark ',') (.char right :: rest) = none :=
      bind_of_none (h.refuses rest)
    exact (bind_of_some (optional_of_none hnone)).trans (bind_of_some (mark_self hblank rest))
  | cons a more =>
    obtain ⟨c, others, hwrite, hc, hne⟩ := h.begins a List.mem_cons_self
    have hsep := h.separated_written rest
    rw [List.map_cons, intercalate_cons, List.flatMap_map, List.append_assoc, List.all_cons]
    by_cases hfits : fits a = true
    · rw [if_pos hfits] at hsep
      refine (bind_of_some (optional_of_some hsep)).trans ?_
      rw [hfits, Bool.true_and]
      cases hdrop : more.dropWhile fits with
      | nil =>
        have hall : more.all fits = true := List.all_eq_true.mpr (List.dropWhile_eq_nil_iff.mp hdrop)
        have htake := List.takeWhile_append_dropWhile (p := fits) (l := more)
        rw [hdrop, List.append_nil] at htake
        rw [if_pos hall, htake]
        exact bind_of_some (mark_self hblank rest)
      | cons b after =>
        have hall : ¬more.all fits = true := fun hall => by
          rw [List.dropWhile_eq_nil_iff.mpr (List.all_eq_true.mp hall)] at hdrop
          exact List.cons_ne_nil b after hdrop.symm
        rw [if_neg hall]
        exact bind_of_none (mark_of_ne hcomma.symm rfl _)
    · rw [if_neg hfits] at hsep
      refine (bind_of_some (optional_of_none hsep)).trans ?_
      rw [Bool.eq_false_iff.mpr hfits, Bool.false_and, if_neg Bool.false_ne_true, hwrite]
      exact bind_of_none (mark_of_ne hne hc _)

end ItemsRead

end Vassal.Json
