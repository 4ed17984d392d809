import Vassal.Proofs.Ascending
import Vassal.Proofs.Json.Enclosed

-- Values of any nesting. A reader that allows so many containers inside of each other reads the
-- values that are nested no deeper, and refuses the others.

namespace Vassal.Json

open Text Text.Reader

mutual

-- Containers inside of each other, the outermost one counted.
def depth : Json → Nat
  | array items => depthItems items + 1
  | object entries => depthEntries entries + 1
  | _ => 0

def depthItems : List Json → Nat
  | [] => 0
  | item :: rest => max (depth item) (depthItems rest)

def depthEntries : List (String × Json) → Nat
  | [] => 0
  | (_, value) :: rest => max (depth value) (depthEntries rest)

end

-- Values without decimals: the integers fit into 64 bits, and the objects are maps.
inductive Integral : Json → Prop
  | null : Integral null
  | bool (b : Bool) : Integral (bool b)
  | integer {n : Int} (h : isExact n = true) : Integral (integer n)
  | string (s : String) : Integral (string s)
  | array {items : List Json} (h : ∀ v ∈ items, Integral v) : Integral (array items)
  | object {entries : List (String × Json)} (hkeys : (entries.map Prod.fst).Pairwise (· < ·))
      (h : ∀ e ∈ entries, Integral e.2) : Integral (object entries)

section Written

theorem depthItems_le {n : Nat} {items : List Json} :
    depthItems items ≤ n ↔ ∀ v ∈ items, v.depth ≤ n := by
  induction items with
  | nil => simp [depthItems]
  | cons v more ih => rw [depthItems, Nat.max_le, List.forall_mem_cons, ih]

theorem depthEntries_le {n : Nat} {entries : List (String × Json)} :
    depthEntries entries ≤ n ↔ ∀ e ∈ entries, e.2.depth ≤ n := by
  induction entries with
  | nil => simp [depthEntries]
  | cons e more ih => rw [depthEntries, Nat.max_le, List.forall_mem_cons, ih]

theorem depth_array_le {n : Nat} {items : List Json} :
    (array items).depth ≤ n + 1 ↔ ∀ v ∈ items, v.depth ≤ n := by
  rw [depth, Nat.add_le_add_iff_right, depthItems_le]

theorem depth_object_le {n : Nat} {entries : List (String × Json)} :
    (object entries).depth ≤ n + 1 ↔ ∀ e ∈ entries, e.2.depth ≤ n := by
  rw [depth, Nat.add_le_add_iff_right, depthEntries_le]

def renderEntry (e : String × Json) : String :=
  quote e.1 ++ ":" ++ e.2.render

theorem renderItems_eq_map (items : List Json) : renderItems items = items.map render := by
  induction items with
  | nil => rfl
  | cons v more ih => rw [renderItems, ih, List.map_cons]

theorem renderEntries_eq_map (entries : List (String × Json)) :
    renderEntries entries = entries.map renderEntry := by
  induction entries with
  | nil => rfl
  | cons e more ih => rw [renderEntries, ih, List.map_cons, renderEntry]

theorem spelled_intercalate (ss : List String) :
    spelled (String.intercalate "," ss) = [.char ','].intercalate (ss.map spelled) := by
  induction ss with
  | nil => rw [String.intercalate_nil]; rfl
  | cons s more ih =>
    cases more with
    | nil => rw [String.intercalate_singleton, List.map_singleton, List.intercalate_singleton]
    | cons t others =>
      rw [String.intercalate_cons_cons, spelled_append, spelled_append, ih, List.map_cons,
        List.map_cons, List.map_cons, List.intercalate_cons_cons]
      rfl

theorem spelled_array (items : List Json) (rest : List Piece) :
    spelled (array items).render ++ rest =
      .char '[' :: ([.char ','].intercalate (items.map (spelled ·.render)) ++ .char ']' :: rest) := by
  have hleft : spelled "[" = [.char '['] := by decide
  have hright : spelled "]" = [.char ']'] := by decide
  rw [render, bracketed, renderItems_eq_map, spelled_append, spelled_append, spelled_intercalate,
    hleft, hright, List.map_map, List.append_assoc, List.append_assoc, Function.comp_def]
  rfl

theorem spelled_object (entries : List (String × Json)) (rest : List Piece) :
    spelled (object entries).render ++ rest =
      .char '\x7b' :: ([.char ','].intercalate (entries.map (spelled <| renderEntry ·)) ++
        .char '\x7d' :: rest) := by
  have hleft : spelled "\x7b" = [.char '\x7b'] := by decide
  have hright : spelled "\x7d" = [.char '\x7d'] := by decide
  rw [render, braced, renderEntries_eq_map, spelled_append, spelled_append, spelled_intercalate,
    hleft, hright, List.map_map, List.append_assoc, List.append_assoc, Function.comp_def]
  rfl

end Written

section Leaves

variable {c : Char} {v : Json} {rest : List Piece}

theorem keyword_of_ne (hc : c ∉ ['n', 't', 'f']) (h : isBlank c = false) (rest : List Piece) :
    keyword (.char c :: rest) = none := by
  simp only [List.mem_cons, List.not_mem_nil, or_false, not_or] at hc
  obtain ⟨hn, ht, hf⟩ := hc
  refine (bind_of_some (blanks_of_not_blank (symbol_of_false h rest))).trans ?_
  refine (orElse_of_none (bind_of_none (letters_of_ne hn _ rest))).trans ?_
  refine (orElse_of_none (bind_of_none (letters_of_ne ht _ rest))).trans ?_
  exact bind_of_none (letters_of_ne hf _ rest)

theorem keyword_null (rest : List Piece) :
    keyword (spelled null.render ++ rest) = some (null, rest) := by
  have hword : spelled null.render = ['n', 'u', 'l', 'l'].map .char := by decide
  rw [hword]
  refine (bind_of_some (blanks_of_not_blank (symbol_of_false rfl _))).trans ?_
  exact orElse_of_some (bind_of_some (letters_self _ rest))

theorem keyword_bool (b : Bool) (rest : List Piece) :
    keyword (spelled (bool b).render ++ rest) = some (bool b, rest) := by
  cases b with
  | true =>
    have hword : spelled (bool true).render = ['t', 'r', 'u', 'e'].map .char := by decide
    rw [hword]
    refine (bind_of_some (blanks_of_not_blank (symbol_of_false rfl _))).trans ?_
    refine (orElse_of_none (bind_of_none (letters_of_ne (by decide) _ _))).trans ?_
    exact orElse_of_some (bind_of_some (letters_self _ rest))
  | false =>
    have hword : spelled (bool false).render = ['f', 'a', 'l', 's', 'e'].map .char := by decide
    rw [hword]
    refine (bind_of_some (blanks_of_not_blank (symbol_of_false rfl _))).trans ?_
    refine (orElse_of_none (bind_of_none (letters_of_ne (by decide) _ _))).trans ?_
    refine (orElse_of_none (bind_of_none (letters_of_ne (by decide) _ _))).trans ?_
    exact bind_of_some (letters_self _ rest)

theorem numeral_of_ne (hc : c ≠ '-') (hdigit : c.isDigit = false) (h : isBlank c = false)
    (rest : List Piece) : numeral (.char c :: rest) = none := by
  refine (bind_of_some (blanks_of_not_blank (symbol_of_false h rest))).trans ?_
  refine (bind_of_some (optional_of_none (letters_of_ne hc [] rest))).trans ?_
  exact bind_of_none (bind_of_none (symbol_of_false hdigit rest))

-- No leaf begins with a bracket.
theorem leaf_of_bracket (hc : c ∈ ['[', ']', '\x7b', '\x7d']) (rest : List Piece) :
    leaf (.char c :: rest) = none := by
  obtain ⟨hword, hquote, hminus, hdigit, hblank⟩ : c ∉ ['n', 't', 'f'] ∧ c ≠ '"' ∧ c ≠ '-' ∧
      c.isDigit = false ∧ isBlank c = false := by
    simp only [List.mem_cons, List.not_mem_nil, or_false] at hc
    obtain rfl | rfl | rfl | rfl := hc <;> decide
  refine (orElse_of_none (keyword_of_ne hword hblank rest)).trans ?_
  refine (orElse_of_none (bind_of_none (text_of_ne hquote hblank rest))).trans ?_
  exact bind_of_none (numeral_of_ne hminus hdigit hblank rest)

-- A leaf is read whatever its reader allows, and a text or an integer is no keyword.
theorem leaf_written (hv : Integral v) (hdepth : v.depth = 0) (h : Ends rest) :
    leaf (spelled v.render ++ rest) = some (v, rest) := by
  cases hv with
  | null => exact orElse_of_some (keyword_null rest)
  | bool b => exact orElse_of_some (keyword_bool b rest)
  | @integer n hn =>
    obtain ⟨c, more, hbegins, hblank, hc⟩ := toString_begins n
    have hread := numeral_toString n h
    have hword : c ∉ ['n', 't', 'f'] := not_mem_of_beginsInteger hc (by decide)
    have hquote : c ∉ ['"'] := not_mem_of_beginsInteger hc (by decide)
    rw [List.mem_singleton] at hquote
    rw [render]
    rw [hbegins] at hread ⊢
    refine (orElse_of_none (keyword_of_ne hword hblank _)).trans ?_
    refine (orElse_of_none (bind_of_none (text_of_ne hquote hblank _))).trans ?_
    refine (bind_of_some hread).trans ?_
    rw [value?_ofInt hn]
    rfl
  | string s =>
    have hread := text_quote s rest
    rw [render, spelled_quote] at *
    refine (orElse_of_none (keyword_of_ne (by decide) rfl _)).trans ?_
    exact orElse_of_some (bind_of_some hread)
  | array => exact absurd hdepth (Nat.succ_ne_zero _)
  | object => exact absurd hdepth (Nat.succ_ne_zero _)

-- No value begins with a blank or a right bracket, and only containers begin with a left one.
theorem render_begins (hv : Integral v) : ∃ c more, spelled v.render = .char c :: more ∧
    isBlank c = false ∧ c ∉ [']', '\x7d'] ∧ (v.depth = 0 → c ∉ ['[', '\x7b']) := by
  cases hv with
  | null => exact ⟨'n', _, rfl, rfl, by decide, fun _ => by decide⟩
  | bool b => cases b with
    | true => exact ⟨'t', _, rfl, rfl, by decide, fun _ => by decide⟩
    | false => exact ⟨'f', _, rfl, rfl, by decide, fun _ => by decide⟩
  | @integer n hn =>
    obtain ⟨c, more, hbegins, hblank, hc⟩ := toString_begins n
    exact ⟨c, more, hbegins, hblank, not_mem_of_beginsInteger hc (by decide),
      fun _ => not_mem_of_beginsInteger hc (by decide)⟩
  | string s => exact ⟨'"', _, spelled_quote s, rfl, by decide, fun _ => by decide⟩
  | @array items => 
    have hwritten := spelled_array items []
    rw [List.append_nil] at hwritten
    exact ⟨'[', _, hwritten, rfl, by decide, fun hdepth => absurd hdepth (Nat.succ_ne_zero _)⟩
  | @object entries => 
    have hwritten := spelled_object entries []
    rw [List.append_nil] at hwritten
    exact ⟨'\x7b', _, hwritten, rfl, by decide, fun hdepth => absurd hdepth (Nat.succ_ne_zero _)⟩

end Leaves

section Containers

variable {n : Nat} {v : Json} {vs : List Json} {es : List (String × Json)} {rest : List Piece}

-- What is to be shown of single values, to be assumed of the values in a container.
def Reads (n : Nat) (v : Json) : Prop :=
  ∀ rest, Ends rest →
    value n (spelled v.render ++ rest) = if v.depth ≤ n then some (v, rest) else none

theorem items_of_ne {c : Char} (hne : c ≠ '[') (h : isBlank c = false) (r : Reader Piece Json)
    (rest : List Piece) : items r (.char c :: rest) = none :=
  bind_of_none (mark_of_ne hne h rest)

theorem entries_of_ne {c : Char} (hne : c ≠ '\x7b') (h : isBlank c = false)
    (r : Reader Piece Json) (rest : List Piece) : entries r (.char c :: rest) = none :=
  bind_of_none (bind_of_none (mark_of_ne hne h rest))

theorem value_of_ne {c : Char} (hc : c ∉ ['[', '\x7b']) (h : isBlank c = false) (n : Nat)
    (rest : List Piece) : value n (.char c :: rest) = leaf (.char c :: rest) := by
  simp only [List.mem_cons, List.not_mem_nil, or_false, not_or] at hc
  cases n with
  | zero => rfl
  | succ n =>
    refine (orElse_of_none (bind_of_none (items_of_ne hc.1 h _ rest))).trans ?_
    exact orElse_of_none (bind_of_none (entries_of_ne hc.2 h _ rest))

theorem items_written (hvs : ∀ v ∈ vs, Integral v) (hreads : ∀ v ∈ vs, Reads n v)
    (rest : List Piece) : items (value n) (spelled (array vs).render ++ rest) =
      if ∀ v ∈ vs, v.depth ≤ n then some (vs, rest) else none := by
  have hitems : ItemsRead (value n) (spelled ·.render) (fun v => decide (v.depth ≤ n)) ']' vs :=
    { right_mem := by decide
      begins := fun v hv => by
        obtain ⟨c, more, hbegins, hblank, hright, -⟩ := render_begins (hvs v hv)
        exact ⟨c, more, hbegins, hblank, fun hc => hright (hc ▸ List.mem_cons_self)⟩
      reads := fun v hv rest hrest => by simpa only [decide_eq_true_eq] using hreads v hv rest hrest
      refuses := fun rest =>
        (value_of_ne (by decide) rfl n rest).trans (leaf_of_bracket (by decide) rest) }
  rw [spelled_array, items, hitems.enclosed_written '[' rfl]
  simp only [List.all_eq_true, decide_eq_true_eq]

theorem renderEntry_begins (e : String × Json) : ∃ c more, spelled (renderEntry e) = .char c :: more ∧
    isBlank c = false ∧ c ≠ '\x7d' := by
  rw [renderEntry, spelled_append, spelled_append, spelled_quote]
  exact ⟨'"', _, rfl, rfl, by decide⟩

theorem entry_written {e : String × Json} (hreads : Reads n e.2) (h : Ends rest) :
    entry (value n) (spelled (renderEntry e) ++ rest) =
      if e.2.depth ≤ n then some (e, rest) else none := by
  rw [renderEntry, spelled_append, spelled_append, List.append_assoc, List.append_assoc]
  refine (bind_of_some (text_quote e.1 _)).trans ((bind_of_some (mark_self rfl _)).trans ?_)
  have hread := hreads rest h
  by_cases hfits : e.2.depth ≤ n
  · rw [if_pos hfits] at hread ⊢
    exact bind_of_some hread
  · rw [if_neg hfits] at hread ⊢
    exact bind_of_none hread

theorem entries_written (hes : (es.map Prod.fst).Pairwise (· < ·)) (hreads : ∀ e ∈ es, Reads n e.2)
    (rest : List Piece) : entries (value n) (spelled (object es).render ++ rest) =
      if ∀ e ∈ es, e.2.depth ≤ n then some (es, rest) else none := by
  have hitems : ItemsRead (entry (value n)) (spelled <| renderEntry ·)
      (fun e => decide (e.2.depth ≤ n)) '\x7d' es :=
    { right_mem := by decide
      begins := fun e _ => renderEntry_begins e
      reads := fun e he rest hrest => by
        simpa only [decide_eq_true_eq] using entry_written (hreads e he) hrest
      refuses := fun rest => bind_of_none (text_of_ne (by decide) rfl rest) }
  have hread := hitems.enclosed_written '\x7b' rfl rest
  simp only [List.all_eq_true, decide_eq_true_eq] at hread
  rw [spelled_object]
  by_cases hfits : ∀ e ∈ es, e.2.depth ≤ n
  · rw [if_pos hfits] at hread ⊢
    refine (bind_of_some hread).trans ?_
    rw [Ascending.ofList_of_pairwise hes]
    rfl
  · rw [if_neg hfits] at hread ⊢
    exact bind_of_none hread

theorem reads_leaf (hv : Integral v) (hdepth : v.depth = 0) (n : Nat) : Reads n v := by
  intro rest hrest
  obtain ⟨c, more, hbegins, hblank, -, hc⟩ := render_begins hv
  have hread := leaf_written hv hdepth hrest
  rw [hbegins, List.cons_append] at hread ⊢
  rw [if_pos (hdepth ▸ Nat.zero_le n)]
  exact (value_of_ne (hc hdepth) hblank n _).trans hread

theorem Integral.container (hv : Integral v) (hdepth : v.depth ≠ 0) :
    (∃ vs, v = .array vs ∧ ∀ v ∈ vs, Integral v) ∨
      ∃ es, v = .object es ∧ (es.map Prod.fst).Pairwise (· < ·) ∧ ∀ e ∈ es, Integral e.2 := by
  cases hv with
  | array h => exact .inl ⟨_, rfl, h⟩
  | object hkeys h => exact .inr ⟨_, rfl, hkeys, h⟩
  | _ => exact absurd rfl hdepth

-- Exactly the values that are nested no deeper than is allowed are read, each as it was written.
-- A refused container is then tried as whatever else it could be, and is none of that either.
theorem value_written (n : Nat) (hv : Integral v) : Reads n v := by
  induction n generalizing v with
  | zero =>
    by_cases hdepth : v.depth = 0
    · exact reads_leaf hv hdepth 0
    · intro rest hrest
      rw [if_neg (by omega)]
      obtain ⟨vs, rfl, -⟩ | ⟨es, rfl, -⟩ := hv.container hdepth
      · rw [spelled_array]
        exact leaf_of_bracket (by decide) _
      · rw [spelled_object]
        exact leaf_of_bracket (by decide) _
  | succ n ih =>
    by_cases hdepth : v.depth = 0
    · exact reads_leaf hv hdepth (n + 1)
    · intro rest hrest
      obtain ⟨vs, rfl, hvs⟩ | ⟨es, rfl, hkeys, hes⟩ := hv.container hdepth
      · have hread := items_written hvs (fun v hv => ih (hvs v hv)) rest
        by_cases hfits : ∀ v ∈ vs, v.depth ≤ n
        · rw [if_pos hfits] at hread
          rw [if_pos (depth_array_le.mpr hfits)]
          exact orElse_of_some (bind_of_some hread)
        · rw [if_neg hfits] at hread
          rw [if_neg (mt depth_array_le.mp hfits)]
          refine (orElse_of_none (bind_of_none hread)).trans ?_
          rw [spelled_array]
          refine (orElse_of_none (bind_of_none (entries_of_ne (by decide) rfl _ _))).trans ?_
          exact leaf_of_bracket (by decide) _
      · have hread := entries_written hkeys (fun e he => ih (hes e he)) rest
        have hitems : items (value n) (spelled (object es).render ++ rest) = none := by
          rw [spelled_object]
          exact items_of_ne (by decide) rfl _ _
        refine (orElse_of_none (bind_of_none hitems)).trans ?_
        by_cases hfits : ∀ e ∈ es, e.2.depth ≤ n
        · rw [if_pos hfits] at hread
          rw [if_pos (depth_object_le.mpr hfits)]
          exact orElse_of_some (bind_of_some hread)
        · rw [if_neg hfits] at hread
          rw [if_neg (mt depth_object_le.mp hfits)]
          refine (orElse_of_none (bind_of_none hread)).trans ?_
          rw [spelled_object]
          exact leaf_of_bracket (by decide) _

end Containers

end Vassal.Json
