import Vassal.Offload.Envelope
import Vassal.Proofs.Json.Nesting

-- Envelopes are read as they were written, unless they are nested too deep.

namespace Vassal.Envelope

open Text Json Text.Reader

-- The entry that a field is written as; one that is not known may be any other.
def Field.entry : Field → String × Json
  | marker s => ("marker", .string s)
  | func s => ("func", .string s)
  | args items => ("args", .array items)
  | kwargs entries => ("kwargs", .object entries)
  | unknown => ("", .null)

def fields (e : Envelope) : List Field :=
  [.marker e.marker, .func e.func, .args e.args, .kwargs e.kwargs]

def json (e : Envelope) : Json :=
  .object (e.fields.map Field.entry)

-- Arguments that are read back: every value without decimals, every map.
structure Integral (e : Envelope) : Prop where
  args : ∀ v ∈ e.args, v.Integral
  keys : (e.kwargs.map Prod.fst).Pairwise (· < ·)
  kwargs : ∀ k ∈ e.kwargs, k.2.Integral

variable {e : Envelope} {rest : List Piece}

theorem read_entry (x : Field) (rest : List Piece) :
    Field.read (spelled (renderEntry x.entry) ++ rest) =
      (match x.entry.1 with
        | "marker" => do return .marker (← text)
        | "func" => do return .func (← text)
        | "args" => do return .args (← arguments)
        | "kwargs" => do return .kwargs (← namedArguments)
        | _ => do
          passOver
          return .unknown : Reader Piece Field) (spelled x.entry.2.render ++ rest) := by
  rw [renderEntry, spelled_append, spelled_append, List.append_assoc, List.append_assoc]
  exact (bind_of_some (text_quote x.entry.1 _)).trans (bind_of_some (mark_self rfl _))

-- The envelope is a container already, so that a field may hold one less than a whole message.
theorem read_written (he : e.Integral) {x : Field} (hx : x ∈ e.fields) (rest : List Piece) :
    Field.read (spelled (renderEntry x.entry) ++ rest) =
      if x.entry.2.depth ≤ depthLimit - 1 then some (x, rest) else none := by
  have hargs := items_written (n := depthLimit - 2) he.args
    (fun v hv => value_written _ (he.args v hv)) rest
  have hkwargs := entries_written (n := depthLimit - 2) he.keys
    (fun v hv => value_written _ (he.kwargs v hv)) rest
  simp only [fields, List.mem_cons, List.not_mem_nil, or_false] at hx
  rw [read_entry]
  by_cases hfits : x.entry.2.depth ≤ depthLimit - 1
  · rw [if_pos hfits]
    obtain rfl | rfl | rfl | rfl := hx
    · exact bind_of_some (text_quote e.marker rest)
    · exact bind_of_some (text_quote e.func rest)
    · rw [if_pos ((depth_array_le (n := depthLimit - 2)).mp hfits)] at hargs
      exact bind_of_some hargs
    · rw [if_pos ((depth_object_le (n := depthLimit - 2)).mp hfits)] at hkwargs
      exact bind_of_some hkwargs
  · rw [if_neg hfits]
    obtain rfl | rfl | rfl | rfl := hx
    · exact absurd (Nat.zero_le _) hfits
    · exact absurd (Nat.zero_le _) hfits
    · rw [if_neg (mt (depth_array_le (n := depthLimit - 2)).mpr hfits)] at hargs
      exact bind_of_none hargs
    · rw [if_neg (mt (depth_object_le (n := depthLimit - 2)).mpr hfits)] at hkwargs
      exact bind_of_none hkwargs

theorem itemsRead_fields (he : e.Integral) : ItemsRead Field.read (spelled <| renderEntry ·.entry)
    (fun x => decide (x.entry.2.depth ≤ depthLimit - 1)) '\x7d' e.fields where
  right_mem := by decide
  begins x _ := renderEntry_begins x.entry
  reads x hx rest _ := by simpa only [decide_eq_true_eq] using read_written he hx rest
  refuses rest := bind_of_none (text_of_ne (by decide) rfl rest)

theorem json_depth_le_iff_fields : e.json.depth ≤ depthLimit ↔
    ∀ x ∈ e.fields, x.entry.2.depth ≤ depthLimit - 1 := by
  have hdepth : e.json.depth ≤ depthLimit ↔
      ∀ k ∈ e.fields.map Field.entry, k.2.depth ≤ depthLimit - 1 := depth_object_le
  rw [hdepth, List.forall_mem_map]

-- The envelope and a field of it are two containers around every argument.
theorem json_depth_le : e.json.depth ≤ depthLimit ↔
    (∀ v ∈ e.args, v.depth ≤ depthLimit - 2) ∧ ∀ k ∈ e.kwargs, k.2.depth ≤ depthLimit - 2 := by
  have hargs : (array e.args).depth ≤ depthLimit - 1 ↔ ∀ v ∈ e.args, v.depth ≤ depthLimit - 2 :=
    depth_array_le
  have hkwargs : (object e.kwargs).depth ≤ depthLimit - 1 ↔
      ∀ k ∈ e.kwargs, k.2.depth ≤ depthLimit - 2 := depth_object_le
  rw [json_depth_le_iff_fields, ← hargs, ← hkwargs, fields]
  simp only [List.forall_mem_cons]
  constructor
  · intro h
    exact ⟨h.2.2.1, h.2.2.2.1⟩
  · intro h
    -- The marker and the name are texts, which no limit keeps out.
    exact ⟨Nat.zero_le _, Nat.zero_le _, h.1, h.2, List.forall_mem_nil _⟩

theorem spelled_render (e : Envelope) : spelled e.render = .char '\x7b' ::
    ([.char ','].intercalate (e.fields.map (spelled <| renderEntry ·.entry)) ++ [.char '\x7d']) := by
  have hspelled := spelled_object (e.fields.map Field.entry) []
  simp only [List.append_nil, List.map_map, Function.comp_def] at hspelled
  have hrender : e.render = (object (e.fields.map Field.entry)).render := rfl
  rw [hrender, hspelled]

theorem fromObject_written (he : e.Integral) : fromObject (spelled e.render) =
    if e.json.depth ≤ depthLimit then some (e, []) else none := by
  have hread := (itemsRead_fields he).enclosed_written '\x7b' rfl []
  simp only [List.all_eq_true, decide_eq_true_eq] at hread
  rw [spelled_render]
  by_cases hfits : e.json.depth ≤ depthLimit
  · rw [if_pos (json_depth_le_iff_fields.mp hfits)] at hread
    rw [if_pos hfits]
    exact bind_of_some hread
  · rw [if_neg (mt json_depth_le_iff_fields.mpr hfits)] at hread
    rw [if_neg hfits]
    exact bind_of_none hread

-- What is no object is tried as an array, which a message does not begin like.
theorem fromArray_written (e : Envelope) : fromArray (spelled e.render) = none := by
  rw [spelled_render]
  exact bind_of_none (mark_of_ne (by decide) rfl _)

theorem ofBytes?_render (he : e.Integral) :
    ofBytes? e.render.toUTF8 = if e.json.depth ≤ depthLimit then some e else none := by
  have hread := fromObject_written he
  rw [ofBytes?, readAll?, Utf8.pieces_toUTF8]
  by_cases hfits : e.json.depth ≤ depthLimit
  · rw [if_pos hfits] at hread ⊢
    have hblanks : blanks [] = some ((), []) := blanks_of_not_blank rfl
    rw [bind_of_some (orElse_of_some hread), bind_of_some hblanks]
    rfl
  · rw [if_neg hfits] at hread ⊢
    rw [bind_of_none ((orElse_of_none hread).trans (fromArray_written e))]
    rfl

end Vassal.Envelope
