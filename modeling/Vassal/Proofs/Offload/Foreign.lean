import Vassal.Offload.Registry
import Vassal.Proofs.Json.Grammar
import Vassal.Proofs.Offload.Message

-- What a message must be for a function to run.
--
-- A mule is sent messages of all kinds. The ones that run a function are calls: objects that bear
-- the marker and name a function, or arrays of the same fields in order.

namespace Vassal

open Text Text.Reader Json Json.Grammar

namespace Envelope

section Calls

def fieldNames : List String :=
  ["marker", "func", "args", "kwargs"]

-- The text of a member, if it has the name.
def textUnder (name : String) (member : String × List Piece) : Option (List Piece) :=
  if member.1 = name then some member.2 else none

def under (name : String) (members : List (String × List Piece)) : List (List Piece) :=
  members.filterMap (textUnder name)

-- An object that is a call has one marker and one name, and the arguments at most once. Whatever
-- else it has only needs the shape of a value.
structure Asks (marker func : String) (members : List (String × List Piece)) : Prop where
  marker : ∃ us, under "marker" members = [us] ∧ Strict us marker
  func : ∃ us, under "func" members = [us] ∧ Strict us func
  args : under "args" members = [] ∨ ∃ us, under "args" members = [us] ∧ Items us
  kwargs : under "kwargs" members = [] ∨ ∃ us, under "kwargs" members = [us] ∧ Entries us
  others : ∀ member ∈ members, member.1 ∉ fieldNames → Shape Loose member.2

-- What may stand behind the name in an array.
inductive Arguments : List (List Piece) → Prop
  | none : Arguments []
  | args {us : List Piece} (h : Items us) : Arguments [us]
  | kwargs {us vs : List Piece} (hus : Items us) (hvs : Entries vs) : Arguments [us, vs]

inductive Call (marker func : String) : List Piece → Prop
  | object {members : List (String × List Piece)} {us : List Piece} (h : Object Strict members us)
      (hasks : Asks marker func members) : Call marker func us
  | array {us vs call : List Piece} {rest : List (List Piece)}
      (h : Listed '[' ']' (us :: vs :: rest) call) (hus : Strict us marker) (hvs : Strict vs func)
      (hrest : Arguments rest) : Call marker func call

end Calls

section Fields

-- The members that a field may have been read from.
def Field.Of (member : String × List Piece) : Field → Prop
  | .marker s => member.1 = "marker" ∧ Strict member.2 s
  | .func s => member.1 = "func" ∧ Strict member.2 s
  | .args _ => member.1 = "args" ∧ Items member.2
  | .kwargs _ => member.1 = "kwargs" ∧ Entries member.2
  | .unknown => member.1 ∉ fieldNames ∧ Shape Loose member.2

theorem within_read : Within Field.read fun us field =>
    ∃ member, Member Strict us member ∧ Field.Of member field := by
  refine within_member within_text fun name => ?_
  split
  · exact within_text.return fun _ _ hus => ⟨rfl, hus⟩
  · exact within_text.return fun _ _ hus => ⟨rfl, hus⟩
  · exact (within_items (within_value _)).return fun _ _ hus => ⟨rfl, hus⟩
  · exact (within_entries (within_value _)).return fun _ _ hus => ⟨rfl, hus⟩
  · rename_i hmarker hfunc hargs hkwargs
    refine within_passOver.return fun _ _ hus => ⟨?_, hus⟩
    simpa [fieldNames] using ⟨hmarker, hfunc, hargs, hkwargs⟩

-- What a field holds, if it is of a kind, is what its member holds, if that has the kind's name.
structure Field.Matches (member : String × List Piece) (field : Field) : Prop where
  marker : Option.Rel Strict (textUnder "marker" member) field.marker?
  func : Option.Rel Strict (textUnder "func" member) field.func?
  args : Option.Rel (fun us _ => Items us) (textUnder "args" member) field.args?
  kwargs : Option.Rel (fun us _ => Entries us) (textUnder "kwargs" member) field.kwargs?

theorem Field.Of.matches {member : String × List Piece} {field : Field} (h : Of member field) :
    field.Matches member := by
  constructor <;> cases field <;>
    simp_all [Of, textUnder, marker?, func?, args?, kwargs?, fieldNames]

theorem eq_of_only? {α : Type} {found : List α} {missing : Option α} {a : α}
    (h : only? found missing = some a) : found = [a] ∨ found = [] ∧ missing = some a := by
  match found with
  | [] => exact .inr ⟨rfl, h⟩
  | [b] => exact .inl (by rw [Option.some.inj h])
  | _ :: _ :: _ => cases h

variable {members : List (String × List Piece)} {fields : List Field}
  (h : List.Forall₂ Field.Of members fields)
include h

-- A field that is there once was read from the one member of its name, and one that is not there
-- has no such member.
theorem under_of_only? {α : Type} {R : List Piece → α → Prop} {pick : Field → Option α}
    {name : String} {missing : Option α} {a : α}
    (hpick : ∀ member field, Field.Of member field →
      Option.Rel R (textUnder name member) (pick field))
    (honly : only? (fields.filterMap pick) missing = some a) :
    (∃ us, under name members = [us] ∧ R us a) ∨ under name members = [] ∧ missing = some a := by
  have hunder : List.Forall₂ R (under name members) (fields.filterMap pick) :=
    List.rel_filterMap (fun _ _ hmember => hpick _ _ hmember) h
  rcases eq_of_only? honly with hone | ⟨hnone, hmissing⟩
  · rw [hone] at hunder
    obtain ⟨us, _, hR, hnil, hunder⟩ := List.forall₂_cons_right_iff.mp hunder
    rw [List.forall₂_nil_right_iff] at hnil
    exact .inl ⟨us, by rw [hunder, hnil], hR⟩
  · rw [hnone, List.forall₂_nil_right_iff] at hunder
    exact .inr ⟨hunder, hmissing⟩

theorem asks_of_fields {e : Envelope} (he : ofFields? fields = some e) :
    Asks e.marker e.func members := by
  simp only [ofFields?, Option.bind_eq_bind, Option.bind_eq_some_iff, Option.pure_def,
    Option.some.injEq] at he
  obtain ⟨marker, hmarker, func, hfunc, args, hargs, kwargs, hkwargs, rfl⟩ := he
  constructor
  case marker => simpa using under_of_only? h (fun _ _ hread => hread.matches.marker) hmarker
  case func => simpa using under_of_only? h (fun _ _ hread => hread.matches.func) hfunc
  case args =>
    have hread := under_of_only? h (fun _ _ hread => hread.matches.args) hargs
    exact hread.symm.imp_left And.left
  case kwargs =>
    have hread := under_of_only? h (fun _ _ hread => hread.matches.kwargs) hkwargs
    exact hread.symm.imp_left And.left
  case others =>
    have hread : ∀ member ∈ members, ∃ field, Field.Of member field :=
      forall_of_forall₂ (h.imp fun _ field hmember => ⟨field, hmember⟩)
    intro member hmember hname
    obtain ⟨field, hfield⟩ := hread member hmember
    cases field with
    | unknown => exact hfield.2
    | _ => exact absurd (by simp [hfield.1, fieldNames]) hname

end Fields

theorem within_fromObject : Within fromObject fun us e => Call e.marker e.func us := by
  refine (within_object within_read).bind fun fields first hfirst => ?_
  obtain ⟨members, hobject, hmembers⟩ := hfirst
  split
  · rename_i e he
    refine within_pure ?_
    rw [List.append_nil]
    exact .object hobject (asks_of_fields hmembers he)
  · exact within_failure

-- What follows the name in an array, whatever the name was.
def Behind (us : List Piece) : Prop :=
  ∃ rest, Arguments rest ∧ ∀ name, Spaced (Marked ',') (name :: rest) (name ++ us)

theorem within_kwargs {comma args : List Piece} (hcomma : Marked ',' comma) (hargs : Items args) :
    Within (optional (do
      mark ','
      namedArguments)) fun us _ => Behind (comma ++ (args ++ us)) := by
  have hkwargs : Within (do
      mark ','
      namedArguments) fun us _ => ∃ before kwargs, us = before ++ kwargs ∧ Marked ',' before ∧
        Entries kwargs :=
    (within_mark ',').bind fun _ before hbefore =>
      (within_entries (within_value _)).mono fun kwargs _ hkwargs =>
        ⟨before, kwargs, rfl, hbefore, hkwargs⟩
  refine hkwargs.optional ?_ ?_
  · rw [List.append_nil]
    exact ⟨[args], .args hargs, fun _ => .more hcomma (.one args)⟩
  · rintro us _ ⟨before, kwargs, rfl, hbefore, hkwargs⟩
    exact ⟨[args, kwargs], .kwargs hargs hkwargs,
      fun _ => .more hcomma (.more hbefore (.one kwargs))⟩

theorem within_fromArray : Within fromArray fun us e => Call e.marker e.func us := by
  have hrest : Within (optional (do
      mark ','
      let args ← arguments
      let kwargs ← optional (do
        mark ','
        namedArguments)
      return (args, kwargs.getD []))) fun us _ => Behind us := by
    refine Within.optional ?_ ⟨[], .none, fun name => ?_⟩ fun _ _ hus => hus
    · refine (within_mark ',').bind fun _ comma hcomma => ?_
      refine (within_items (within_value _)).bind fun _ args hargs => ?_
      exact (within_kwargs hcomma hargs).return fun _ _ hus => hus
    · rw [List.append_nil]
      exact .one name
  refine (within_mark '[').bind fun _ opening hopening => within_text.bind fun marker us hus =>
    (within_mark ',').bind fun _ comma hcomma => within_text.bind fun func vs hvs =>
      hrest.bind fun _ behind hbehind => (within_mark ']').return fun closing _ hclosing => ?_
  obtain ⟨rest, harguments, hspaced⟩ := hbehind
  have hinner : Spaced (Marked ',') (us :: vs :: rest) (us ++ (comma ++ (vs ++ behind))) :=
    .more hcomma (hspaced vs)
  have hlisted := Listed.filled hopening hinner hclosing
  simp only [List.append_assoc] at hlisted
  exact .array hlisted hus hvs harguments

end Envelope

namespace OffloadRegistry

open Envelope

theorem run?_eq_none_or (r : OffloadRegistry) (message : ByteArray) :
    r.run? message = none ∨ ∃ name f args kwargs, r.function? name = some f ∧
      r.run? message = some (f args kwargs) ∧
      ∃ call after, Utf8.pieces message = call ++ after ∧ Call offloadMarker name call ∧
        Blank after := by
  cases hrun : r.run? message with
  | none => exact .inl rfl
  | some answer =>
    right
    simp only [run?, Option.bind_eq_bind, Option.bind_eq_some_iff] at hrun
    obtain ⟨e, he, hrun⟩ := hrun
    split at hrun
    · rename_i hmarker
      obtain ⟨f, hf, hanswer⟩ := Option.bind_eq_some_iff.mp hrun
      obtain ⟨call, after, hmessage, hcall, hafter⟩ :=
        of_readAll? (within_fromObject.orElse within_fromArray) he
      rw [hmarker] at hcall
      exact ⟨e.func, f, e.args, e.kwargs, hf, hanswer.symm, call, after, hmessage, hcall, hafter⟩
    · cases hrun

theorem run?_render_of_integral (r : OffloadRegistry) {e : Envelope} (he : e.Integral)
    (hdepth : e.json.depth ≤ depthLimit) : r.run? e.render.toUTF8 =
      if e.marker = offloadMarker then (r.function? e.func).map fun f => f e.args e.kwargs
      else none := by
  have hread := ofBytes?_render he
  rw [if_pos hdepth] at hread
  simp only [run?, hread, Option.bind_eq_bind, Option.bind_some, Option.pure_def,
    Option.map_eq_bind, Function.comp_def]

-- A function runs for a call of its name and for nothing else: all of the message is the call, but
-- for blanks. What makes it a call are the marker and a name that is known here.
theorem run?_only_for_calls (r : OffloadRegistry) :
    (∀ message, r.run? message = none ∨ ∃ name f args kwargs, r.function? name = some f ∧
      r.run? message = some (f args kwargs) ∧
      ∃ call after, Utf8.pieces message = call ++ after ∧ Call offloadMarker name call ∧
        Blank after) ∧
    ∀ marker name, r.run? ({ marker, func := name } : Envelope).render.toUTF8 =
      if marker = offloadMarker then (r.function? name).map fun f => f [] [] else none := by
  refine ⟨r.run?_eq_none_or, fun marker name => ?_⟩
  let e : Envelope := { marker, func := name }
  have he : e.Integral := ⟨List.forall_mem_nil _, List.Pairwise.nil, List.forall_mem_nil _⟩
  have hdepth : e.json.depth ≤ depthLimit :=
    json_depth_le.mpr ⟨List.forall_mem_nil _, List.forall_mem_nil _⟩
  exact r.run?_render_of_integral he hdepth

-- An array of the fields runs a function although it is no object, and an object does although one
-- of its members is no text.
theorem run_for_array_and_for_stray_byte :
    let r := (register ∅ "f" (.mule 0) fun _ _ => .null).2
    let listed := "[\"uwcf\",\"f\"]".toUTF8
    let stray : ByteArray := "\x7b\"marker\":\"uwcf\",\"func\":\"f\",\"x\":\"".toUTF8 ++ ⟨#[0xFF]⟩
      ++ "\"\x7d".toUTF8
    (∃ items, Json.parse? listed = some (.array items)) ∧ (r.run? listed).isSome ∧
      Utf8.decode? stray = none ∧ (r.run? stray).isSome := by
  refine ⟨?_, by decide +kernel, by decide +kernel, by decide +kernel⟩
  have hparse : ((Json.parse? "[\"uwcf\",\"f\"]".toUTF8).map fun
      | .array _ => true
      | _ => false) = some true := by decide +kernel
  obtain ⟨v, hv, harray⟩ := Option.map_eq_some_iff.mp hparse
  cases v with
  | array items => exact ⟨items, hv⟩
  | _ => cases harray

end OffloadRegistry

end Vassal
