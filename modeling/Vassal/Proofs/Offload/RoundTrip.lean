import Vassal.Offload.Registry
import Vassal.Proofs.Offload.Message
import Vassal.Server.Memory

-- What a mule makes of the messages that ask it for a function.

namespace Vassal

open Text

namespace Server

variable {σ η : Type} [Server σ η] {s s' : σ} {message : ByteArray}

-- A message that is a text is the same text for the mule or the farm that takes it.
theorem muleText_of_text {options : MessageOptions} {text : String}
    (h : nextMuleMessage options s = .ok (some text.toUTF8) s') :
    muleText options s = .ok (some text) s' := by
  rw [muleText]
  simp only [bind, EStateM.bind, h, Option.map_some, Utf8.lossy_toUTF8]
  rfl

theorem farmText_of_text {text : String}
    (h : nextFarmMessage s = .ok (some text.toUTF8) s') :
    farmText s = .ok (some text) s' := by
  rw [farmText]
  simp only [bind, EStateM.bind, h, Option.map_some, Utf8.lossy_toUTF8]
  rfl

end Server

namespace OffloadRegistry

-- The registry after registrations, the first of them first.
def ofHistory (history : List (String × MessageTarget × OffloadFunction)) : OffloadRegistry :=
  history.foldl (fun r e => (r.register e.1 e.2.1 e.2.2).2) ∅

theorem function?_register (r : OffloadRegistry) (name : String) (target : MessageTarget)
    (f : OffloadFunction) (other : String) :
    (r.register name target f).2.function? other =
      if other = name then some f else r.function? other :=
  Ascending.lookup_put name f r.functions other

-- The function of a name is the one that was registered under it last, for whichever target.
theorem function?_ofHistory (history : List (String × MessageTarget × OffloadFunction))
    (name : String) :
    (ofHistory history).function? name = (history.reverse.lookup name).map Prod.snd := by
  induction history using List.reverseRecOn with
  | nil => rfl
  | append_singleton earlier e ih =>
    rw [List.reverse_append, List.reverse_singleton, List.singleton_append, Ascending.lookup_cons,
      ofHistory, List.foldl_append, List.foldl_cons, List.foldl_nil, ← ofHistory,
      function?_register, ih, apply_ite (Option.map Prod.snd), Option.map_some]

section Messages

variable {args : List Json} {kwargs : List (String × Json)}

theorem run?_message (r : OffloadRegistry) (o : Offload) {f : OffloadFunction}
    (hf : r.function? o.func = some f) (hargs : ∀ v ∈ args, v.Integral)
    (hkeys : (kwargs.map Prod.fst).Pairwise (· < ·)) (hkwargs : ∀ k ∈ kwargs, k.2.Integral) :
    r.run? (o.message args kwargs) =
      if (∀ v ∈ args, v.depth ≤ 125) ∧ ∀ k ∈ kwargs, k.2.depth ≤ 125 then some (f args kwargs)
      else none := by
  let e : Envelope := { marker := Envelope.offloadMarker, func := o.func, args, kwargs }
  have hread := Envelope.ofBytes?_render (e := e) ⟨hargs, hkeys, hkwargs⟩
  have hdepth : e.json.depth ≤ Json.depthLimit ↔
      (∀ v ∈ args, v.depth ≤ 125) ∧ ∀ k ∈ kwargs, k.2.depth ≤ 125 := Envelope.json_depth_le
  by_cases hfits : e.json.depth ≤ Json.depthLimit
  · rw [if_pos hfits] at hread
    rw [if_pos (hdepth.mp hfits), run?, Offload.message, hread]
    simp only [bind, Option.bind, e, hf]
    rfl
  · rw [if_neg hfits] at hread
    rw [if_neg (mt hdepth.mpr hfits), run?, Offload.message, hread]
    rfl

-- Asking for a function by its name, with the handle that its registration gives or a later one,
-- sends one message. Whoever gets that message runs the function registered last under the name,
-- with the very arguments, whether the bytes arrive as they are or as a text. Only arguments in more
-- than 125 containers are too deep to be read.
theorem answer_of_send (history : List (String × MessageTarget × OffloadFunction)) {name : String}
    {given : MessageTarget} {f : OffloadFunction}
    (hf : history.reverse.lookup name = some (given, f)) (target : MessageTarget)
    (hargs : ∀ v ∈ args, v.Integral) (hkeys : (kwargs.map Prod.fst).Pairwise (· < ·))
    (hkwargs : ∀ k ∈ kwargs, k.2.Integral) :
    ∃ (o : Offload) (text : String), (ofHistory history).get name target = .ok o ∧
      (∀ (r : OffloadRegistry) (g : OffloadFunction), (r.register name target g).1 = o) ∧
      (∀ (σ η : Type) [Server σ η], (o.send args kwargs : Attempt σ Bool) =
        Server.sendToMules text.toUTF8 target) ∧
      (ofHistory history).run? text.toUTF8 =
        (if (∀ v ∈ args, v.depth ≤ 125) ∧ ∀ k ∈ kwargs, k.2.depth ≤ 125 then some (f args kwargs)
        else none) ∧
      ∀ (σ η : Type) [Server σ η] (s s' : σ),
        (∀ options, Server.nextMuleMessage options s = .ok (some text.toUTF8) s' →
          Server.muleText options s = .ok (some text) s') ∧
        (Server.nextFarmMessage s = .ok (some text.toUTF8) s' →
          Server.farmText s = .ok (some text) s') := by
  have hfunction : (ofHistory history).function? name = some f :=
    (function?_ofHistory history name).trans (congrArg (Option.map Prod.snd) hf)
  have hcontains : (ofHistory history).contains name = true := by
    rw [contains, hfunction]
    rfl
  let o : Offload := { func := name, target }
  let e : Envelope := { marker := Envelope.offloadMarker, func := name, args, kwargs }
  refine ⟨o, e.render, if_pos hcontains, fun _ _ => rfl, fun σ η _ => rfl, ?_,
    fun σ η _ s s' => ⟨?_, ?_⟩⟩
  · exact run?_message (ofHistory history) o hfunction hargs hkeys hkwargs
  · exact fun options => Server.muleText_of_text
  · exact Server.farmText_of_text

-- An array in an array, so many times around an empty one.
def nested : Nat → Json
  | 0 => .array []
  | n + 1 => .array [nested n]

theorem depth_nested (n : Nat) : (nested n).depth = n + 1 := by
  induction n with
  | zero => rfl
  | succ n ih => rw [nested, Json.depth, Json.depthItems, Json.depthItems, ih, Nat.max_zero]

theorem integral_nested (n : Nat) : (nested n).Integral := by
  induction n with
  | zero => exact .array (List.forall_mem_nil _)
  | succ n ih => exact .array (List.forall_mem_singleton.mpr ih)

-- A function that gives back what it is given.
def echo : OffloadFunction := fun args kwargs =>
  .array [.array args, .object kwargs]

-- A text with escapes, the integers at both ends of their range, and arrays down to the limit.
def edges : List Json :=
  [.string "\"\n\\é", .integer (-0x8000000000000000), .integer 0xFFFFFFFFFFFFFFFF, nested 124]

-- Two functions with one name and one with another.
def threeFunctions : List (String × MessageTarget × OffloadFunction) :=
  [("f", .mule 0, fun _ _ => .null), ("f", .mule 2, echo), ("g", .mule 0, fun _ _ => .null)]

-- The second of the two functions with the name gets them through servers in memory.
theorem answer_at_limit : ∃ (o : Offload) (text : String),
    (ofHistory threeFunctions).get "f" (.farm "jobs") = .ok o ∧
    o.send edges [("a", .bool true), ("b", .null)] ({} : Server.Memory Unit) =
      .ok true { calls := [.sendToMules text.toUTF8 (.farm "jobs")] } ∧
    Server.muleText {} ({ muleId := 1, inbox := [text.toUTF8] } : Server.Memory Unit) =
      .ok (some text) { muleId := 1, calls := [.nextMuleMessage {}] } ∧
    (ofHistory threeFunctions).run? text.toUTF8 =
      some (.array [.array edges, .object [("a", .bool true), ("b", .null)]]) := by
  have hargs : ∀ v ∈ edges, v.Integral ∧ v.depth ≤ 125 := by
    simp only [edges, List.forall_mem_cons]
    exact ⟨⟨.string _, Nat.zero_le _⟩, ⟨.integer rfl, Nat.zero_le _⟩, ⟨.integer rfl, Nat.zero_le _⟩,
      ⟨integral_nested 124, (depth_nested 124).le⟩, List.forall_mem_nil _⟩
  have hkwargs : ∀ k ∈ [("a", Json.bool true), ("b", Json.null)], k.2.Integral ∧ k.2.depth ≤ 125 := by
    simp only [List.forall_mem_cons]
    exact ⟨⟨.bool true, Nat.zero_le _⟩, ⟨.null, Nat.zero_le _⟩, List.forall_mem_nil _⟩
  have hlast : threeFunctions.reverse.lookup "f" = some (.mule 2, echo) := rfl
  obtain ⟨o, text, hget, -, hsend, hrun, htext⟩ := answer_of_send _ hlast (.farm "jobs")
    (fun v hv => (hargs v hv).1) (by decide) (fun k hk => (hkwargs k hk).1)
  refine ⟨o, text, hget, congrFun (hsend (Server.Memory Unit) Unit) {},
    (htext (Server.Memory Unit) Unit _ _).1 {} rfl, ?_⟩
  exact hrun.trans (if_pos ⟨fun v hv => (hargs v hv).2, fun k hk => (hkwargs k hk).2⟩)

-- One more array around them, and nobody reads the message.
theorem ignored_past_limit : (nested 125).Integral ∧
    (ofHistory [("f", .mule 0, echo)]).contains "f" = true ∧
    (ofHistory [("f", .mule 0, echo)]).run?
      (({ func := "f" } : Offload).message [nested 125] []) = none := by
  refine ⟨integral_nested 125, rfl, ?_⟩
  have hargs : ∀ v ∈ [nested 125], v.Integral := List.forall_mem_singleton.mpr (integral_nested 125)
  have hdeep : ¬∀ v ∈ [nested 125], v.depth ≤ 125 := by
    rw [List.forall_mem_singleton, depth_nested]
    omega
  exact (run?_message _ _ rfl hargs List.Pairwise.nil (List.forall_mem_nil _)).trans
    (if_neg fun h => hdeep h.1)

end Messages

end OffloadRegistry

end Vassal
