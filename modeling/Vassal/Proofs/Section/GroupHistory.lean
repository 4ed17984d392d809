import Mathlib.Data.List.DropRight
import Vassal.Proofs.Section.GroupCache

-- Caches of groups after any history of uses.
--
-- Kinds of groups have states of types of their own. A slot then holds a state of every type, of
-- which only the one of its kind is read or written.

namespace Vassal.GroupCache

variable {State : GroupKind → Type}

-- One use of a cache. Asking for a group gives its state, which may be written at once.
inductive Use (State : GroupKind → Type)
  | ask (kind : GroupKind) (write : State kind → State kind)
  | get (kind : GroupKind)
  | contains (id : String)

-- The state that a look for a group finds.
def state? (c : GroupCache (∀ kind, State kind)) (kind : GroupKind) : Option (State kind) :=
  (c.get? kind).map (· kind)

def writeOwn (kind : GroupKind) (write : State kind → State kind) (states : ∀ kind, State kind) :
    ∀ kind, State kind :=
  Function.update states kind (write (states kind))

namespace Use

def run [∀ kind, Inhabited (State kind)] (c : GroupCache (∀ kind, State kind)) :
    Use State → GroupCache (∀ kind, State kind)
  | ask kind write => c.modify kind (writeOwn kind write)
  | get _ | contains _ => c

def ask? : Use State → Option ((kind : GroupKind) × (State kind → State kind))
  | ask kind write => some ⟨kind, write⟩
  | get _ | contains _ => none

-- The identifiers that a use may give to another group.
def ids : Use State → List String
  | ask kind _ => [kind.id]
  | get _ | contains _ => []

end Use

def replay [∀ kind, Inhabited (State kind)] (history : List (Use State)) :
    GroupCache (∀ kind, State kind) :=
  history.foldl Use.run ∅

-- Everything that was asked for under an identifier.
def asked (history : List (Use State)) (id : String) :
    List ((kind : GroupKind) × (State kind → State kind)) :=
  (history.filterMap Use.ask?).filter (·.1.id = id)

def lastAsked (history : List (Use State)) (id : String) : Option GroupKind :=
  (asked history id).getLast?.map (·.1)

-- What was written to a group since its identifier was last asked for by another kind.
def writes (history : List (Use State)) (kind : GroupKind) : List (State kind → State kind) :=
  ((asked history kind.id).rtakeWhile (·.1 = kind)).filterMap fun a =>
    if h : a.1 = kind then some (h ▸ a.2) else none

def written [∀ kind, Inhabited (State kind)] (history : List (Use State)) (kind : GroupKind) :
    State kind :=
  (writes history kind).foldl (fun state write => write state) default

section Asked

variable {history : List (Use State)} {kind other : GroupKind} {write : State other → State other}

theorem asked_concat_of_eq {id : String} (hid : other.id = id) :
    asked (history ++ [.ask other write]) id = asked history id ++ [⟨other, write⟩] := by
  simp [asked, Use.ask?, hid]

theorem asked_concat_of_ne {id : String} {u : Use State} (hid : id ∉ u.ids) :
    asked (history ++ [u]) id = asked history id := by
  cases u with
  | ask other write =>
    have hne : other.id ≠ id := fun heq => hid (by simp [Use.ids, heq])
    simp [asked, Use.ask?, hne]
  | get | contains => simp [asked, Use.ask?]

theorem writes_concat_self {write : State kind → State kind} :
    writes (history ++ [.ask kind write]) kind = writes history kind ++ [write] := by
  unfold writes
  rw [asked_concat_of_eq rfl, List.rtakeWhile_concat_pos _ _ _ (by simp), List.filterMap_append]
  simp

theorem writes_eq_nil (h : lastAsked history kind.id ≠ some kind) : writes history kind = [] := by
  have hnone : (asked history kind.id).rtakeWhile (·.1 = kind) = [] := by
    rw [List.rtakeWhile_eq_nil_iff]
    intro hne heq
    rw [lastAsked, List.getLast?_eq_some_getLast hne] at h
    exact h (by simpa using heq)
  rw [writes, hnone, List.filterMap_nil]

theorem lastAsked_concat (history : List (Use State)) (other : GroupKind)
    (write : State other → State other) :
    lastAsked (history ++ [.ask other write]) other.id = some other := by
  rw [lastAsked, asked_concat_of_eq rfl, List.getLast?_concat]
  rfl

end Asked

section Run

variable [∀ kind, Inhabited (State kind)] {c : GroupCache (∀ kind, State kind)}
  {kind other : GroupKind}

-- A group that is asked for keeps its state, or begins in the default one; then it is written.
theorem Tidy.state?_run_self (h : c.Tidy) (write : State kind → State kind) :
    ((Use.ask kind write).run c).state? kind = some (write ((c.state? kind).getD default)) := by
  have hself : (c.modify kind (writeOwn kind write)).get? kind = _ := h.get?_modify_self
  rw [Use.run, state?, hself, state?, Option.map_some]
  cases c.get? kind <;> simp [writeOwn]

-- Every other group of the identifier is gone.
theorem Tidy.state?_run_of_shared (h : c.Tidy) (write : State other → State other)
    (hid : other.id = kind.id) (hne : other ≠ kind) :
    ((Use.ask other write).run c).state? kind = none := by
  have hself : (c.modify other (writeOwn other write)).get? other = _ := h.get?_modify_self
  have hnone := h.modify.get?_eq_none_of_get? hself hid.symm (Ne.symm hne)
  rw [Use.run, state?, hnone, Option.map_none]

theorem state?_run_of_ne {u : Use State} (hid : kind.id ∉ u.ids) :
    (u.run c).state? kind = c.state? kind := by
  cases u with
  | ask other write =>
    have hne : kind.id ≠ other.id := by simpa [Use.ids] using hid
    rw [Use.run, state?, get?_modify_of_ne hne, state?]
  | get | contains => rfl

end Run

section Replay

variable [∀ kind, Inhabited (State kind)]

theorem replay_concat (history : List (Use State)) (u : Use State) :
    replay (history ++ [u]) = u.run (replay history) := by
  rw [replay, List.foldl_append]
  rfl

variable {kind other : GroupKind}

theorem written_eq_default {history : List (Use State)}
    (h : lastAsked history kind.id ≠ some kind) : written history kind = default := by
  rw [written, writes_eq_nil h, List.foldl_nil]

theorem written_concat_self (history : List (Use State)) (write : State kind → State kind) :
    written (history ++ [.ask kind write]) kind = write (written history kind) := by
  rw [written, writes_concat_self, List.foldl_append]
  rfl

theorem tidy_replay (history : List (Use State)) : (replay history).Tidy := by
  induction history using List.reverseRecOn with
  | nil => exact tidy_empty
  | append_singleton earlier u ih =>
    rw [replay_concat]
    cases u with
    | ask => exact ih.modify
    | get | contains => exact ih

theorem mem_ids_replay (history : List (Use State)) (id : String) :
    id ∈ (replay history).ids ↔ asked history id ≠ [] := by
  induction history using List.reverseRecOn with
  | nil => simp [replay, asked, ids, EmptyCollection.emptyCollection]
  | append_singleton earlier u ih =>
    rw [replay_concat]
    by_cases hid : id ∈ u.ids
    · cases u with
      | ask other write =>
        obtain rfl := List.mem_singleton.mp hid
        rw [asked_concat_of_eq rfl]
        simp [Use.run, mem_ids_modify]
      | get | contains => simp [Use.ids] at hid
    · rw [asked_concat_of_ne hid, ← ih]
      cases u with
      | ask other write =>
        have hne : id ≠ other.id := by simpa [Use.ids] using hid
        simp [Use.run, mem_ids_modify, hne]
      | get | contains => rfl

theorem state?_replay (history : List (Use State)) (kind : GroupKind) :
    (replay history).state? kind =
      if lastAsked history kind.id = some kind then some (written history kind) else none := by
  induction history using List.reverseRecOn with
  | nil => rfl
  | append_singleton earlier u ih =>
    rw [replay_concat]
    by_cases hid : kind.id ∈ u.ids
    · cases u with
      | ask other write =>
        have hother : other.id = kind.id := (List.mem_singleton.mp hid).symm
        have hlast := lastAsked_concat earlier other write
        rw [hother] at hlast
        by_cases hkind : other = kind
        · subst hkind
          have hbefore : ((replay earlier).state? other).getD default = written earlier other := by
            rw [ih]
            split
            · rfl
            · exact (written_eq_default ‹_›).symm
          rw [if_pos hlast, written_concat_self, (tidy_replay earlier).state?_run_self, hbefore]
        · rw [if_neg (by simpa [hlast] using hkind)]
          exact (tidy_replay earlier).state?_run_of_shared write hother hkind
      | get | contains => simp [Use.ids] at hid
    · have hlast : lastAsked (earlier ++ [u]) kind.id = lastAsked earlier kind.id := by
        rw [lastAsked, asked_concat_of_ne hid, lastAsked]
      have hwritten : written (earlier ++ [u]) kind = written earlier kind := by
        rw [written, writes, asked_concat_of_ne hid, written, writes]
      rw [state?_run_of_ne hid, hlast, hwritten, ih]

-- What a cache holds after any history: one slot for each identifier that was asked for, in order,
-- with the group that was asked for last and what was written to it since it came. One more use
-- leaves all other identifiers alone.
theorem replay_exact (history : List (Use State)) :
    let c := replay history
    c.ids.Pairwise (· < ·) ∧
    (∀ id, (c.slots.filter (·.1.id == id)).length ≤ 1) ∧
    (∀ id, id ∈ c.ids ↔ asked history id ≠ []) ∧
    (∀ id, c.contains id = true ↔ asked history id ≠ []) ∧
    (∀ kind, c.state? kind =
      if lastAsked history kind.id = some kind then some (written history kind) else none) ∧
    ∀ u : Use State,
      (u.run c).slots.filter (·.1.id ∉ u.ids) = c.slots.filter (·.1.id ∉ u.ids) := by
  intro c
  have htidy : c.Tidy := tidy_replay history
  have hcontains : ∀ id, c.contains id = true ↔ id ∈ c.ids := by simp [contains, ids]
  have hids : ∀ id, id ∈ c.ids ↔ asked history id ≠ [] := mem_ids_replay history
  refine ⟨htidy, htidy.length_filter_id_le, hids, fun id => (hcontains id).trans (hids id),
    state?_replay history, fun u => ?_⟩
  cases u with
  | ask kind write => exact filter_modify_of_ne fun slot hslot => by simp [Use.ids, hslot]
  | get | contains => rfl

-- Of two kinds that share an identifier, the one that comes back begins anew.
example :
    let counter : GroupKind := { id := "counter", label := "counter" }
    let impostor : GroupKind := { id := "counter", label := "impostor" }
    let history : List (Use fun _ => Option Nat) :=
      [.ask counter fun _ => some 5, .ask impostor fun _ => some 7, .get counter]
    (replay history).state? counter = none ∧ (replay history).state? impostor = some (some 7) ∧
      (replay (history ++ [.ask counter id])).state? counter = some none := by
  decide +kernel

end Replay

end Vassal.GroupCache
