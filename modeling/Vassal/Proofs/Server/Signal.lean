import Vassal.Proofs.Attempt
import Vassal.Server.Memory
import Vassal.Server.Signal

-- Handlers of signals, registered one after the other.
--
-- A process writes down whatever the server takes and looks a signal up from the front. A signal
-- that is registered again goes on being described as it was the first time, while the server knows
-- the last registration.

namespace Vassal

namespace SignalRegistry

variable {η : Type} (r : SignalRegistry η) (d : SignalDescription η)

theorem size_push : (r.push d).size = r.size + 1 := by
  simp [size, push]

theorem get?_push (number : SignalNumber) :
    (r.push d).get? number =
      (r.get? number).or (if d.number = number then some d else none) := by
  by_cases hnumber : d.number = number <;> simp [get?, push, hnumber]

theorem get?_push_of_ne {number : SignalNumber} (hnumber : number ≠ d.number) :
    (r.push d).get? number = r.get? number := by
  rw [get?_push, if_neg hnumber.symm, Option.or_none]

theorem get?_push_self_iff :
    (r.push d).get? d.number = some d ↔ ∀ first, r.get? d.number = some first → first = d := by
  rw [get?_push, if_pos rfl]
  cases r.get? d.number <;> simp

end SignalRegistry

namespace Attached

variable {σ η α : Type} {a : Attempt σ α} {p : Attached σ η} {server : σ}

theorem call_of_ok {x : α} (h : a p.server = .ok x server) :
    call a p = .ok x { p with server } := by
  simp only [call, h]

theorem call_of_error {e : Error} (h : a p.server = .error e server) :
    call a p = .error e { p with server } := by
  simp only [call, h]

end Attached

-- A call that registers a handler.
structure Registration (η : Type) where
  number : SignalNumber
  target : Option SignalTarget := none
  handler : η

namespace Registration

open Attached

variable {σ η : Type} [Server σ η]

-- What there is to know of the signal once the call is taken. Without a target it goes to the first
-- worker.
def description (r : Registration η) : SignalDescription η :=
  { number := r.number, target := r.target.getD .worker, handler := r.handler }

-- The same call as the server sees it.
def request (r : Registration η) : Attempt σ Unit :=
  Server.registerSignal r.number r.description.target.render r.handler

def run (r : Registration η) : Attempt (Attached σ η) Unit :=
  register r.number r.target r.handler

-- A process after some calls, taken or not.
def runAll (calls : List (Registration η)) (p : Attached σ η) : Attached σ η :=
  calls.foldl (fun p r => Attempt.left r.run p) p

-- What a server has taken of some calls.
def taken : List (Registration η) → σ → List (SignalDescription η)
  | [], _ => []
  | r :: rest, server =>
    match r.request server with
    | .ok _ server => r.description :: taken rest server
    | .error _ server => taken rest server

theorem run_of_taken {r : Registration η} {p : Attached σ η} {server : σ}
    (h : r.request p.server = .ok () server) :
    r.run p = .ok () { server, handlers := p.handlers.push r.description } := by
  have hcall : call r.request p = .ok () { p with server } := call_of_ok h
  exact Attempt.bind_of_ok hcall

theorem run_of_refused {r : Registration η} {p : Attached σ η} {e : Error} {server : σ}
    (h : r.request p.server = .error e server) : r.run p = .error e { p with server } := by
  have hcall : call r.request p = .error e { p with server } := call_of_error h
  exact Attempt.bind_of_error hcall

theorem exists_of_run {r : Registration η} {p q : Attached σ η} (h : r.run p = .ok () q) :
    ∃ server, r.request p.server = .ok () server ∧
      q = { server, handlers := p.handlers.push r.description } := by
  cases hrequest : r.request p.server with
  | ok _ server =>
    rw [run_of_taken hrequest] at h
    cases h
    exact ⟨server, rfl, rfl⟩
  | error e server =>
    rw [run_of_refused hrequest] at h
    cases h

-- The handlers of a process are those it began with and, in order, those that the server has taken.
theorem signals_runAll (calls : List (Registration η)) (p : Attached σ η) :
    (runAll calls p).handlers.signals = p.handlers.signals ++ taken calls p.server := by
  induction calls generalizing p with
  | nil => exact (List.append_nil _).symm
  | cons r rest ih =>
    rw [runAll, List.foldl_cons, ← runAll, ih, taken, Attempt.left]
    cases h : r.request p.server with
    | ok x server => simp [run_of_taken h, SignalRegistry.push]
    | error e server => rw [run_of_refused h]

-- One more call after any history. If the server takes it, the process has one more description,
-- and all other signals are described as before; the signal itself is described as the call says
-- unless the server had taken something else for it at first. A call that is refused leaves all
-- descriptions alone.
theorem described_iff_taken_first (calls : List (Registration η)) (server : σ)
    (r : Registration η) :
    let p : Attached σ η := runAll calls { server }
    (∀ server', r.request p.server = .ok () server' →
      ∃ q : Attached σ η, r.run p = .ok () q ∧ q.server = server' ∧
        q.handlers.size = p.handlers.size + 1 ∧
        (∀ number ≠ r.number, q.handlers.get? number = p.handlers.get? number) ∧
        (q.handlers.get? r.number = some r.description ↔
          ∀ first, (taken calls server).find? (·.number == r.number) = some first →
            first = r.description)) ∧
    ∀ e server', r.request p.server = .error e server' →
      r.run p = .error e { p with server := server' } := by
  intro p
  refine ⟨fun server' htaken => ?_, fun e server' hrefused => run_of_refused hrefused⟩
  have hsignals : p.handlers.signals = taken calls server := signals_runAll calls { server }
  refine ⟨_, run_of_taken htaken, rfl, p.handlers.size_push _,
    fun number hnumber => p.handlers.get?_push_of_ne _ hnumber, ?_⟩
  rw [← hsignals]
  exact p.handlers.get?_push_self_iff r.description

-- The last call says once more what the first one has said.
theorem described_when_repeated :
    let calls : List (Registration Nat) :=
      [{ number := 5, handler := 1 }, { number := 6, target := some .mules, handler := 2 }]
    let r : Registration Nat := { number := 5, target := some .worker, handler := 1 }
    let p : Attached (Server.Memory Nat) Nat := runAll calls { server := {} }
    ∃ server' q, r.request p.server = .ok () server' ∧ r.run p = .ok () q ∧ q.handlers.size = 3 ∧
      q.handlers.get? 5 = some r.description := by
  intro calls r p
  obtain ⟨server', htaken⟩ : ∃ server', r.request p.server = .ok () server' := ⟨_, rfl⟩
  obtain ⟨q, hrun, -, hsize, -, hself⟩ :=
    (described_iff_taken_first calls ({} : Server.Memory Nat) r).1 server' htaken
  refine ⟨server', q, htaken, hrun, hsize, hself.mpr ?_⟩
  decide +kernel

-- The server knows the mules and the second handler, the process the first worker and the first
-- handler.
theorem described_by_replaced_handler :
    let first : Registration Nat := { number := 5, handler := 1 }
    let r : Registration Nat := { number := 5, target := some .mules, handler := 2 }
    let p : Attached (Server.Memory Nat) Nat := runAll [first] { server := {} }
    ∃ q, r.run p = .ok () q ∧ q.handlers.get? 5 = some first.description ∧
      first.description ≠ r.description :=
  ⟨_, rfl, rfl, by decide⟩

end Registration

end Vassal
