import Mathlib.Data.List.FinRange
import Vassal.Proofs.Server.Signal

-- Signals handed out one after the other.
--
-- The free numbers of a server are a list in ascending order, and handing out a signal takes the
-- head off that list. Which numbers come, and how many there will be, is read off the list that was
-- there at the beginning.

namespace Vassal

namespace Server

variable {σ η : Type} [Server σ η]

-- Of the numbers one more counts as registered after the server has taken a registration, and no
-- other.
def TracksSignals (σ : Type) {η : Type} [Server σ η] : Prop :=
  ∀ (s s' : σ) (number : SignalNumber) (target : String) (handler : η),
    registerSignal number target handler s = .ok () s' →
      ∀ other, isRegistered s' other = (other == number || isRegistered s other)

-- In these states, and in all that registrations lead to, the server takes every number that is
-- free.
def Accepting (P : σ → Prop) : Prop :=
  ∀ (s : σ) (number : SignalNumber) (target : String) (handler : η),
    P s → isRegistered s number = false →
      ∃ s', registerSignal number target handler s = .ok () s' ∧ P s'

def freeNumbers (s : σ) : List SignalNumber :=
  (List.finRange 256).filter (!isRegistered s ·)

-- How many signals are registered.
def inUse (s : σ) : Nat :=
  ((List.finRange 256).filter (isRegistered s)).length

-- The number is free, and all others that are free come after it.
def FirstFree (s : σ) (number : SignalNumber) : Prop :=
  isRegistered s number = false ∧
    ∀ other, isRegistered s other = false → other ≠ number → number < other

section Free

variable {s : σ} {number : SignalNumber} {rest : List SignalNumber}

theorem mem_freeNumbers : number ∈ freeNumbers s ↔ isRegistered s number = false := by
  simp [freeNumbers]

theorem pairwise_freeNumbers (s : σ) : (freeNumbers s).Pairwise (· < ·) :=
  (List.pairwise_lt_finRange 256).filter _

theorem length_freeNumbers (s : σ) : inUse s + (freeNumbers s).length = 256 := by
  rw [inUse, freeNumbers, ← List.length_eq_length_filter_add, List.length_finRange]

theorem inUse_of_forall (h : ∀ number, isRegistered s number = true) : inUse s = 256 := by
  have hnone : freeNumbers s = [] := List.filter_eq_nil_iff.mpr fun number _ => by simp [h number]
  have hlength := length_freeNumbers s
  rwa [hnone] at hlength

theorem firstFree_of_cons (h : freeNumbers s = number :: rest) : FirstFree s number := by
  have hascending := pairwise_freeNumbers s
  rw [h, List.pairwise_cons] at hascending
  refine ⟨mem_freeNumbers.mp (h ▸ List.mem_cons_self), fun other hother hne => ?_⟩
  rw [← mem_freeNumbers, h] at hother
  exact hascending.1 other ((List.mem_cons.mp hother).resolve_left hne)

theorem availableNumber?_eq (s : σ) : availableNumber? s = (freeNumbers s).head? :=
  List.head?_filter.symm

theorem availableNumber_of_cons (h : freeNumbers s = number :: rest) :
    availableNumber s = .ok number s := by
  have hget : (get : Attempt σ σ) s = .ok s s := rfl
  rw [availableNumber, Attempt.bind_of_ok hget, availableNumber?_eq, h]
  rfl

theorem availableNumber_of_nil (h : freeNumbers s = []) :
    availableNumber s = .error .noSignalsAvailable s := by
  have hget : (get : Attempt σ σ) s = .ok s s := rfl
  rw [availableNumber, Attempt.bind_of_ok hget, availableNumber?_eq, h]
  rfl

-- What becomes of the free numbers when the first of them is registered.
theorem TracksSignals.freeNumbers_of_registered (htracks : TracksSignals σ) {s' : σ}
    {target : String} {handler : η} (hfree : freeNumbers s = number :: rest)
    (h : registerSignal number target handler s = .ok () s') : freeNumbers s' = rest := by
  have hascending := pairwise_freeNumbers s
  rw [hfree, List.pairwise_cons] at hascending
  have hwithout : freeNumbers s' = (freeNumbers s).filter (· != number) := by
    rw [freeNumbers, freeNumbers, List.filter_filter]
    refine List.filter_congr fun other _ => ?_
    rw [htracks s s' number target handler h other, Bool.not_or]
    rfl
  rw [hwithout, hfree, List.filter_cons_of_neg (by simp), List.filter_eq_self]
  exact fun other hother => by simpa using (hascending.1 other hother).ne'

end Free

end Server

namespace Attached

open Server

variable {σ η : Type} [Server σ η]

-- Take the first number that is free and register a handler for it.
def allocate (target : Option SignalTarget) (handler : η) :
    Attempt (Attached σ η) SignalNumber := do
  let number ← call availableNumber
  register number target handler
  return number

def allocateAll : List (Option SignalTarget × η) → Attempt (Attached σ η) (List SignalNumber)
  | [] => return []
  | (target, handler) :: rest => do
    let number ← allocate target handler
    return number :: (← allocateAll rest)

section Step

variable {p : Attached σ η} {number : SignalNumber} {rest : List SignalNumber}

theorem allocate_of_nil (h : freeNumbers p.server = []) (target : Option SignalTarget)
    (handler : η) : allocate target handler p = .error .noSignalsAvailable p := by
  have hnone : call availableNumber p = .error .noSignalsAvailable p :=
    call_of_error (availableNumber_of_nil h)
  exact Attempt.bind_of_error hnone

theorem allocate_of_cons (h : freeNumbers p.server = number :: rest)
    (target : Option SignalTarget) (handler : η) :
    allocate target handler p = (do register number target handler; return number) p := by
  have hsome : call availableNumber p = .ok number p := call_of_ok (availableNumber_of_cons h)
  exact Attempt.bind_of_ok hsome

variable {q : Attached σ η} {target : Option SignalTarget} {handler : η}

-- What is handed out comes off the head of the free numbers.
theorem freeNumbers_of_allocate (htracks : TracksSignals σ)
    (h : allocate target handler p = .ok number q) :
    freeNumbers p.server = number :: freeNumbers q.server := by
  cases hfree : freeNumbers p.server with
  | nil =>
    rw [allocate_of_nil hfree] at h
    cases h
  | cons first rest =>
    rw [allocate_of_cons hfree] at h
    obtain ⟨_, _, hrun, hpure⟩ := Attempt.exists_of_bind_ok h
    cases hpure
    obtain ⟨server, htaken, rfl⟩ := Registration.exists_of_run (r := ⟨number, target, handler⟩) hrun
    rw [htracks.freeNumbers_of_registered hfree htaken]

end Step

section Run

variable {p q : Attached σ η} {requests : List (Option SignalTarget × η)}
  {numbers : List SignalNumber}

theorem exists_of_allocateAll_cons {target : Option SignalTarget} {handler : η}
    (h : allocateAll ((target, handler) :: requests) p = .ok numbers q) :
    ∃ number rest m, allocate target handler p = .ok number m ∧
      allocateAll requests m = .ok rest q ∧ numbers = number :: rest := by
  obtain ⟨number, m, hfirst, hbind⟩ := Attempt.exists_of_bind_ok h
  obtain ⟨rest, m', hrest, hpure⟩ := Attempt.exists_of_bind_ok hbind
  cases hpure
  exact ⟨number, rest, m, hfirst, hrest, rfl⟩

theorem allocateAll_cons_of_ok {target : Option SignalTarget} {handler : η} {number : SignalNumber}
    {rest : List SignalNumber} {m : Attached σ η}
    (hfirst : allocate target handler p = .ok number m)
    (hrest : allocateAll requests m = .ok rest q) :
    allocateAll ((target, handler) :: requests) p = .ok (number :: rest) q := by
  rw [allocateAll, Attempt.bind_of_ok hfirst, Attempt.bind_of_ok hrest]
  rfl

-- What a run hands out is the beginning of the list of free numbers, and the rest of it stays free.
theorem freeNumbers_of_allocateAll (htracks : TracksSignals σ)
    (h : allocateAll requests p = .ok numbers q) :
    freeNumbers p.server = numbers ++ freeNumbers q.server ∧ numbers.length = requests.length := by
  induction requests generalizing p numbers with
  | nil =>
    cases h
    exact ⟨rfl, rfl⟩
  | cons request requests ih =>
    obtain ⟨number, rest, m, hfirst, hrest, rfl⟩ := exists_of_allocateAll_cons h
    have htail := ih hrest
    rw [freeNumbers_of_allocate htracks hfirst, htail.1]
    exact ⟨rfl, congrArg (· + 1) htail.2⟩

-- Every number of a run was handed out by the step that asked for it.
theorem allocateAll_take (h : allocateAll requests p = .ok numbers q) (i : Nat) :
    ∃ m, allocateAll (requests.take i) p = .ok (numbers.take i) m ∧
      allocateAll (requests.drop i) m = .ok (numbers.drop i) q := by
  induction requests generalizing p numbers i with
  | nil =>
    cases h
    rw [List.take_nil, List.take_nil, List.drop_nil, List.drop_nil]
    exact ⟨q, rfl, rfl⟩
  | cons request requests ih =>
    cases i with
    | zero => exact ⟨p, rfl, h⟩
    | succ i =>
      obtain ⟨number, rest, m, hfirst, hrest, rfl⟩ := exists_of_allocateAll_cons h
      obtain ⟨m', htake, hdrop⟩ := ih hrest i
      exact ⟨m', allocateAll_cons_of_ok hfirst htake, hdrop⟩

-- A server that refuses nothing lets a run go on while there are free numbers.
theorem exists_allocateAll (htracks : TracksSignals σ) {P : σ → Prop} (haccepts : Accepting P)
    (hp : P p.server) (hroom : requests.length ≤ (freeNumbers p.server).length) :
    ∃ numbers q, allocateAll requests p = .ok numbers q := by
  induction requests generalizing p with
  | nil => exact ⟨[], p, rfl⟩
  | cons request requests ih =>
    obtain ⟨target, handler⟩ := request
    cases hfree : freeNumbers p.server with
    | nil => simp [hfree] at hroom
    | cons first free =>
      let r : Registration η := { number := first, target, handler }
      obtain ⟨server, htaken, hserver⟩ : ∃ server, r.request p.server = .ok () server ∧ P server :=
        haccepts p.server first _ _ hp (firstFree_of_cons hfree).1
      have hrun : register first target handler p = _ := Registration.run_of_taken htaken
      let m : Attached σ η := { server, handlers := p.handlers.push r.description }
      have hfirst : allocate target handler p = .ok first m := by
        rw [allocate_of_cons hfree, Attempt.bind_of_ok hrun]
        rfl
      have hrest : requests.length ≤ (freeNumbers server).length := by
        rw [htracks.freeNumbers_of_registered hfree htaken]
        simpa [hfree] using hroom
      obtain ⟨numbers, q, hall⟩ := ih (p := m) hserver hrest
      exact ⟨_, q, allocateAll_cons_of_ok hfirst hall⟩

end Run

-- Signals are handed out in ascending order, each of them the first that is free at that time,
-- until all numbers are in use. Then the next attempt fails and changes nothing. As long as a
-- number is free, only the server can stop the run, by refusing a registration.
theorem allocation_exact (htracks : TracksSignals σ) (p : Attached σ η) :
    (∀ requests numbers q, allocateAll requests p = .ok numbers q →
      numbers.length = requests.length ∧ numbers.Pairwise (· < ·) ∧
      (∀ i number, numbers[i]? = some number → ∃ m,
        allocateAll (requests.take i) p = .ok (numbers.take i) m ∧ FirstFree m.server number) ∧
      requests.length ≤ 256 - inUse p.server ∧
      ∀ target handler,
        if requests.length = 256 - inUse p.server then
          allocate target handler q = .error .noSignalsAvailable q
        else ∃ number, FirstFree q.server number ∧
          allocate target handler q = (do register number target handler; return number) q) ∧
    ∀ P : σ → Prop, Accepting P → P p.server →
      ∀ requests : List (Option SignalTarget × η), requests.length ≤ 256 - inUse p.server →
        ∃ numbers q, allocateAll requests p = .ok numbers q := by
  have hroom : (freeNumbers p.server).length = 256 - inUse p.server := by
    have hlength := length_freeNumbers p.server
    omega
  rw [← hroom]
  refine ⟨fun requests numbers q hrun => ?_,
    fun P haccepts hp requests => exists_allocateAll htracks haccepts hp⟩
  obtain ⟨hfree, hlength⟩ := freeNumbers_of_allocateAll htracks hrun
  have hcount : (freeNumbers p.server).length =
      requests.length + (freeNumbers q.server).length := by
    rw [hfree, List.length_append, hlength]
  refine ⟨hlength, ?_, ?_, by omega, ?_⟩
  · have hascending := pairwise_freeNumbers p.server
    rw [hfree] at hascending
    exact (List.pairwise_append.mp hascending).1
  · intro i number hnumber
    obtain ⟨m, htake, hdrop⟩ := allocateAll_take hrun i
    refine ⟨m, htake, ?_⟩
    have hrest := (freeNumbers_of_allocateAll htracks hdrop).1
    rw [List.drop_eq_getElem?_toList_append, hnumber] at hrest
    exact firstFree_of_cons hrest
  · intro target handler
    cases hleft : freeNumbers q.server with
    | nil =>
      rw [if_pos (by simp [hcount, hleft])]
      exact allocate_of_nil hleft target handler
    | cons number rest =>
      rw [if_neg (by simp [hcount, hleft])]
      exact ⟨number, firstFree_of_cons hleft, allocate_of_cons hleft target handler⟩

end Attached

namespace Server.Memory

variable {η : Type}

theorem record_eq (c : Call η) (s : Memory η) :
    record c s = if s.refused.contains c.name then
        .error (.platform (c.name ++ " refused")) { s with calls := s.calls ++ [c] }
      else .ok () { s with calls := s.calls ++ [c] } := by
  show (if s.refused.contains c.name then throw (.platform (c.name ++ " refused")) else pure () :
    Attempt (Memory η) Unit) { s with calls := s.calls ++ [c] } = _
  split <;> rfl

theorem registerSignal_eq (number : SignalNumber) (target : String) (handler : η)
    (s : Memory η) :
    registerSignal number target handler s = (record (.registerSignal number target handler) >>=
      fun _ => modify fun s => { s with registered := number :: s.registered }) s :=
  rfl

theorem tracksSignals : TracksSignals (Memory η) := by
  intro s s' number target handler h other
  rw [registerSignal_eq] at h
  obtain ⟨_, t, hrecord, hmodify⟩ := Attempt.exists_of_bind_ok h
  cases hmodify
  rw [record_eq] at hrecord
  split at hrecord
  · cases hrecord
  · cases hrecord
    exact List.contains_cons

theorem accepting : Accepting fun s : Memory η => s.refused = [] := by
  intro s number target handler hnone _
  have hrecord := record_eq (.registerSignal number target handler) s
  rw [if_neg (by simp [hnone])] at hrecord
  exact ⟨_, (registerSignal_eq number target handler s).trans (Attempt.bind_of_ok hrecord), hnone⟩

theorem inUse_of_forall_mem {registered : List SignalNumber}
    (h : ∀ number, number ∈ registered) : inUse ({ registered } : Memory η) = 256 :=
  inUse_of_forall fun number => List.contains_iff_mem.mpr (h number)

end Server.Memory

namespace Attached

open Server

-- Three numbers are in use at the beginning and are passed by, and there is room for 253 more.
-- Where all are in use, there is no room.
theorem allocation_past_used :
    let p : Attached (Server.Memory Nat) Nat := { server := { registered := [3, 0, 1] } }
    let full : Attached (Server.Memory Nat) Nat := { server := { registered := List.finRange 256 } }
    let requests := [(none, 7), (some .mules, 8), (some (.farmNamed "jobs"), 9)]
    TracksSignals (Server.Memory Nat) ∧
    (∃ q, allocateAll requests p = .ok [2, 4, 5] q ∧
      ∃ m, allocateAll (requests.take 2) p = .ok [2, 4] m ∧ FirstFree m.server 5) ∧
    (∃ numbers q, allocateAll (List.replicate 253 (none, 7)) p = .ok numbers q) ∧
    allocate none 7 full = .error .noSignalsAvailable full := by
  intro p full requests
  obtain ⟨q, hrun⟩ : ∃ q, allocateAll requests p = .ok [2, 4, 5] q := ⟨_, rfl⟩
  obtain ⟨hruns, hroom⟩ := allocation_exact Server.Memory.tracksSignals p
  obtain ⟨-, -, hsteps, -, -⟩ := hruns requests _ q hrun
  have hused : 256 - inUse p.server = 253 := by decide +kernel
  have hfull : inUse full.server = 256 :=
    Server.Memory.inUse_of_forall_mem List.mem_finRange
  have hlong := hroom _ Server.Memory.accepting rfl (List.replicate 253 (none, 7))
    (by rw [hused, List.length_replicate])
  -- The list of all numbers is not to be looked into any more.
  clear_value full
  obtain ⟨-, -, -, -, hnext⟩ :=
    (allocation_exact Server.Memory.tracksSignals full).1 [] _ full rfl
  have hnone := hnext none 7
  rw [if_pos (by rw [hfull, Nat.sub_self, List.length_nil])] at hnone
  exact ⟨Server.Memory.tracksSignals, ⟨q, hrun, hsteps 2 5 rfl⟩, hlong, hnone⟩

end Attached

end Vassal
