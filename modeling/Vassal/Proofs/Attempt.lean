import Mathlib.Logic.Relation
import Vassal.Error

-- Attempts one after the other, and the states that they leave behind.
--
-- The first error ends a sequence of attempts. What had been done by then stays done, so an attempt
-- is followed by its steps, whether it succeeds or not.

namespace Vassal

namespace Attempt

variable {σ α β : Type}

section Bind

variable {x : Attempt σ α} {f : α → Attempt σ β} {s t : σ}

theorem bind_of_ok {a : α} (hx : x s = .ok a t) : (x >>= f) s = f a t := by
  simp only [bind, EStateM.bind, hx]

theorem bind_of_error {e : Error} (hx : x s = .error e t) : (x >>= f) s = .error e t := by
  simp only [bind, EStateM.bind, hx]

-- A sequence succeeds only if both of its attempts do.
theorem exists_of_bind_ok {b : β} (h : (x >>= f) s = .ok b t) :
    ∃ a m, x s = .ok a m ∧ f a m = .ok b t := by
  cases hx : x s with
  | ok a m =>
    rw [bind_of_ok hx] at h
    exact ⟨a, m, rfl, h⟩
  | error e m =>
    rw [bind_of_error hx] at h
    cases h

end Bind

-- The state that an attempt ends in, if it succeeds.
def outcome (x : Attempt σ Unit) (s : σ) : Except Error σ :=
  match x s with
  | .ok _ t => .ok t
  | .error e _ => .error e

theorem outcome_eq_ok_iff {x : Attempt σ Unit} {s t : σ} :
    x.outcome s = .ok t ↔ x s = .ok () t := by
  unfold outcome
  cases x s <;> simp

variable {r : σ → σ → Prop}

-- The state an attempt leaves behind.
def left (x : Attempt σ α) (s : σ) : σ :=
  match x s with
  | .ok _ s => s
  | .error _ s => s

-- Whatever an attempt does, it does in steps of `r`.
def Along (r : σ → σ → Prop) (x : Attempt σ α) : Prop :=
  ∀ s, Relation.ReflTransGen r s (left x s)

theorem along_pure (a : α) : Along r (pure a : Attempt σ α) :=
  fun _ => .refl

theorem along_throw (e : Error) : Along r (throw e : Attempt σ α) :=
  fun _ => .refl

theorem along_modify {f : σ → σ} (hf : ∀ s, Relation.ReflTransGen r s (f s)) :
    Along r (modify f : Attempt σ Unit) :=
  hf

theorem along_bind {x : Attempt σ α} {f : α → Attempt σ β} (hx : Along r x)
    (hf : ∀ a, Along r (f a)) : Along r (x >>= f) := by
  intro s
  have hs := hx s
  unfold left at hs ⊢
  cases hrun : x s with
  | ok a t =>
    rw [hrun] at hs
    rw [bind_of_ok hrun]
    exact hs.trans (hf a t)
  | error e t =>
    rw [hrun] at hs
    rw [bind_of_error hrun]
    exact hs

theorem along_discard {x : Attempt σ α} (hx : Along r x) : Along r (discard x) := by
  intro s
  have hs := hx s
  unfold left at hs ⊢
  simp only [discard, Functor.discard, Functor.mapConst, Function.comp, EStateM.map]
  cases hrun : x s with
  | ok a t => simpa [hrun] using hs
  | error e t => simpa [hrun] using hs

theorem along_forM {entries : List α} {f : α → Attempt σ Unit} (hf : ∀ a ∈ entries, Along r (f a)) :
    Along r (entries.forM f) := by
  induction entries with
  | nil => exact along_pure ()
  | cons a rest ih =>
    rw [List.forall_mem_cons] at hf
    exact along_bind hf.1 fun _ => ih hf.2

theorem forM_congr {entries : List α} {f g : α → Attempt σ Unit} (h : ∀ a ∈ entries, f a = g a) :
    entries.forM f = entries.forM g := by
  induction entries with
  | nil => rfl
  | cons a rest ih =>
    rw [List.forall_mem_cons] at h
    show (f a >>= fun _ => rest.forM f) = (g a >>= fun _ => rest.forM g)
    rw [h.1, ih h.2]

theorem forM_toList (given : Option α) (f : α → Attempt σ Unit) :
    given.toList.forM f = match given with
      | some a => f a
      | none => pure () := by
  cases given with
  | some a => exact bind_pure (f a)
  | none => rfl

-- A run over a list succeeds only if it does so for each element, in the state it has come to.
theorem exists_of_forM_ok {entries : List α} {f : α → Attempt σ Unit} {s t : σ}
    (h : entries.forM f s = .ok () t) : ∀ a ∈ entries, ∃ m m', f a m = .ok () m' := by
  induction entries generalizing s with
  | nil => exact fun _ ha => nomatch ha
  | cons first rest ih =>
    obtain ⟨_, m, hfirst, hrest⟩ := exists_of_bind_ok h
    exact List.forall_mem_cons.mpr ⟨⟨s, m, hfirst⟩, ih hrest⟩

theorem Along.mono {x : Attempt σ α} {r' : σ → σ → Prop} (hx : Along r x)
    (h : ∀ s t, r s t → r' s t) : Along r' x :=
  fun s => Relation.ReflTransGen.mono h _ _ (hx s)

end Attempt

end Vassal
