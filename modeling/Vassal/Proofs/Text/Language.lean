import Mathlib.Data.List.Forall2
import Vassal.Proofs.Text.Reader

-- What readers accept, whatever they are given.
--
-- A language says of texts what they stand for. A reader is within a language if all that it ever
-- takes off the front of a text belongs there, with what the reader makes of it.

namespace Vassal.Text.Reader

variable {τ α β : Type}

def Within (r : Reader τ α) (L : List τ → α → Prop) : Prop :=
  ∀ ⦃us a rest⦄, r us = some (a, rest) → ∃ taken, us = taken ++ rest ∧ L taken a

section Lists

variable {γ : Type} {A : α → γ → Prop} {B : γ → β → Prop}

theorem exists_forall₂_between {as : List α} {bs : List β}
    (h : List.Forall₂ (fun a b => ∃ c, A a c ∧ B c b) as bs) :
    ∃ cs, List.Forall₂ A as cs ∧ List.Forall₂ B cs bs := by
  induction h with
  | nil => exact ⟨[], .nil, .nil⟩
  | cons hboth _ ih =>
    obtain ⟨c, hA, hB⟩ := hboth
    obtain ⟨cs, hAs, hBs⟩ := ih
    exact ⟨c :: cs, .cons hA hAs, .cons hB hBs⟩

theorem forall_of_forall₂ {P : α → Prop} {as : List α} {bs : List β}
    (h : List.Forall₂ (fun a _ => P a) as bs) : ∀ a ∈ as, P a :=
  ((List.forall₂_and_left (R := fun _ _ => True) as bs).mp (h.imp fun _ _ ha => ⟨ha, trivial⟩)).1

end Lists

section Rules

variable {r r' : Reader τ α} {K : List τ → α → Prop} {L : List τ → β → Prop}

theorem Within.mono {L : List τ → α → Prop} (h : Within r K) (hsub : ∀ us a, K us a → L us a) :
    Within r L := by
  intro us a rest hread
  obtain ⟨taken, htaken, hK⟩ := h hread
  exact ⟨taken, htaken, hsub _ _ hK⟩

theorem within_pure {a : α} (h : K [] a) : Within (pure a) K := by
  intro us b rest hread
  cases hread
  exact ⟨[], rfl, h⟩

theorem within_failure : Within (failure : Reader τ α) K := by
  intro us a rest hread
  cases hread

-- What the second reader takes is told apart by what came before it.
theorem Within.bind {f : α → Reader τ β} (h : Within r K)
    (hf : ∀ a first, K first a → Within (f a) fun second b => L (first ++ second) b) :
    Within (r >>= f) L := by
  intro us b rest hread
  cases hfirst : r us with
  | none => simp [bind_of_none hfirst] at hread
  | some read =>
    obtain ⟨a, mid⟩ := read
    rw [bind_of_some hfirst] at hread
    obtain ⟨first, rfl, hK⟩ := h hfirst
    obtain ⟨second, rfl, hL⟩ := hf a first hK hread
    exact ⟨first ++ second, (List.append_assoc _ _ _).symm, hL⟩

theorem Within.return {f : α → β} (h : Within r K) (hsub : ∀ us a, K us a → L us (f a)) :
    Within (r >>= fun a => pure (f a)) L :=
  h.bind fun _ _ hfirst => within_pure (by simpa using hsub _ _ hfirst)

theorem Within.map {f : α → β} (h : Within r K) (hsub : ∀ us a, K us a → L us (f a)) :
    Within (f <$> r) L := by
  intro us b rest hread
  cases hfirst : r us with
  | none => simp [map_of_none f hfirst] at hread
  | some read =>
    obtain ⟨a, mid⟩ := read
    rw [map_of_some f hfirst] at hread
    cases hread
    obtain ⟨taken, htaken, hK⟩ := h hfirst
    exact ⟨taken, htaken, hsub _ _ hK⟩

theorem Within.discard {L : List τ → Prop} (h : Within r K) (hsub : ∀ us a, K us a → L us) :
    Within (discard r) fun us _ => L us :=
  h.map hsub

theorem Within.orElse (h : Within r K) (h' : Within r' K) : Within (r <|> r') K := by
  intro us a rest hread
  cases hfirst : r us with
  | none =>
    rw [orElse_of_none hfirst] at hread
    exact h' hread
  | some read =>
    rw [orElse_of_some hfirst] at hread
    exact h (hfirst.trans hread)

theorem Within.optional {L : List τ → Option α → Prop} (h : Within r K) (hnone : L [] none)
    (hsome : ∀ us a, K us a → L us (some a)) : Within (optional r) L :=
  (h.map hsome).orElse (within_pure hnone)

theorem Within.manyFrom (h : Within r K) (us : List τ) :
    ∃ parts, us = parts.flatten ++ (manyFrom r us).2 ∧ List.Forall₂ K parts (manyFrom r us).1 := by
  fun_induction Reader.manyFrom r us with
  | case1 us a rest hread hlt as last hmore ih =>
    obtain ⟨part, rfl, hpart⟩ := h hread
    obtain ⟨parts, hrest, hparts⟩ := ih
    rw [hmore] at hrest hparts
    refine ⟨part :: parts, ?_, .cons hpart hparts⟩
    rw [List.flatten_cons, List.append_assoc, ← hrest]
  | case2 | case3 => exact ⟨[], rfl, .nil⟩

theorem Within.many (h : Within r K) :
    Within (many r) fun us as => ∃ parts, us = parts.flatten ∧ List.Forall₂ K parts as := by
  intro us as rest hread
  obtain ⟨parts, hus, hparts⟩ := h.manyFrom us
  rw [Option.some.inj hread] at hus hparts
  exact ⟨parts.flatten, hus, parts, rfl, hparts⟩

end Rules

section Units

theorem within_one (p : τ → Bool) : Within (one p) fun us u => us = [u] ∧ p u = true := by
  intro us u rest hread
  cases us with
  | nil => cases hread
  | cons v more =>
    by_cases hv : p v
    · cases (if_pos hv).symm.trans hread
      exact ⟨[u], rfl, rfl, hv⟩
    · cases (if_neg hv).symm.trans hread

theorem within_word [BEq τ] [LawfulBEq τ] (ws : List τ) : Within (word ws) fun us _ => us = ws := by
  induction ws with
  | nil => exact within_pure rfl
  | cons w more ih =>
    have hunit : Within (unit w) fun us _ => us = [w] := by
      refine (within_one _).discard fun us u hu => ?_
      rw [hu.1, eq_of_beq hu.2]
    refine hunit.bind fun _ first hfirst => ih.mono fun us _ hus => ?_
    rw [hfirst, hus]
    rfl

end Units

section Separators

-- Parts with a separator between any two.
inductive Spaced (S : List τ → Prop) : List (List τ) → List τ → Prop
  | one (part : List τ) : Spaced S [part] part
  | more {part separator rest : List τ} {parts : List (List τ)} (hseparator : S separator)
      (h : Spaced S parts rest) : Spaced S (part :: parts) (part ++ (separator ++ rest))

variable {r : Reader τ α} {separator : Reader τ Unit} {K : List τ → α → Prop} {S : List τ → Prop}

theorem spaced_of_forall₂ {pieces : List (List τ)} {as : List α}
    (h : List.Forall₂ (fun us a => ∃ before part, us = before ++ part ∧ S before ∧ K part a)
      pieces as) (first : List τ) :
    ∃ parts, Spaced S (first :: parts) (first ++ pieces.flatten) ∧ List.Forall₂ K parts as := by
  induction h generalizing first with
  | nil =>
    refine ⟨[], ?_, .nil⟩
    rw [List.flatten_nil, List.append_nil]
    exact .one first
  | cons hpiece _ ih =>
    obtain ⟨before, part, rfl, hbefore, hpart⟩ := hpiece
    obtain ⟨parts, hspaced, hparts⟩ := ih part
    refine ⟨part :: parts, ?_, .cons hpart hparts⟩
    rw [List.flatten_cons, List.append_assoc]
    exact .more hbefore hspaced

theorem Within.separated (h : Within r K) (hseparator : Within separator fun us _ => S us) :
    Within (separated r separator) fun us as =>
      ∃ parts, Spaced S parts us ∧ List.Forall₂ K parts as := by
  have hnext : Within (do separator; r) fun us a =>
      ∃ before part, us = before ++ part ∧ S before ∧ K part a :=
    hseparator.bind fun _ before hbefore =>
      h.mono fun part _ hpart => ⟨before, part, rfl, hbefore, hpart⟩
  refine h.bind fun a first hfirst => hnext.many.bind fun as others hothers => within_pure ?_
  obtain ⟨pieces, rfl, hpieces⟩ := hothers
  obtain ⟨parts, hspaced, hparts⟩ := spaced_of_forall₂ hpieces first
  rw [List.append_nil]
  exact ⟨first :: parts, hspaced, .cons hfirst hparts⟩

end Separators

end Vassal.Text.Reader
