import Vassal.Text.Reader

-- Numbers in decimal digits: what they begin with, and that they are read back.

namespace Vassal.Text

theorem head_toDigits_ne_zero {m : Nat} (hm : m ≠ 0) : (Nat.toDigits 10 m).head? ≠ some '0' := by
  induction m using Nat.base_induction 10 (by decide) with
  | single m hlt =>
    rw [Nat.toDigits_of_lt_base hlt, List.head?_cons]
    revert m
    decide
  | digit m k hk hpos ih =>
    obtain ⟨first, more, hcs⟩ := List.exists_cons_of_ne_nil (Nat.toDigits_ne_nil (n := m) (b := 10))
    have hfirst := ih (Nat.ne_of_gt hpos)
    rw [← Nat.toDigits_append_toDigits (by decide) hpos hk, hcs] at *
    exact hfirst

theorem number_toDigits (m : Nat) : number 10 (Nat.toDigits 10 m) = m := by
  have hfold : ∀ (cs : List Char) (n : Nat), (∀ c ∈ cs, c.isDigit = true) →
      cs.foldl (fun n c => n * 10 + digitValue c) n = Nat.ofDigitChars 10 cs n := by
    intro cs
    induction cs with
    | nil => exact fun n _ => Nat.ofDigitChars_nil.symm
    | cons c more ih =>
      intro n hcs
      rw [List.forall_mem_cons] at hcs
      have hvalue : digitValue c = c.toNat - '0'.toNat := if_pos hcs.1
      rw [List.foldl_cons, ih _ hcs.2, Nat.ofDigitChars_cons, hvalue, Nat.mul_comm]
  have hdigits : ∀ c ∈ Nat.toDigits 10 m, c.isDigit = true :=
    fun c hc => Nat.isDigit_of_mem_toDigits (by decide) (by decide) hc
  exact (hfold _ 0 hdigits).trans Nat.ofDigitChars_ten_toDigits

theorem toDigits_begins (m : Nat) :
    ∃ first more, Nat.toDigits 10 m = first :: more ∧ first.isDigit = true := by
  obtain ⟨first, more, hcs⟩ := List.exists_cons_of_ne_nil (Nat.toDigits_ne_nil (n := m) (b := 10))
  exact ⟨first, more, hcs,
    Nat.isDigit_of_mem_toDigits (by decide) (by decide) (hcs ▸ List.mem_cons_self)⟩

-- A natural number is written in digits alone.
theorem toString_begins (n : Nat) :
    ∃ first more, (toString n).toList = first :: more ∧ first.isDigit = true := by
  rw [Nat.toString_eq_repr, Nat.toList_repr]
  exact toDigits_begins n

theorem toString_ne_empty (n : Nat) : toString n ≠ "" := by
  intro hempty
  obtain ⟨first, more, hlist, _⟩ := toString_begins n
  rw [hempty] at hlist
  cases hlist

theorem not_mem_toString {c : Char} (hc : c.isDigit = false) (n : Nat) :
    c ∉ (toString n).toList := by
  rw [Nat.toString_eq_repr, Nat.toList_repr]
  intro hmem
  have hdigit : c.isDigit = true := Nat.isDigit_of_mem_toDigits (by decide) (by decide) hmem
  exact Bool.false_ne_true (hc.symm.trans hdigit)

theorem number_toString (n : Nat) : number 10 (toString n).toList = n := by
  rw [Nat.toString_eq_repr, Nat.toList_repr, number_toDigits]

theorem toString_inj {n m : Nat} (h : toString n = toString m) : n = m := by
  rw [← number_toString n, h, number_toString]

end Vassal.Text
