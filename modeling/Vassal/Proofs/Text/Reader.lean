import Vassal.Text.Reader
import Vassal.Text.Utf8

-- Readers run on what was written: what they take off the front, and what they refuse.

namespace Vassal.Text

namespace Reader

variable {τ α β : Type} {r r' : Reader τ α} {us rest : List τ} {a : α}

section Steps

theorem bind_of_some {f : α → Reader τ β} (h : r us = some (a, rest)) : (r >>= f) us = f a rest := by
  simp only [bind, StateT.bind, h, Option.bind]

theorem bind_of_none {f : α → Reader τ β} (h : r us = none) : (r >>= f) us = none := by
  simp only [bind, StateT.bind, h, Option.bind]

theorem map_of_some (f : α → β) (h : r us = some (a, rest)) : (f <$> r) us = some (f a, rest) := by
  simp only [Functor.map, StateT.map, h, bind, Option.bind, pure]

theorem map_of_none (f : α → β) (h : r us = none) : (f <$> r) us = none := by
  simp only [Functor.map, StateT.map, h, bind, Option.bind]

theorem discard_of_some (h : r us = some (a, rest)) : discard r us = some ((), rest) :=
  map_of_some _ h

theorem discard_of_none (h : r us = none) : discard r us = none :=
  map_of_none _ h

theorem orElse_of_some (h : r us = some (a, rest)) : (r <|> r') us = some (a, rest) := by
  change (r us <|> r' us) = _
  rw [h]
  rfl

theorem orElse_of_none (h : r us = none) : (r <|> r') us = r' us := by
  change (r us <|> r' us) = _
  rw [h]
  rfl

theorem optional_of_some (h : r us = some (a, rest)) : optional r us = some (some a, rest) :=
  orElse_of_some (map_of_some some h)

theorem optional_of_none (h : r us = none) : optional r us = some (none, us) :=
  orElse_of_none (map_of_none some h)

end Steps

section Words

variable [BEq τ] [LawfulBEq τ] {u v : τ}

theorem unit_self (u : τ) (rest : List τ) : unit u (u :: rest) = some ((), rest) :=
  discard_of_some (if_pos (beq_self_eq_true u))

theorem unit_of_ne (h : v ≠ u) (rest : List τ) : unit u (v :: rest) = none :=
  discard_of_none (if_neg (by simpa using h))

theorem word_self (ws rest : List τ) : word ws (ws ++ rest) = some ((), rest) := by
  induction ws with
  | nil => rfl
  | cons w more ih => exact (bind_of_some (unit_self w _)).trans ih

theorem word_of_ne (h : v ≠ u) (ws rest : List τ) : word (u :: ws) (v :: rest) = none :=
  bind_of_none (unit_of_ne h rest)

end Words

section Many

theorem manyFrom_of_none (h : r us = none) : manyFrom r us = ([], us) := by
  rw [manyFrom, h]

theorem manyFrom_of_some (h : r us = some (a, rest)) (hlt : rest.length < us.length) :
    manyFrom r us = (a :: (manyFrom r rest).1, (manyFrom r rest).2) := by
  rw [manyFrom, h]
  simp only [hlt, if_true]

-- Reading over and over what was written piece by piece, up to a rest that cannot be read. `Next`
-- says what may follow a piece: another one, or that rest.
theorem manyFrom_flatMap {w : α → List τ} {as : List α} (Next : List τ → Prop)
    (hne : ∀ a ∈ as, w a ≠ []) (hnext : ∀ a ∈ as, ∀ rest, Next (w a ++ rest))
    (hread : ∀ a ∈ as, ∀ rest, Next rest → r (w a ++ rest) = some (a, rest))
    (hrest : Next rest) (hstop : r rest = none) :
    manyFrom r (as.flatMap w ++ rest) = (as, rest) := by
  induction as with
  | nil => exact manyFrom_of_none hstop
  | cons a more ih =>
    rw [List.forall_mem_cons] at hne hnext hread
    have hmore : Next (more.flatMap w ++ rest) := by
      cases more with
      | nil => exact hrest
      | cons b others =>
        rw [List.flatMap_cons, List.append_assoc]
        exact hnext.2 b List.mem_cons_self _
    have hlt : (more.flatMap w ++ rest).length < (w a ++ (more.flatMap w ++ rest)).length := by
      have hpos := List.length_pos_iff.mpr hne.1
      simp only [List.length_append] at hpos ⊢
      omega
    rw [List.flatMap_cons, List.append_assoc, manyFrom_of_some (hread.1 _ hmore) hlt,
      ih hne.2 hnext.2 hread.2]

end Many

end Reader

-- The pieces that a text is made of.
def spelled (s : String) : List Piece :=
  s.toList.map .char

theorem spelled_append (s t : String) : spelled (s ++ t) = spelled s ++ spelled t := by
  rw [spelled, String.toList_append, List.map_append]
  rfl

namespace Utf8

theorem decode?_toUTF8 (s : String) : decode? s.toUTF8 = some s :=
  dif_pos s.isValidUTF8

theorem pieces_toUTF8 (s : String) : pieces s.toUTF8 = spelled s := by
  rw [pieces, decode?_toUTF8]
  rfl

-- A text stays as it is when its bytes are read as far as they can be.
theorem lossy_toUTF8 (s : String) : lossy s.toUTF8 = s := by
  rw [lossy, pieces_toUTF8, spelled, List.map_map]
  exact (congrArg String.ofList (List.map_id _)).trans String.ofList_toList

end Utf8

end Vassal.Text
