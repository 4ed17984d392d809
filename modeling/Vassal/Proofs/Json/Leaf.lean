import Vassal.Json.Syntax
import Vassal.Proofs.Text.Digits
import Vassal.Proofs.Text.Reader

-- Texts and integers are read as they were written.

namespace Vassal.Json

open Text Text.Reader

variable {c d : Char} {p : Char → Bool} {us rest : List Piece}

section Marks

theorem symbol_of_true (h : p c = true) (rest : List Piece) :
    symbol p (.char c :: rest) = some (c, rest) :=
  if_pos h

theorem symbol_of_false (h : p c = false) (rest : List Piece) : symbol p (.char c :: rest) = none :=
  if_neg (Bool.eq_false_iff.mp h)

theorem letters_self (cs : List Char) (rest : List Piece) :
    letters cs (cs.map .char ++ rest) = some ((), rest) :=
  word_self _ rest

theorem letters_of_ne (h : d ≠ c) (cs : List Char) (rest : List Piece) :
    letters (c :: cs) (.char d :: rest) = none :=
  word_of_ne (fun heq => h (Piece.char.inj heq)) _ rest

theorem blanks_of_not_blank (h : symbol isBlank us = none) : blanks us = some ((), us) := by
  have hmany : many (symbol isBlank) us = some ([], us) := by
    rw [many, manyFrom_of_none h]
  exact discard_of_some hmany

theorem mark_self (h : isBlank c = false) (rest : List Piece) :
    mark c (.char c :: rest) = some ((), rest) :=
  (bind_of_some (blanks_of_not_blank (symbol_of_false h rest))).trans (letters_self [c] rest)

theorem mark_of_ne (hne : d ≠ c) (h : isBlank d = false) (rest : List Piece) :
    mark c (.char d :: rest) = none :=
  (bind_of_some (blanks_of_not_blank (symbol_of_false h rest))).trans (letters_of_ne hne [] rest)

end Marks

section Strings

-- So many characters of a class, one by one.
theorem mapM_symbol (units : List Unit) {cs : List Char} (hlength : units.length = cs.length)
    (hcs : ∀ c ∈ cs, p c = true) (rest : List Piece) :
    (units.mapM fun _ => symbol p) (cs.map .char ++ rest) = some (cs, rest) := by
  induction units generalizing cs with
  | nil =>
    obtain rfl := List.eq_nil_of_length_eq_zero hlength.symm
    rfl
  | cons u more ih =>
    obtain ⟨c, cs, rfl⟩ := List.exists_cons_of_length_eq_add_one hlength.symm
    rw [List.forall_mem_cons] at hcs
    have hmore := ih (Nat.succ.inj hlength) hcs.2
    rw [List.mapM_cons]
    exact (bind_of_some (symbol_of_true hcs.1 _)).trans (bind_of_some hmore)

theorem codeUnit_of_hexDigits {cs : List Char} (hlength : cs.length = 4)
    (hcs : ∀ c ∈ cs, isHexDigit c = true) (rest : List Piece) :
    codeUnit (cs.map .char ++ rest) = some (number 16 cs, rest) :=
  bind_of_some (mapM_symbol [(), (), (), ()] hlength.symm hcs rest)

-- The control characters without a letter of their own are spelled out by their numbers.
theorem hexDigits_control : ∀ n : Fin 0x20,
    (hexDigits 4 n).length = 4 ∧ (hexDigits 4 n).all isHexDigit = true ∧
      number 16 (hexDigits 4 n) = n ∧ isSurrogate n = false := by
  decide

theorem escaped_control (h : c.toNat < 0x20) (rest : List Piece) :
    escaped (('\\' :: 'u' :: hexDigits 4 c.toNat).map .char ++ rest) = some (c, rest) := by
  obtain ⟨hlength, hdigits, hnumber, hsurrogate⟩ := hexDigits_control ⟨c.toNat, h⟩
  have hsign : escapeSign (('\\' :: 'u' :: hexDigits 4 c.toNat).map .char ++ rest) =
      some ('u', (hexDigits 4 c.toNat).map .char ++ rest) := rfl
  have hunit := codeUnit_of_hexDigits hlength (List.all_eq_true.mp hdigits) rest
  rw [hnumber] at hunit
  rw [escaped, bind_of_some hsign]
  refine (bind_of_some hunit).trans ?_
  simp only [hsurrogate, Bool.false_eq_true, if_false, Char.ofNat_toNat]
  rfl

-- A character is read back from its escape, or from itself.
theorem read_escape (c : Char) (rest : List Piece) :
    (symbol isPlain <|> escaped) ((escape c).map .char ++ rest) = some (c, rest) := by
  unfold escape
  split
  case h_8 hquote hbackslash _ _ _ _ _ =>
    split
    · rename_i hcontrol
      exact (orElse_of_none (symbol_of_false (by decide) _)).trans (escaped_control hcontrol rest)
    · rename_i hcontrol
      have hne : c ≠ '"' ∧ c ≠ '\\' := ⟨hquote, hbackslash⟩
      have hplain : isPlain c = true := by
        simpa [isPlain, hne] using hcontrol
      exact orElse_of_some (symbol_of_true hplain rest)
  all_goals rfl

theorem escape_ne_nil (c : Char) : escape c ≠ [] := by
  unfold escape
  split <;> try exact List.cons_ne_nil _ _
  split <;> exact List.cons_ne_nil _ _

theorem spelled_quote (s : String) : spelled (quote s) =
    .char '"' :: (s.toList.flatMap fun c => (escape c).map .char) ++ [.char '"'] := by
  simp [spelled, quote, List.map_flatMap]

theorem text_quote (s : String) (rest : List Piece) :
    text (spelled (quote s) ++ rest) = some (s, rest) := by
  have hstop : (symbol isPlain <|> escaped) (.char '"' :: rest) = none :=
    (orElse_of_none (symbol_of_false (by decide) _)).trans
      (bind_of_none (bind_of_none (letters_of_ne (by decide) [] rest)))
  have hmany : many (symbol isPlain <|> escaped)
      ((s.toList.flatMap fun c => (escape c).map .char) ++ .char '"' :: rest) =
        some (s.toList, .char '"' :: rest) :=
    congrArg some (manyFrom_flatMap (fun _ => True) (fun c _ => by simp [escape_ne_nil])
      (fun _ _ _ => trivial) (fun c _ rest _ => read_escape c rest) trivial hstop)
  rw [spelled_quote, List.append_assoc, List.cons_append, text,
    bind_of_some (mark_self (by decide) _)]
  refine (bind_of_some hmany).trans ((bind_of_some (letters_self ['"'] rest)).trans ?_)
  rw [String.ofList_toList]
  rfl

theorem text_of_ne (hne : c ≠ '"') (h : isBlank c = false) (rest : List Piece) :
    text (.char c :: rest) = none :=
  bind_of_none (mark_of_ne hne h rest)

end Strings

-- What may follow a value: nothing, or a mark that ends it.
def Ends (rest : List Piece) : Prop :=
  ∀ u ∈ rest.head?, u ∈ [',', ']', '\x7d'].map Piece.char

section Integers

theorem Ends.symbol_eq_none (h : Ends rest) (hp : [',', ']', '\x7d'].any p = false) :
    symbol p rest = none := by
  cases rest with
  | nil => rfl
  | cons u more =>
    obtain ⟨c, hc, rfl⟩ := List.mem_map.mp (h u rfl)
    exact symbol_of_false (Bool.eq_false_iff.mpr (List.any_eq_false.mp hp c hc)) more

theorem Ends.letters_eq_none (h : Ends rest) (hc : c ∉ [',', ']', '\x7d']) (cs : List Char) :
    letters (c :: cs) rest = none := by
  cases rest with
  | nil => rfl
  | cons u more =>
    obtain ⟨d, hd, rfl⟩ := List.mem_map.mp (h u rfl)
    have hne : d ≠ c := fun heq => hc (heq ▸ hd)
    exact letters_of_ne hne cs more

theorem many_digits (h : Ends rest) {cs : List Char} (hcs : ∀ c ∈ cs, c.isDigit = true) :
    many (symbol Char.isDigit) (cs.map .char ++ rest) = some (cs, rest) := by
  have hread : manyFrom (symbol Char.isDigit) ((cs.flatMap fun c => [.char c]) ++ rest) =
      (cs, rest) :=
    manyFrom_flatMap (fun _ => True) (fun _ _ => List.cons_ne_nil _ _) (fun _ _ _ => trivial)
      (fun c hc rest _ => symbol_of_true (hcs c hc) rest) trivial (h.symbol_eq_none (by decide))
  rw [← List.map_eq_flatMap] at hread
  exact congrArg some hread

theorem wholeDigits_toDigits (m : Nat) (h : Ends rest) :
    wholeDigits ((Nat.toDigits 10 m).map .char ++ rest) = some (Nat.toDigits 10 m, rest) := by
  have hdigits : ∀ c ∈ Nat.toDigits 10 m, c.isDigit = true :=
    fun c hc => Nat.isDigit_of_mem_toDigits (by decide) (by decide) hc
  by_cases hm : m = 0
  · rw [hm, Nat.toDigits_zero]
    rfl
  · have hhead := head_toDigits_ne_zero hm
    obtain ⟨first, more, hcs⟩ := List.exists_cons_of_ne_nil (Nat.toDigits_ne_nil (n := m) (b := 10))
    rw [hcs] at hdigits hhead ⊢
    rw [List.forall_mem_cons] at hdigits
    have hfirst : first ≠ '0' := by simpa using hhead
    rw [wholeDigits, List.map_cons, List.cons_append, bind_of_some (symbol_of_true hdigits.1 _)]
    split
    · exact absurd rfl hfirst
    · exact bind_of_some (many_digits h hdigits.2)

-- An integer as it is written: no point, no exponent.
def Numeral.ofInt (n : Int) : Numeral where
  negative := n < 0
  whole := Nat.toDigits 10 n.natAbs
  fraction := none
  exponent := none

theorem spelled_toString (n : Int) : spelled (toString n) =
    (if n < 0 then [.char '-'] else []) ++ (Nat.toDigits 10 n.natAbs).map .char := by
  rw [spelled, Int.toString_eq_repr, Int.repr_eq_if]
  by_cases hn : n < 0
  · have habs : (-n).toNat = n.natAbs := by omega
    rw [if_neg (by omega), if_pos hn, habs, String.toList_append, Nat.toList_repr]
    rfl
  · have habs : n.toNat = n.natAbs := by omega
    rw [if_pos (by omega), if_neg hn, habs, Nat.toList_repr]
    rfl

theorem ne_of_isDigit (h : c.isDigit = true) (hd : d.isDigit = false) : c ≠ d := by
  rintro rfl
  exact absurd (h.symm.trans hd) (by decide)

theorem isBlank_of_isDigit (h : c.isDigit = true) : isBlank c = false := by
  simp only [isBlank, Bool.or_eq_false_iff, beq_eq_false_iff_ne]
  exact ⟨⟨⟨ne_of_isDigit h rfl, ne_of_isDigit h rfl⟩, ne_of_isDigit h rfl⟩, ne_of_isDigit h rfl⟩

-- An integer begins with a minus or with a digit.
def beginsInteger (c : Char) : Bool :=
  c == '-' || c.isDigit

theorem not_mem_of_beginsInteger {cs : List Char} (h : beginsInteger c = true)
    (hcs : cs.any beginsInteger = false) : c ∉ cs :=
  fun hmem => List.any_eq_false.mp hcs c hmem h

theorem toString_begins (n : Int) : ∃ c more, spelled (toString n) = .char c :: more ∧
    isBlank c = false ∧ beginsInteger c = true := by
  rw [spelled_toString]
  by_cases hn : n < 0
  · rw [if_pos hn]
    exact ⟨'-', _, rfl, rfl, rfl⟩
  · obtain ⟨first, more, hcs, hfirst⟩ := toDigits_begins n.natAbs
    rw [if_neg hn, hcs]
    exact ⟨first, _, rfl, isBlank_of_isDigit hfirst, Bool.or_eq_true_iff.mpr (.inr hfirst)⟩

theorem sign_toString (n : Int) (rest : List Piece) :
    ∃ sign, optional (letters ['-']) (spelled (toString n) ++ rest) =
      some (sign, (Nat.toDigits 10 n.natAbs).map .char ++ rest) ∧ sign.isSome = decide (n < 0) := by
  rw [spelled_toString]
  by_cases hn : n < 0
  · rw [if_pos hn]
    exact ⟨some (), optional_of_some (letters_self ['-'] _), (decide_eq_true hn).symm⟩
  · obtain ⟨first, more, hcs, hfirst⟩ := toDigits_begins n.natAbs
    have hminus : first ≠ '-' := ne_of_isDigit hfirst rfl
    rw [if_neg hn, hcs]
    exact ⟨none, optional_of_none (letters_of_ne hminus [] _), (decide_eq_false hn).symm⟩

theorem numeral_toString (n : Int) (h : Ends rest) :
    numeral (spelled (toString n) ++ rest) = some (.ofInt n, rest) := by
  obtain ⟨c, more, hbegins, hc, -⟩ := toString_begins n
  have hblank : symbol isBlank (spelled (toString n) ++ rest) = none := by
    rw [hbegins]
    exact symbol_of_false hc _
  obtain ⟨sign, hsign, hnegative⟩ := sign_toString n rest
  have hwhole := wholeDigits_toDigits n.natAbs h
  have hfraction : optional fraction rest = some (none, rest) :=
    optional_of_none (bind_of_none (h.letters_eq_none (by decide) []))
  have hexponent : optional exponent rest = some (none, rest) :=
    optional_of_none (bind_of_none (discard_of_none (h.symbol_eq_none (by decide))))
  rw [numeral, bind_of_some (blanks_of_not_blank hblank), bind_of_some hsign, bind_of_some hwhole,
    bind_of_some hfraction, bind_of_some hexponent, hnegative]
  rfl

theorem value?_ofInt {n : Int} (h : isExact n = true) :
    (Numeral.ofInt n).value? = some (.integer n) := by
  have hn : (if n < 0 then -(n.natAbs : Int) else n.natAbs) = n := by split <;> omega
  have hzero : (decide (n < 0) && n == 0) = false := by
    by_cases hn : n < 0 <;> simp [hn, Int.ne_of_lt]
  have hint : (Numeral.ofInt n).integer? = some n := by
    simp only [Numeral.integer?, Numeral.ofInt, number_toDigits, Option.isSome_none, Bool.or_self,
      Bool.false_eq_true, if_false, decide_eq_true_eq, hn, h, hzero, Bool.not_false, Bool.and_self,
      if_true]
  rw [Numeral.value?, hint]

end Integers

end Vassal.Json
