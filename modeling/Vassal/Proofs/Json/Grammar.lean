import Vassal.Json.Syntax
import Vassal.Proofs.Text.Language

-- The grammar of JSON, and that the readers accept nothing else.
--
-- Its texts are made of pieces, so that bytes that are no text have a place as well. A value that
-- is kept has none of them. In a value that is passed over they may stand between quotes, where an
-- escape need not name a character either.

namespace Vassal.Json

open Text Text.Reader

namespace Grammar

section Marks

def Blank (us : List Piece) : Prop :=
  ∃ cs : List Char, (∀ c ∈ cs, isBlank c = true) ∧ us = cs.map .char

-- A mark, with the blanks before it.
def Marked (c : Char) (us : List Piece) : Prop :=
  ∃ before, Blank before ∧ us = before ++ [.char c]

-- Parts between two brackets, with commas between any two.
inductive Listed (left right : Char) : List (List Piece) → List Piece → Prop
  | empty {opening closing : List Piece} (hopening : Marked left opening)
      (hclosing : Marked right closing) : Listed left right [] (opening ++ closing)
  | filled {opening inner closing : List Piece} {parts : List (List Piece)}
      (hopening : Marked left opening) (h : Spaced (Marked ',') parts inner)
      (hclosing : Marked right closing) : Listed left right parts (opening ++ (inner ++ closing))

end Marks

section Texts

-- The escapes that stand for a character of their own.
def shortEscapes : List (Char × Char) :=
  [('"', '"'), ('\\', '\\'), ('/', '/'), ('b', '\x08'), ('f', '\x0c'), ('n', '\n'), ('r', '\r'),
   ('t', '\t')]

-- Four digits that spell a number.
def CodeUnit (us : List Piece) (n : Nat) : Prop :=
  ∃ digits : List Char, digits.length = 4 ∧ (∀ c ∈ digits, isHexDigit c = true) ∧
    us = digits.map .char ∧ n = number 16 digits

-- One character of a text. Those past the first plane are written as two numbers.
inductive Letter : List Piece → Char → Prop
  | plain {c : Char} (h : isPlain c = true) : Letter [.char c] c
  | short {sign c : Char} (h : (sign, c) ∈ shortEscapes) : Letter [.char '\\', .char sign] c
  | unit {us : List Piece} {n : Nat} (h : CodeUnit us n) (hn : isSurrogate n = false) :
      Letter (.char '\\' :: .char 'u' :: us) (Char.ofNat n)
  | pair {us vs : List Piece} {high low : Nat} (hus : CodeUnit us high) (hvs : CodeUnit vs low)
      (hhigh : 0xD800 ≤ high ∧ high ≤ 0xDBFF) (hlow : 0xDC00 ≤ low ∧ low ≤ 0xDFFF) :
      Letter (.char '\\' :: .char 'u' :: (us ++ .char '\\' :: .char 'u' :: vs))
        (Char.ofNat (0x10000 + (high - 0xD800) * 0x400 + (low - 0xDC00)))

-- What counts as a character of a text that is passed over.
inductive Passed : List Piece → Prop
  | plain {c : Char} (h : isPlain c = true) : Passed [.char c]
  | stray (bytes : List UInt8) : Passed [.stray bytes]
  | short {sign c : Char} (h : (sign, c) ∈ shortEscapes) : Passed [.char '\\', .char sign]
  | unit {us : List Piece} {n : Nat} (h : CodeUnit us n) : Passed (.char '\\' :: .char 'u' :: us)

-- Parts between quotes.
def Quoted (parts : List (List Piece)) (us : List Piece) : Prop :=
  ∃ opening, Marked '"' opening ∧ us = opening ++ (parts.flatten ++ [.char '"'])

def Strict (us : List Piece) (s : String) : Prop :=
  ∃ parts, List.Forall₂ Letter parts s.toList ∧ Quoted parts us

def Loose (us : List Piece) (_ : Unit) : Prop :=
  ∃ parts, (∀ part ∈ parts, Passed part) ∧ Quoted parts us

end Texts

section Numbers

def Digits (cs : List Char) : Prop :=
  cs ≠ [] ∧ ∀ c ∈ cs, c.isDigit = true

-- The digits before the point, of which only a lone one may be a leading zero.
def Whole (cs : List Char) : Prop :=
  Digits cs ∧ (cs.head? = some '0' → cs = ['0'])

def Fraction (cs : List Char) : Prop :=
  ∃ digits, Digits digits ∧ cs = '.' :: digits

def Exponent (cs : List Char) : Prop :=
  ∃ mark ∈ ['e', 'E'], ∃ sign ∈ [[], ['+'], ['-']], ∃ digits, Digits digits ∧
    cs = mark :: (sign ++ digits)

def Number (us : List Piece) : Prop :=
  ∃ before whole, Blank before ∧ Whole whole ∧ ∃ sign ∈ [[], ['-']],
    ∃ fraction, (fraction = [] ∨ Fraction fraction) ∧
      ∃ exponent, (exponent = [] ∨ Exponent exponent) ∧
        us = before ++ (sign ++ (whole ++ (fraction ++ exponent))).map .char

end Numbers

section Values

variable {κ : Type}

-- A member of an object: what its key stands for, and the text behind the colon.
def Member (Key : List Piece → κ → Prop) (us : List Piece) (member : κ × List Piece) : Prop :=
  ∃ key colon, Key key member.1 ∧ Marked ':' colon ∧ us = key ++ (colon ++ member.2)

def Object (Key : List Piece → κ → Prop) (members : List (κ × List Piece)) (us : List Piece) :
    Prop :=
  ∃ parts, Listed '\x7b' '\x7d' parts us ∧ List.Forall₂ (Member Key) parts members

-- The texts that are a value, as far as their shape goes, when the strings are as given.
inductive Shape (Quote : List Piece → κ → Prop) : List Piece → Prop
  | word {before : List Piece} {word : String} (hbefore : Blank before)
      (hword : word ∈ ["null", "true", "false"]) : Shape Quote (before ++ spelled word)
  | number {us : List Piece} (h : Number us) : Shape Quote us
  | string {us : List Piece} {s : κ} (h : Quote us s) : Shape Quote us
  | array {parts : List (List Piece)} {us : List Piece} (h : Listed '[' ']' parts us)
      (hparts : ∀ part ∈ parts, Shape Quote part) : Shape Quote us
  | object {members : List (κ × List Piece)} {us : List Piece} (h : Object Quote members us)
      (hmembers : ∀ member ∈ members, Shape Quote member.2) : Shape Quote us

-- The text of an array of which everything is kept, and that of such an object.
def Items (us : List Piece) : Prop :=
  ∃ parts, Listed '[' ']' parts us ∧ ∀ part ∈ parts, Shape Strict part

def Entries (us : List Piece) : Prop :=
  ∃ members, Object Strict members us ∧ ∀ member ∈ members, Shape Strict member.2

end Values

end Grammar

open Grammar

section Marks

theorem within_symbol (p : Char → Bool) :
    Within (symbol p) fun us c => us = [.char c] ∧ p c = true := by
  intro us c rest hread
  cases us with
  | nil => cases hread
  | cons u more =>
    cases u with
    | stray => cases hread
    | char d =>
      by_cases hd : p d
      · cases (if_pos hd).symm.trans hread
        exact ⟨[.char c], rfl, rfl, hd⟩
      · cases (if_neg hd).symm.trans hread

theorem within_letters (cs : List Char) : Within (letters cs) fun us _ => us = cs.map .char :=
  within_word _

-- Symbols one after the other.
theorem flatten_of_symbols {p : Char → Bool} {parts : List (List Piece)} {cs : List Char}
    (h : List.Forall₂ (fun us c => us = [.char c] ∧ p c = true) parts cs) :
    parts.flatten = cs.map .char ∧ ∀ c ∈ cs, p c = true := by
  induction h with
  | nil => exact ⟨rfl, List.forall_mem_nil _⟩
  | cons hpart _ ih =>
    rw [hpart.1, List.flatten_cons, ih.1, List.forall_mem_cons]
    exact ⟨rfl, hpart.2, ih.2⟩

theorem within_many_symbol (p : Char → Bool) : Within (many (symbol p)) fun us cs =>
    us = cs.map .char ∧ ∀ c ∈ cs, p c = true := by
  refine (within_symbol p).many.mono fun us cs => ?_
  rintro ⟨parts, rfl, hparts⟩
  exact flatten_of_symbols hparts

theorem within_blanks : Within blanks fun us _ => Blank us :=
  (within_many_symbol isBlank).discard fun _ cs h => ⟨cs, h.2, h.1⟩

theorem within_mark (c : Char) : Within (mark c) fun us _ => Marked c us :=
  within_blanks.bind fun _ before hbefore => (within_letters [c]).mono fun _ _ hus =>
    ⟨before, hbefore, by rw [hus]; rfl⟩

theorem within_enclosed {α : Type} {item : Reader Piece α} {K : List Piece → α → Prop}
    (h : Within item K) (left right : Char) : Within (enclosed left right item) fun us as =>
      ∃ parts, Listed left right parts us ∧ List.Forall₂ K parts as := by
  refine (within_mark left).bind fun _ opening hopening => ?_
  have hinner : Within (optional (separated item (mark ','))) fun us as =>
      (us = [] ∧ as.getD [] = []) ∨
        ∃ parts, Spaced (Marked ',') parts us ∧ List.Forall₂ K parts (as.getD []) :=
    (h.separated (within_mark ',')).optional (.inl ⟨rfl, rfl⟩) fun _ _ hus => .inr hus
  refine hinner.bind fun as inner hinner => (within_mark right).bind fun _ closing hclosing =>
    within_pure ?_
  rw [List.append_nil]
  rcases hinner with ⟨rfl, hnone⟩ | ⟨parts, hspaced, hparts⟩
  · rw [hnone]
    exact ⟨[], .empty hopening hclosing, .nil⟩
  · exact ⟨parts, .filled hopening hspaced hclosing, hparts⟩

end Marks

section Texts

theorem within_codeUnit : Within codeUnit CodeUnit := by
  have hdigits : ∀ units : List Unit, Within (units.mapM fun _ => symbol isHexDigit)
      fun us cs => cs.length = units.length ∧ (∀ c ∈ cs, isHexDigit c = true) ∧
        us = cs.map .char := by
    intro units
    induction units with
    | nil => exact within_pure ⟨rfl, List.forall_mem_nil _, rfl⟩
    | cons _ more ih =>
      rw [List.mapM_cons]
      refine (within_symbol _).bind fun c first hfirst => ih.bind fun cs others hothers =>
        within_pure ?_
      obtain ⟨rfl, hc⟩ := hfirst
      obtain ⟨hlength, hcs, rfl⟩ := hothers
      exact ⟨by simp [hlength], by simpa [hc] using hcs, by simp⟩
  refine (hdigits _).bind fun digits us hus => within_pure ?_
  obtain ⟨hlength, hhex, rfl⟩ := hus
  exact ⟨digits, hlength, hhex, List.append_nil _, rfl⟩

theorem within_escapeSign : Within escapeSign fun us c => us = [.char '\\', .char c] := by
  refine (within_letters _).bind fun _ first hfirst => (within_symbol _).mono fun us c hus => ?_
  rw [hfirst, hus.1]
  rfl

theorem within_lowHalf {high : Nat} (hsurrogate : isSurrogate high = true) :
    Within (lowHalf high) fun us c => ∃ vs low, us = .char '\\' :: .char 'u' :: vs ∧
      CodeUnit vs low ∧ (0xD800 ≤ high ∧ high ≤ 0xDBFF) ∧ (0xDC00 ≤ low ∧ low ≤ 0xDFFF) ∧
      c = Char.ofNat (0x10000 + (high - 0xD800) * 0x400 + (low - 0xDC00)) := by
  refine (within_letters _).bind fun _ first hfirst => within_codeUnit.bind fun low vs hvs => ?_
  rw [hfirst]
  split
  · rename_i hhalves
    simp only [isSurrogate, Bool.and_eq_true, decide_eq_true_eq] at hsurrogate hhalves
    obtain ⟨⟨hhigh, hlow⟩, hlast⟩ := hhalves
    refine within_pure ⟨vs, low, ?_, hvs, ⟨hsurrogate.1, hhigh⟩, ⟨hlow, hlast⟩, rfl⟩
    simp
  · exact within_failure

theorem within_escaped : Within escaped Letter := by
  have hshort : ∀ {sign c : Char}, (sign, c) ∈ shortEscapes →
      Within (pure c : Reader Piece Char) fun us c => Letter ([.char '\\', .char sign] ++ us) c :=
    fun h => within_pure (.short h)
  refine within_escapeSign.bind fun sign first hfirst => ?_
  rw [hfirst]
  split
  case h_9 =>
    refine within_codeUnit.bind fun n us hus => ?_
    split
    · rename_i hsurrogate
      refine (within_lowHalf hsurrogate).mono fun _ c hlow => ?_
      obtain ⟨vs, low, rfl, hvs, hhigh, hlow, hc⟩ := hlow
      rw [hc]
      exact .pair hus hvs hhigh hlow
    · rename_i hscalar
      refine within_pure ?_
      rw [List.append_nil]
      exact .unit hus (by simpa using hscalar)
  case h_10 => exact within_failure
  all_goals exact hshort (by simp [shortEscapes])

theorem within_text : Within text Strict := by
  have hletter : Within (symbol isPlain <|> escaped) Letter := by
    refine Within.orElse ((within_symbol isPlain).mono ?_) within_escaped
    rintro us c ⟨rfl, hplain⟩
    exact .plain hplain
  refine (within_mark '"').bind fun _ opening hopening => hletter.many.bind fun cs body hbody =>
    (within_letters ['"']).return fun closing _ hclosing => ?_
  obtain ⟨parts, rfl, hparts⟩ := hbody
  rw [hclosing]
  exact ⟨parts, by rwa [String.toList_ofList], opening, hopening, rfl⟩

theorem within_passEscaped : Within passText.passEscaped fun us _ => Passed us := by
  refine within_escapeSign.bind fun sign first hfirst => ?_
  rw [hfirst]
  split
  · exact within_codeUnit.discard fun us n hus => .unit hus
  · split
    · rename_i hsign
      have hall : ∀ sign ∈ ['"', '\\', '/', 'b', 'f', 'n', 'r', 't'],
          ∃ c, (sign, c) ∈ shortEscapes := by simp [shortEscapes]
      obtain ⟨c, hc⟩ := hall sign (List.contains_iff_mem.mp hsign)
      exact within_pure (.short hc)
    · exact within_failure

theorem within_passText : Within passText Loose := by
  have hplain : Within (discard (symbol isPlain)) fun us _ => Passed us := by
    refine (within_symbol isPlain).discard ?_
    rintro us c ⟨rfl, hplain⟩
    exact .plain hplain
  have hstray : Within passText.passStray fun us _ => Passed us := by
    intro us _ rest hread
    unfold passText.passStray at hread
    split at hread
    · cases hread
      exact ⟨_, rfl, .stray _⟩
    · cases hread
  have hmany : ∀ {r : Reader Piece Unit}, Within r (fun us _ => Passed us) →
      Within (discard (many r)) fun us _ =>
        ∃ parts : List (List Piece), us = parts.flatten ∧ ∀ part ∈ parts, Passed part :=
    fun h => h.many.discard fun _ _ ⟨parts, hus, hparts⟩ => ⟨parts, hus, forall_of_forall₂ hparts⟩
  have hbody := hmany (hplain.orElse (hstray.orElse within_passEscaped))
  refine (within_mark '"').bind fun _ opening hopening => hbody.bind fun _ body hbody =>
    (within_letters ['"']).mono fun closing _ hclosing => ?_
  obtain ⟨parts, rfl, hparts⟩ := hbody
  rw [hclosing]
  exact ⟨parts, hparts, opening, hopening, rfl⟩

end Texts

section Numbers

-- Characters of a class of texts.
def Spelt (P : List Char → Prop) (us : List Piece) : Prop :=
  ∃ cs, P cs ∧ us = cs.map .char

theorem within_digits : Within digits fun us cs => Digits cs ∧ us = cs.map .char := by
  refine (within_symbol _).bind fun c first hfirst =>
    (within_many_symbol _).return fun us cs hus => ?_
  obtain ⟨rfl, hc⟩ := hfirst
  obtain ⟨rfl, hcs⟩ := hus
  exact ⟨⟨List.cons_ne_nil _ _, List.forall_mem_cons.mpr ⟨hc, hcs⟩⟩, rfl⟩

theorem within_wholeDigits : Within wholeDigits fun us cs => Whole cs ∧ us = cs.map .char := by
  refine (within_symbol _).bind fun c first hfirst => ?_
  obtain ⟨rfl, hc⟩ := hfirst
  split
  · exact within_pure ⟨⟨⟨List.cons_ne_nil _ _, by simp⟩, fun _ => rfl⟩, rfl⟩
  · rename_i hzero
    refine (within_many_symbol _).return fun us cs hus => ?_
    obtain ⟨rfl, hcs⟩ := hus
    refine ⟨⟨⟨List.cons_ne_nil _ _, List.forall_mem_cons.mpr ⟨hc, hcs⟩⟩, fun hhead => ?_⟩, rfl⟩
    exact absurd (Option.some.inj hhead) hzero

theorem within_fraction : Within fraction fun us _ => Spelt Fraction us := by
  refine (within_letters _).bind fun _ first hfirst => within_digits.mono fun us cs hus => ?_
  obtain ⟨hdigits, rfl⟩ := hus
  exact ⟨'.' :: cs, ⟨cs, hdigits, rfl⟩, by rw [hfirst]; rfl⟩

theorem within_exponent : Within exponent fun us _ => Spelt Exponent us := by
  have hmark : Within (discard (symbol fun c => c == 'e' || c == 'E'))
      fun us _ => ∃ mark ∈ ['e', 'E'], us = [.char mark] := by
    refine (within_symbol _).discard fun us c hus => ?_
    exact ⟨c, by simpa using hus.2, hus.1⟩
  have hsign : Within (optional (symbol fun c => c == '+' || c == '-'))
      fun us _ => ∃ sign ∈ [[], ['+'], ['-']], us = sign.map .char := by
    refine (within_symbol _).optional ⟨[], by simp, rfl⟩ fun us c hus => ?_
    exact ⟨[c], by simpa using hus.2, hus.1⟩
  refine hmark.bind fun _ first hfirst => hsign.bind fun _ second hsecond =>
    within_digits.return fun us cs hus => ?_
  obtain ⟨mark, hmark, rfl⟩ := hfirst
  obtain ⟨sign, hsign, rfl⟩ := hsecond
  obtain ⟨hdigits, rfl⟩ := hus
  exact ⟨mark :: (sign ++ cs), ⟨mark, hmark, sign, hsign, cs, hdigits, rfl⟩, by simp⟩

theorem within_numeral : Within numeral fun us _ => Number us := by
  have hsign : Within (optional (letters ['-']))
      fun us _ => ∃ sign ∈ [[], ['-']], us = sign.map .char :=
    (within_letters _).optional ⟨[], by simp, rfl⟩ fun us _ hus => ⟨['-'], by simp, hus⟩
  have hpart : ∀ {P : List Char → Prop} {α : Type} {r : Reader Piece α},
      Within r (fun us _ => Spelt P us) →
      Within (optional r) fun us _ => Spelt (fun cs => cs = [] ∨ P cs) us :=
    fun h => h.optional ⟨[], .inl rfl, rfl⟩ fun us _ ⟨cs, hcs, hus⟩ => ⟨cs, .inr hcs, hus⟩
  refine within_blanks.bind fun _ before hbefore => hsign.bind fun _ first hfirst =>
    within_wholeDigits.bind fun _ second hsecond =>
      (hpart within_fraction).bind fun _ third hthird =>
        (hpart within_exponent).return fun us _ hus => ?_
  obtain ⟨sign, hsign, rfl⟩ := hfirst
  obtain ⟨hwhole, rfl⟩ := hsecond
  obtain ⟨fraction, hfraction, rfl⟩ := hthird
  obtain ⟨exponent, hexponent, rfl⟩ := hus
  exact ⟨before, _, hbefore, hwhole, sign, hsign, fraction, hfraction, exponent, hexponent,
    by simp⟩

end Numbers

section Values

variable {κ α : Type} {Key : List Piece → κ → Prop}

theorem within_member {key : Reader Piece κ} {f : κ → Reader Piece α}
    {K : κ × List Piece → α → Prop} (hkey : Within key Key)
    (hf : ∀ k, Within (f k) fun us a => K (k, us) a) :
    Within (do
      let k ← key
      mark ':'
      f k) fun us a => ∃ member, Member Key us member ∧ K member a :=
  hkey.bind fun k first hfirst => (within_mark ':').bind fun _ colon hcolon =>
    (hf k).mono fun us _ hus => ⟨(k, us), ⟨first, colon, hfirst, hcolon, rfl⟩, hus⟩

theorem within_object {item : Reader Piece α} {K : κ × List Piece → α → Prop}
    (h : Within item fun us a => ∃ member, Member Key us member ∧ K member a) :
    Within (enclosed '\x7b' '\x7d' item) fun us as =>
      ∃ members, Object Key members us ∧ List.Forall₂ K members as := by
  refine (within_enclosed h '\x7b' '\x7d').mono ?_
  rintro us as ⟨parts, hlisted, hparts⟩
  obtain ⟨members, hmembers, has⟩ := exists_forall₂_between hparts
  exact ⟨members, ⟨parts, hlisted, hmembers⟩, has⟩

theorem within_keyword {Quote : List Piece → κ → Prop} :
    Within keyword fun us _ => Shape Quote us := by
  have hword : ∀ {before : List Piece} (word : String), word ∈ ["null", "true", "false"] →
      Blank before → ∀ v : Json, Within (do
        letters word.toList
        return v) fun us _ => Shape Quote (before ++ us) := by
    intro before word hword hbefore v
    refine (within_letters _).return fun us _ hus => ?_
    rw [hus]
    exact .word hbefore hword
  refine within_blanks.bind fun _ before hbefore => ?_
  exact (hword "null" (by simp) hbefore _).orElse
    ((hword "true" (by simp) hbefore _).orElse (hword "false" (by simp) hbefore _))

section Containers

variable {item : Reader Piece Json} (h : Within item fun us _ => Shape Strict us)
include h

theorem within_items : Within (items item) fun us _ => Items us :=
  (within_enclosed h '[' ']').mono fun _ _ ⟨parts, hlisted, hparts⟩ =>
    ⟨parts, hlisted, forall_of_forall₂ hparts⟩

theorem within_entries : Within (entries item) fun us _ => Entries us := by
  have hentry : Within (entry item) fun us _ =>
      ∃ member, Member Strict us member ∧ Shape Strict member.2 :=
    within_member within_text fun _ => h.return fun _ _ hus => hus
  exact (within_object hentry).return fun _ _ ⟨members, hobject, hmembers⟩ =>
    ⟨members, hobject, forall_of_forall₂ hmembers⟩

end Containers

theorem within_leaf : Within leaf fun us _ => Shape Strict us := by
  have hstring : Within (do return string (← text)) fun us _ => Shape Strict us :=
    within_text.return fun _ _ hus => .string hus
  refine within_keyword.orElse (hstring.orElse ?_)
  refine within_numeral.bind fun x first hfirst => ?_
  split
  · refine within_pure ?_
    rw [List.append_nil]
    exact .number hfirst
  · exact within_failure

theorem within_value (n : Nat) : Within (value n) fun us _ => Shape Strict us := by
  induction n with
  | zero => exact within_leaf
  | succ n ih =>
    have harray : Within (do return array (← items (value n))) fun us _ => Shape Strict us :=
      (within_items ih).return fun _ _ ⟨_, hlisted, hparts⟩ => .array hlisted hparts
    have hobject : Within (do return object (← entries (value n))) fun us _ => Shape Strict us :=
      (within_entries ih).return fun _ _ ⟨_, hobject, hmembers⟩ => .object hobject hmembers
    exact harray.orElse (hobject.orElse within_leaf)

theorem within_pass (n : Nat) : Within (pass n) fun us _ => Shape Loose us := by
  have hleaf : Within passLeaf fun us _ => Shape Loose us :=
    (within_keyword.discard fun _ _ hus => hus).orElse
      ((within_passText.mono fun _ _ hus => .string hus).orElse
        (within_numeral.discard fun _ _ hus => .number hus))
  induction n with
  | zero => exact hleaf
  | succ n ih =>
    have hentry : Within (passEntry (pass n)) fun us _ =>
        ∃ member, Member Loose us member ∧ Shape Loose member.2 :=
      within_member within_passText fun _ => ih
    have harray : Within (discard (enclosed '[' ']' (pass n))) fun us _ => Shape Loose us :=
      (within_enclosed ih '[' ']').discard fun _ _ ⟨_, hlisted, hparts⟩ =>
        .array hlisted (forall_of_forall₂ hparts)
    have hobject : Within (discard (enclosed '\x7b' '\x7d' (passEntry (pass n))))
        fun us _ => Shape Loose us :=
      (within_object hentry).discard fun _ _ ⟨_, hobject, hmembers⟩ =>
        .object hobject (forall_of_forall₂ hmembers)
    exact harray.orElse (hobject.orElse hleaf)

theorem within_passOver : Within passOver fun us _ => Shape Loose us :=
  fun us _ _ hread => within_pass us.length hread

end Values

-- All bytes are what was read and the blanks behind it.
theorem of_readAll? {α : Type} {r : Reader Piece α} {K : List Piece → α → Prop} (h : Within r K)
    {bytes : ByteArray} {a : α} (hread : readAll? r bytes = some a) :
    ∃ body after, Utf8.pieces bytes = body ++ after ∧ K body a ∧ Blank after := by
  unfold readAll? at hread
  cases hbody : r (Utf8.pieces bytes) with
  | none => simp [bind_of_none hbody] at hread
  | some read =>
    obtain ⟨b, rest⟩ := read
    rw [bind_of_some hbody] at hread
    cases hafter : blanks rest with
    | none => simp [bind_of_none hafter] at hread
    | some read =>
      obtain ⟨⟨⟩, last⟩ := read
      rw [bind_of_some hafter] at hread
      cases last with
      | cons => cases hread
      | nil =>
        cases hread
        obtain ⟨body, hbytes, hK⟩ := h hbody
        obtain ⟨after, rfl, hblank⟩ := within_blanks hafter
        exact ⟨body, after, by simpa using hbytes, hK, hblank⟩

end Vassal.Json
