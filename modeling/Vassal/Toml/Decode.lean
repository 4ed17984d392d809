import Vassal.Toml.Value

-- Reading values of known types out of tables.
--
-- Types are strict: a reader gives nothing for a value of another type. A key that is absent is
-- not an error, and a key that nobody asks for is not looked at.

namespace Vassal.Toml

abbrev Decoder (α : Type) :=
  Value → Option α

namespace Value

def string? : Decoder String
  | string s => some s
  | _ => none

-- Where a text is asked for, a moment in time stands for its written form.
def text? : Decoder String
  | string s => some s
  | moment m => some m.render
  | _ => none

def boolean? : Decoder Bool
  | boolean b => some b
  | _ => none

def table? : Decoder Table
  | table entries => some entries
  | _ => none

-- A number that fits into so many bits.
def bounded? (bits : Nat) : Decoder Nat
  | integer n => if 0 ≤ n && n < Nat.pow 2 bits then some n.toNat else none
  | _ => none

def listOf? {α : Type} (item : Decoder α) : Decoder (List α)
  | array items => items.mapM item
  | _ => none

-- The key under which a moment is found where a table is asked for.
def momentKey : String :=
  "$__toml_private_datetime"

-- Where a table is asked for, a moment stands for a table that holds its written form.
def entries? : Decoder Table
  | table entries => some entries
  | moment m => some [(momentKey, string m.render)]
  | _ => none

-- Parameters by name, or by position in the order of their declaration; then trailing ones may
-- be missing.
def params? (names : List String) : Decoder Table
  | array items => some (names.zip items)
  | v => v.entries?

end Value

namespace Table

variable {α : Type}

-- A field that may be absent: the outer option is a failure, the inner one an absence.
def field? (t : Table) (key : String) (decoder : Decoder α) : Option (Option α) :=
  match t.lookup key with
  | none => some none
  | some v => (decoder v).map some

def fieldD? (t : Table) (key : String) (decoder : Decoder α) (absent : α) : Option α :=
  (t.field? key decoder).map (·.getD absent)

end Table

end Vassal.Toml
