import Vassal.Options.Param

-- The arguments of setters: trees of texts, flags and parametrized values.

namespace Vassal

inductive Arg
  | null
  | bool (b : Bool)
  | text (s : String)
  | param (p : Param)
  -- The parts of one stored text.
  | tuple (parts : List Arg)
  -- The elements of an option that may be repeated.
  | list (elements : List Arg)
deriving Repr

namespace Arg

def isNull : Arg → Bool
  | null => true
  | _ => false

def isTruthy : Arg → Bool
  | null => false
  | bool b => b
  | text s => !s.isEmpty
  | param _ => true
  | tuple parts => !parts.isEmpty
  | list elements => !elements.isEmpty

def ofBool (b : Bool) : String :=
  if b then "true" else "false"

mutual

-- The text an argument stands for. The parts of a tree are joined by single spaces, and parts
-- without text leave no space behind.
def render : Arg → String
  | null => ""
  | bool b => ofBool b
  | text s => s
  | param p => p.render
  | tuple parts => String.intercalate " " (renderParts parts)
  | list elements => String.intercalate " " (renderParts elements)

def renderParts : List Arg → List String
  | [] => []
  | a :: rest =>
    let text := render a
    if text.isEmpty then renderParts rest else text :: renderParts rest

end

-- The elements to be stored when the option may be repeated.
def elements : Arg → List Arg
  | null => []
  | list elements => elements
  | other => [other]

-- The option name an argument is stored under when a setter asks for `key`.
def keyOr (key : String) : Arg → String
  | param p => p.key.getD key
  | _ => key

def ofNat (n : Nat) : Arg :=
  text (toString n)

-- An argument that was not given is null.
def ofOption {α : Type} (f : α → Arg) : Option α → Arg
  | some a => f a
  | none => null

def ofTexts (texts : List String) : Arg :=
  list (texts.map text)

end Arg

namespace Param

-- A null argument is left out, an empty text is not.
def arg (p : Param) (a : Arg) : Param :=
  if a.isNull then p else { p with args := p.args ++ [a.render] }

def withArgs (p : Param) (as : List Arg) : Param :=
  as.foldl arg p

def withOption (p : Param) (key : String) (a : Arg) : Param :=
  { p with options := p.options.insert key (.single a.render) }

def withOptions (p : Param) (key : String) (as : List Arg) : Param :=
  { p with options := p.options.extend key (as.map Arg.render) }

end Param

end Vassal
