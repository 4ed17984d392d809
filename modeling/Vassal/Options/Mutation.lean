import Vassal.Options.Arg

-- One call of a setter, and what it does to whatever holds options.
--
-- A call is spelled out as a list of effects before anything is touched: which plugins it asks
-- for, which further options it brings along, and where its own value goes. The list depends on
-- the call alone, so what a call does can be read off it for every holder of options at once.

namespace Vassal

-- When a call is allowed to touch the options.
inductive Condition
  | unlessNull
  | always
  | never
deriving DecidableEq, Repr

structure Mutation where
  key : String
  value : Arg
  condition : Condition := .unlessNull
  -- The value says yes or no: yes stores `true`, no removes the option.
  flag : Bool := false
  -- The option may be repeated: values are added to those already stored.
  multi : Bool := false
  -- The plugin that provides the option.
  plugin : Option String := none
  -- The place of the option among all others.
  priority : Option Nat := none
deriving Repr

inductive Effect
  | activate (plugin : String)
  | merge (options : Store)
  | erase (key : String)
  | insert (key : String) (value : Value)
  | extend (key : String) (texts : List String)
  | insertAt (key : String) (value : Value) (position : Nat)
deriving Repr

-- Whatever holds options and can be asked to load plugins.
class Target (τ : Type) where
  options : τ → Store
  edit : (Store → Store) → τ → τ
  activate : String → τ → τ

namespace Effect

def run {τ : Type} [Target τ] (t : τ) : Effect → τ
  | activate plugin => Target.activate plugin t
  | merge options => Target.edit (·.merge options) t
  | erase key => Target.edit (·.erase key) t
  | insert key value => Target.edit (·.insert key value) t
  | extend key texts => Target.edit (·.extend key texts) t
  | insertAt key value position => Target.edit (·.insertAt key value position) t

def runAll {τ : Type} [Target τ] (effects : List Effect) (t : τ) : τ :=
  effects.foldl run t

def activateAll (plugin : Option String) : List Effect :=
  plugin.toList.map activate

end Effect

namespace Arg

-- What a parametrized value asks for besides being stored.
def contributions : Arg → List Effect
  | param p => Effect.activateAll p.plugin ++ [.merge p.options]
  | _ => []

-- Every value that has a name of its own takes the key over from those before it.
def settleKey (key : String) (values : List Arg) : String :=
  values.foldl keyOr key

end Arg

namespace Mutation

-- A setter call that says yes or no, and one that adds to a repeated option.
def ofFlag (key : String) (given : Option Bool) : Mutation :=
  { key, value := .ofOption .bool given, flag := true }

def ofText (key : String) (text : String) : Mutation :=
  { key, value := .text text }

def ofText? (key : String) (given : Option String) : Mutation :=
  { key, value := .ofOption .text given }

def ofNat? (key : String) (given : Option Nat) : Mutation :=
  { key, value := .ofOption .ofNat given }

def adding (key : String) (value : Arg) : Mutation :=
  { key, value, multi := true }

def proceeds (m : Mutation) : Bool :=
  match m.condition with
  | .unlessNull => !m.value.isNull
  | .always => true
  | .never => false

-- The value to be stored once a flag is known to say yes.
def flagged (m : Mutation) : Arg :=
  if m.flag then .text "true" else m.value

-- The parts of a tuple are heard one by one, but stored as one text.
def parts (m : Mutation) : List Arg :=
  match m.flagged with
  | .tuple parts => parts
  | _ => []

def joined (m : Mutation) : Arg :=
  match m.flagged with
  | .tuple parts => .text (String.intercalate " " (Arg.renderParts parts))
  | value => value

-- The values that are stored: all elements of a repeated option, else the one value.
def stored (m : Mutation) : List Arg :=
  if m.multi then m.joined.elements else [m.joined]

def storedKey (m : Mutation) : String :=
  Arg.settleKey (Arg.settleKey m.key m.parts) m.stored

def placement (m : Mutation) : List Effect :=
  let key := m.storedKey
  if m.multi then
    let texts := m.stored.map Arg.render
    if texts.isEmpty then []
    else match m.priority with
      | some position => [.insertAt key (.list texts) position]
      | none => [.extend key texts]
  else
    let value := Value.single m.joined.render
    match m.priority with
    | some position => [.insertAt key value position]
    | none => [.insert key value]

-- `groupPlugin` is the plugin of the option group that makes the call.
def effects (m : Mutation) (groupPlugin : Option String) : List Effect :=
  if !m.proceeds then []
  else if m.flag && !m.value.isTruthy then [.erase m.key]
  else
    Effect.activateAll groupPlugin ++ Effect.activateAll m.plugin
      ++ (m.parts ++ m.stored).flatMap Arg.contributions ++ m.placement

def apply {τ : Type} [Target τ] (m : Mutation) (groupPlugin : Option String) (t : τ) : τ :=
  Effect.runAll (m.effects groupPlugin) t

end Mutation

-- Options that belong to no section yet, with a record of the plugins asked for.
structure Draft where
  options : Store := ∅
  activations : List String := []
deriving Repr

instance : Target Draft where
  options := Draft.options
  edit f d := { d with options := f d.options }
  activate plugin d := { d with activations := d.activations ++ [plugin] }

end Vassal
