-- The option groups a section has been asked for.
--
-- A group is known by its identifier; a cache holds at most one group per identifier. Asking for
-- another kind of group under an identifier that is taken drops the group that had it, so a
-- kind's state always goes back to the last time the identifier became its own.

namespace Vassal

structure GroupKind where
  id : String
  -- What tells kinds apart that share an identifier.
  label : String
  -- Setting any option of the group asks for the plugin that the group is named after.
  autoPlugin : Bool := false
deriving DecidableEq, Repr

structure GroupCache (σ : Type) where
  -- In ascending order of identifiers.
  slots : List (GroupKind × σ) := []
deriving Repr

namespace GroupCache

variable {σ : Type}

instance : EmptyCollection (GroupCache σ) :=
  ⟨{}⟩

def ids (c : GroupCache σ) : List String :=
  c.slots.map (·.1.id)

def size (c : GroupCache σ) : Nat :=
  c.slots.length

def isEmpty (c : GroupCache σ) : Bool :=
  c.slots.isEmpty

def contains (c : GroupCache σ) (id : String) : Bool :=
  c.slots.any (·.1.id == id)

-- The state of a group, if its identifier is held by a group of this very kind.
def get? (c : GroupCache σ) (kind : GroupKind) : Option σ :=
  c.slots.findSome? fun slot => if slot.1 = kind then some slot.2 else none

def modifySlots [Inhabited σ] (kind : GroupKind) (f : σ → σ) :
    List (GroupKind × σ) → List (GroupKind × σ)
  | [] => [(kind, f default)]
  | (other, state) :: rest =>
    if other.id = kind.id then
      (kind, f (if other = kind then state else default)) :: rest
    else if kind.id < other.id then (kind, f default) :: (other, state) :: rest
    else (other, state) :: modifySlots kind f rest

-- Ask for a group, which begins in the default state, and write its state.
def modify [Inhabited σ] (c : GroupCache σ) (kind : GroupKind) (f : σ → σ) : GroupCache σ :=
  ⟨modifySlots kind f c.slots⟩

def enter [Inhabited σ] (c : GroupCache σ) (kind : GroupKind) : GroupCache σ :=
  c.modify kind id

end GroupCache

end Vassal
