import Mathlib.Data.List.Chain
import Mathlib.Tactic.MkIffOfInductiveProp
import Vassal.Proofs.Options.Frame
import Vassal.Proofs.Text.Joined

-- The text of a tree of arguments, from its leaves.
--
-- Texts are joined by single spaces, and those without content are left out. The text of a group may
-- be joined in place of the texts in it, so that only the leaves of a tree count, and their order.

namespace Vassal

namespace Text

-- Two texts with a space in between, unless one of them is empty.
def beside (first second : String) : String :=
  if first = "" then second
  else if second = "" then first
  else first ++ " " ++ second

-- The texts that are not empty, with one space between any two.
def spaced (texts : List String) : String :=
  String.intercalate " " (texts.filter (· ≠ ""))

-- Of two neighbours one at least is no space.
def Apart (c d : Char) : Prop :=
  c = ' ' → d ≠ ' '

-- No space stands at an end or next to another one.
@[mk_iff] structure SinglySpaced (text : String) : Prop where
  first : text.toList.head? ≠ some ' '
  last : text.toList.getLast? ≠ some ' '
  inner : text.toList.IsChain Apart

section Spaced

@[simp] theorem beside_empty (first : String) : beside first "" = first := by
  unfold beside
  split <;> simp_all

@[simp] theorem empty_beside (second : String) : beside "" second = second :=
  if_pos rfl

@[simp] theorem spaced_nil : spaced [] = "" :=
  rfl

@[simp] theorem spaced_singleton (text : String) : spaced [text] = text := by
  by_cases htext : text = "" <;> simp [spaced, htext]

-- Joining two groups of texts and then the two results is joining all of them.
theorem spaced_append (before after : List String) :
    spaced (before ++ after) = beside (spaced before) (spaced after) := by
  have hkept : ∀ texts : List String, ∀ text ∈ texts.filter (· ≠ ""), text ≠ "" :=
    fun texts text htext => by simpa using (List.mem_filter.mp htext).2
  unfold spaced
  rw [List.filter_append]
  by_cases hbefore : before.filter (· ≠ "") = []
  · rw [hbefore, List.nil_append, String.intercalate_nil, empty_beside]
  by_cases hafter : after.filter (· ≠ "") = []
  · rw [hafter, List.append_nil, String.intercalate_nil, beside_empty]
  rw [String.intercalate_append_of_ne_nil hbefore hafter, beside,
    if_neg (intercalate_ne_empty " " (hkept before) hbefore),
    if_neg (intercalate_ne_empty " " (hkept after) hafter)]

theorem spaced_cons (text : String) (rest : List String) :
    spaced (text :: rest) = beside text (spaced rest) := by
  rw [← List.singleton_append, spaced_append, spaced_singleton]

end Spaced

section SinglySpaced

theorem singlySpaced_empty : SinglySpaced "" :=
  ⟨by simp, by simp, by simp⟩

theorem isChain_between {before after : List Char} :
    (before ++ ' ' :: after).IsChain Apart ↔
      before.IsChain Apart ∧ before.getLast? ≠ some ' ' ∧ after.head? ≠ some ' ' ∧
        after.IsChain Apart := by
  have hbefore : (∀ c ∈ before.getLast?, ∀ d ∈ (' ' :: after).head?, Apart c d) ↔
      before.getLast? ≠ some ' ' := by
    cases before.getLast? <;> simp [Apart]
  have hafter : (∀ d ∈ after.head?, Apart ' ' d) ↔ after.head? ≠ some ' ' := by
    cases after.head? <;> simp [Apart]
  rw [List.isChain_append, List.isChain_cons, hbefore, hafter]
  tauto

-- The space in between has the two texts for neighbours.
theorem singlySpaced_beside {first second : String} :
    SinglySpaced (beside first second) ↔ SinglySpaced first ∧ SinglySpaced second := by
  by_cases hfirst : first = ""
  · simp [hfirst, singlySpaced_empty]
  by_cases hsecond : second = ""
  · simp [hsecond, singlySpaced_empty]
  have hleft : first.toList ≠ [] := by simpa using hfirst
  have hright : second.toList ≠ [] := by simpa using hsecond
  have hlist : (beside first second).toList = first.toList ++ ' ' :: second.toList := by
    simp [beside, hfirst, hsecond]
  have hlast : (first.toList ++ ' ' :: second.toList).getLast? = second.toList.getLast? := by
    rw [List.append_cons, List.getLast?_append_of_ne_nil _ hright]
  rw [singlySpaced_iff, singlySpaced_iff, singlySpaced_iff, hlist,
    List.head?_append_of_ne_nil _ hleft, hlast, isChain_between]
  tauto

theorem singlySpaced_spaced {texts : List String} :
    SinglySpaced (spaced texts) ↔ ∀ text ∈ texts, SinglySpaced text := by
  induction texts with
  | nil => simp [singlySpaced_empty]
  | cons text rest ih => rw [spaced_cons, singlySpaced_beside, ih, List.forall_mem_cons]

end SinglySpaced

end Text

namespace Arg

-- Whether an argument is no group of others.
def isLeaf : Arg → Bool
  | tuple _ | list _ => false
  | null | bool _ | text _ | param _ => true

mutual

-- The arguments at the ends of a tree, from left to right.
def leaves : Arg → List Arg
  | tuple parts => leavesOf parts
  | list elements => leavesOf elements
  | null => [null]
  | bool b => [bool b]
  | text s => [text s]
  | param p => [param p]

def leavesOf : List Arg → List Arg
  | [] => []
  | a :: rest => leaves a ++ leavesOf rest

end

mutual

theorem isLeaf_of_mem_leaves : (a : Arg) → ∀ leaf ∈ a.leaves, leaf.isLeaf = true
  | tuple parts => by
    rw [leaves]
    exact isLeaf_of_mem_leavesOf parts
  | list elements => by
    rw [leaves]
    exact isLeaf_of_mem_leavesOf elements
  | null | bool _ | text _ | param _ => by simp [leaves, isLeaf]

theorem isLeaf_of_mem_leavesOf : (args : List Arg) → ∀ leaf ∈ leavesOf args, leaf.isLeaf = true
  | [] => by simp [leavesOf]
  | a :: rest => by
    rw [leavesOf]
    exact List.forall_mem_append.mpr ⟨isLeaf_of_mem_leaves a, isLeaf_of_mem_leavesOf rest⟩

end

theorem renderParts_eq (args : List Arg) :
    renderParts args = (args.map render).filter (· ≠ "") := by
  induction args with
  | nil => simp [renderParts]
  | cons a rest ih =>
    by_cases hempty : a.render = "" <;> simp [renderParts, hempty, ih]

mutual

theorem render_eq_spaced : (a : Arg) → a.render = Text.spaced (a.leaves.map render)
  | tuple parts => by
    rw [render, leaves, renderParts_eq]
    exact spaced_render_eq parts
  | list elements => by
    rw [render, leaves, renderParts_eq]
    exact spaced_render_eq elements
  | null | bool _ | text _ | param _ => by
    simp [leaves, Text.spaced_cons]

theorem spaced_render_eq : (args : List Arg) →
    Text.spaced (args.map render) = Text.spaced ((leavesOf args).map render)
  | [] => by rw [leavesOf]
  | a :: rest => by
    rw [List.map_cons, Text.spaced_cons, leavesOf, List.map_append, Text.spaced_append,
      render_eq_spaced a, spaced_render_eq rest]

end

end Arg

namespace Mutation

theorem render_joined (m : Mutation) : m.joined.render = m.flagged.render := by
  unfold joined
  split
  · rename_i parts hparts
    rw [hparts, Arg.render, Arg.render]
  · rfl

-- The text that is stored depends on the leaves of the value alone.
theorem storedValue_of_leaves {m : Mutation} (hmulti : m.multi = false) {a : Arg}
    (hleaves : a.leaves = m.value.leaves) : { m with value := a }.storedValue = m.storedValue := by
  have hrender : a.render = m.value.render := by
    rw [a.render_eq_spaced, hleaves, ← m.value.render_eq_spaced]
  simp only [storedValue, hmulti, Bool.false_eq_true, if_false, render_joined]
  unfold flagged
  split
  · rfl
  · exact congrArg Value.single hrender

end Mutation

namespace Arg

-- A tree is written as its leaves are, in their order and with one space between any two that have
-- a text. Trees with the same leaves are written alike and stored alike, and a space that stands at
-- an end or next to another one does so in a leaf.
theorem render_of_leaves (a : Arg) :
    (∀ leaf ∈ a.leaves, leaf.isLeaf = true) ∧
    a.render = String.intercalate " " ((a.leaves.map render).filter (· ≠ "")) ∧
    (∀ b : Arg, b.leaves = a.leaves → b.render = a.render) ∧
    (∀ m : Mutation, m.multi = false → a.leaves = m.value.leaves →
      { m with value := a }.storedValue = m.storedValue) ∧
    (Text.SinglySpaced a.render ↔ ∀ leaf ∈ a.leaves, Text.SinglySpaced leaf.render) := by
  refine ⟨isLeaf_of_mem_leaves a, render_eq_spaced a, fun b hleaves => ?_,
    fun m hmulti hleaves => Mutation.storedValue_of_leaves hmulti hleaves, ?_⟩
  · rw [render_eq_spaced b, hleaves, ← render_eq_spaced a]
  · rw [render_eq_spaced a, Text.singlySpaced_spaced, List.forall_mem_map]

-- Groups without content, at any depth, leave no space behind.
example : (tuple [list [], text "a", tuple [null, list [text "", text "b"]], list [null]]).render =
    "a b" := by decide

end Arg

end Vassal
