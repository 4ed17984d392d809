import Vassal.Proofs.Options.Frame
import Vassal.Proofs.Options.Grouping
import Vassal.Proofs.Options.Param
import Vassal.Proofs.Section.Preset
import Vassal.Proofs.Text.Digits
import Vassal.Proofs.Text.Joined

-- The texts of farms, and the lines that they become.
--
-- A name is written as it is, with all colons, commas and digits that it has. What is written
-- behind it holds no colon, so the last colon of a text is where the name ends, and the farm can
-- be read back.

namespace Vassal

namespace Farm

def writtenMules (mules : List Nat) : String :=
  String.intercalate "," (mules.map toString)

-- The numbers between commas. A text without content has none, not an empty one.
def readMules (written : List Char) : List Nat :=
  if written = [] then [] else (written.splitOn ',').map (Text.number 10)

-- The farm that a text is for, if it is for any. Other colons than the last one are in the name.
def read (text : String) : Farm :=
  let front := Text.dropEnd (· != ':') text.toList
  { name := String.ofList front.dropLast
    mules := readMules (text.toList.drop front.length) }

section Mules

variable (mules : List Nat)

theorem colon_not_mem_writtenMules : ':' ∉ (writtenMules mules).toList := by
  intro hcolon
  obtain hcomma | ⟨number, hnumber, hmem⟩ := Text.mem_commas hcolon
  · exact absurd hcomma (by decide)
  · obtain ⟨mule, _, rfl⟩ := List.mem_map.mp hnumber
    exact Text.not_mem_toString rfl mule hmem

theorem readMules_writtenMules : readMules (writtenMules mules).toList = mules := by
  cases mules with
  | nil => rfl
  | cons first others =>
    let numbers := (first :: others).map toString
    have hcomma : ∀ number ∈ numbers, ',' ∉ number.toList :=
      List.forall_mem_map.mpr fun mule _ => Text.not_mem_toString rfl mule
    have hdigits : ∀ number ∈ numbers, number ≠ "" :=
      List.forall_mem_map.mpr fun mule _ => Text.toString_ne_empty mule
    have hwritten : writtenMules (first :: others) ≠ "" :=
      Text.intercalate_ne_empty "," hdigits (List.cons_ne_nil _ _)
    have hsome : (writtenMules (first :: others)).toList ≠ [] := by simpa using hwritten
    have hread : (Text.number 10 ∘ String.toList) ∘ toString = (id : Nat → Nat) :=
      funext Text.number_toString
    rw [readMules, if_neg hsome, writtenMules,
      Text.splitOn_intercalate "," ',' rfl hcomma (List.cons_ne_nil _ _), List.map_map,
      List.map_map, hread, List.map_id]

end Mules

theorem toList_render (f : Farm) :
    f.render.toList = f.name.toList ++ ':' :: (writtenMules f.mules).toList := by
  rw [render, String.toList_append, String.toList_append, List.append_assoc]
  rfl

-- Up to the last colon there is the name and that colon.
theorem dropEnd_render (f : Farm) :
    Text.dropEnd (· != ':') f.render.toList = f.name.toList ++ [':'] := by
  have hmules : Text.dropEnd (· != ':') (writtenMules f.mules).toList = [] := by
    refine List.rdropWhile_eq_nil_iff.mpr fun c hc => bne_iff_ne.mpr ?_
    rintro rfl
    exact colon_not_mem_writtenMules f.mules hc
  rw [toList_render, Text.dropEnd_append_cons rfl, hmules]

theorem read_render (f : Farm) : read f.render = f := by
  have hsplit : f.render.toList = (f.name.toList ++ [':']) ++ (writtenMules f.mules).toList :=
    f.toList_render.trans (List.append_cons _ _ _)
  have hrest : f.render.toList.drop (f.name.toList ++ [':']).length =
      (writtenMules f.mules).toList := by
    rw [hsplit, List.drop_left]
  simp only [read, dropEnd_render, hrest, readMules_writtenMules, List.dropLast_concat,
    String.ofList_toList]

theorem render_inj {f g : Farm} : f.render = g.render ↔ f = g := by
  refine ⟨fun h => ?_, congrArg render⟩
  rw [← f.read_render, h, g.read_render]

end Farm

namespace Mutation

variable (key : String) (s : Section)

theorem editedIn_ofNat? (given : Option Nat) :
    s.options.EditedIn [key] ((ofNat? key given).apply none s).options := by
  cases given with
  | none => exact .refl _ _
  | some n => exact s.options.editedIn_upsert (List.mem_singleton_self key) _

-- Nothing is stored for an empty list, not even the name.
theorem options_addingTexts (texts : List String) :
    ((adding key (.ofTexts texts)).apply none s).options =
      if texts = [] then s.options else s.options.extend key texts := by
  have hgives : (adding key (.ofTexts texts)).Gives := .addingTexts key (some texts)
  have hstored : (adding key (.ofTexts texts)).stored.map Arg.render = texts :=
    listed_addingTexts key (some texts)
  have heffects : (adding key (.ofTexts texts)).effects none =
      if texts = [] then [] else [.extend key texts] := by
    have hproceeds : (adding key (.ofTexts texts)).proceeds = true := rfl
    have hmulti : (adding key (.ofTexts texts)).multi = true := rfl
    rw [hgives.effects_eq, if_pos hproceeds, hgives.placement_eq, if_pos hmulti, hstored]
    rfl
  rw [apply, heffects]
  split <;> rfl

end Mutation

namespace Section

-- The number of mules has a name of its own, and comes first.
theorem exists_options_setMules (s : Section) (count : Option Nat) (farms : List Farm) :
    ∃ counted, s.options.EditedIn ["mules"] counted ∧
      (s.setMules count farms).options =
        if farms = [] then counted else counted.extend "farm" (farms.map Farm.render) := by
  let entered := (s.enter workersKind).enter workersKind
  let counted := (Mutation.ofNat? "mules" count).apply none entered
  have hfarms : (s.setMules count farms).options =
      if farms.map Farm.render = [] then counted.options
      else counted.options.extend "farm" (farms.map Farm.render) :=
    Mutation.options_addingTexts "farm" (counted.enter workersKind) (farms.map Farm.render)
  simp only [List.map_eq_nil_iff] at hfarms
  exact ⟨counted.options, Mutation.editedIn_ofNat? "mules" entered count, hfarms⟩

theorem get?_setMules (s : Section) (count : Option Nat) (farms : List Farm) :
    (s.setMules count farms).options.get? "farm" =
      s.options.added "farm" (farms.map Farm.render) := by
  obtain ⟨counted, hedit, hoptions⟩ := s.exists_options_setMules count farms
  have hkept : counted.get? "farm" = s.options.get? "farm" :=
    Store.get?_congr_without _ _ ["mules"] "farm" (by decide) hedit.without
  rw [hoptions, ← Store.added_congr hkept]
  split
  case isTrue hempty => rw [hempty, List.map_nil, Store.added_nil]
  case isFalse hsome => exact counted.get?_extend "farm" (by simpa using hsome)

theorem editedIn_setMules (s : Section) (count : Option Nat) (farms : List Farm) :
    s.options.EditedIn ["mules", "farm"] (s.setMules count farms).options := by
  obtain ⟨counted, hedit, hoptions⟩ := s.exists_options_setMules count farms
  have hcounted : s.options.EditedIn ["mules", "farm"] counted := hedit.mono (by simp)
  rw [hoptions]
  split
  · exact hcounted
  · exact hcounted.trans (counted.editedIn_extend (by simp) _)

-- Farms have the same text only if they have the same name and the same mules. A call that sets
-- them writes one line for each, in their order and below the farms that were there, so that the
-- lines say what the farms are. All other options but the number of mules stay as they are.
theorem farm_lines_exact :
    (∀ f g : Farm, f.render = g.render ↔ f.name = g.name ∧ f.mules = g.mules) ∧
    ∀ (s : Section) (count : Option Nat) (farms : List Farm),
      let t := s.setMules count farms
      t.options.get? "farm" = s.options.added "farm" (farms.map Farm.render) ∧
      t.options.texts "farm" = s.options.texts "farm" ++ farms.map Farm.render ∧
      (s.options.Distinct → Store.textsIn t.options.directives "farm" =
        Store.textsIn s.options.directives "farm" ++ farms.map Farm.render) ∧
      (∀ (other : Option Nat) (others : List Farm),
        (s.setMules other others).options.texts "farm" = t.options.texts "farm" ↔
          others = farms) ∧
      s.options.EditedIn ["mules", "farm"] t.options := by
  refine ⟨fun f g => ?_, fun s count farms => ?_⟩
  · rw [Farm.render_inj]
    cases f
    cases g
    simp only [Farm.mk.injEq]
  intro t
  have htexts : ∀ (count : Option Nat) (farms : List Farm),
      (s.setMules count farms).options.texts "farm" =
        s.options.texts "farm" ++ farms.map Farm.render :=
    fun count farms => Store.texts_of_added (s.get?_setMules count farms)
  have hedit := s.editedIn_setMules count farms
  refine ⟨s.get?_setMules count farms, htexts count farms, fun hdistinct => ?_,
    fun other others => ?_, hedit⟩
  · have hwritten := htexts count farms
    rwa [← (hedit.distinct hdistinct).map_filter_directives,
      ← hdistinct.map_filter_directives] at hwritten
  · rw [htexts, htexts, List.append_cancel_left_eq]
    have hinjective : Function.Injective Farm.render := fun _ _ => Farm.render_inj.mp
    exact ⟨fun h => hinjective.list_map h, congrArg _⟩

-- Names that look like farms themselves, and a farm without mules.
theorem farm_lines_below_single_farm :
    let s : Section := { options := ⟨[("farm", .single "cache:1"), ("workers", .single "2")]⟩ }
    let farms : List Farm :=
      [{ name := "a", mules := [1, 2] }, { name := "a:1,2", mules := [] },
       { name := "a:1", mules := [2] }, { name := "", mules := [12] }]
    let t := s.setMules (some 4) farms
    s.options.Distinct ∧
    Store.textsIn t.options.directives "farm" =
      ["cache:1", "a:1,2", "a:1,2:", "a:1:2", ":12"] ∧
    t.options.get? "workers" = some (.single "2") := by
  intro s farms t
  have hdistinct : s.options.Distinct := by
    unfold Store.Distinct
    decide
  obtain ⟨-, -, hlines, -, hedit⟩ := farm_lines_exact.2 s (some 4) farms
  exact ⟨hdistinct, (hlines hdistinct).trans (by decide +kernel),
    Store.get?_congr_without _ _ ["mules", "farm"] "workers" (by decide) hedit.without⟩

end Section

end Vassal
