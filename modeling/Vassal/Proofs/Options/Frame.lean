import Vassal.Proofs.Options.Requirement

-- What a call leaves alone, and the place of what it stores.
--
-- A call may work on its own name and on all names that its value mentions, in a section also on
-- the list of plugins. A call with a priority stores its value last of all, so that the place it
-- asks for is a place among everything else it has added.

namespace Vassal

-- The name that a value is stored under, and the names of the options that it brings along.
def Param.keys (p : Param) : List String :=
  p.key.toList ++ p.options.keys

namespace Store

-- Counting the others after the move is the same as counting them before it.
theorem getElem?_insertAt (s : Store) (key : String) (value : Value) (position : Nat) :
    (s.insertAt key value position).entries[
      min position ((s.insertAt key value position).size - 1)]? =
        some (key, placed (s.get? key) value) := by
  have hle : min position (s.erase key).entries.length ≤ (s.erase key).entries.length :=
    Nat.min_le_right _ _
  have hsize : (s.insertAt key value position).size - 1 = (s.erase key).entries.length := by
    rw [size, insertAt, List.length_insertIdx_of_le_length hle, Nat.add_sub_cancel]
  rw [hsize]
  exact List.getElem?_insertIdx_self.trans (if_pos hle)

theorem EditedIn.mono {keys more : List String} {s t : Store} (h : s.EditedIn keys t)
    (hmore : keys ⊆ more) : s.EditedIn more t := by
  have hwithin : ∀ store : Store,
      (store.without keys).filter (fun entry => entry.1 ∉ more) = store.without more :=
    fun store => store.filter_without (p := (· ∉ more)) fun key hkey => by simpa using hmore hkey
  exact ⟨by rw [← hwithin, ← hwithin s, h.without], h.distinct⟩

end Store

namespace Mutation

-- The name of the call, and all names that stand anywhere in its value.
def mentioned (m : Mutation) : List String :=
  m.key :: m.value.params.flatMap Param.keys

-- Whether a call comes to store anything.
def Stores (m : Mutation) : Prop :=
  m.proceeds = true ∧ (m.flag = true → m.value.isTruthy = true) ∧ m.stored ≠ []

def storedValue (m : Mutation) : Value :=
  if m.multi then .list (m.stored.map Arg.render) else .single m.joined.render

section Mentioned

variable (m : Mutation)

-- What a call handles has names only if it stands on the surface of the value.
theorem mem_surface_of_param {p : Param} (hp : .param p ∈ m.parts ++ m.stored) :
    .param p ∈ m.surface := by
  unfold stored joined parts flagged at hp
  unfold surface
  cases hflag : m.flag with
  | true => cases hmulti : m.multi <;> simp [hflag, hmulti, Arg.elements] at hp
  | false =>
    simp only [hflag, Bool.false_eq_true, if_false] at hp
    cases hvalue : m.value with
    | tuple parts => cases hmulti : m.multi <;> simpa [hvalue, hmulti, Arg.elements] using hp
    | list elements =>
      cases hmulti : m.multi with
      | true => simpa [hvalue, hmulti, Arg.elements] using hp
      | false => simp [hvalue, hmulti] at hp
    | _ => cases hmulti : m.multi <;> simp_all [Arg.elements]

theorem keys_subset_mentioned : m.keys ⊆ m.mentioned := by
  intro key hkey
  rcases List.mem_cons.mp hkey with rfl | hvalues
  · exact List.mem_cons_self
  · obtain ⟨a, ha, hmem⟩ := List.mem_flatMap.mp hvalues
    cases a with
    | param p =>
      have hp : p ∈ m.value.params := mem_params_value_iff.mpr (.inl (m.mem_surface_of_param ha))
      exact List.mem_cons_of_mem _ (List.mem_flatMap.mpr ⟨p, hp, hmem⟩)
    | _ => simp [Arg.keys] at hmem

theorem keys_effects_subset {keys : List String} (hkeys : m.mentioned ⊆ keys)
    (groupPlugin : Option String) : ∀ e ∈ m.effects groupPlugin, e.keys ⊆ keys :=
  fun e he => List.Subset.trans (m.keys_effects groupPlugin e he)
    (List.Subset.trans m.keys_subset_mentioned hkeys)

end Mentioned

section Frame

variable {τ : Type} [Target τ] [LawfulTarget τ] (m : Mutation) (groupPlugin : Option String)

-- Entries that no request for a plugin touches and that the call does not mention stay as they are.
theorem without_apply {keys : List String} (hkeys : m.mentioned ⊆ keys)
    (hactivate : ∀ plugin (t : τ),
      (Target.options (Target.activate plugin t)).without keys = (Target.options t).without keys)
    (t : τ) :
    (Target.options (m.apply groupPlugin t)).without keys = (Target.options t).without keys := by
  refine Effect.runAll_induction
    (P := fun u : τ => (Target.options u).without keys = (Target.options t).without keys)
    (m.keys_effects_subset hkeys groupPlugin) (fun plugin u hu => ?_) (fun f u hf hu => ?_) rfl
  · exact (hactivate plugin u).trans hu
  · rw [LawfulTarget.options_edit]
    exact (hf _).without.trans hu

theorem without_apply_section (s : Section) :
    (m.apply groupPlugin s).options.without ("plugin" :: m.mentioned) =
      s.options.without ("plugin" :: m.mentioned) := by
  refine m.without_apply groupPlugin (List.subset_cons_self _ _) (fun plugin t => ?_) s
  exact ((t.editedIn_registerPlugin "plugin" plugin).mono (by simp)).without

theorem without_apply_draft (d : Draft) :
    (m.apply groupPlugin d).options.without m.mentioned = d.options.without m.mentioned :=
  m.without_apply groupPlugin (List.Subset.refl _) (fun _ _ => rfl) d

end Frame

section Place

variable {m : Mutation} {position : Nat}

theorem effects_of_stores (h : m.Stores) (groupPlugin : Option String) :
    m.effects groupPlugin = m.preparation groupPlugin ++ m.placement := by
  obtain ⟨hproceeds, htruthy, -⟩ := h
  have hstays : (m.flag && !m.value.isTruthy) = false := by
    cases hflag : m.flag with
    | false => rfl
    | true => simp [htruthy hflag]
  simp [effects, preparation, hproceeds, hstays]

theorem placement_of_priority (h : m.Stores) (hpriority : m.priority = some position) :
    m.placement = [.insertAt m.storedKey m.storedValue position] := by
  have hsome : (m.stored.map Arg.render).isEmpty = false := by simpa using h.2.2
  cases hmulti : m.multi <;> simp [placement, storedValue, hmulti, hsome, hpriority]

-- The entry of a call that is finished: in its place among the others, with what the call adds to
-- what stood under its name.
def PlacedAt {τ : Type} [Target τ] (m : Mutation) (groupPlugin : Option String) (position : Nat)
    (t : τ) : Prop :=
  let before := Target.options (m.prepared groupPlugin t)
  let after := Target.options (m.apply groupPlugin t)
  after.entries[min position (after.size - 1)]? =
    some (m.storedKey, Store.placed (before.get? m.storedKey) m.storedValue)

theorem placedAt_of_stores {τ : Type} [Target τ] [LawfulTarget τ] (h : m.Stores)
    (hpriority : m.priority = some position) (groupPlugin : Option String) (t : τ) :
    m.PlacedAt groupPlugin position t := by
  have hafter : Target.options (m.apply groupPlugin t) =
      (Target.options (m.prepared groupPlugin t)).insertAt m.storedKey m.storedValue position := by
    unfold apply prepared
    rw [effects_of_stores h, Effect.runAll_append, placement_of_priority h hpriority]
    exact LawfulTarget.options_edit _ _
  unfold PlacedAt
  rw [hafter]
  exact Store.getElem?_insertAt _ _ _ _

end Place

-- A call changes no entry but those that it mentions and the list of plugins, and moves none of
-- the others past each other. What it stores with a priority stands in the place that it asks for.
theorem apply_framed_and_placed (m : Mutation) (groupPlugin : Option String) :
    (∀ s : Section, (m.apply groupPlugin s).options.without ("plugin" :: m.mentioned) =
      s.options.without ("plugin" :: m.mentioned)) ∧
    (∀ d : Draft, (m.apply groupPlugin d).options.without m.mentioned =
      d.options.without m.mentioned) ∧
    ∀ position, m.priority = some position → m.Stores →
      (∀ s : Section, m.PlacedAt groupPlugin position s) ∧
      ∀ d : Draft, m.PlacedAt groupPlugin position d :=
  ⟨m.without_apply_section groupPlugin, m.without_apply_draft groupPlugin,
    fun _ hpriority h =>
      ⟨placedAt_of_stores h hpriority groupPlugin, placedAt_of_stores h hpriority groupPlugin⟩⟩

-- The plugin and the option that come with the value are added first, and the value goes between
-- the entries that were there before.
theorem placed_among_contributions :
    let http : Param :=
      { name := "http-socket", key := some "http-socket", args := [":80"], plugin := some "http"
        options := ⟨[("http-to", .list ["/tmp/a.sock"])]⟩ }
    let m : Mutation :=
      { key := "socket", value := .list [.text ":81", .param http], multi := true
        priority := some 1 }
    let s : Section := { options := ⟨[("master", .single "true"), ("workers", .single "2")]⟩ }
    m.Stores ∧
    (m.apply none s).options.keys = ["master", "http-socket", "workers", "plugin", "http-to"] ∧
    m.PlacedAt none 1 s := by
  intro http m s
  have hstores : m.Stores := ⟨rfl, fun _ => rfl, List.cons_ne_nil _ _⟩
  exact ⟨hstores, by decide +kernel, ((apply_framed_and_placed m none).2.2 1 rfl hstores).1 s⟩

end Mutation

end Vassal
