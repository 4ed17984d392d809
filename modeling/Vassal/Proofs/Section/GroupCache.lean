import Mathlib.Data.List.Nodup
import Vassal.Section.GroupCache

-- What a cache of groups holds after one of them has been asked for or written.

namespace Vassal.GroupCache

variable {σ : Type} {c : GroupCache σ} {kind other : GroupKind}

-- Each identifier stands once, in its place.
def Tidy (c : GroupCache σ) : Prop :=
  c.ids.Pairwise (· < ·)

theorem tidy_empty : (∅ : GroupCache σ).Tidy :=
  List.Pairwise.nil

theorem get?_cons (slot : GroupKind × σ) (rest : List (GroupKind × σ)) (kind : GroupKind) :
    get? ⟨slot :: rest⟩ kind = if slot.1 = kind then some slot.2 else get? ⟨rest⟩ kind := by
  unfold get?
  rw [List.findSome?_cons]
  split <;> rename_i h <;> split at h <;> simp_all

theorem get?_of_not_mem_ids (h : kind.id ∉ c.ids) : c.get? kind = none := by
  obtain ⟨slots⟩ := c
  induction slots with
  | nil => rfl
  | cons slot rest ih =>
    rw [ids, List.map_cons, List.mem_cons, not_or] at h
    have hne : slot.1 ≠ kind := fun heq => h.1 (by rw [heq])
    rw [get?_cons, if_neg hne]
    exact ih h.2

theorem mem_slots_of_get? {state : σ} (h : c.get? kind = some state) : (kind, state) ∈ c.slots := by
  obtain ⟨slot, hslot, hfound⟩ := List.exists_of_findSome?_eq_some h
  obtain ⟨rfl, rfl⟩ : slot.1 = kind ∧ slot.2 = state := by simpa using hfound
  exact hslot

theorem Tidy.nodup_ids (h : c.Tidy) : c.ids.Nodup := by
  refine List.Pairwise.imp (fun {first second} hlt heq => ?_) h
  exact String.lt_irrefl second (heq ▸ hlt)

-- An identifier belongs to one slot.
theorem Tidy.length_filter_id_le (h : c.Tidy) (id : String) :
    (c.slots.filter (·.1.id == id)).length ≤ 1 := by
  have hcount := List.nodup_iff_count_le_one.mp h.nodup_ids id
  rwa [ids, List.count_eq_countP, List.countP_map, List.countP_eq_length_filter] at hcount

-- Kinds that share an identifier are never there together.
theorem Tidy.get?_eq_none_of_get? (h : c.Tidy) {state : σ} (hget : c.get? kind = some state)
    (hid : other.id = kind.id) (hne : other ≠ kind) : c.get? other = none := by
  refine Option.eq_none_iff_forall_ne_some.mpr fun second hother => ?_
  have hsame := List.inj_on_of_nodup_map h.nodup_ids (mem_slots_of_get? hother)
    (mem_slots_of_get? hget) hid
  exact hne (congrArg Prod.fst hsame)

section Modify

variable [Inhabited σ] {f : σ → σ}

theorem mem_ids_modify {id : String} :
    id ∈ (c.modify kind f).ids ↔ id = kind.id ∨ id ∈ c.ids := by
  obtain ⟨slots⟩ := c
  unfold modify ids
  induction slots with
  | nil => simp [modifySlots]
  | cons slot rest ih =>
    unfold modifySlots
    split
    case isTrue hid => simp [hid]
    case isFalse =>
      split
      · simp
      · simp only [List.map_cons, List.mem_cons] at ih ⊢
        rw [ih, or_left_comm]

theorem Tidy.modify (h : c.Tidy) : (c.modify kind f).Tidy := by
  obtain ⟨slots⟩ := c
  unfold Tidy ids at h
  induction slots with
  | nil => exact List.pairwise_singleton _ _
  | cons slot rest ih =>
    obtain ⟨habove, hrest⟩ := List.pairwise_cons.mp h
    unfold GroupCache.modify modifySlots Tidy ids
    split
    case isTrue hid =>
      rw [List.map_cons, ← hid]
      exact h
    case isFalse hid =>
      split
      case isTrue hlt =>
        refine List.pairwise_cons.mpr ⟨fun id hmem => ?_, h⟩
        rcases List.mem_cons.mp hmem with rfl | hmem
        · exact hlt
        · exact String.lt_trans hlt (habove id hmem)
      case isFalse hlt =>
        refine List.pairwise_cons.mpr ⟨fun id hmem => ?_, ih hrest⟩
        rcases mem_ids_modify.mp hmem with rfl | hmem
        · exact ((Std.lt_trichotomy slot.1.id kind.id).resolve_right fun h => h.elim hid hlt)
        · exact habove id hmem

-- A group that is asked for is there, as it was last written.
theorem Tidy.get?_modify_self (h : c.Tidy) :
    (c.modify kind f).get? kind = some (f ((c.get? kind).getD default)) := by
  obtain ⟨slots⟩ := c
  unfold Tidy ids at h
  unfold GroupCache.modify
  induction slots with
  | nil => rw [modifySlots, get?_cons, if_pos rfl]; rfl
  | cons slot rest ih =>
    obtain ⟨habove, hrest⟩ := List.pairwise_cons.mp h
    have hfresh : ∀ id : String, (∀ other ∈ rest.map (·.1.id), id < other) →
        id ∉ rest.map (·.1.id) :=
      fun id hbelow hmem => String.lt_irrefl id (hbelow id hmem)
    unfold modifySlots
    split
    case isTrue hid =>
      -- The state is kept if the identifier was held by this kind, and by no slot below.
      have hbelow : get? ⟨rest⟩ kind = none := get?_of_not_mem_ids (hid ▸ hfresh _ habove)
      rw [get?_cons, get?_cons, if_pos rfl, hbelow]
      split <;> rfl
    case isFalse hid =>
      split
      case isTrue hlt =>
        have hbelow : get? ⟨rest⟩ kind = none :=
          get?_of_not_mem_ids (hfresh _ fun id hmem => String.lt_trans hlt (habove id hmem))
        have hne : slot.1 ≠ kind := fun heq => hid (by rw [heq])
        rw [get?_cons, get?_cons, if_pos rfl, if_neg hne, hbelow]
        rfl
      case isFalse =>
        have hne : slot.1 ≠ kind := fun heq => hid (by rw [heq])
        rw [get?_cons, get?_cons, if_neg hne, if_neg hne, ih hrest]

-- Writing a group twice is writing it once.
theorem modify_modify (f g : σ → σ) :
    (c.modify kind f).modify kind g = c.modify kind (g ∘ f) := by
  obtain ⟨slots⟩ := c
  unfold GroupCache.modify
  congr 1
  induction slots with
  | nil => simp [modifySlots]
  | cons slot rest ih =>
    rw [modifySlots, modifySlots]
    split
    case isTrue hid => simp [modifySlots]
    case isFalse hid =>
      split
      case isTrue hlt => simp [modifySlots]
      case isFalse hlt => rw [modifySlots, if_neg hid, if_neg hlt, ih]

-- A group whose identifier comes before all others goes to the front.
theorem modifySlots_of_lt {slots : List (GroupKind × σ)}
    (hfront : ∀ slot ∈ slots.head?, kind.id < slot.1.id) :
    modifySlots kind f slots = (kind, f default) :: slots := by
  cases slots with
  | nil => rfl
  | cons slot rest =>
    have hlt : kind.id < slot.1.id := hfront slot rfl
    have hne : slot.1.id ≠ kind.id := fun heq => String.lt_irrefl kind.id (heq ▸ hlt)
    rw [modifySlots, if_neg hne, if_pos hlt]

theorem modifySlots_comm_of_lt (hlt : kind.id < other.id) (f g : σ → σ)
    (slots : List (GroupKind × σ)) :
    modifySlots other g (modifySlots kind f slots) =
      modifySlots kind f (modifySlots other g slots) := by
  have hne : kind.id ≠ other.id := fun heq => String.lt_irrefl kind.id (heq ▸ hlt)
  have hnlt : ¬other.id < kind.id := fun h => String.lt_irrefl kind.id (String.lt_trans hlt h)
  induction slots with
  | nil => simp only [modifySlots, if_neg hne, if_neg hne.symm, if_neg hnlt, if_pos hlt]
  | cons slot rest ih =>
    rcases Std.lt_trichotomy slot.1.id kind.id with hslot | hslot | hslot
    case inl =>
      -- The slot stays in front of both groups.
      have hback : ∀ {last : GroupKind} (h : σ → σ), slot.1.id < last.id → ∀ rest,
          modifySlots last h (slot :: rest) = slot :: modifySlots last h rest := by
        intro last h hbelow rest
        have hdiffers : slot.1.id ≠ last.id := fun heq => String.lt_irrefl last.id (heq ▸ hbelow)
        have hafter : ¬last.id < slot.1.id :=
          fun h => String.lt_irrefl last.id (String.lt_trans h hbelow)
        rw [modifySlots, if_neg hdiffers, if_neg hafter]
      have hother := String.lt_trans hslot hlt
      rw [hback f hslot, hback g hother, hback g hother, hback f hslot, ih]
    case inr.inl =>
      have hdiffers : slot.1.id ≠ other.id := fun heq => hne (hslot.symm.trans heq)
      have hafter : ¬other.id < slot.1.id := hslot ▸ hnlt
      simp only [modifySlots, if_pos hslot, if_neg hne, if_neg hnlt, if_neg hdiffers,
        if_neg hafter]
    case inr.inr =>
      have hfront : ∀ first ∈ (modifySlots other g (slot :: rest)).head?,
          kind.id < first.1.id := by
        intro first hfirst
        unfold modifySlots at hfirst
        split at hfirst
        · obtain rfl := Option.some.inj hfirst
          exact hlt
        · split at hfirst
          · obtain rfl := Option.some.inj hfirst
            exact hlt
          · obtain rfl := Option.some.inj hfirst
            exact hslot
      have hkind : modifySlots kind f (slot :: rest) = (kind, f default) :: slot :: rest :=
        modifySlots_of_lt (by simpa using hslot)
      rw [hkind, modifySlots_of_lt hfront, modifySlots, if_neg hne, if_neg hnlt]

-- It does not matter which of two groups is written first.
theorem modify_comm (hid : other.id ≠ kind.id) (f g : σ → σ) :
    (c.modify kind f).modify other g = (c.modify other g).modify kind f := by
  unfold modify
  rcases Std.lt_trichotomy kind.id other.id with hlt | heq | hlt
  · rw [modifySlots_comm_of_lt hlt]
  · exact absurd heq.symm hid
  · rw [modifySlots_comm_of_lt hlt]

-- Groups under other identifiers are not concerned.
theorem get?_modify_of_ne (hid : other.id ≠ kind.id) :
    (c.modify kind f).get? other = c.get? other := by
  have hkind : kind ≠ other := fun heq => hid (by rw [heq])
  obtain ⟨slots⟩ := c
  unfold GroupCache.modify
  induction slots with
  | nil => rw [modifySlots, get?_cons, if_neg hkind]
  | cons slot rest ih =>
    unfold modifySlots
    split
    case isTrue hslot =>
      have hne : slot.1 ≠ other := fun heq => hid (by rw [← heq, hslot])
      rw [get?_cons, get?_cons, if_neg hkind, if_neg hne]
    case isFalse =>
      split
      · rw [get?_cons, if_neg hkind]
      · rw [get?_cons, get?_cons, ih]

-- The slots of all other identifiers stay, and in their order.
theorem filter_modify_of_ne {p : GroupKind × σ → Bool}
    (hp : ∀ slot : GroupKind × σ, slot.1.id = kind.id → p slot = false) :
    (c.modify kind f).slots.filter p = c.slots.filter p := by
  obtain ⟨slots⟩ := c
  unfold GroupCache.modify
  induction slots with
  | nil => rw [modifySlots, List.filter_cons_of_neg (by simp [hp])]
  | cons slot rest ih =>
    unfold modifySlots
    split
    case isTrue hslot =>
      rw [List.filter_cons_of_neg (by simp [hp]), List.filter_cons_of_neg (by simp [hp _ hslot])]
    case isFalse =>
      split
      · rw [List.filter_cons_of_neg (by simp [hp])]
      · rw [List.filter_cons, List.filter_cons, ih]

end Modify

end Vassal.GroupCache
