import Vassal.Proofs.Section.Plugins

-- Plugins that the server has built in, and the plugins that a section has registered.
--
-- A plugin is held against the built-in ones when it is asked for. What a section had registered
-- before it was told what is built in stays registered.

namespace Vassal.Section

-- Registered although it is built in.
def clashes (s : Section) : List String :=
  s.plugins.filter (· ∈ s.embedded)

-- No built-in plugin is registered, and none is loaded by a line.
def SparesEmbedded (s : Section) : Prop :=
  ∀ plugin ∈ s.embedded, plugin ∉ s.plugins ∧ plugin ∉ s.linesUnder "plugin" ∧
    plugin ∉ s.linesUnder "need-plugin"

theorem clashes_eq_nil_iff {s : Section} :
    s.clashes = [] ↔ ∀ plugin ∈ s.embedded, plugin ∉ s.plugins := by
  unfold clashes
  rw [List.filter_eq_nil_iff]
  simp only [decide_eq_true_eq]
  exact ⟨fun h plugin hembedded hplugin => h plugin hplugin hembedded,
    fun h plugin hplugin hembedded => h plugin hembedded hplugin⟩

-- Every line that loads a plugin belongs to a registered one, so the registered plugins decide.
theorem Registered.sparesEmbedded_iff {s : Section} (h : s.Registered) :
    s.SparesEmbedded ↔ s.clashes = [] := by
  rw [clashes_eq_nil_iff]
  constructor
  · exact fun hspares plugin hplugin => (hspares plugin hplugin).1
  · intro hclashes plugin hplugin
    have hnot := hclashes plugin hplugin
    rw [linesUnder_eq_texts h.distinct, linesUnder_eq_texts h.distinct]
    exact ⟨hnot, fun hmem => hnot (h.plugin_sublist.subset hmem),
      fun hmem => hnot (h.need_sublist.subset hmem)⟩

theorem clashes_registerPlugin (s : Section) (command plugin : String) :
    (s.registerPlugin command plugin).clashes = s.clashes := by
  unfold registerPlugin
  split
  · rfl
  · rename_i hnew
    have hembedded : plugin ∉ s.embedded := fun hmem => by simp [hmem] at hnew
    simp [clashes, hembedded]

-- An edit adds nothing to the plugins that are registered although they are built in.
theorem Edit.clashes_eq {targets : String → Prop} {s t : Section} (h : Edit targets s t) :
    t.clashes = s.clashes :=
  h.induction (P := fun t => t.clashes = s.clashes) (fun _ _ ht => ht)
    (fun t command plugin _ ht => (t.clashes_registerPlugin command plugin).trans ht)
    (fun _ _ _ _ _ ht => ht) rfl

theorem Edits.clashes_eq {targets : String → Prop} {s t : Section} (h : Edits targets s t) :
    t.clashes = s.clashes := by
  induction h with
  | refl => rfl
  | tail _ hedit ih => exact hedit.clashes_eq.trans ih

end Vassal.Section

namespace Vassal.Operation

open Section

theorem Quiet.clashes_eq {s t : Section} (h : Quiet s t) : t.clashes = s.clashes := by
  obtain ⟨hstep, hembedded⟩ := h
  cases hstep with
  | edit hedit => exact hedit.clashes_eq
  | enter | name | stylePrints => rfl
  | embedded embedded =>
    obtain rfl : embedded = s.embedded := hembedded
    rfl

theorem clashes_reachAll (env : Environment) {ops : List Operation}
    (hops : ∀ op ∈ ops, ∀ embedded, op ≠ .embed embedded) (s : Section) :
    (reachAll env ops s).clashes = s.clashes :=
  reachAll_induction_quiet (P := fun t => t.clashes = s.clashes) hops
    (fun _ _ hquiet ht => hquiet.clashes_eq.trans ht) rfl

theorem reachAll_append (env : Environment) (before after : List Operation) (s : Section) :
    reachAll env (before ++ after) s = reachAll env after (reachAll env before s) :=
  List.foldl_append

-- After the last time that the built-in plugins were stated, those of them that were registered
-- at that moment are registered in spite of it.
theorem clashes_after_embed (env : Environment) (before : List Operation) (embedded : Embedded)
    {after : List Operation} (hafter : ∀ op ∈ after, ∀ other, op ≠ .embed other) (s : Section) :
    (reachAll env (before ++ .embed embedded :: after) s).clashes =
      (reachAll env before s).plugins.filter (· ∈ embedded.names) := by
  rw [reachAll_append]
  exact clashes_reachAll env hafter ((reachAll env before s).embed embedded)

theorem exists_last_embed (ops : List Operation) :
    (∀ op ∈ ops, ∀ embedded, op ≠ .embed embedded) ∨
    ∃ before embedded after, ops = before ++ .embed embedded :: after ∧
      ∀ op ∈ after, ∀ other, op ≠ .embed other := by
  induction ops with
  | nil => exact .inl (by simp)
  | cons op rest ih =>
    rcases ih with hnone | ⟨before, embedded, after, rfl, hafter⟩
    · by_cases hop : ∃ embedded, op = .embed embedded
      · obtain ⟨embedded, rfl⟩ := hop
        exact .inr ⟨[], embedded, rest, rfl, hnone⟩
      · exact .inl (List.forall_mem_cons.mpr ⟨not_exists.mp hop, hnone⟩)
    · exact .inr ⟨op :: before, embedded, after, rfl, hafter⟩

theorem sparesEmbedded_reachAll_iff (env : Environment) (ops : List Operation)
    (name : Option String) :
    (reachAll env ops (Section.named name)).SparesEmbedded ↔
      ∀ before embedded after, ops = before ++ .embed embedded :: after →
        (∀ op ∈ after, ∀ other, op ≠ .embed other) →
        ∀ plugin ∈ embedded.names, plugin ∉ (reachAll env before (Section.named name)).plugins := by
  rw [(registered_reachAll env ops name).sparesEmbedded_iff]
  constructor
  · rintro hclashes before embedded after rfl hafter plugin hplugin hmem
    rw [clashes_after_embed env before embedded hafter] at hclashes
    exact List.filter_eq_nil_iff.mp hclashes plugin hmem (by simpa using hplugin)
  · intro h
    rcases exists_last_embed ops with hnone | ⟨before, embedded, after, rfl, hafter⟩
    · exact clashes_reachAll env hnone _
    · rw [clashes_after_embed env before embedded hafter, List.filter_eq_nil_iff]
      intro plugin hmem hplugin
      exact h before embedded after rfl hafter plugin (by simpa using hplugin) hmem

end Vassal.Operation
