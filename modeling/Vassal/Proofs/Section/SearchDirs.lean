import Vassal.Proofs.Section.Reach

-- Where plugins are searched for: the first of all options, with all the directories in the order
-- in which they were given.
--
-- One call takes the option to the top and adds to its list. Every other effect works below it.

namespace Vassal

namespace Store

theorem upsertEntry_append {key : String} {head : List (String × Value)}
    (hkey : key ∉ head.map Prod.fst) (f : Option Value → Value) (rest : List (String × Value)) :
    upsertEntry key f (head ++ rest) = head ++ upsertEntry key f rest := by
  induction head with
  | nil => rfl
  | cons entry head ih =>
    rw [List.map_cons, List.mem_cons, not_or] at hkey
    rw [List.cons_append, upsertEntry, if_neg (Ne.symm hkey.1), ih hkey.2, List.cons_append]

-- The entry that the directories make up, if there are any.
def dirsEntry (dirs : List String) : List (String × Value) :=
  if dirs = [] then [] else [("plugins-dir", .list dirs)]

-- That entry comes first, and no other entry has its name.
def DirsFirst (dirs : List String) (s : Store) : Prop :=
  ∃ rest : Store, s.entries = dirsEntry dirs ++ rest.entries ∧ "plugins-dir" ∉ rest.keys

theorem key_not_mem_dirsEntry {key : String} (hkey : key ≠ "plugins-dir") (dirs : List String) :
    key ∉ (dirsEntry dirs).map Prod.fst := by
  unfold dirsEntry
  split <;> simp [hkey]

namespace DirsFirst

variable {s : Store} {dirs : List String} (h : s.DirsFirst dirs)
include h

section Other

variable {key : String} (hkey : key ≠ "plugins-dir")
include hkey

theorem upsert (f : Option Value → Value) : (s.upsert key f).DirsFirst dirs := by
  obtain ⟨rest, hentries, hrest⟩ := h
  refine ⟨rest.upsert key f, ?_, ?_⟩
  · rw [Store.upsert, hentries, upsertEntry_append (key_not_mem_dirsEntry hkey dirs)]
    rfl
  · rw [keys_upsert]
    split
    · exact hrest
    · simpa [hrest] using hkey.symm

theorem erase : (s.erase key).DirsFirst dirs := by
  obtain ⟨rest, hentries, hrest⟩ := h
  refine ⟨rest.erase key, ?_, fun hmem => hrest ((keys_erase_sublist rest key).subset hmem)⟩
  have hnone : ∀ entry ∈ dirsEntry dirs, ¬(entry.1 == key) = true := by
    intro entry hentry heq
    exact key_not_mem_dirsEntry hkey dirs (List.mem_map.mpr ⟨entry, hentry, by simpa using heq⟩)
  rw [Store.erase, hentries, List.eraseP_append_right _ hnone]
  rfl

end Other

theorem merge {other : Store} (hkeys : "plugins-dir" ∉ other.keys) :
    (s.merge other).DirsFirst dirs := by
  obtain ⟨entries⟩ := other
  unfold Store.merge
  induction entries generalizing s with
  | nil => exact h
  | cons entry rest ih =>
    rw [keys, List.map_cons, List.mem_cons, not_or] at hkeys
    exact ih (h.upsert (Ne.symm hkeys.1) fun _ => entry.2) hkeys.2

-- Further directories go behind those that are there, and the entry goes to the top.
theorem insertAt {more : List String} (hmore : more ≠ []) :
    (s.insertAt "plugins-dir" (.list more) 0).DirsFirst (dirs ++ more) := by
  obtain ⟨rest, hentries, hrest⟩ := h
  have hentry : dirsEntry (dirs ++ more) = [("plugins-dir", .list (dirs ++ more))] :=
    if_neg (by simp [hmore])
  have hothers : rest.entries.eraseP (·.1 == "plugins-dir") = rest.entries := by
    refine List.eraseP_of_forall_not fun entry hmem heq => hrest ?_
    exact List.mem_map.mpr ⟨entry, hmem, by simpa using heq⟩
  have herase : (s.erase "plugins-dir").entries = rest.entries := by
    rw [Store.erase, hentries, dirsEntry]
    split
    · exact hothers
    · rw [List.singleton_append, List.eraseP_cons_of_pos (by simp)]
  have hplaced : placed (s.get? "plugins-dir") (.list more) = .list (dirs ++ more) := by
    rw [get?, hentries, dirsEntry]
    split
    case isTrue hnone =>
      have hget : rest.get? "plugins-dir" = none := get?_eq_none rest _ hrest
      rw [List.nil_append, ← get?, hget, hnone]
      rfl
    case isFalse hsome => rfl
  refine ⟨rest, ?_, hrest⟩
  rw [Store.insertAt, hplaced, herase, hentry, Nat.zero_min]
  rfl

end DirsFirst

end Store

namespace Section

open Store

variable {s t : Section} {dirs : List String}

theorem dirsFirst_registerPlugin (h : s.options.DirsFirst dirs) {command : String}
    (hcommand : command ∈ pluginCommands) (plugin : String) :
    (s.registerPlugin command plugin).options.DirsFirst dirs := by
  have hall : ∀ command ∈ pluginCommands, command ≠ "plugins-dir" := by decide
  unfold registerPlugin
  split
  · exact h
  · exact h.upsert (hall command hcommand) _

theorem dirsFirst_run (h : s.options.DirsFirst dirs) {e : Effect} (hkeys : "plugins-dir" ∉ e.keys)
    (hplace : ∀ key value position, e ≠ .insertAt key value position) :
    (e.run s).options.DirsFirst dirs := by
  cases e with
  | activate plugin => exact dirsFirst_registerPlugin h (by decide) plugin
  | merge options => exact h.merge hkeys
  | erase key => exact h.erase (Ne.symm (List.ne_of_not_mem_cons hkeys))
  | insert key value => exact h.upsert (Ne.symm (List.ne_of_not_mem_cons hkeys)) _
  | extend key texts => exact h.upsert (Ne.symm (List.ne_of_not_mem_cons hkeys)) _
  | insertAt key value position => exact absurd rfl (hplace key value position)

-- A call under other names leaves the directories where they are, unless it asks for a place.
theorem dirsFirst_apply (h : s.options.DirsFirst dirs) {m : Mutation}
    (hkeys : "plugins-dir" ∉ m.keys) (hpriority : m.priority = none)
    (groupPlugin : Option String) : (m.apply groupPlugin s).options.DirsFirst dirs := by
  have heffects : ∀ e ∈ m.effects groupPlugin, "plugins-dir" ∉ e.keys ∧
      ∀ key value position, e ≠ .insertAt key value position := by
    refine fun e he => ⟨fun hkey => hkeys (m.keys_effects groupPlugin e he hkey), ?_⟩
    rintro key value position rfl
    exact Mutation.not_insertAt_mem_effects hpriority he
  unfold Mutation.apply Effect.runAll
  generalize m.effects groupPlugin = effects at heffects
  induction effects generalizing s with
  | nil => exact h
  | cons e rest ih =>
    rw [List.forall_mem_cons] at heffects
    exact ih (dirsFirst_run h heffects.1.1 heffects.1.2) heffects.2

theorem dirsFirst_turn (h : s.options.DirsFirst dirs) (hturn : Turn s t) :
    t.options.DirsFirst dirs := by
  cases hturn with
  | enter hkind => exact h
  | register hcommand plugin => exact dirsFirst_registerPlugin h hcommand plugin
  | set hm => exact dirsFirst_apply h (hm.not_mem_keys List.mem_cons_self) hm.priority none
  | @setIn kind m hm =>
    have hin : (s.enter kind).options.DirsFirst dirs := h
    exact dirsFirst_apply hin (hm.not_mem_keys List.mem_cons_self) hm.priority _

theorem effects_searchDirs (dirs : List String) :
    (searchDirsMutation dirs).effects none =
      if dirs = [] then [] else [.insertAt "plugins-dir" (.list dirs) 0] := by
  have hkey : (searchDirsMutation dirs).storedKey = "plugins-dir" :=
    Mutation.storedKey_eq_of_keys (plain_searchDirs dirs).keys_eq
  have heffects : (searchDirsMutation dirs).effects none =
      (dirs.map Arg.text).flatMap Arg.contributions ++ (searchDirsMutation dirs).placement :=
    rfl
  have htexts : (searchDirsMutation dirs).stored.map Arg.render = dirs := by
    show (dirs.map Arg.text).map Arg.render = dirs
    rw [List.map_map]
    exact List.map_id'' (fun _ => rfl) dirs
  have hnothing : (dirs.map Arg.text).flatMap Arg.contributions = [] := by
    simp [Arg.contributions]
  rw [heffects, hnothing, List.nil_append, Mutation.placement, hkey, htexts]
  cases dirs <;> rfl

-- Only the call that is made for it touches the option.
theorem dirsFirst_setPlugins (h : s.options.DirsFirst dirs) (p : PluginsParams) :
    (s.setPlugins p).options.DirsFirst (dirs ++ p.searchDirs) := by
  have hregistered : (p.plugins.foldl (·.registerPlugin p.command) s).options.DirsFirst dirs :=
    p.register_induction (P := fun t => t.options.DirsFirst dirs)
      (fun _ _ plugin hcommand ht => dirsFirst_registerPlugin ht hcommand plugin) h
  have hdirs : ((p.plugins.foldl (·.registerPlugin p.command) s).set
      (searchDirsMutation p.searchDirs)).options.DirsFirst (dirs ++ p.searchDirs) := by
    rw [Section.set, Mutation.apply, effects_searchDirs]
    by_cases hnone : p.searchDirs = []
    · rw [if_pos hnone, hnone, List.append_nil]
      exact hregistered
    · rw [if_neg hnone]
      exact hregistered.insertAt hnone
  rw [setPlugins_eq]
  exact dirsFirst_turn hdirs (.set _ (.autoload p.autoload))

end Section

namespace Operation

open Section Store

variable {env : Environment} {s t : Section} {dirs : List String}

-- The directories that an operation names.
def searchDirs : Operation → List String
  | plugins p => p.searchDirs
  | _ => []

theorem dirsFirst_stepOf (h : s.options.DirsFirst dirs) {op : Operation} (hstep : StepOf op s t)
    (hop : ∀ p, op ≠ .plugins p) : t.options.DirsFirst dirs := by
  have hreference : ∀ key ∈ referenceOptions, "plugins-dir" ≠ key := by decide
  cases hstep with
  | turn hturn => exact dirsFirst_turn h hturn
  | refer hm =>
    refine dirsFirst_apply h ?_ hm.priority none
    rw [hm.keys_eq, List.mem_singleton]
    exact hreference _ hm.key_mem
  | name | stylePrints | version | enter | embed => exact h
  | plugins heq => exact absurd heq (hop _)

theorem dirsFirst_reach (h : s.options.DirsFirst dirs) (op : Operation) :
    (op.reach env s).options.DirsFirst (dirs ++ op.searchDirs) := by
  by_cases hop : ∃ p, op = .plugins p
  · obtain ⟨p, rfl⟩ := hop
    exact dirsFirst_setPlugins h p
  · have hnone : op.searchDirs = [] := by
      cases op <;> first | rfl | exact absurd ⟨_, rfl⟩ hop
    rw [hnone, List.append_nil]
    exact reach_induction_along (P := fun t => t.options.DirsFirst dirs) (along_run_stepOf env op)
      (fun _ _ hstep ht => dirsFirst_stepOf ht hstep (not_exists.mp hop)) h

theorem dirsFirst_reachAll (h : s.options.DirsFirst dirs) (ops : List Operation) :
    (reachAll env ops s).options.DirsFirst (dirs ++ ops.flatMap searchDirs) := by
  induction ops generalizing s dirs with
  | nil => simpa [reachAll] using h
  | cons op rest ih =>
    rw [List.flatMap_cons, ← List.append_assoc]
    exact ih (dirsFirst_reach h op)

-- After any history the directories are one entry, the first one, and all of them are in it, in the
-- order in which they were given; without any there is no such entry.
theorem search_dirs_first (env : Environment) (name : Option String) (ops : List Operation) :
    let s := reachAll env ops (Section.named name)
    let dirs := ops.flatMap searchDirs
    (dirs = [] → "plugins-dir" ∉ s.options.keys) ∧
      (dirs ≠ [] → ∃ rest, s.options.entries = ("plugins-dir", .list dirs) :: rest ∧
        "plugins-dir" ∉ rest.map Prod.fst) := by
  intro s dirs
  have hempty : (Section.named name).options.DirsFirst [] := ⟨∅, rfl, List.not_mem_nil⟩
  have hdirs : s.options.DirsFirst dirs := dirsFirst_reachAll hempty ops
  obtain ⟨rest, hentries, hrest⟩ := hdirs
  constructor
  · intro hnone
    rw [dirsEntry, if_pos hnone] at hentries
    rwa [Store.keys, hentries]
  · intro hsome
    rw [dirsEntry, if_neg hsome] at hentries
    exact ⟨rest.entries, hentries, hrest⟩

end Operation

end Vassal
