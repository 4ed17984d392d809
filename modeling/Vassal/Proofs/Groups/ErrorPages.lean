import Mathlib.Order.Bounds.Defs
import Vassal.Proofs.Path
import Vassal.Proofs.Section.Route
import Vassal.Proofs.Text.Digits

-- Error pages for several statuses at once.
--
-- The pages are gone through in ascending order of their statuses, and the first status that pages
-- are not managed for ends the call. So the pages of all smaller statuses have been added by then.

namespace Vassal

namespace ErrorPages

-- The directive for the pages of a status.
def key (status : Nat) : String :=
  "error-page-" ++ toString status

-- Where a page is, with a common path if one is given.
def place (base : Option String) (path : String) : String :=
  match base with
  | some base => Path.join base path
  | none => path

-- A page that belongs below a common path is there, and any other one stays where it is.
def Placed (base : Option String) (path placed : String) : Prop :=
  match base with
  | some base => Path.Joins base path placed
  | none => placed = path

theorem placed_place (base : Option String) (path : String) :
    Placed base path (place base path) := by
  cases base with
  | some base => exact Path.joins_join base path
  | none => exact rfl

def directives (base : Option String) (pages : List (Nat × String)) : List (String × String) :=
  pages.map fun page => (key page.1, place base page.2)

-- The pages that a call goes through.
def chosen (given : Option (List (Nat × String))) : List (Nat × String) :=
  ((given.map ofList).getD standard).entries

theorem chosen_ascending (given : Option (List (Nat × String))) :
    ((chosen given).map Prod.fst).Pairwise (· < ·) := by
  cases given with
  | none => exact Ascending.pairwise_ofList _
  | some pages => exact Ascending.pairwise_ofList pages

-- A map has the path that was given last for a status. Without a map all managed statuses have a
-- page that is named after them.
theorem lookup_chosen (given : Option (List (Nat × String))) (status : Nat) :
    (chosen given).lookup status =
      match given with
      | some pages => pages.reverse.lookup status
      | none => if status ∈ managedStatuses then some (toString status ++ ".html") else none := by
  cases given with
  | some pages => exact Ascending.lookup_ofList pages status
  | none =>
    have hascending : ((managedStatuses.map fun status => (status, toString status ++ ".html")).map
        Prod.fst).Pairwise (· < ·) := by decide
    have hentries : chosen none =
        managedStatuses.map fun status => (status, toString status ++ ".html") :=
      Ascending.ofList_of_pairwise hascending
    rw [hentries]
    dsimp only
    split
    case isTrue hmanaged => exact Ascending.lookup_table _ hmanaged
    case isFalse hnot =>
      refine List.lookup_eq_none_iff.mpr fun page hpage => ?_
      obtain ⟨other, hother, rfl⟩ := List.mem_map.mp hpage
      simpa using fun hsame : status = other => hnot (hsame ▸ hother)

theorem key_inj {status other : Nat} (h : key status = key other) : status = other :=
  Text.toString_inj ((String.append_right_inj "error-page-").mp h)

end ErrorPages

namespace Section

open ErrorPages

-- A section gains some pages, each below what stood under its directive, and nothing else happens
-- to its options. Asking for the group of routing comes before that.
structure HasPages (base : Option String) (pages : List (Nat × String)) (s t : Section) :
    Prop where
  rest : t = { s.enter routingKind with options := t.options }
  page : ∀ page ∈ pages, t.options.get? (key page.1) =
    some (.list (s.options.texts (key page.1) ++ [place base page.2]))
  others : t.options.without (pages.map (key ·.1)) = s.options.without (pages.map (key ·.1))
  keys : t.options.keys = (pages.map (key ·.1)).foldl Store.addName s.options.keys

def withPages (s : Section) (base : Option String) (pages : List (Nat × String)) : Section :=
  { s with options := s.options.fileAll (directives base pages) }

theorem hasPages_withPages (s : Section) (base : Option String) {pages : List (Nat × String)}
    (hascending : (pages.map Prod.fst).Pairwise (· < ·)) :
    s.HasPages base pages ((s.enter routingKind).withPages base pages) := by
  have hnames : (directives base pages).map Prod.fst = pages.map (key ·.1) := List.map_map
  have hnodup : ((directives base pages).map Prod.fst).Nodup := by
    rw [hnames]
    refine List.pairwise_map.mpr (List.Pairwise.imp ?_ (List.pairwise_map.mp hascending))
    exact fun hlt hkey => Nat.ne_of_lt hlt (key_inj hkey)
  refine ⟨rfl, fun page hpage => ?_, ?_, ?_⟩
  · have hmem : (key page.1, place base page.2) ∈ directives base pages :=
      List.mem_map_of_mem hpage
    have htexts := Store.textsIn_of_mem hnodup hmem
    have hget := s.options.get?_fileAll (directives base pages) (key page.1)
    rw [htexts] at hget
    exact hget
  · exact s.options.without_fileAll fun d hd => hnames ▸ List.mem_map_of_mem hd
  · exact hnames ▸ s.options.keys_fileAll (directives base pages)

section Call

variable {s : Section} (hentered : s.enter routingKind = s) (base : Option String)
include hentered

theorem enter_withPages (pages : List (Nat × String)) :
    (s.withPages base pages).enter routingKind = s.withPages base pages :=
  congrArg (fun t : Section => t.withPages base pages) hentered

theorem setErrorPage_of_managed {page : Nat × String} (h : page.1 ∈ managedStatuses) :
    setErrorPage page.1 (place base page.2) s = .ok () (s.withPages base [page]) := by
  have hset : s.setIn routingKind (.adding (key page.1) (.text (place base page.2))) =
      (s.enter routingKind).withPages base [page] := rfl
  unfold setErrorPage
  rw [if_pos (List.contains_iff_mem.mpr h)]
  show EStateM.Result.ok () ((s.enter routingKind).setIn routingKind
    (.adding (key page.1) (.text (place base page.2)))) = _
  rw [hentered, hset, hentered]

theorem setErrorPage_of_unmanaged {status : Nat} (h : status ∉ managedStatuses) (path : String) :
    setErrorPage status path s = .error (.unsupportedStatus status) s := by
  unfold setErrorPage
  rw [if_neg fun hmem => h (List.contains_iff_mem.mp hmem)]
  exact congrArg (EStateM.Result.error (Error.unsupportedStatus status)) hentered

theorem forM_setErrorPage {pages : List (Nat × String)}
    (hmanaged : ∀ page ∈ pages, page.1 ∈ managedStatuses) :
    (pages.forM fun page => setErrorPage page.1 (place base page.2)) s =
      .ok () (s.withPages base pages) := by
  induction pages generalizing s with
  | nil => rfl
  | cons page rest ih =>
    rw [List.forall_mem_cons] at hmanaged
    exact (Attempt.bind_of_ok (setErrorPage_of_managed hentered base hmanaged.1)).trans
      (ih (enter_withPages hentered base [page]) hmanaged.2)

-- The first status that pages are not managed for ends the run.
theorem forM_setErrorPage_of_unmanaged {before after : List (Nat × String)}
    {page : Nat × String} (hbefore : ∀ page ∈ before, page.1 ∈ managedStatuses)
    (hpage : page.1 ∉ managedStatuses) :
    ((before ++ page :: after).forM fun page => setErrorPage page.1 (place base page.2)) s =
      .error (.unsupportedStatus page.1) (s.withPages base before) := by
  induction before generalizing s with
  | nil => exact Attempt.bind_of_error (setErrorPage_of_unmanaged hentered hpage _)
  | cons first rest ih =>
    rw [List.forall_mem_cons] at hbefore
    exact (Attempt.bind_of_ok (setErrorPage_of_managed hentered base hbefore.1)).trans
      (ih (enter_withPages hentered base [first]) hbefore.2)

end Call

-- The pages of a map up to a status are those of all smaller ones.
theorem filter_lt_of_ascending {before after : List (Nat × String)} {page : Nat × String}
    (h : ((before ++ page :: after).map Prod.fst).Pairwise (· < ·)) :
    (before ++ page :: after).filter (·.1 < page.1) = before := by
  rw [List.map_append, List.map_cons, List.pairwise_append, List.pairwise_cons] at h
  obtain ⟨-, ⟨habove, -⟩, hbelow⟩ := h
  have hbefore : ∀ other ∈ before, decide (other.1 < page.1) = true := fun other hother =>
    decide_eq_true (hbelow other.1 (List.mem_map_of_mem hother) page.1 List.mem_cons_self)
  have hafter : ∀ other ∈ after, ¬decide (other.1 < page.1) = true := fun other hother => by
    simpa using Nat.le_of_lt (habove other.1 (List.mem_map_of_mem hother))
  rw [List.filter_append, List.filter_cons_of_neg (by simp), List.filter_eq_self.mpr hbefore,
    List.filter_eq_nil_iff.mpr hafter, List.append_nil]

theorem isLeast_of_ascending {before after : List (Nat × String)} {page : Nat × String}
    (h : ((before ++ page :: after).map Prod.fst).Pairwise (· < ·))
    (hbefore : ∀ page ∈ before, page.1 ∈ managedStatuses) (hpage : page.1 ∉ managedStatuses) :
    IsLeast {status | status ∈ (before ++ page :: after).map Prod.fst ∧ status ∉ managedStatuses}
      page.1 := by
  refine ⟨⟨List.mem_map_of_mem (by simp), hpage⟩, fun status ⟨hmem, hnot⟩ => ?_⟩
  rw [List.map_append, List.map_cons, List.pairwise_append, List.pairwise_cons] at h
  rw [List.map_append, List.map_cons, List.mem_append, List.mem_cons] at hmem
  rcases hmem with hfirst | rfl | hlater
  · obtain ⟨other, hother, rfl⟩ := List.mem_map.mp hfirst
    exact absurd (hbefore other hother) hnot
  · exact Nat.le_refl _
  · exact Nat.le_of_lt (h.2.1.1 status hlater)

-- Either all statuses are managed, or the call ends at the smallest one that is not.
theorem forM_setErrorPage_cases (s : Section) (base : Option String) {pages : List (Nat × String)}
    (hascending : (pages.map Prod.fst).Pairwise (· < ·)) :
    let run := (pages.forM fun page => setErrorPage page.1 (place base page.2))
      (s.enter routingKind)
    ((∀ page ∈ pages, page.1 ∈ managedStatuses) ∧
      ∃ t, run = .ok () t ∧ s.HasPages base pages t) ∨
    ∃ status t, IsLeast {status | status ∈ pages.map Prod.fst ∧ status ∉ managedStatuses} status ∧
      run = .error (.unsupportedStatus status) t ∧
      s.HasPages base (pages.filter (·.1 < status)) t := by
  intro run
  have hentered : (s.enter routingKind).enter routingKind = s.enter routingKind :=
    enter_enter s routingKind
  cases hfind : pages.find? (fun page => decide (page.1 ∉ managedStatuses)) with
  | none =>
    have hmanaged : ∀ page ∈ pages, page.1 ∈ managedStatuses := by
      simpa using List.find?_eq_none.mp hfind
    exact .inl ⟨hmanaged, _, forM_setErrorPage hentered base hmanaged,
      s.hasPages_withPages base hascending⟩
  | some page =>
    obtain ⟨hpage, before, after, rfl, hbefore⟩ := List.find?_eq_some_iff_append.mp hfind
    have hpage : page.1 ∉ managedStatuses := of_decide_eq_true hpage
    have hbefore : ∀ page ∈ before, page.1 ∈ managedStatuses := by simpa using hbefore
    have hfirst : (before.map Prod.fst).Pairwise (· < ·) :=
      hascending.sublist ((List.sublist_append_left before _).map Prod.fst)
    refine .inr ⟨page.1, _, isLeast_of_ascending hascending hbefore hpage,
      forM_setErrorPage_of_unmanaged hentered base hbefore hpage, ?_⟩
    rw [filter_lt_of_ascending hascending]
    exact s.hasPages_withPages base hfirst

-- Pages are given for each status at most once, and the call goes through them in ascending order.
-- It succeeds exactly if pages are managed for all of their statuses, and then each page has been
-- added once. Else it tells the smallest status that they are not managed for, and the pages of all
-- smaller ones have been added. A page is where its path leads to from the common one.
theorem setErrorPages_exact (given : Option (List (Nat × String))) (base : Option String)
    (s : Section) :
    let pages := chosen given
    let call := setErrorPages (given.map ErrorPages.ofList) base s
    (pages.map Prod.fst).Pairwise (· < ·) ∧
    (∀ status, pages.lookup status =
      match given with
      | some entries => entries.reverse.lookup status
      | none => if status ∈ managedStatuses then some (toString status ++ ".html") else none) ∧
    ((∃ t, call = .ok () t) ↔ ∀ page ∈ pages, page.1 ∈ managedStatuses) ∧
    (match call with
      | .ok _ t => s.HasPages base pages t
      | .error e t => ∃ status,
        IsLeast {status | status ∈ pages.map Prod.fst ∧ status ∉ managedStatuses} status ∧
          e = .unsupportedStatus status ∧ s.HasPages base (pages.filter (·.1 < status)) t) ∧
    ∀ path, Placed base path (place base path) := by
  intro pages call
  have hascending : (pages.map Prod.fst).Pairwise (· < ·) := chosen_ascending given
  have hcall : call = (pages.forM fun page => setErrorPage page.1 (place base page.2))
      (s.enter routingKind) := rfl
  refine ⟨hascending, lookup_chosen given, ?_⟩
  rcases forM_setErrorPage_cases s base hascending with
    ⟨hmanaged, t, hrun, hpages⟩ | ⟨status, t, hleast, hrun, hpages⟩
  · rw [hcall, hrun]
    exact ⟨iff_of_true ⟨t, rfl⟩ hmanaged, hpages, placed_place base⟩
  · rw [hcall, hrun]
    obtain ⟨page, hpage, rfl⟩ := List.mem_map.mp hleast.1.1
    exact ⟨iff_of_false (fun ⟨_, h⟩ => nomatch h) fun hall => hleast.1.2 (hall page hpage),
      ⟨page.1, hleast, rfl, hpages⟩, placed_place base⟩

-- The pages of both smaller statuses have been added when the third one is found not to be managed.
example :
    let pages := ErrorPages.ofList
      [(500, "/500.html"), (499, "499.html"), (404, ""), (403, "/a.html"), (403, "b.html")]
    (Attempt.left (setErrorPages (some pages) (some "www")) ∅).lines =
      ["[uwsgi]", "error-page-403 = www/b.html", "error-page-404 = www/"] := by
  decide +kernel

end Section

end Vassal
