import Dayseam.Connectors.Jira
import Mathlib

/-!
# The walk over Jira issues

The walk searches for the issues that were updated in a day and follows the tokens of the
pages.  Fifty pages are the cap; the walk that reaches it ends as if it had read them all.

## Main definitions

* `Jira.walkDay` — the walk of a day.
* `Jira.NoSilentTruncation`, `Jira.Exhausts`.

## Main results

* `Jira.noSilentTruncation_iff` — when the walk misses nothing without an error.
-/

namespace Dayseam
namespace Jira

open Atlassian
open Connectors (sortByInstant)

/-- The walk over the issues of a search; their events are put one after another. -/
def issueWalk (w : WalkInput) (selfAccountId : Text) :
    CursorWalk JqlTokenPaginator.parse (List ActivityEvent) (List ActivityEvent) where
  product := .jira
  rowsKey := "issues".toList
  refused := "JQL response was not a JSON object / paginator refused the shape".toList
  missing := "JQL response missing `issues` array".toList
  normalise := normaliseIssue w.crates w.sourceId w.workspaceUrl selfAccountId w.window
  step events issueEvents := events ++ issueEvents

def searchPath : Text := "rest/api/3/search/jql".toList

def badWorkspaceUrl (e : Text) : DayseamError :=
  .invalidConfig "jira.config.bad_workspace_url".toList
    ("cannot join `/rest/api/3/search/jql`: ".toList ++ e)

/-- The walk of a day; without an account of the user there is nothing to ask for. -/
def walkDay (w : WalkInput) (fails : ℕ → Option DayseamError)
    (upstream : CursorUpstream JqlTokenPaginator.parse) : Except DayseamError (List ActivityEvent) :=
  match selfAccountId w.sourceIdentities w.sourceId with
  | none => .ok []
  | some self =>
    match w.crates.joinUrl w.workspaceUrl searchPath with
    | .error e => .error (badWorkspaceUrl e)
    | .ok _ => ((issueWalk w self).walkPages fails upstream []).map sortByInstant

/-! ### Silent truncation -/

variable (w : WalkInput) (upstream : CursorUpstream JqlTokenPaginator.parse)

/-- What the user did in the day, to an issue with a key that is on a page. -/
def DidInDay (self key : Text) (action : Action) : Prop :=
  ∃ body ∈ upstream.pages, ∃ issues ∈ body.arrayAt ["issues".toList], ∃ issue ∈ issues,
    issue.strAt ["key".toList] = some key ∧ ∃ fields ∈ issue.get "fields".toList,
      Did w.crates self (fun t => localDate w.localTz t = w.day) issue fields action

/-- The user has an account, and the upstream still offers a page when the walk has read as
many as it may. -/
def CapReached : Prop :=
  (selfAccountId w.sourceIdentities w.sourceId).isSome = true ∧ MAX_PAGES < upstream.pages.length

/-- Whatever goes wrong, a walk that returns events has one for everything that the user
did in the day, and a walk that reaches the cap returns an error. -/
def NoSilentTruncation : Prop :=
  ∀ fails, (∀ events, walkDay w fails upstream = .ok events →
      ∀ self ∈ selfAccountId w.sourceIdentities w.sourceId, ∀ key action,
        DidInDay w upstream self key action → ∃ e ∈ events, Tells key e action) ∧
    (CapReached w upstream → ∃ err, walkDay w fails upstream = .error err)

/-- An answer with an array of issues that have their mandatory fields. -/
def WellFormed (body : Json) : Prop :=
  body.isObject = true ∧ ∃ issues ∈ body.arrayAt ["issues".toList], ∀ issue ∈ issues,
    WellFormedIssue issue

/-- A walk for an account, over pages of which the first fifty are well formed, has at most
fifty pages before it. -/
def Exhausts : Prop :=
  (selfAccountId w.sourceIdentities w.sourceId).isSome = true →
    (∃ url, w.crates.joinUrl w.workspaceUrl searchPath = .ok url) →
      (∀ body ∈ upstream.pages.take MAX_PAGES, WellFormed body) →
        upstream.pages.length ≤ MAX_PAGES

variable {w upstream} {self : Text}

theorem parse_eq_some_iff {body : Json} {page : Page} :
    JqlTokenPaginator.parse body = some page →
      body.isObject = true ∧ page.body = body := by
  unfold JqlTokenPaginator.parse
  split_ifs with h
  · intro hpage
    obtain rfl := Option.some.inj hpage
    exact ⟨h, rfl⟩
  · exact fun hpage => nomatch hpage

theorem wellFormed_iff {body : Json} : (issueWalk w self).WellFormed body ↔ WellFormed body := by
  have hread : ∀ issue, (∃ events, (issueWalk w self).normalise issue = .ok events) ↔
      WellFormedIssue issue := fun _ => exists_normaliseIssue_iff
  unfold CursorWalk.WellFormed WellFormed
  simp only [hread]
  constructor
  · rintro ⟨page, hpage, issues, hissues, hall⟩
    obtain ⟨hobject, hbody⟩ := parse_eq_some_iff hpage
    exact ⟨hobject, issues, hbody ▸ hissues, hall⟩
  · rintro ⟨hobject, issues, hissues, hall⟩
    exact ⟨_, if_pos hobject, issues, hissues, hall⟩

/-- The window of the walk holds the day. -/
theorem inDay_contains : ∀ t, localDate w.localTz t = w.day → w.window.contains t = true :=
  fun t h => (@Connectors.accepts_iff_localDate w.localTz w.day t .jira (by decide)).mpr h

/-- The events of an issue that was read are among those of the walk. -/
theorem exists_normalise_of_readAll {bodies : List Json} {events : List ActivityEvent}
    (h : (issueWalk w self).readAll bodies [] = .ok events) {body : Json} (hbody : body ∈ bodies)
    {issues : List Json} (hissues : issues ∈ body.arrayAt ["issues".toList]) {issue : Json}
    (hissue : issue ∈ issues) :
    ∃ own, normaliseIssue w.crates w.sourceId w.workspaceUrl self w.window issue = .ok own ∧
      own ⊆ events := by
  obtain ⟨outcomes, hreads, rfl⟩ := CursorWalk.readAll_eq_ok_iff.mp h
  obtain ⟨pageOutcomes, hpageOutcomes, rows, hrows, hnormalise⟩ :=
    Collapse.exists_right_of_mem hreads hbody
  obtain ⟨page, hpage, hpageRows⟩ := CursorWalk.rows_eq_ok_iff.mp hrows
  obtain rfl : rows = issues := by
    rw [(parse_eq_some_iff hpage).2] at hpageRows
    exact Option.some.inj (hpageRows.symm.trans hissues)
  obtain ⟨own, hown, hok⟩ := Collapse.exists_right_of_mem hnormalise hissue
  refine ⟨own, hok, fun e he => ?_⟩
  have hflat : outcomes.flatten.foldl (issueWalk w self).step [] = outcomes.flatten.flatten := by
    have happend := @List.foldl_append_eq_append _ _ outcomes.flatten id []
    rw [List.nil_append, List.map_id] at happend
    exact happend
  rw [hflat]
  exact List.mem_flatten.mpr ⟨own, List.mem_flatten.mpr ⟨pageOutcomes, hpageOutcomes, hown⟩, he⟩

/-- A walk that has read every page tells of everything that the user did in the day. -/
theorem exists_tells_of_readAll {events : List ActivityEvent}
    (h : (issueWalk w self).readAll upstream.pages [] = .ok events) {key : Text} {action : Action}
    (hdid : DidInDay w upstream self key action) :
    ∃ e ∈ sortByInstant events, Tells key e action := by
  obtain ⟨body, hbody, issues, hissues, issue, hissue, hkey, fields, hfields, hdid⟩ := hdid
  obtain ⟨own, hown, hsub⟩ := exists_normalise_of_readAll h hbody hissues hissue
  obtain ⟨key', hkey', e, he, htells⟩ := exists_tells inDay_contains hown hfields hdid
  obtain rfl := Option.some.inj (hkey.symm.trans hkey')
  exact ⟨e, Connectors.mem_sortByInstant.mpr (hsub he), htells⟩

/-- **When the walk misses nothing without an error.** -/
theorem noSilentTruncation_iff : NoSilentTruncation w upstream ↔ Exhausts w upstream := by
  unfold NoSilentTruncation Exhausts CapReached walkDay
  cases haccount : selfAccountId w.sourceIdentities w.sourceId with
  | none => simp
  | some self =>
    cases hurl : w.crates.joinUrl w.workspaceUrl searchPath with
    | error e => simp
    | ok url =>
      have hwell : (∀ body ∈ upstream.pages.take MAX_PAGES, WellFormed body) ↔
          ∃ events, (issueWalk w self).readAll (upstream.pages.take MAX_PAGES) [] = .ok events := by
        simp only [CursorWalk.exists_readAll_iff, wellFormed_iff]
      have hwalk := @CursorWalk.forall_walkPages_iff _ _ _ (issueWalk w self) upstream []
        fun events => ∀ key action, DidInDay w upstream self key action →
          ∃ e ∈ sortByInstant events, Tells key e action
      rw [hwell]
      simp only [CursorWalk.map_eq_ok_iff, CursorWalk.map_eq_error_iff, Option.mem_some_iff,
        forall_eq', forall_exists_index, and_imp, forall_apply_eq_imp_iff₂, Option.isSome_some,
        true_imp_iff, hwalk, Except.ok.injEq]
      constructor
      · intro h events hread
        exact (h events hread).1
      · intro h events hread
        have hshort := h events hread
        rw [List.take_of_length_le hshort] at hread
        exact ⟨hshort, fun key action => exists_tells_of_readAll hread⟩

end Jira
end Dayseam
