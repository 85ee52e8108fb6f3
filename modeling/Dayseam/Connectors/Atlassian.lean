import Dayseam.Connectors.DayWindow
import Dayseam.Core.Runs
import Dayseam.Lib.Paging
import Mathlib

/-!
# The walks over Atlassian products

Jira and Confluence answer a request with a page of rows and the cursor of the next page.
Both walks follow the cursors for at most fifty pages, and they read every row of a page.

## Main definitions

* `JqlTokenPaginator`, `V2CursorPaginator` — the cursor of the next page.
* `CursorUpstream` — a finite chain of pages along the cursors.
* `CursorWalk.walkPages` — the walk that the connectors share.
* `CursorWalk.readAll` — reading the pages of a list.

## Main results

* `CursorWalk.walkPages_ok`, `CursorWalk.walkPages_calm` — a walk that ends has read the
  first fifty pages.
* `CursorWalk.readAll_eq_ok_iff` — what it made of their rows.
-/

namespace Dayseam

open Paging (Flow Offers)

namespace Atlassian

/-! ### What the connectors share -/

inductive Product
  | jira
  | confluence
  deriving DecidableEq, Repr

def JIRA_WALK_UPSTREAM_SHAPE_CHANGED : Text := "jira.walk.upstream_shape_changed".toList

def CONFLUENCE_WALK_UPSTREAM_SHAPE_CHANGED : Text :=
  "confluence.walk.upstream_shape_changed".toList

/-- The error for a field that an answer lacks. -/
def shapeError (product : Product) (message : Text) : DayseamError :=
  .upstreamChanged (match product with
    | .jira => JIRA_WALK_UPSTREAM_SHAPE_CHANGED
    | .confluence => CONFLUENCE_WALK_UPSTREAM_SHAPE_CHANGED) message

/-- What the connectors take from other crates: the UUIDv5 of a namespace and a name, the
instant that a text names in RFC 3339 or in a format, a URL joined with a path, and the
JSON value of a text. -/
structure Crates where
  newV5 : Uuid → List UInt8 → Uuid
  parseFromRfc3339 : Text → Option ℤ
  parseFromStr : Text → Text → Option ℤ
  joinUrl : Text → Text → Except Text Text
  fromJsonStr : Text → Option Json

/-- An instant with or without a colon in its offset. -/
def Crates.parseDatetime (crates : Crates) (raw : Text) : Option ℤ :=
  (crates.parseFromRfc3339 raw).or (crates.parseFromStr raw "%Y-%m-%dT%H:%M:%S%.3f%z".toList)

/-- Milliseconds since the epoch. -/
def timestampMillis (instant : ℤ) : ℤ := instant / 1000000

/-- The whole seconds between two instants, without their fraction. -/
def numSeconds (nanos : ℤ) : ℤ := nanos.tdiv nanosPerSec

/-- What a walk is for. -/
structure WalkInput where
  crates : Crates
  workspaceUrl : Text
  sourceId : Uuid
  sourceIdentities : List SourceIdentity
  day : NaiveDate
  localTz : FixedOffset

def WalkInput.window (w : WalkInput) : Connectors.DayWindow := .ofDay w.day w.localTz

/-- The account of the user, from the first row that may be of the source. -/
def selfAccountId (identities : List SourceIdentity) (sourceId : Uuid) : Option Text :=
  (identities.find? fun i => i.kind = .atlassianAccountId ∧
    (i.sourceId = none ∨ i.sourceId = some sourceId)).map (·.externalActorId)

/-! ### Paginators -/

structure Page where
  body : Json
  nextCursor : Option Text

def nonEmpty (t : Text) : Option Text := if t = [] then none else some t

/-- The page of Jira is the last where it says so, or where it has no token. -/
def JqlTokenPaginator.parse (body : Json) : Option Page :=
  if body.isObject then
    let isLast := ((body.get "isLast".toList).bind Json.asBool).getD false
    let nextCursor := (body.strAt ["nextPageToken".toList]).bind nonEmpty
    some ⟨body, if isLast then none else nextCursor⟩
  else none

/-- The first value of the parameter `cursor` in the query of a link, as it stands there. -/
def extractCursorQueryParam (url : Text) : Option Text :=
  (Text.splitFirst '?' url).bind fun split =>
    (split.2.splitOn '&').findSome? fun pair =>
      ("cursor=".toList.isPrefixOf? pair).bind nonEmpty

/-- The page of Confluence is the last where it has no link with a cursor. -/
def V2CursorPaginator.parse (body : Json) : Option Page :=
  if body.isObject then
    let nextLink := (body.strAt ["_links".toList, "next".toList]).bind nonEmpty
    some ⟨body, nextLink.bind extractCursorQueryParam⟩
  else none

/-! ### The walk along the cursors -/

def MAX_PAGES : ℕ := 50

/-- The answers to the requests with and without a cursor, and the pages that they chain
up to from the first request on. -/
structure CursorUpstream (parse : Json → Option Page) where
  page : Option Text → Json
  pages : List Json
  offers : Offers page (fun _ body => ((parse body).bind (·.nextCursor)).map some) none pages

/-- What two walks with a paginator differ in: the key of the rows, the texts of the errors,
what a row is read as, and what the walk makes of that. -/
structure CursorWalk (parse : Json → Option Page) (ρ σ : Type) where
  product : Product
  rowsKey : Text
  refused : Text
  missing : Text
  normalise : Json → Except DayseamError ρ
  step : σ → ρ → σ

namespace CursorWalk

variable {parse : Json → Option Page} {ρ σ : Type} (walk : CursorWalk parse ρ σ)

/-- The rows of an answer. -/
def rows (body : Json) : Except DayseamError (List Json) :=
  match parse body with
  | none => .error (shapeError walk.product walk.refused)
  | some page =>
    match page.body.arrayAt [walk.rowsKey] with
    | none => .error (shapeError walk.product walk.missing)
    | some rows => .ok rows

def readRow (s : σ) (row : Json) : Except DayseamError σ := (walk.normalise row).map (walk.step s)

/-- Read every row of an answer. -/
def readRows (s : σ) (body : Json) : Except DayseamError σ :=
  (walk.rows body).bind fun rows => rows.foldlM walk.readRow s

def readPage (s : σ) (body : Json) : Except DayseamError (Flow σ) :=
  (walk.readRows s body).map Flow.more

/-- Read the answers of a list. -/
def readAll (bodies : List Json) (s : σ) : Except DayseamError σ :=
  bodies.foldlM walk.readRows s

/-- The walk; `fails i` when request `i` is cancelled, refused, or not answered with
JSON.  A cursor that is left over at the cap is dropped. -/
def walkPages (fails : ℕ → Option DayseamError) (upstream : CursorUpstream parse) (s : σ) :
    Except DayseamError σ :=
  (Paging.walk fails upstream.page
    (fun _ body => ((parse body).bind (·.nextCursor)).map some) walk.readPage MAX_PAGES 0 none
    s).map (·.1)

variable {walk} {upstream : CursorUpstream parse} {s s' : σ}

theorem map_walkList (fails : ℕ → Option DayseamError) :
    walk.walkPages fails upstream s =
      (Paging.walkList fails walk.readPage MAX_PAGES 0 upstream.pages s).map (·.1) := by
  rw [← Paging.walk_of_offers upstream.offers]
  unfold walkPages
  cases Paging.walk fails upstream.page _ walk.readPage MAX_PAGES 0 none s <;> rfl

/-- Where no request fails, the first fifty pages are read. -/
theorem walkPages_calm :
    walk.walkPages (fun _ => none) upstream s =
      walk.readAll (upstream.pages.take MAX_PAGES) s := by
  have hread : ∀ s body, walk.readPage s body = (walk.readRows s body).map Flow.more :=
    fun _ _ => rfl
  rw [map_walkList, Paging.walkList_more hread]
  unfold readAll
  cases (upstream.pages.take MAX_PAGES).foldlM walk.readRows s <;> rfl

/-- **A walk that ends has read the first fifty pages.** -/
theorem walkPages_ok {fails : ℕ → Option DayseamError}
    (h : walk.walkPages fails upstream s = .ok s') :
    walk.readAll (upstream.pages.take MAX_PAGES) s = .ok s' := by
  rw [map_walkList] at h
  obtain ⟨r, hlist, rfl⟩ := Paging.exists_of_map_eq_ok h
  have hcalm : walk.walkPages (fun _ => none) upstream s =
      walk.readAll (upstream.pages.take MAX_PAGES) s := walkPages_calm
  rw [← hcalm, map_walkList, Paging.walkList_eq_of_ok hlist]
  rfl

/-- A walk that reaches the cap ends in an error, and one that ends has covered what is
asked for, exactly if this is so of a walk in which no request fails. -/
theorem forall_walkPages_iff {Covered : σ → Prop} :
    (∀ fails, (∀ s', walk.walkPages fails upstream s = .ok s' → Covered s') ∧
      (MAX_PAGES < upstream.pages.length →
        ∃ err, walk.walkPages fails upstream s = .error err)) ↔
    ∀ s', walk.readAll (upstream.pages.take MAX_PAGES) s = .ok s' →
      upstream.pages.length ≤ MAX_PAGES ∧ Covered s' := by
  constructor
  · intro h s' hread
    obtain ⟨hcovered, hcap⟩ := h fun _ => none
    rw [walkPages_calm, hread] at hcap
    refine ⟨not_lt.mp fun hlong => ?_, hcovered s' (by rw [walkPages_calm, hread])⟩
    obtain ⟨err, herr⟩ := hcap hlong
    exact nomatch herr
  · refine fun h fails => ⟨fun s' hwalk => (h s' (walkPages_ok hwalk)).2, fun hlong => ?_⟩
    cases hwalk : walk.walkPages fails upstream s with
    | error err => exact ⟨err, rfl⟩
    | ok s' => exact absurd (h s' (walkPages_ok hwalk)).1 (not_le.mpr hlong)

theorem map_eq_ok_iff {ε α β : Type} {f : α → β} {x : Except ε α} {b : β} :
    x.map f = .ok b ↔ ∃ a, x = .ok a ∧ f a = b := by
  cases x <;> simp [Except.map]

theorem map_eq_error_iff {ε α β : Type} {f : α → β} {x : Except ε α} {err : ε} :
    x.map f = .error err ↔ x = .error err := by
  cases x <;> simp [Except.map]

/-! ### What the pages are read as -/

/-- What the rows of an answer are read as. -/
def ReadsAs (walk : CursorWalk parse ρ σ) (body : Json) (outcomes : List ρ) : Prop :=
  ∃ rows, walk.rows body = .ok rows ∧
    List.Forall₂ (fun row outcome => walk.normalise row = .ok outcome) rows outcomes

theorem readRows_eq_ok_iff {body : Json} :
    walk.readRows s body = .ok s' ↔
      ∃ outcomes, walk.ReadsAs body outcomes ∧ outcomes.foldl walk.step s = s' := by
  have hrow : ∀ s row s', walk.readRow s row = .ok s' ↔
      ∃ outcome, walk.normalise row = .ok outcome ∧ walk.step s outcome = s' := by
    intro s row s'
    unfold readRow
    cases walk.normalise row <;> simp [Except.map]
  unfold readRows ReadsAs
  cases walk.rows body with
  | error err => simp [Except.bind]
  | ok rows =>
    simp only [Except.bind, Paging.foldlM_eq_ok_iff hrow, Except.ok.injEq, exists_eq_left']

/-- **Reading the pages of a list** makes one step for each row. -/
theorem readAll_eq_ok_iff {bodies : List Json} :
    walk.readAll bodies s = .ok s' ↔
      ∃ outcomes, List.Forall₂ walk.ReadsAs bodies outcomes ∧
        outcomes.flatten.foldl walk.step s = s' := by
  have hstep : ∀ (s : σ) (body : Json) (s' : σ), walk.readRows s body = .ok s' ↔
      ∃ outcomes, walk.ReadsAs body outcomes ∧ outcomes.foldl walk.step s = s' :=
    fun _ _ _ => readRows_eq_ok_iff
  unfold readAll
  rw [Paging.foldlM_eq_ok_iff hstep]
  simp only [List.foldl_flatten]

/-- An answer with an array of rows, each of which can be read. -/
def WellFormed (walk : CursorWalk parse ρ σ) (body : Json) : Prop :=
  ∃ page ∈ parse body, ∃ rows ∈ page.body.arrayAt [walk.rowsKey],
    ∀ row ∈ rows, ∃ outcome, walk.normalise row = .ok outcome

theorem rows_eq_ok_iff {body : Json} {rows : List Json} :
    walk.rows body = .ok rows ↔
      ∃ page ∈ parse body, rows ∈ page.body.arrayAt [walk.rowsKey] := by
  unfold CursorWalk.rows
  cases parse body with
  | none => simp
  | some page =>
    dsimp only
    cases hrows : page.body.arrayAt [walk.rowsKey] with
    | none => simp [hrows]
    | some rows' => simp [hrows]

/-- The pages of a list can be read where each is well formed. -/
theorem exists_readAll_iff {bodies : List Json} :
    (∃ s', walk.readAll bodies s = .ok s') ↔ ∀ body ∈ bodies, walk.WellFormed body := by
  have hbody : ∀ body, walk.WellFormed body ↔ ∃ outcomes, walk.ReadsAs body outcomes := by
    intro body
    unfold ReadsAs WellFormed
    simp only [rows_eq_ok_iff]
    constructor
    · rintro ⟨page, hpage, rows, hrows, hread⟩
      obtain ⟨outcomes, houtcomes⟩ := Paging.exists_forall₂_iff.mpr hread
      exact ⟨outcomes, rows, ⟨page, hpage, hrows⟩, houtcomes⟩
    · rintro ⟨outcomes, rows, ⟨page, hpage, hrows⟩, houtcomes⟩
      exact ⟨page, hpage, rows, hrows, Paging.exists_forall₂_iff.mp ⟨outcomes, houtcomes⟩⟩
  simp only [hbody, ← Paging.exists_forall₂_iff, readAll_eq_ok_iff]
  constructor
  · rintro ⟨s', outcomes, h, -⟩
    exact ⟨outcomes, h⟩
  · rintro ⟨outcomes, h⟩
    exact ⟨_, outcomes, h, rfl⟩

end CursorWalk
end Atlassian
end Dayseam
