import Dayseam.Connectors.Confluence
import Mathlib

/-!
# The walk over Confluence content

The walk searches for the content of a day and follows the cursors of the pages.  It keeps
the saves of each page aside; at the end, a page with saves that follow each other within
five minutes has its edits replaced by those that the saves come to.

## Main definitions

* `Confluence.walkDay` — the walk of a day.
* `Confluence.KeepsEdits` — the walk loses no edit.
* `Confluence.BurstKept` — when the edits of a page with such saves are kept.

## Main results

* `Confluence.editsOf_postPass` — what the last pass makes of a page.
* `Confluence.keepsEdits_iff` — **when the walk loses no edit.**
-/

namespace Dayseam
namespace Confluence

open Atlassian
open Collapse (Builds Runs)
open Connectors (sortByInstant)
open StableSort (sortBy)

/-! ### The rows -/

/-- The saves of a page. -/
structure PageEdits where
  contentId : Text
  edits : List PageEditRecord
  deriving DecidableEq, Repr

structure WalkState where
  editsByPage : List PageEdits
  events : List ActivityEvent

def isEdit (event : ActivityEvent) : Bool := event.kind == .confluencePageEdited

def pageContentId (result : Json) : Option Text := result.strAt ["content".toList, "id".toList]

def recordOf (event : ActivityEvent) : PageEditRecord where
  occurredAt := event.occurredAt
  versionNumber :=
    (((event.metadata.get "version_number".toList).bind Json.asU64).getD 1) % 2 ^ 32

def pushEdit (contentId : Text) (record : PageEditRecord) (pages : List PageEdits) :
    List PageEdits :=
  OrderedMap.upsert (·.contentId)
    (fun held => ⟨contentId, ((held.map (·.edits)).getD []) ++ [record]⟩) contentId pages

/-- What the walk keeps of a row: the event, and with an edit its save. -/
def keepRow (s : WalkState) : Option (Text × ActivityEvent) → WalkState
  | none => s
  | some (contentId, event) =>
    { editsByPage := if isEdit event then pushEdit contentId (recordOf event) s.editsByPage
        else s.editsByPage
      events := s.events ++ [event] }

/-! ### The last pass -/

/-- The id of a page in an upstream id `page:<content_id>:…`. -/
def pageContentIdFromEvent (event : ActivityEvent) : Option Text :=
  ("page:".toList.isPrefixOf? event.externalId).map (·.takeWhile (· != ':'))

def editsPage (contentId : Text) (event : ActivityEvent) : Bool :=
  isEdit event && pageContentIdFromEvent event == some contentId

def rollupId (contentId : Text) (occurredAt : ℤ) : Text :=
  editedId contentId occurredAt ++ ":rollup".toList

def saveCountField (saveCount : ℕ) : Text × Json :=
  ("save_count".toList, .number (Nat.toDigits 10 saveCount))

/-- The event of the saves that come to one edit, with the rest as the template has it. -/
def rollup (newV5 : Uuid → List UInt8 → Uuid) (sourceId : Uuid) (selfAccountId contentId : Text)
    (run : CollapsedEdit) (template : ActivityEvent) : ActivityEvent where
  id := ActivityEvent.deterministicId newV5 sourceId (rollupId contentId run.occurredAt)
    .confluencePageEdited
  sourceId := sourceId
  externalId := rollupId contentId run.occurredAt
  kind := .confluencePageEdited
  occurredAt := run.occurredAt
  actor := ⟨[], none, some selfAccountId⟩
  title := "Edited page \"".toList ++
    ((template.entity? .confluencePage).bind (·.label)).getD "page".toList ++
      "\" (rolled up from ".toList ++ Nat.toDigits 10 run.saveCount ++ " saves)".toList
  body := none
  links := template.links
  entities := template.entities
  parentExternalId := template.parentExternalId
  metadata := if template.metadata.isObject then
      let (versionKey, version) := versionField run.versionNumber
      let (countKey, count) := saveCountField run.saveCount
      (template.metadata.set versionKey version).set countKey count
    else template.metadata
  privacy := template.privacy

variable (newV5 : Uuid → List UInt8 → Uuid) (sourceId : Uuid) (selfAccountId : Text)

def synthesizeCollapsedEdit (pool : List ActivityEvent) (contentId : Text) (run : CollapsedEdit) :
    Option ActivityEvent :=
  (pool.find? (editsPage contentId)).map (rollup newV5 sourceId selfAccountId contentId run)

/-- The replacements for the edits of a page: one for each run of two saves or more. -/
def replacements (pool : List ActivityEvent) (contentId : Text) (collapsed : List CollapsedEdit) :
    List ActivityEvent :=
  collapsed.filterMap fun run =>
    if 1 < run.saveCount then
      synthesizeCollapsedEdit newV5 sourceId selfAccountId pool contentId run
    else none

def collapsePage (pool : List ActivityEvent) (page : PageEdits) : List ActivityEvent :=
  let collapsed := collapseRapidEdits (sortBy (·.occurredAt) page.edits)
  if collapsed.length < page.edits.length then
    pool.filter (fun event => !editsPage page.contentId event) ++
      replacements newV5 sourceId selfAccountId pool page.contentId collapsed
  else pool

def postPass (pages : List PageEdits) (pool : List ActivityEvent) : List ActivityEvent :=
  pages.foldl (collapsePage newV5 sourceId selfAccountId) pool

/-! ### The walk -/

/-- The walk over the rows of a search. -/
def contentWalk (w : WalkInput) (selfAccountId : Text) :
    CursorWalk V2CursorPaginator.parse (Option (Text × ActivityEvent)) WalkState where
  product := .confluence
  rowsKey := "results".toList
  refused := "CQL response was not a JSON object / paginator refused the shape".toList
  missing := "CQL response missing `results` array".toList
  normalise result := (normaliseResult w.crates w.sourceId w.workspaceUrl selfAccountId w.window
    result).map fun event => event.map fun e => ((pageContentId result).getD [], e)
  step := keepRow

def searchPath : Text := "wiki/rest/api/search".toList

def badWorkspaceUrl (e : Text) : DayseamError :=
  .invalidConfig "confluence.config.bad_workspace_url".toList
    ("cannot join `/wiki/rest/api/search`: ".toList ++ e)

/-- The walk of a day.  The saves are kept in a hash map, and `shuffle` is the order in which
the last pass meets the pages. -/
def walkDay (w : WalkInput) (fails : ℕ → Option DayseamError)
    (shuffle : List PageEdits → List PageEdits)
    (upstream : CursorUpstream V2CursorPaginator.parse) :
    Except DayseamError (List ActivityEvent) :=
  match Atlassian.selfAccountId w.sourceIdentities w.sourceId with
  | none => .ok []
  | some self =>
    match w.crates.joinUrl w.workspaceUrl searchPath with
    | .error e => .error (badWorkspaceUrl e)
    | .ok _ => ((contentWalk w self).walkPages fails upstream ⟨[], []⟩).map fun s =>
      sortByInstant (postPass w.crates.newV5 w.sourceId self (shuffle s.editsByPage) s.events)

/-! ### The edits of a page -/

/-- The number of saves that an event tells of. -/
def saveCount (event : ActivityEvent) : ℕ :=
  ((event.metadata.get "save_count".toList).bind Json.asU64).getD 1

/-- The edits of a page among some events. -/
def editsOf (contentId : Text) (events : List ActivityEvent) : List ActivityEvent :=
  events.filter fun event => isEdit event && event.parentExternalId == some (pageRef contentId)

def sortedEdits (contentId : Text) (events : List ActivityEvent) : List ActivityEvent :=
  sortBy (·.occurredAt) (editsOf contentId events)

/-- The second edit comes at most five minutes behind the first, in whole seconds. -/
def follows (a b : ActivityEvent) : Bool :=
  decide (numSeconds (b.occurredAt - a.occurredAt) ≤ RAPID_SAVE_WINDOW_SECONDS)

/-- The event tells of the edits of a run. -/
structure TellsRun (run : List ActivityEvent) (c : ActivityEvent) : Prop where
  last : ∃ z ∈ run.getLast?, c.occurredAt = z.occurredAt
  saves : saveCount c = run.length
  single : ∀ e, run = [e] → c = e

/-- No edit of the page is lost. -/
structure KeepsPage (contentId : Text) (before after : List ActivityEvent) : Prop where
  total : ((editsOf contentId after).map saveCount).sum = (editsOf contentId before).length
  runs : ∃ runs cs, Runs follows (sortedEdits contentId before) runs ∧
    List.Forall₂ TellsRun runs cs ∧ (editsOf contentId after).Perm cs

/-- No edit is lost, and other events are unchanged. -/
structure LosesNoEdit (before after : List ActivityEvent) : Prop where
  pages : ∀ contentId, KeepsPage contentId before after
  others : (after.filter fun e => !isEdit e).Perm (before.filter fun e => !isEdit e)

/-- The rows that the walk receives. -/
def receivedRows (w : WalkInput) (self : Text)
    (upstream : CursorUpstream V2CursorPaginator.parse) : List Json :=
  (upstream.pages.take MAX_PAGES).flatMap fun body =>
    match (contentWalk w self).rows body with
    | .ok rows => rows
    | .error _ => []

/-- The events that the rows are normalised to. -/
def normalisedEvents (w : WalkInput) (self : Text)
    (upstream : CursorUpstream V2CursorPaginator.parse) : List ActivityEvent :=
  (receivedRows w self upstream).filterMap fun row =>
    match normaliseResult w.crates w.sourceId w.workspaceUrl self w.window row with
    | .ok event => event
    | .error _ => none

/-- Whatever goes wrong, and in whatever order the last pass meets the pages, a walk that
returns events has lost no edit. -/
def KeepsEdits (w : WalkInput) (upstream : CursorUpstream V2CursorPaginator.parse) : Prop :=
  ∀ fails shuffle, (∀ pages, (shuffle pages).Perm pages) →
    ∀ self ∈ Atlassian.selfAccountId w.sourceIdentities w.sourceId,
      ∀ events, walkDay w fails shuffle upstream = .ok events →
        LosesNoEdit (normalisedEvents w self upstream) events

/-! ### Bursts -/

/-- What the last pass takes for the page of an edit. -/
def pageKey (contentId : Text) : Text := contentId.takeWhile (· != ':')

/-- Two edits of the page follow each other within five minutes. -/
def HasBurst (contentId : Text) (events : List ActivityEvent) : Prop :=
  ∃ run ∈ (sortedEdits contentId events).splitBy follows, 2 ≤ run.length

/-- No edit of the page stands alone, the last pass takes its edits for its own, and those of
no other page. -/
structure BurstKept (contentId : Text) (events : List ActivityEvent) : Prop where
  plain : ':' ∉ contentId
  alone : ∀ other, editsOf other events ≠ [] → pageKey other = contentId → other = contentId
  runs : ∀ run ∈ (sortedEdits contentId events).splitBy follows,
    2 ≤ run.length ∧ run.length < 2 ^ 32

/-! ### What the walk keeps of its rows -/

theorem pageRef_injective : Function.Injective pageRef := fun _ _ h => List.append_cancel_left h

section Grouping

/-- The saves of each page with an edit, in the order of the edits. -/
structure Grouped (pages : List PageEdits) (events : List ActivityEvent) : Prop where
  nodup : (pages.map (·.contentId)).Nodup
  mem : ∀ page, page ∈ pages ↔ editsOf page.contentId events ≠ [] ∧
    page.edits = (editsOf page.contentId events).map recordOf

theorem Grouped.of_perm {pages pages' : List PageEdits} {events : List ActivityEvent}
    (h : Grouped pages events) (hperm : pages'.Perm pages) : Grouped pages' events :=
  ⟨(hperm.map _).nodup_iff.mpr h.nodup, fun page => hperm.mem_iff.trans (h.mem page)⟩

/-- The outcome of a row: an edit is one of its page. -/
def RowRead (outcome : Option (Text × ActivityEvent)) : Prop :=
  ∀ contentId event, outcome = some (contentId, event) → isEdit event = true →
    IsEditOf contentId event

theorem editsOf_append (contentId : Text) (events events' : List ActivityEvent) :
    editsOf contentId (events ++ events') = editsOf contentId events ++ editsOf contentId events' :=
  List.filter_append ..

theorem editsOf_singleton {contentId contentId' : Text} {event : ActivityEvent}
    (h : isEdit event = true → event.parentExternalId = some (pageRef contentId')) :
    editsOf contentId [event] =
      if isEdit event = true ∧ contentId = contentId' then [event] else [] := by
  unfold editsOf
  cases hedit : isEdit event with
  | false => simp [hedit]
  | true =>
    have hiff : pageRef contentId' = pageRef contentId ↔ contentId = contentId' :=
      ⟨fun heq => (pageRef_injective heq).symm, fun heq => heq ▸ rfl⟩
    by_cases heq : contentId = contentId'
    · simp [hedit, h hedit, heq]
    · simp [hedit, h hedit, heq, hiff]

/-- **The saves are grouped by their pages.** -/
theorem foldl_keepRow {outcomes : List (Option (Text × ActivityEvent))}
    (h : ∀ outcome ∈ outcomes, RowRead outcome) :
    (outcomes.foldl keepRow ⟨[], []⟩).events = outcomes.filterMap (·.map (·.2)) ∧
      Grouped (outcomes.foldl keepRow ⟨[], []⟩).editsByPage (outcomes.filterMap (·.map (·.2))) := by
  have hmap : (outcomes.foldl keepRow ⟨[], []⟩).events = outcomes.filterMap (·.map (·.2)) ∧
      OrderedMap.Sorted (·.contentId) (outcomes.foldl keepRow ⟨[], []⟩).editsByPage ∧
      ∀ p, (outcomes.foldl keepRow ⟨[], []⟩).editsByPage.find? (·.contentId == p) =
        let own := editsOf p (outcomes.filterMap (·.map (·.2)))
        if own = [] then none else some ⟨p, own.map recordOf⟩ := by
    induction outcomes using List.reverseRecOn with
    | nil => exact ⟨rfl, .nil, fun p => rfl⟩
    | append_singleton outcomes outcome ih =>
      obtain ⟨hevents, hsorted, hfind⟩ := ih fun o ho => h o (List.mem_append_left _ ho)
      have hread := h outcome List.mem_concat_self
      rw [List.foldl_concat, List.filterMap_append]
      cases outcome with
      | none => exact ⟨by simpa [keepRow] using hevents, hsorted, by simpa [keepRow] using hfind⟩
      | some row =>
        obtain ⟨contentId, event⟩ := row
        have hparent : isEdit event = true → event.parentExternalId = some (pageRef contentId) :=
          fun hedit => (hread contentId event rfl hedit).parent
        refine ⟨by simp [keepRow, hevents], ?_, fun p => ?_⟩
        · show OrderedMap.Sorted _ (if _ then _ else _)
          split_ifs
          · exact OrderedMap.sorted_upsert ⟨rfl, fun _ _ => rfl⟩ hsorted
          · exact hsorted
        · rw [List.filterMap_cons_some (by rfl), List.filterMap_nil, editsOf_append,
            editsOf_singleton hparent]
          show List.find? _ (if _ then _ else _) = _
          cases hedit : isEdit event with
          | false => simpa using hfind p
          | true =>
            have hput := @OrderedMap.find?_upsert _ _ _ PageEdits.contentId
              (fun held => ⟨contentId, ((held.map (·.edits)).getD []) ++ [recordOf event]⟩)
              contentId _ ⟨rfl, fun _ _ => rfl⟩ hsorted p
            rw [← OrderedMap.find?_beq, ← OrderedMap.find?_beq, ← OrderedMap.find?_beq] at hput
            rw [if_pos rfl]
            refine hput.trans ?_
            by_cases hp : p = contentId
            · subst hp
              rw [if_pos rfl, hfind p]
              by_cases hnil : editsOf p (outcomes.filterMap (·.map (·.2))) = []
              · simp [hnil]
              · simp [hnil]
            · simpa [hp] using hfind p
  obtain ⟨hevents, hsorted, hfind⟩ := hmap
  refine ⟨hevents, hsorted.nodup_map, fun page => ?_⟩
  rw [OrderedMap.Sorted.mem_iff hsorted, ← OrderedMap.find?_beq, hfind page.contentId]
  dsimp only
  split_ifs with hnil
  · simp [hnil]
  · simp only [Option.some.injEq, ne_eq, hnil, not_false_eq_true, true_and]
    constructor
    · intro heq
      exact (congrArg PageEdits.edits heq).symm
    · intro heq
      rw [← heq]

end Grouping

/-! ### The edits that the saves come to -/

section Saves

/-- What the saves of a run of edits come to. -/
def RunSaves (run : List ActivityEvent) (c : CollapsedEdit) : Prop :=
  (∃ z ∈ run.getLast?, c.occurredAt = z.occurredAt) ∧ c.saveCount = min run.length (2 ^ 32 - 1)

theorem runSaves_of_builds {run : List ActivityEvent} {c : CollapsedEdit}
    (h : Builds (fun e => singleton (recordOf e)) (fun b e => extendEdit b (recordOf e)) run c) :
    RunSaves run c := by
  refine Collapse.builds_induction (P := RunSaves) ?_ ?_ h
  · intro e
    exact ⟨⟨e, rfl, rfl⟩, by simp [singleton]⟩
  · rintro run b e ⟨-, hcount⟩
    refine ⟨⟨e, ?_, rfl⟩, ?_⟩
    · rw [List.getLast?_concat]
      rfl
    · show min (b.saveCount + 1) (2 ^ 32 - 1) = _
      rw [hcount, List.length_append, List.length_singleton]
      omega

/-- **The saves of a page come to its runs.** -/
theorem forall₂_runSaves (own : List ActivityEvent) :
    List.Forall₂ RunSaves ((sortBy (·.occurredAt) own).splitBy follows)
      (collapseRapidEdits (sortBy (·.occurredAt) (own.map recordOf))) := by
  have hsort : sortBy (·.occurredAt) (own.map recordOf) =
      (sortBy (·.occurredAt) own).map recordOf := by
    unfold sortBy
    rw [List.map_mergeSort]
    exact fun _ _ _ _ => rfl
  have hsorted := StableSort.pairwise_sortBy (fun e : ActivityEvent => e.occurredAt) own
  rw [hsort]
  generalize sortBy (·.occurredAt) own = edits at hsorted
  have hcollapse : collapseRapidEdits (edits.map recordOf) =
      Collapse.collapse (fun b e => joins b (recordOf e)) (fun e => singleton (recordOf e))
        (fun b e => extendEdit b (recordOf e)) edits := by
    unfold collapseRapidEdits Collapse.collapse
    rw [List.foldl_map]
    rfl
  have hsplit : edits.splitBy follows = edits.splitBy fun a b =>
      0 ≤ numSeconds (b.occurredAt - a.occurredAt) &&
        numSeconds (b.occurredAt - a.occurredAt) ≤ RAPID_SAVE_WINDOW_SECONDS := by
    -- in a sorted list the window is a bound on the gap
    refine Collapse.splitBy_congr (hsorted.isChain.imp fun a b hab => ?_)
    have hgap : 0 ≤ numSeconds (b.occurredAt - a.occurredAt) :=
      Int.tdiv_nonneg (by omega) (by decide)
    simp [follows, hgap]
  rw [hcollapse, hsplit]
  refine (@Collapse.forall₂_collapse _ _ (fun b e => joins b (recordOf e)) _ _ _
    CollapsedEdit.occurredAt ActivityEvent.occurredAt
    (fun last next => 0 ≤ numSeconds (next - last) &&
      numSeconds (next - last) ≤ RAPID_SAVE_WINDOW_SECONDS) (fun _ _ => rfl) (fun _ => rfl)
    (fun _ _ _ => rfl) edits).imp fun _ _ => runSaves_of_builds

variable {contentId : Text} {events : List ActivityEvent}

theorem runs_sortedEdits (contentId : Text) (events : List ActivityEvent) :
    Runs follows (sortedEdits contentId events)
      ((sortedEdits contentId events).splitBy follows) :=
  Collapse.runs_iff.mpr rfl

theorem length_sortedEdits :
    (sortedEdits contentId events).length = (editsOf contentId events).length :=
  (StableSort.sortBy_perm _ _).length_eq

/-- The saves come to fewer edits where there is a burst. -/
theorem collapsed_lt_iff :
    (collapseRapidEdits (sortBy (·.occurredAt) ((editsOf contentId events).map recordOf))).length <
      ((editsOf contentId events).map recordOf).length ↔ HasBurst contentId events := by
  have hruns := runs_sortedEdits contentId events
  rw [HasBurst, ← Collapse.length_lt_length_flatten_iff hruns.nonempty, hruns.flatten,
    length_sortedEdits, List.length_map, ← (forall₂_runSaves _).length_eq]
  rfl

theorem sum_length_runs : ((((sortedEdits contentId events).splitBy follows).map List.length).sum) =
    (editsOf contentId events).length := by
  rw [← length_sortedEdits, ← List.length_flatten, (runs_sortedEdits contentId events).flatten]

end Saves

/-! ### One step of the last pass -/

theorem mem_editsOf {contentId : Text} {events : List ActivityEvent} {e : ActivityEvent} :
    e ∈ editsOf contentId events ↔
      e ∈ events ∧ isEdit e = true ∧ e.parentExternalId = some (pageRef contentId) := by
  rw [editsOf, List.mem_filter, Bool.and_eq_true, beq_iff_eq]

theorem takeWhile_colon (contentId rest : Text) :
    (contentId ++ ':' :: rest).takeWhile (· != ':') = pageKey contentId := by
  unfold pageKey
  induction contentId with
  | nil => rfl
  | cons c contentId ih =>
    rw [List.cons_append, List.takeWhile_cons, List.takeWhile_cons]
    split_ifs
    · rw [ih]
    · rfl

theorem colon_notMem_pageKey (contentId : Text) : ':' ∉ pageKey contentId := fun h => by
  simpa using List.mem_takeWhile_imp h

theorem pageKey_eq_self {contentId : Text} (h : ':' ∉ contentId) : pageKey contentId = contentId :=
  List.takeWhile_eq_self_iff.mpr fun c hc => by
    simpa using fun heq : c = ':' => h (heq ▸ hc)

theorem pageContentIdFromEvent_eq {e : ActivityEvent} {contentId rest : Text} {t : ℤ}
    (h : e.externalId = editedId contentId t ++ rest) :
    pageContentIdFromEvent e = some (pageKey contentId) := by
  have hshape : e.externalId = "page:".toList ++ (contentId ++ ':' ::
      ("edited:".toList ++ i64Text (timestampMillis t) ++ rest)) := by
    rw [h]
    simp [editedId, pageRef]
  unfold pageContentIdFromEvent
  rw [hshape, List.isPrefixOf?_eq_some_iff_append_eq.mpr rfl, Option.map_some, takeWhile_colon]

/-- Each edit of the pool is of a page with an edit, which its upstream id names. -/
def Known (before pool : List ActivityEvent) : Prop :=
  ∀ e ∈ pool, isEdit e = true → ∃ p, editsOf p before ≠ [] ∧
    e.parentExternalId = some (pageRef p) ∧ pageContentIdFromEvent e = some (pageKey p)

theorem known_refl {before : List ActivityEvent}
    (h : ∀ e ∈ before, isEdit e = true → ∃ p, IsEditOf p e) : Known before before := by
  intro e he hedit
  obtain ⟨p, hp⟩ := h e he hedit
  obtain ⟨t, ht⟩ := hp.externalId
  refine ⟨p, List.ne_nil_of_mem (mem_editsOf.mpr ⟨he, hedit, hp.parent⟩), hp.parent, ?_⟩
  exact pageContentIdFromEvent_eq (ht.trans (List.append_nil _).symm)

section Step

variable {newV5 sourceId selfAccountId} {before pool : List ActivityEvent} {page : PageEdits}
  {contentId : Text}

theorem editsPage_iff {e : ActivityEvent} : editsPage contentId e = true ↔
    isEdit e = true ∧ pageContentIdFromEvent e = some contentId := by
  rw [editsPage, Bool.and_eq_true, beq_iff_eq]

/-- A replacement has a template, which is an edit of its page in the pool. -/
theorem mem_replacements {collapsed : List CollapsedEdit} {e : ActivityEvent}
    (h : e ∈ replacements newV5 sourceId selfAccountId pool contentId collapsed) :
    ∃ run template, template ∈ pool ∧ editsPage contentId template = true ∧
      e = rollup newV5 sourceId selfAccountId contentId run template := by
  obtain ⟨run, -, hrun⟩ := List.mem_filterMap.mp h
  split_ifs at hrun
  obtain ⟨template, htemplate, rfl⟩ := Option.map_eq_some_iff.mp hrun
  exact ⟨run, template, List.mem_of_find?_eq_some htemplate, List.find?_some htemplate, rfl⟩

/-- A replacement is of the page that its template is of. -/
theorem known_replacements (hknown : Known before pool) {collapsed : List CollapsedEdit}
    {e : ActivityEvent}
    (h : e ∈ replacements newV5 sourceId selfAccountId pool contentId collapsed) :
    isEdit e = true ∧ ∃ p, editsOf p before ≠ [] ∧ e.parentExternalId = some (pageRef p) ∧
      pageContentIdFromEvent e = some (pageKey p) ∧ pageKey p = contentId := by
  obtain ⟨run, template, hmem, hedits, rfl⟩ := mem_replacements h
  obtain ⟨hedit, hid⟩ := editsPage_iff.mp hedits
  obtain ⟨p, hp, hparent, hkey⟩ := hknown template hmem hedit
  obtain rfl := Option.some.inj (hid.symm.trans hkey)
  refine ⟨rfl, p, hp, hparent, ?_, rfl⟩
  rw [pageContentIdFromEvent_eq (show (rollup _ _ _ _ run template).externalId = _ from rfl),
    pageKey_eq_self (colon_notMem_pageKey p)]

theorem mem_collapsePage {e : ActivityEvent}
    (h : e ∈ collapsePage newV5 sourceId selfAccountId pool page) :
    e ∈ pool ∨ e ∈ replacements newV5 sourceId selfAccountId pool page.contentId
      (collapseRapidEdits (sortBy (·.occurredAt) page.edits)) := by
  unfold collapsePage at h
  dsimp only at h
  split_ifs at h
  · exact (List.mem_append.mp h).imp_left fun h => (List.mem_filter.mp h).1
  · exact Or.inl h

theorem known_collapsePage (hknown : Known before pool) :
    Known before (collapsePage newV5 sourceId selfAccountId pool page) := by
  intro e he hedit
  rcases mem_collapsePage he with he | he
  · exact hknown e he hedit
  · obtain ⟨-, p, hp, hparent, hkey, -⟩ := known_replacements hknown he
    exact ⟨p, hp, hparent, hkey⟩

/-- Other events stay as they are. -/
theorem filter_not_isEdit_collapsePage (hknown : Known before pool) :
    (collapsePage newV5 sourceId selfAccountId pool page).filter (fun e => !isEdit e) =
      pool.filter fun e => !isEdit e := by
  unfold collapsePage
  dsimp only
  split_ifs
  · have hnone : (replacements newV5 sourceId selfAccountId pool page.contentId
        (collapseRapidEdits (sortBy (·.occurredAt) page.edits))).filter (fun e => !isEdit e) = [] :=
      List.filter_eq_nil_iff.mpr fun e he => by simp [(known_replacements hknown he).1]
    rw [List.filter_append, hnone, List.append_nil, List.filter_filter]
    refine List.filter_congr fun e _ => ?_
    cases hedit : isEdit e <;> simp [editsPage, hedit]
  · rfl

/-- The edits that the last pass does not take for those of the page stay as they are. -/
theorem editsOf_collapsePage_of_ne (hknown : Known before pool)
    (hne : page.contentId ≠ pageKey contentId) :
    editsOf contentId (collapsePage newV5 sourceId selfAccountId pool page) =
      editsOf contentId pool := by
  unfold collapsePage
  dsimp only
  split_ifs
  · have hnone : editsOf contentId (replacements newV5 sourceId selfAccountId pool page.contentId
        (collapseRapidEdits (sortBy (·.occurredAt) page.edits))) = [] := by
      refine List.eq_nil_iff_forall_not_mem.mpr fun e he => ?_
      obtain ⟨he, -, hparent⟩ := mem_editsOf.mp he
      obtain ⟨-, p, -, hp, -, hkey⟩ := known_replacements hknown he
      obtain rfl := pageRef_injective (Option.some.inj (hparent.symm.trans hp))
      exact hne hkey.symm
    rw [editsOf_append, hnone, List.append_nil]
    unfold editsOf
    rw [List.filter_filter]
    refine List.filter_congr fun e he => ?_
    by_cases hown : e ∈ editsOf contentId pool
    · obtain ⟨-, hedit, hparent⟩ := mem_editsOf.mp hown
      obtain ⟨p, -, hp, hkey⟩ := hknown e he hedit
      obtain rfl := pageRef_injective (Option.some.inj (hparent.symm.trans hp))
      have hkeep : editsPage page.contentId e = false := by
        rw [Bool.eq_false_iff, Ne, editsPage_iff, hkey]
        exact fun h => hne (Option.some.inj h.2).symm
      rw [hkeep, Bool.not_false, Bool.and_true]
    · have hout : (isEdit e && e.parentExternalId == some (pageRef contentId)) = false := by
        rw [Bool.eq_false_iff, Ne, Bool.and_eq_true, beq_iff_eq]
        exact fun h => hown (mem_editsOf.mpr ⟨he, h⟩)
      rw [hout, Bool.false_and]
  · rfl

theorem object_of_canonical {value : Json} (h : value.Canonical) : value.isObject = true := by
  obtain ⟨fields, rfl, -⟩ := h
  rfl

theorem asU64_toDigits {n : ℕ} (h : n < 2 ^ 64) :
    Json.asU64 (.number (Nat.toDigits 10 n)) = some n := by
  rw [Json.asU64, Calendar.parseNat_toDigits]
  exact Option.filter_some_pos (decide_eq_true h)

/-- The number of saves is in the metadata of the event. -/
theorem saveCount_rollup {run : CollapsedEdit} {template : ActivityEvent}
    (h : template.metadata.Canonical) (hrun : run.saveCount < 2 ^ 64) :
    saveCount (rollup newV5 sourceId selfAccountId contentId run template) = run.saveCount := by
  have hget : (rollup newV5 sourceId selfAccountId contentId run template).metadata.get
      "save_count".toList = some (.number (Nat.toDigits 10 run.saveCount)) := by
    unfold rollup
    dsimp only
    rw [if_pos (object_of_canonical h)]
    exact (h.set.get_set _).trans (if_pos rfl)
  unfold saveCount
  rw [hget, Option.bind_some, asU64_toDigits hrun]
  rfl

/-- **The step at a page with a burst**: its edits become those that its saves come to, of
which one save alone is dropped. -/
theorem editsOf_collapsePage_of_burst (hknown : Known before pool)
    (hedits : ∀ e ∈ before, isEdit e = true → ∃ p, IsEditOf p e)
    (halone : ∀ other, editsOf other before ≠ [] → pageKey other = contentId → other = contentId)
    (hown : editsOf contentId before ≠ []) (hplain : ':' ∉ contentId)
    (hpool : editsOf contentId pool = editsOf contentId before)
    (hburst : HasBurst contentId before) :
    ∃ template, IsEditOf contentId template ∧
      editsOf contentId (collapsePage newV5 sourceId selfAccountId pool
          ⟨contentId, (editsOf contentId before).map recordOf⟩) =
        ((collapseRapidEdits (sortBy (·.occurredAt)
          ((editsOf contentId before).map recordOf))).filter (1 < ·.saveCount)).map fun run =>
            rollup newV5 sourceId selfAccountId contentId run template := by
  have htaken : ∀ e ∈ pool, (editsPage contentId e = true ↔ e ∈ editsOf contentId pool) := by
    intro e he
    rw [editsPage_iff, mem_editsOf]
    constructor
    · rintro ⟨hedit, hid⟩
      obtain ⟨p, hp, hparent, hkey⟩ := hknown e he hedit
      obtain rfl := halone p hp (Option.some.inj (hkey.symm.trans hid))
      exact ⟨he, hedit, hparent⟩
    · rintro ⟨-, hedit, hparent⟩
      obtain ⟨p, -, hp, hkey⟩ := hknown e he hedit
      obtain rfl := pageRef_injective (Option.some.inj (hparent.symm.trans hp))
      exact ⟨hedit, by rw [hkey, pageKey_eq_self hplain]⟩
  -- the template is an edit of the page
  obtain ⟨e, he⟩ := List.exists_mem_of_ne_nil _ (hpool ▸ hown)
  obtain ⟨template, hfind⟩ : ∃ template, pool.find? (editsPage contentId) = some template := by
    rw [← Option.isSome_iff_exists, List.find?_isSome]
    exact ⟨e, (mem_editsOf.mp he).1, (htaken e (mem_editsOf.mp he).1).mpr he⟩
  have htemplate := (htaken template (List.mem_of_find?_eq_some hfind)).mp (List.find?_some hfind)
  rw [hpool, mem_editsOf] at htemplate
  obtain ⟨hmem, hedit, hparent⟩ := htemplate
  obtain ⟨p, hp⟩ := hedits template hmem hedit
  obtain rfl := pageRef_injective (Option.some.inj (hparent.symm.trans hp.parent))
  refine ⟨template, hp, ?_⟩
  unfold collapsePage
  dsimp only
  rw [if_pos (collapsed_lt_iff.mpr hburst), editsOf_append]
  have hrest : editsOf contentId (pool.filter fun e => !editsPage contentId e) = [] := by
    refine List.eq_nil_iff_forall_not_mem.mpr fun e he => ?_
    obtain ⟨he, hedit, hparent⟩ := mem_editsOf.mp he
    obtain ⟨he, hkeep⟩ := List.mem_filter.mp he
    rw [(htaken e he).mpr (mem_editsOf.mpr ⟨he, hedit, hparent⟩)] at hkeep
    cases hkeep
  rw [hrest, List.nil_append]
  generalize collapseRapidEdits (sortBy (·.occurredAt)
    ((editsOf contentId before).map recordOf)) = runs
  unfold replacements synthesizeCollapsedEdit
  rw [hfind]
  induction runs with
  | nil => rfl
  | cons run runs ih =>
    have hrollup : isEdit (rollup newV5 sourceId selfAccountId contentId run template) = true ∧
        (rollup newV5 sourceId selfAccountId contentId run template).parentExternalId =
          some (pageRef contentId) := ⟨rfl, hp.parent⟩
    by_cases hlong : 1 < run.saveCount
    · rw [List.filterMap_cons_some (by rw [if_pos hlong]; rfl),
        List.filter_cons_of_pos (by simpa using hlong), List.map_cons]
      unfold editsOf at ih ⊢
      rw [List.filter_cons_of_pos (by simp [hrollup.1, hrollup.2]), ih]
    · rw [List.filterMap_cons_none (by rw [if_neg hlong]),
        List.filter_cons_of_neg (by simpa using hlong), ih]

end Step

/-! ### The whole pass -/

section Pass

variable {newV5 sourceId selfAccountId} {before pool : List ActivityEvent} {pages : List PageEdits}
  {contentId : Text}

theorem known_postPass (hknown : Known before pool) :
    Known before (postPass newV5 sourceId selfAccountId pages pool) := by
  induction pages generalizing pool with
  | nil => exact hknown
  | cons page pages ih => exact ih (known_collapsePage hknown)

theorem filter_not_isEdit_postPass (hknown : Known before pool) :
    (postPass newV5 sourceId selfAccountId pages pool).filter (fun e => !isEdit e) =
      pool.filter fun e => !isEdit e := by
  induction pages generalizing pool with
  | nil => rfl
  | cons page pages ih =>
    exact (ih (known_collapsePage hknown)).trans (filter_not_isEdit_collapsePage hknown)

theorem editsOf_postPass_of_ne (hknown : Known before pool)
    (hne : ∀ page ∈ pages, page.contentId ≠ pageKey contentId) :
    editsOf contentId (postPass newV5 sourceId selfAccountId pages pool) =
      editsOf contentId pool := by
  induction pages generalizing pool with
  | nil => rfl
  | cons page pages ih =>
    refine (ih (known_collapsePage hknown) fun other ho => ?_).trans
      (editsOf_collapsePage_of_ne hknown (hne page List.mem_cons_self))
    exact hne other (List.mem_cons_of_mem _ ho)

variable (hgrouped : Grouped pages before)
  (hedits : ∀ e ∈ before, isEdit e = true → ∃ p, IsEditOf p e)

include hgrouped hedits

/-- The pass comes to a page with an edit once; its edits, and those that it takes for its
own, are then as they were, and they stay as it leaves them. -/
theorem exists_step (hown : editsOf contentId before ≠ []) : ∃ pool, Known before pool ∧
    ∀ p, pageKey p = contentId → editsOf p pool = editsOf p before ∧
      editsOf p (postPass newV5 sourceId selfAccountId pages before) =
        editsOf p (collapsePage newV5 sourceId selfAccountId pool
          ⟨contentId, (editsOf contentId before).map recordOf⟩) := by
  have hmem := (hgrouped.mem ⟨contentId, (editsOf contentId before).map recordOf⟩).mpr ⟨hown, rfl⟩
  obtain ⟨first, rest, hsplit⟩ := List.append_of_mem hmem
  have hnodup := hgrouped.nodup
  rw [hsplit, List.map_append, List.map_cons, List.nodup_append, List.nodup_cons] at hnodup
  obtain ⟨-, ⟨hrest, -⟩, hfirst⟩ := hnodup
  have hknown : Known before (postPass newV5 sourceId selfAccountId first before) :=
    known_postPass (known_refl hedits)
  refine ⟨_, hknown, fun p hp =>
    ⟨editsOf_postPass_of_ne (known_refl hedits) fun page hpage => ?_, ?_⟩⟩
  · rw [hp]
    exact hfirst _ (List.mem_map_of_mem hpage) _ List.mem_cons_self
  · have hfold : postPass newV5 sourceId selfAccountId pages before =
        postPass newV5 sourceId selfAccountId rest (collapsePage newV5 sourceId selfAccountId
          (postPass newV5 sourceId selfAccountId first before)
          ⟨contentId, (editsOf contentId before).map recordOf⟩) := by
      rw [hsplit]
      exact List.foldl_append
    rw [hfold]
    refine editsOf_postPass_of_ne (known_collapsePage hknown) fun page hpage => ?_
    rw [hp]
    exact fun heq => hrest (List.mem_map.mpr ⟨page, hpage, heq⟩)

/-- Where the page that the pass takes the edits for has no burst, they stay as they are. -/
theorem editsOf_postPass_of_calm (hcalm : ¬HasBurst (pageKey contentId) before) :
    editsOf contentId (postPass newV5 sourceId selfAccountId pages before) =
      editsOf contentId before := by
  by_cases hown : editsOf (pageKey contentId) before = []
  · refine editsOf_postPass_of_ne (known_refl hedits) fun page hpage heq => ?_
    exact ((hgrouped.mem page).mp hpage).1 (heq ▸ hown)
  · obtain ⟨pool, -, hstep⟩ := exists_step hgrouped hedits hown
    obtain ⟨hpool, hafter⟩ := hstep contentId rfl
    rw [hafter, ← hpool]
    unfold collapsePage
    dsimp only
    rw [if_neg (mt collapsed_lt_iff.mp hcalm)]

theorem editsOf_postPass_of_burst
    (halone : ∀ other, editsOf other before ≠ [] → pageKey other = contentId → other = contentId)
    (hown : editsOf contentId before ≠ []) (hplain : ':' ∉ contentId)
    (hburst : HasBurst contentId before) :
    ∃ template, IsEditOf contentId template ∧
      editsOf contentId (postPass newV5 sourceId selfAccountId pages before) =
        ((collapseRapidEdits (sortBy (·.occurredAt)
          ((editsOf contentId before).map recordOf))).filter (1 < ·.saveCount)).map fun run =>
            rollup newV5 sourceId selfAccountId contentId run template := by
  obtain ⟨pool, hknown, hstep⟩ := exists_step hgrouped hedits hown
  obtain ⟨hpool, hafter⟩ := hstep contentId (pageKey_eq_self hplain)
  rw [hafter]
  exact editsOf_collapsePage_of_burst hknown hedits halone hown hplain hpool hburst

/-- Where a burst takes the edits of another page for its own, one of the two has none left. -/
theorem editsOf_postPass_of_taken {other : Text} (hburst : HasBurst contentId before)
    (hown : editsOf contentId before ≠ []) (hplain : ':' ∉ contentId)
    (hkey : pageKey other = contentId) (hne : other ≠ contentId) :
    editsOf contentId (postPass newV5 sourceId selfAccountId pages before) = [] ∨
      editsOf other (postPass newV5 sourceId selfAccountId pages before) = [] := by
  obtain ⟨pool, hknown, hstep⟩ := exists_step hgrouped hedits hown
  rw [(hstep contentId (pageKey_eq_self hplain)).2, (hstep other hkey).2]
  -- what is left of both pages are replacements, which have one template
  have hleft : ∀ p, pageKey p = contentId → ∀ e ∈ editsOf p (collapsePage newV5 sourceId
      selfAccountId pool ⟨contentId, (editsOf contentId before).map recordOf⟩),
        ∃ template ∈ pool.find? (editsPage contentId),
          template.parentExternalId = some (pageRef p) := by
    intro p hp e he
    obtain ⟨he, hedit, hparent⟩ := mem_editsOf.mp he
    unfold collapsePage at he
    dsimp only at he
    rw [if_pos (collapsed_lt_iff.mpr hburst)] at he
    rcases List.mem_append.mp he with he | he
    · obtain ⟨he, hkeep⟩ := List.mem_filter.mp he
      obtain ⟨q, -, hq, hqkey⟩ := hknown e he hedit
      obtain rfl := pageRef_injective (Option.some.inj (hparent.symm.trans hq))
      rw [editsPage_iff.mpr ⟨hedit, hqkey.trans (congrArg some hp)⟩] at hkeep
      cases hkeep
    · obtain ⟨run, -, hrun⟩ := List.mem_filterMap.mp he
      split_ifs at hrun
      obtain ⟨template, htemplate, rfl⟩ := Option.map_eq_some_iff.mp hrun
      exact ⟨template, htemplate, hparent⟩
  by_contra! hboth
  obtain ⟨e, he⟩ := List.exists_mem_of_ne_nil _ hboth.1
  obtain ⟨e', he'⟩ := List.exists_mem_of_ne_nil _ hboth.2
  obtain ⟨t, ht, hparent⟩ := hleft contentId (pageKey_eq_self hplain) e he
  obtain ⟨t', ht', hparent'⟩ := hleft other hkey e' he'
  obtain rfl := Option.some.inj (ht.symm.trans ht')
  exact hne (pageRef_injective (Option.some.inj (hparent'.symm.trans hparent)))

end Pass

/-! ### When no edit is lost -/

section Kept

variable {before after : List ActivityEvent} {contentId : Text}

theorem editsOf_perm {after' : List ActivityEvent} (h : after'.Perm after) (contentId : Text) :
    (editsOf contentId after').Perm (editsOf contentId after) :=
  h.filter _

theorem LosesNoEdit.of_perm {after' : List ActivityEvent} (h : LosesNoEdit before after)
    (hperm : after'.Perm after) : LosesNoEdit before after' := by
  refine ⟨fun p => ?_, (hperm.filter _).trans h.others⟩
  obtain ⟨htotal, runs, cs, hruns, hcs, hcsperm⟩ := h.pages p
  have hedits := editsOf_perm hperm p
  refine ⟨?_, runs, cs, hruns, hcs, hedits.trans hcsperm⟩
  rw [← htotal]
  exact (hedits.map saveCount).sum_eq

/-- A kept page has one event for each of its runs. -/
theorem KeepsPage.length_eq (h : KeepsPage contentId before after) :
    (editsOf contentId after).length = ((sortedEdits contentId before).splitBy follows).length := by
  obtain ⟨-, runs, cs, hruns, hcs, hperm⟩ := h
  rw [hperm.length_eq, ← hcs.length_eq, Collapse.runs_iff.mp hruns]

theorem editsOf_ne_nil_of_hasBurst (h : HasBurst contentId before) :
    editsOf contentId before ≠ [] := by
  intro hnil
  obtain ⟨run, hrun, -⟩ := h
  rw [sortedEdits, hnil] at hrun
  simp [sortBy] at hrun

theorem KeepsPage.ne_nil (h : KeepsPage contentId before after)
    (hown : editsOf contentId before ≠ []) : editsOf contentId after ≠ [] := by
  intro hnil
  have hlen := h.length_eq
  rw [hnil, List.length_nil, eq_comm, List.length_eq_zero_iff] at hlen
  have hflat := (runs_sortedEdits contentId before).flatten
  rw [hlen, List.flatten_nil] at hflat
  have hedits := @length_sortedEdits contentId before
  rw [← hflat, List.length_nil, eq_comm, List.length_eq_zero_iff] at hedits
  exact hown hedits

theorem saveCount_of_isEditOf {e : ActivityEvent} (h : IsEditOf contentId e) : saveCount e = 1 := by
  rw [saveCount, h.saveCount]
  rfl

/-- The saves add up where each run has its event. -/
theorem keepsPage_of_runs {cs : List ActivityEvent}
    (hcs : List.Forall₂ TellsRun ((sortedEdits contentId before).splitBy follows) cs)
    (hperm : (editsOf contentId after).Perm cs) : KeepsPage contentId before after := by
  refine ⟨?_, _, cs, runs_sortedEdits contentId before, hcs, hperm⟩
  rw [(hperm.map saveCount).sum_eq, ← Collapse.map_eq_of_forall₂ hcs fun run c h => h.saves.symm]
  exact sum_length_runs

section

variable (hedits : ∀ e ∈ before, isEdit e = true → ∃ p, IsEditOf p e)

include hedits

theorem isEditOf_of_mem {e : ActivityEvent} (h : e ∈ editsOf contentId before) :
    IsEditOf contentId e := by
  obtain ⟨he, hedit, hparent⟩ := mem_editsOf.mp h
  obtain ⟨p, hp⟩ := hedits e he hedit
  obtain rfl := pageRef_injective (Option.some.inj (hparent.symm.trans hp.parent))
  exact hp

/-- A page without a burst is kept where its edits stay. -/
theorem keepsPage_of_calm (hcalm : ¬HasBurst contentId before)
    (h : editsOf contentId after = editsOf contentId before) :
    KeepsPage contentId before after := by
  have hruns := runs_sortedEdits contentId before
  have hsingle : ∀ run ∈ (sortedEdits contentId before).splitBy follows, run.length = 1 := by
    intro run hrun
    have hshort : ¬2 ≤ run.length := fun hlong => hcalm ⟨run, hrun, hlong⟩
    have hpos := List.length_pos_iff.mpr fun hnil => hruns.nonempty (hnil ▸ hrun)
    omega
  have hpairs := Collapse.forall₂_singletons hsingle
  rw [hruns.flatten] at hpairs
  have hmem := (List.forall₂_and_left _ _).mpr
    ⟨fun e he => (StableSort.sortBy_perm _ _).mem_iff.mp he, hpairs.flip⟩
  refine keepsPage_of_runs (hmem.flip.imp fun run e hrun => ?_) ?_
  · obtain ⟨he, rfl⟩ := hrun
    exact ⟨⟨e, rfl, rfl⟩, saveCount_of_isEditOf (isEditOf_of_mem hedits he),
      fun a ha => (List.cons.inj ha).1⟩
  · rw [h]
    exact (StableSort.sortBy_perm _ _).symm

variable {newV5 : Uuid → List UInt8 → Uuid} {sourceId : Uuid} {selfAccountId : Text}
  {pages : List PageEdits} (hgrouped : Grouped pages before)

include hgrouped

/-- A page with a burst is kept where all of its runs are of two saves or more. -/
theorem keepsPage_of_burst (hburst : HasBurst contentId before)
    (hkept : BurstKept contentId before) :
    KeepsPage contentId before (postPass newV5 sourceId selfAccountId pages before) := by
  obtain ⟨template, htemplate, hafter⟩ : ∃ template, IsEditOf contentId template ∧
      editsOf contentId (postPass newV5 sourceId selfAccountId pages before) = _ :=
    editsOf_postPass_of_burst hgrouped hedits hkept.alone (editsOf_ne_nil_of_hasBurst hburst)
      hkept.plain hburst
  have hsaves := (List.forall₂_and_left _ _).mpr
    ⟨fun run hrun => hkept.runs run hrun, forall₂_runSaves (editsOf contentId before)⟩
  have hcount {run : List ActivityEvent} {c : CollapsedEdit}
      (h : (2 ≤ run.length ∧ run.length < 2 ^ 32) ∧ RunSaves run c) :
      c.saveCount = run.length ∧ 1 < c.saveCount ∧ c.saveCount < 2 ^ 64 := by
    obtain ⟨⟨h2, h32⟩, -, hc⟩ := h
    omega
  rw [List.filter_eq_self.mpr fun c hc => ?_] at hafter
  · refine keepsPage_of_runs (List.forall₂_map_right_iff.mpr (hsaves.imp fun run c h => ?_))
      (List.Perm.of_eq hafter)
    obtain ⟨hlen, -, h64⟩ := hcount h
    refine ⟨h.2.1, (saveCount_rollup htemplate.metadata h64).trans hlen, fun e he => ?_⟩
    have htwo := h.1.1
    rw [he] at htwo
    simp at htwo
  · obtain ⟨run, -, h⟩ := Collapse.exists_right_of_mem hsaves.flip hc
    exact decide_eq_true (hcount h).2.1

/-- Where no edit is lost, every burst is kept. -/
theorem burstKept_of_losesNoEdit
    (h : LosesNoEdit before (postPass newV5 sourceId selfAccountId pages before))
    (hburst : HasBurst contentId before) : BurstKept contentId before := by
  have hown := editsOf_ne_nil_of_hasBurst hburst
  -- a burst that takes the edits of another page leaves one of the two without any
  have halone : ∀ {c : Text}, HasBurst c before → ':' ∉ c →
      ∀ other, editsOf other before ≠ [] → pageKey other = c → other = c := by
    intro c hc hplain other hother hkey
    by_contra hne
    rcases @editsOf_postPass_of_taken newV5 sourceId selfAccountId _ _ _ hgrouped hedits _ hc
      (editsOf_ne_nil_of_hasBurst hc) hplain hkey hne with hnil | hnil
    · exact (h.pages c).ne_nil (editsOf_ne_nil_of_hasBurst hc) hnil
    · exact (h.pages other).ne_nil hother hnil
  have hshort := collapsed_lt_iff.mpr hburst
  rw [List.length_map, ← (forall₂_runSaves (editsOf contentId before)).length_eq] at hshort
  have hplain : ':' ∉ contentId := by
    intro hcolon
    have hne : contentId ≠ pageKey contentId := fun heq =>
      colon_notMem_pageKey contentId (heq ▸ hcolon)
    have hcalm : ¬HasBurst (pageKey contentId) before := fun hb =>
      hne (halone hb (colon_notMem_pageKey contentId) contentId hown rfl)
    -- its edits stay, and there are more of them than runs
    have hlen := (h.pages contentId).length_eq
    rw [editsOf_postPass_of_calm hgrouped hedits hcalm] at hlen
    exact absurd hlen hshort.ne'
  obtain ⟨template, htemplate, hafter⟩ : ∃ template, IsEditOf contentId template ∧
      editsOf contentId (postPass newV5 sourceId selfAccountId pages before) = _ :=
    editsOf_postPass_of_burst hgrouped hedits (halone hburst hplain) hown hplain hburst
  have hsaves := forall₂_runSaves (editsOf contentId before)
  have hlen := (h.pages contentId).length_eq
  have htotal := (h.pages contentId).total
  rw [hafter, List.length_map] at hlen
  -- no run was dropped, so each is of two saves or more
  have hall := List.filter_eq_self.mp (List.filter_sublist.eq_of_length
    (hlen.trans hsaves.length_eq))
  rw [hafter, List.filter_eq_self.mpr hall, List.map_map, ← sum_length_runs] at htotal
  have hcount : ∀ run c, RunSaves run c →
      (saveCount ∘ fun c => rollup newV5 sourceId selfAccountId contentId c template) c =
        min run.length (2 ^ 32 - 1) := by
    intro run c h
    have h64 : c.saveCount < 2 ^ 64 := by
      have hc := h.2
      omega
    exact (saveCount_rollup htemplate.metadata h64).trans h.2
  have hfull := Collapse.forall₂_eq_of_sum_eq hsaves
    (fun run c h => (hcount run c h).le.trans (Nat.min_le_left _ _)) htotal
  refine ⟨hplain, halone hburst hplain, fun run hrun => ?_⟩
  obtain ⟨c, hc, hsave, hlen⟩ := Collapse.exists_right_of_mem hfull hrun
  have htwo := of_decide_eq_true (hall c hc)
  have hmin := hcount run c hsave
  have hcmin := hsave.2
  omega

/-- No edit is lost exactly if every burst is kept. -/
theorem losesNoEdit_iff :
    LosesNoEdit before (postPass newV5 sourceId selfAccountId pages before) ↔
      ∀ p, HasBurst p before → BurstKept p before := by
  refine ⟨fun h p => burstKept_of_losesNoEdit hedits hgrouped h, fun h => ⟨fun p => ?_, ?_⟩⟩
  · by_cases hburst : HasBurst p before
    · exact keepsPage_of_burst hedits hgrouped hburst (h p hburst)
    · refine keepsPage_of_calm hedits hburst ?_
      by_cases hkey : HasBurst (pageKey p) before
      · -- the burst is of another page, and takes no other edits for its own
        have hnone : editsOf p before = [] := by
          by_contra hown
          exact hburst ((h _ hkey).alone p hown rfl ▸ hkey)
        rw [hnone]
        refine List.eq_nil_iff_forall_not_mem.mpr fun e he => ?_
        obtain ⟨he, hedit, hparent⟩ := mem_editsOf.mp he
        obtain ⟨q, hq, hqparent, -⟩ := known_postPass (known_refl hedits) e he hedit
        obtain rfl := pageRef_injective (Option.some.inj (hparent.symm.trans hqparent))
        exact hq hnone
      · exact editsOf_postPass_of_calm hgrouped hedits hkey
  · exact List.Perm.of_eq (filter_not_isEdit_postPass (known_refl hedits))

end

end Kept

/-! ### The walk of a day -/

section Walk

variable {w : WalkInput} {upstream : CursorUpstream V2CursorPaginator.parse} {self : Text}

theorem rowRead_of_normalise {row : Json} {outcome : Option (Text × ActivityEvent)}
    (h : (contentWalk w self).normalise row = .ok outcome) :
    RowRead outcome ∧ outcome.map (·.2) = match normaliseResult w.crates w.sourceId w.workspaceUrl
      self w.window row with
      | .ok event => event
      | .error _ => none := by
  obtain ⟨event, hevent, rfl⟩ := Paging.exists_of_map_eq_ok h
  rw [hevent]
  refine ⟨?_, by simp [Option.map_map, Function.comp_def]⟩
  rintro contentId e heq hedit
  obtain ⟨e', rfl, hpair⟩ := Option.map_eq_some_iff.mp heq
  obtain ⟨rfl, rfl⟩ := Prod.mk.inj hpair
  obtain ⟨p, hp, hedits⟩ := isEditOf_of_normaliseResult hevent (by simpa [isEdit] using hedit)
  rwa [pageContentId, hp]

/-- **What the walk has read**: the events of the rows, with their saves grouped. -/
theorem grouped_of_readAll {s : WalkState}
    (h : (contentWalk w self).readAll (upstream.pages.take MAX_PAGES) ⟨[], []⟩ = .ok s) :
    s.events = normalisedEvents w self upstream ∧
      Grouped s.editsByPage (normalisedEvents w self upstream) ∧
        ∀ e ∈ normalisedEvents w self upstream, isEdit e = true → ∃ p, IsEditOf p e := by
  obtain ⟨outcomes, hreads, rfl⟩ := CursorWalk.readAll_eq_ok_iff.mp h
  have hread : ∀ outcome ∈ outcomes.flatten, RowRead outcome := by
    intro outcome ho
    obtain ⟨own, hown, ho⟩ := List.mem_flatten.mp ho
    obtain ⟨body, -, rows, -, hrows⟩ := Collapse.exists_right_of_mem hreads.flip hown
    obtain ⟨row, -, hrow⟩ := Collapse.exists_right_of_mem hrows.flip ho
    exact (rowRead_of_normalise hrow).1
  have hevents : outcomes.flatten.filterMap (·.map (·.2)) = normalisedEvents w self upstream := by
    unfold normalisedEvents receivedRows
    clear hread h
    generalize upstream.pages.take MAX_PAGES = bodies at hreads
    induction hreads with
    | nil => rfl
    | cons hbody _ ih =>
      obtain ⟨rows, hrows, houtcomes⟩ := hbody
      rw [List.flatten_cons, List.flatMap_cons, List.filterMap_append, List.filterMap_append, hrows,
        ih]
      refine congrArg (· ++ _) ?_
      clear hrows
      induction houtcomes with
      | nil => rfl
      | cons hrow _ ih =>
        rw [List.filterMap_cons, List.filterMap_cons, (rowRead_of_normalise hrow).2, ih]
  obtain ⟨hkept, hgrouped⟩ := foldl_keepRow hread
  rw [hevents] at hkept hgrouped
  refine ⟨hkept, hgrouped, fun e he hedit => ?_⟩
  rw [← hevents] at he
  obtain ⟨outcome, ho, hmap⟩ := List.mem_filterMap.mp he
  obtain ⟨⟨contentId, e'⟩, rfl, rfl⟩ := Option.map_eq_some_iff.mp hmap
  exact ⟨contentId, hread _ ho contentId e' rfl hedit⟩

theorem sortByInstant_perm (events : List ActivityEvent) : (sortByInstant events).Perm events :=
  List.mergeSort_perm _ _

/-- A walk that loses no edit keeps every burst. -/
theorem burstKept_of_keepsEdits (h : KeepsEdits w upstream)
    (hself : self ∈ Atlassian.selfAccountId w.sourceIdentities w.sourceId)
    (hurl : ∃ url, w.crates.joinUrl w.workspaceUrl searchPath = .ok url)
    (hwell : ∀ body ∈ upstream.pages.take MAX_PAGES, (contentWalk w self).WellFormed body)
    {p : Text} (hburst : HasBurst p (normalisedEvents w self upstream)) :
    BurstKept p (normalisedEvents w self upstream) := by
  obtain ⟨url, hurl⟩ := hurl
  obtain ⟨s, hs⟩ := CursorWalk.exists_readAll_iff.mpr hwell
  obtain ⟨hevents, hgrouped, hedits⟩ := grouped_of_readAll hs
  have hwalk : walkDay w (fun _ => none) id upstream = .ok (sortByInstant
      (postPass w.crates.newV5 w.sourceId self s.editsByPage s.events)) := by
    unfold walkDay
    rw [Option.mem_def.mp hself]
    dsimp only
    rw [hurl]
    dsimp only
    rw [CursorWalk.walkPages_calm, hs]
    rfl
  have hloses := h _ id (fun _ => .refl _) self hself _ hwalk
  rw [hevents] at hloses
  exact (losesNoEdit_iff hedits hgrouped).mp (hloses.of_perm (sortByInstant_perm _).symm) p hburst

/-- **When the walk loses no edit.** -/
theorem keepsEdits_iff (w : WalkInput) (upstream : CursorUpstream V2CursorPaginator.parse) :
    KeepsEdits w upstream ↔ ∀ self ∈ Atlassian.selfAccountId w.sourceIdentities w.sourceId,
      (∃ url, w.crates.joinUrl w.workspaceUrl searchPath = .ok url) →
        (∀ body ∈ upstream.pages.take MAX_PAGES, (contentWalk w self).WellFormed body) →
          ∀ p, HasBurst p (normalisedEvents w self upstream) →
            BurstKept p (normalisedEvents w self upstream) := by
  constructor
  · exact fun h self hself hurl hwell p => burstKept_of_keepsEdits h hself hurl hwell
  · intro h fails shuffle hshuffle self hself events hwalk
    unfold walkDay at hwalk
    rw [Option.mem_def.mp hself] at hwalk
    dsimp only at hwalk
    cases hurl : w.crates.joinUrl w.workspaceUrl searchPath with
    | error err =>
      rw [hurl] at hwalk
      cases hwalk
    | ok url =>
      rw [hurl] at hwalk
      obtain ⟨s, hpages, rfl⟩ := Paging.exists_of_map_eq_ok hwalk
      have hs := CursorWalk.walkPages_ok hpages
      obtain ⟨hevents, hgrouped, hedits⟩ := grouped_of_readAll hs
      rw [hevents]
      refine ((losesNoEdit_iff hedits (hgrouped.of_perm (hshuffle _))).mpr ?_).of_perm
        (sortByInstant_perm _)
      exact h self hself ⟨url, hurl⟩ (CursorWalk.exists_readAll_iff.mp ⟨s, hs⟩)

end Walk

/-! ### A burst and a lone edit -/

/-- A row of the page 77, which the user saved. -/
def savedRow (number savedAt : String) : Json :=
  .object [("content".toList, .object [
      ("type".toList, .string "page".toList), ("id".toList, .string "77".toList),
      ("space".toList, .object [("key".toList, .string "ENG".toList)]),
      ("history".toList, .object []),
      ("version".toList, .object [("number".toList, .number number.toList),
        ("when".toList, .string savedAt.toList),
        ("by".toList, .object [("accountId".toList, .string "me".toList)])])]),
    ("url".toList, .string "/spaces/ENG/pages/77".toList),
    ("_links".toList, .object [("base".toList, .string "https://acme.atlassian.net/wiki".toList)])]

/-- Three saves: two within a minute, and one three hours later. -/
def threeSaves : Json :=
  .object [("results".toList, .array [savedRow "2" "2026-04-20T09:00:00Z",
    savedRow "3" "2026-04-20T09:01:00Z", savedRow "4" "2026-04-20T12:00:00Z"])]

def threeSavesUpstream : CursorUpstream V2CursorPaginator.parse where
  page _ := threeSaves
  pages := [threeSaves]
  offers := .last rfl

/-- What the crates make of the instants and the URL of the example. -/
def sampleCrates : Crates where
  newV5 space name := Fin.ofNat _ (name.foldl (fun h b => 31 * h + b.toNat) space.val)
  parseFromRfc3339 t :=
    if t = "2026-04-20T09:00:00Z".toList then some (1776675600 * nanosPerSec)
    else if t = "2026-04-20T09:01:00Z".toList then some (1776675660 * nanosPerSec)
    else if t = "2026-04-20T12:00:00Z".toList then some (1776686400 * nanosPerSec)
    else none
  parseFromStr _ _ := none
  joinUrl base path := .ok (base ++ path)
  fromJsonStr _ := none

def sampleWalk : WalkInput where
  crates := sampleCrates
  workspaceUrl := "https://acme.atlassian.net/".toList
  sourceId := 1
  sourceIdentities := [⟨1, 1, some 1, .atlassianAccountId, "me".toList⟩]
  day := ⟨20563⟩
  localTz := .utc

/-- The event of a save of the page. -/
def savedEvent (secs : ℤ) (number : ℕ) : ActivityEvent :=
  editedEvent sampleCrates 1 "me".toList ⟨"77".toList, [], "ENG".toList, none,
    ⟨"https://acme.atlassian.net/wiki/spaces/ENG/pages/77".toList, none⟩⟩ (secs * nanosPerSec)
    number

theorem normalisedEvents_threeSaves : normalisedEvents sampleWalk "me".toList threeSavesUpstream =
    [savedEvent 1776675600 2, savedEvent 1776675660 3, savedEvent 1776686400 4] := by
  rfl

theorem wellFormed_threeSaves : (contentWalk sampleWalk "me".toList).WellFormed threeSaves := by
  refine ⟨_, rfl, _, rfl, fun row hrow => ?_⟩
  rcases List.mem_cons.mp hrow with rfl | hrow
  · exact ⟨_, rfl⟩
  · rcases List.mem_cons.mp hrow with rfl | hrow
    · exact ⟨_, rfl⟩
    · rw [List.mem_singleton.mp hrow]
      exact ⟨_, rfl⟩

/-- The last pass drops the edit that stands alone. -/
theorem lone_edit_lost : ¬KeepsEdits sampleWalk threeSavesUpstream := by
  intro h
  have hsplit : (sortedEdits "77".toList (normalisedEvents sampleWalk "me".toList
      threeSavesUpstream)).splitBy follows =
        [[savedEvent 1776675600 2, savedEvent 1776675660 3], [savedEvent 1776686400 4]] := by
    have hedits : editsOf "77".toList (normalisedEvents sampleWalk "me".toList
        threeSavesUpstream) =
          [savedEvent 1776675600 2, savedEvent 1776675660 3, savedEvent 1776686400 4] := rfl
    have hsorted : [savedEvent 1776675600 2, savedEvent 1776675660 3,
        savedEvent 1776686400 4].Pairwise
          fun a b => decide (a.occurredAt ≤ b.occurredAt) = true := by
      decide
    rw [sortedEdits, hedits, sortBy, List.mergeSort_of_pairwise hsorted]
    rfl
  have hburst : HasBurst "77".toList (normalisedEvents sampleWalk "me".toList threeSavesUpstream) :=
    ⟨[savedEvent 1776675600 2, savedEvent 1776675660 3], hsplit ▸ List.mem_cons_self, by decide⟩
  have hwell : ∀ body ∈ threeSavesUpstream.pages.take MAX_PAGES,
      (contentWalk sampleWalk "me".toList).WellFormed body := by
    intro body hbody
    rw [List.mem_singleton.mp (List.mem_of_mem_take hbody)]
    exact wellFormed_threeSaves
  have hkept := burstKept_of_keepsEdits h rfl ⟨_, rfl⟩ hwell hburst
  have hlong := (hkept.runs [savedEvent 1776686400 4]
    (hsplit ▸ List.mem_cons_of_mem _ List.mem_cons_self)).1
  exact absurd hlong (by decide)

end Confluence
end Dayseam
