import Dayseam.Connectors.Adf
import Dayseam.Connectors.Atlassian
import Dayseam.Core.Ids
import Dayseam.Lib.Collapse
import Mathlib

/-!
# The normaliser of Jira issues

A row of a search is an issue with its changelog and its comments.  It becomes an event
for each thing that the user did in the day; the changes of the status that follow each
other within a minute become one.

## Main definitions

* `Jira.collapseRapidTransitions` — the cascades of a list of changes.
* `Jira.normaliseIssue` — the events of an issue.
* `Jira.actionsOf` — what the user did to an issue in a window.
* `Jira.Tells` — the event that tells of an action.

## Main results

* `Jira.exists_cascade` — every change is in a cascade that ends at or after it.
* `Jira.exists_tells` — **an event for every action.**
-/

namespace Dayseam
namespace Jira

open Atlassian (Crates numSeconds timestampMillis shapeError)

/-! ### Cascades -/

def RAPID_TRANSITION_WINDOW_SECONDS : ℤ := 60

/-- A change of the status. -/
structure StatusTransition where
  createdAt : ℤ
  fromStatus : Text
  toStatus : Text
  statusCategory : Text
  deriving DecidableEq, Repr

/-- A cascade of changes: from the first status over the statuses `via` to the last. -/
structure CollapsedTransition where
  createdAt : ℤ
  fromStatus : Text
  toStatus : Text
  statusCategory : Text
  transitionCount : ℕ
  via : List Text
  deriving DecidableEq, Repr

def singleton (t : StatusTransition) : CollapsedTransition :=
  ⟨t.createdAt, t.fromStatus, t.toStatus, t.statusCategory, 1, []⟩

/-- Two instants that are at most a minute apart, in whole seconds. -/
def withinWindow (last next : ℤ) : Bool :=
  0 ≤ numSeconds (next - last) && numSeconds (next - last) ≤ RAPID_TRANSITION_WINDOW_SECONDS

/-- The count saturates. -/
def extendCascade (last : CollapsedTransition) (t : StatusTransition) : CollapsedTransition where
  createdAt := t.createdAt
  fromStatus := last.fromStatus
  toStatus := t.toStatus
  statusCategory := t.statusCategory
  transitionCount := min (last.transitionCount + 1) (2 ^ 32 - 1)
  via := last.via ++ [last.toStatus]

def collapseRapidTransitions (transitions : List StatusTransition) : List CollapsedTransition :=
  Collapse.collapse (fun last t => withinWindow last.createdAt t.createdAt) singleton
    extendCascade transitions

/-! ### The events of an issue -/

/-- What the events of an issue have in common. -/
structure Issue where
  key : Text
  summary : Text
  projectKey : Text
  projectName : Option Text
  statusCategory : Text
  deriving DecidableEq, Repr

/-- The mandatory fields of an issue. -/
def parseIssue (issue : Json) : Except DayseamError (Issue × Json) :=
  match issue.strAt ["key".toList], issue.get "fields".toList with
  | none, _ => .error (shapeError .jira "issue.key missing".toList)
  | some _, none => .error (shapeError .jira "issue.fields missing".toList)
  | some key, some fields =>
    match fields.get "project".toList with
    | none => .error (shapeError .jira "issue.fields.project missing".toList)
    | some project =>
      match project.strAt ["key".toList] with
      | none => .error (shapeError .jira "issue.fields.project.key missing".toList)
      | some projectKey => .ok (
        { key := key
          summary := (fields.strAt ["summary".toList]).getD []
          projectKey := projectKey
          projectName := project.strAt ["name".toList]
          statusCategory := (fields.strAt
            ["status".toList, "statusCategory".toList, "key".toList]).getD [] }, fields)

variable (crates : Crates) (sourceId : Uuid) (workspaceUrl selfAccountId : Text)
  (window : Connectors.DayWindow)

def issueBrowseLink (key : Text) : Link where
  url := match crates.joinUrl workspaceUrl ("browse/".toList ++ key) with
    | .ok url => url
    | .error _ => workspaceUrl ++ "browse/".toList ++ key
  label := some key

def projectEntity (issue : Issue) : EntityRef := ⟨.jiraProject, issue.projectKey, issue.projectName⟩

def issueEntity (issue : Issue) : EntityRef :=
  ⟨.jiraIssue, issue.key, if issue.summary = [] then none else some issue.summary⟩

def actorFromAuthor (author : Json) : Actor where
  displayName := (author.strAt ["displayName".toList]).getD []
  email := author.strAt ["emailAddress".toList]
  externalId := author.strAt ["accountId".toList]

/-- An event of an issue; `suffix` tells it from the others of its kind. -/
def issueEvent (issue : Issue) (kind : ActivityKind) (suffix : Text) (occurredAt : ℤ)
    (actor : Actor) (title : Text) (body : Option Text) (metadata : Json) : ActivityEvent where
  id := ActivityEvent.deterministicId crates.newV5 sourceId (issue.key ++ suffix) kind
  sourceId := sourceId
  externalId := issue.key ++ suffix
  kind := kind
  occurredAt := occurredAt
  actor := actor
  title := title
  body := body
  links := [issueBrowseLink crates workspaceUrl issue.key]
  entities := [projectEntity issue, issueEntity issue]
  parentExternalId := some issue.key
  metadata := metadata
  privacy := .normal

def createdSuffix : Text := ":created".toList

def assignedSuffix (createdAt : ℤ) : Text := ":assigned:".toList ++ i64Text (timestampMillis createdAt)

def unassignedSuffix (createdAt : ℤ) : Text :=
  ":unassigned:".toList ++ i64Text (timestampMillis createdAt)

def commentSuffix (commentId : Text) : Text := ":comment:".toList ++ commentId

def buildTransitionEvent (issue : Issue) (t : CollapsedTransition) : ActivityEvent :=
  let change := issue.key ++ ' ' :: (t.fromStatus ++ " → ".toList ++ t.toStatus)
  issueEvent crates sourceId workspaceUrl issue .jiraIssueTransitioned
    (":transition:".toList ++ i64Text (timestampMillis t.createdAt)) t.createdAt
    ⟨[], none, some selfAccountId⟩
    (if 1 < t.transitionCount then change ++ " (rolled up from ".toList ++
      Nat.toDigits 10 t.transitionCount ++ " transitions)".toList else change)
    none (.object [("from_status".toList, .string t.fromStatus),
      ("to_status".toList, .string t.toStatus), ("status_category".toList, .string t.statusCategory),
      ("transition_count".toList, .number (Nat.toDigits 10 t.transitionCount)),
      ("via".toList, .array (t.via.map .string))])

def buildAssignedEvent (issue : Issue) (author : Json) (createdAt : ℤ) : ActivityEvent :=
  issueEvent crates sourceId workspaceUrl issue .jiraIssueAssigned (assignedSuffix createdAt)
    createdAt (actorFromAuthor author) (issue.key ++ " assigned".toList) none (.object [])

/-- The account that the issue went to is kept, where there is one. -/
def buildUnassignedEvent (issue : Issue) (author : Json) (createdAt : ℤ) (toAccount : Text) :
    ActivityEvent :=
  issueEvent crates sourceId workspaceUrl issue .jiraIssueUnassigned (unassignedSuffix createdAt)
    createdAt (actorFromAuthor author) (issue.key ++ " unassigned".toList) none
    (.object (if toAccount = [] then []
      else [("reassigned_to_account_id".toList, .string toAccount)]))

def buildCreatedEvent (issue : Issue) (reporter : Json) (createdAt : ℤ) : ActivityEvent :=
  issueEvent crates sourceId workspaceUrl issue .jiraIssueCreated createdSuffix createdAt
    (actorFromAuthor reporter)
    (if issue.summary = [] then issue.key ++ " created".toList
      else issue.key ++ ": ".toList ++ issue.summary) none (.object [])

def buildCommentedEvent (issue : Issue) (author : Json) (createdAt : ℤ) (commentId bodyPlain : Text) :
    ActivityEvent :=
  issueEvent crates sourceId workspaceUrl issue .jiraIssueCommented (commentSuffix commentId)
    createdAt (actorFromAuthor author) (issue.key ++ " comment".toList)
    (if bodyPlain = [] then none else some bodyPlain)
    (.object [("comment_id".toList, .string commentId)])

/-! ### The rows of an issue -/

/-- The instant of an entry under `author`, where the user made it in the window. -/
def ownInstant (author entry : Json) : Option ℤ := do
  let account ← author.strAt ["accountId".toList]
  let createdRaw ← entry.strAt ["created".toList]
  let createdAt ← crates.parseDatetime createdRaw
  if account = selfAccountId ∧ window.contains createdAt then some createdAt else none

/-- An entry of the user, with its author and its instant. -/
def ownEntry (entry : Json) : Option (Json × ℤ × Json) := do
  let author ← entry.get "author".toList
  let createdAt ← ownInstant crates selfAccountId window author entry
  return (author, createdAt, entry)

/-- When the user reported the issue, where that is in the window. -/
def ownCreation (fields : Json) : Option (Json × ℤ) := do
  let reporter ← fields.get "reporter".toList
  let createdAt ← ownInstant crates selfAccountId window reporter fields
  return (reporter, createdAt)

/-- The changes that the user made, each with its author and its instant. -/
def ownItems (issue : Json) : List (Json × ℤ × Json) :=
  (((issue.arrayAt ["changelog".toList, "histories".toList]).getD []).filterMap
    (ownEntry crates selfAccountId window)).flatMap fun (author, createdAt, history) =>
      ((history.arrayAt ["items".toList]).getD []).map fun item => (author, createdAt, item)

def ownComments (fields : Json) : List (Json × ℤ × Json) :=
  ((fields.arrayAt ["comment".toList, "comments".toList]).getD []).filterMap
    (ownEntry crates selfAccountId window)

def fieldOf (item : Json) : Text := (item.strAt ["field".toList]).getD []

/-- The change of the status that an item is. -/
def transitionOf (issue : Issue) (createdAt : ℤ) (item : Json) : Option StatusTransition :=
  if fieldOf item = "status".toList then
    some ⟨createdAt, (item.strAt ["fromString".toList]).getD [],
      (item.strAt ["toString".toList]).getD [], issue.statusCategory⟩
  else none

def toAccountOf (item : Json) : Text := (item.strAt ["to".toList]).getD []

def fromAccountOf (item : Json) : Text := (item.strAt ["from".toList]).getD []

/-- The event of a change of the assignee from or to the user. -/
def assigneeEvent (issue : Issue) (author : Json) (createdAt : ℤ) (item : Json) :
    Option ActivityEvent :=
  if fieldOf item = "assignee".toList then
    if toAccountOf item = selfAccountId then
      some (buildAssignedEvent crates sourceId workspaceUrl issue author createdAt)
    else if fromAccountOf item = selfAccountId then
      some (buildUnassignedEvent crates sourceId workspaceUrl issue author createdAt
        (toAccountOf item))
    else none
  else none

def commentIdOf (comment : Json) : Text := (comment.strAt ["id".toList]).getD []

def commentedEvent (issue : Issue) (author : Json) (createdAt : ℤ) (comment : Json) :
    ActivityEvent :=
  buildCommentedEvent crates sourceId workspaceUrl issue author createdAt (commentIdOf comment)
    (Adf.adfToPlain ((comment.get "body".toList).getD .null))

/-- The changes of the status that the user made, in the order of their instants. -/
def ownTransitions (info : Issue) (issue : Json) : List StatusTransition :=
  ((ownItems crates selfAccountId window issue).filterMap fun (_, createdAt, item) =>
    transitionOf info createdAt item).mergeSort fun a b => a.createdAt ≤ b.createdAt

/-- The events of an issue. -/
def issueEvents (info : Issue) (fields issue : Json) : List ActivityEvent :=
  ((ownCreation crates selfAccountId window fields).map fun (reporter, createdAt) =>
      buildCreatedEvent crates sourceId workspaceUrl info reporter createdAt).toList ++
    (ownItems crates selfAccountId window issue).filterMap (fun (author, createdAt, item) =>
      assigneeEvent crates sourceId workspaceUrl selfAccountId info author createdAt item) ++
    (collapseRapidTransitions (ownTransitions crates selfAccountId window info issue)).map
      (buildTransitionEvent crates sourceId workspaceUrl selfAccountId info) ++
    (ownComments crates selfAccountId window fields).map fun (author, createdAt, comment) =>
      commentedEvent crates sourceId workspaceUrl info author createdAt comment

def normaliseIssue (issue : Json) : Except DayseamError (List ActivityEvent) :=
  (parseIssue issue).map fun (info, fields) =>
    issueEvents crates sourceId workspaceUrl selfAccountId window info fields issue

/-! ### What the user did -/

/-- What the user did to an issue. -/
inductive Action
  | created (createdAt : ℤ)
  | transitioned (createdAt : ℤ) (toStatus : Text)
  | assigned (createdAt : ℤ)
  | unassigned (createdAt : ℤ)
  | commented (commentId : Text) (createdAt : ℤ)
  deriving DecidableEq, Repr

/-- An entry under `author` that the user made at an instant of the day. -/
def Own (inDay : ℤ → Prop) (author entry : Json) (createdAt : ℤ) : Prop :=
  author.strAt ["accountId".toList] = some selfAccountId ∧
    (entry.strAt ["created".toList]).bind crates.parseDatetime = some createdAt ∧ inDay createdAt

/-- What the user did to an issue in the day, as the issue, its changelog and its comments
have it. -/
inductive Did (inDay : ℤ → Prop) (issue fields : Json) : Action → Prop
  | created {reporter : Json} {createdAt : ℤ} :
      fields.get "reporter".toList = some reporter →
      Own crates selfAccountId inDay reporter fields createdAt →
      Did inDay issue fields (.created createdAt)
  | changed {histories items : List Json} {history author item : Json} {createdAt : ℤ}
      {action : Action} :
      issue.arrayAt ["changelog".toList, "histories".toList] = some histories →
      history ∈ histories → history.get "author".toList = some author →
      Own crates selfAccountId inDay author history createdAt →
      history.arrayAt ["items".toList] = some items → item ∈ items →
      (fieldOf item = "status".toList ∧
          action = .transitioned createdAt ((item.strAt ["toString".toList]).getD []) ∨
        fieldOf item = "assignee".toList ∧ toAccountOf item = selfAccountId ∧
          action = .assigned createdAt ∨
        fieldOf item = "assignee".toList ∧ toAccountOf item ≠ selfAccountId ∧
          fromAccountOf item = selfAccountId ∧ action = .unassigned createdAt) →
      Did inDay issue fields action
  | commented {comments : List Json} {comment author : Json} {createdAt : ℤ} :
      fields.arrayAt ["comment".toList, "comments".toList] = some comments →
      comment ∈ comments → comment.get "author".toList = some author →
      Own crates selfAccountId inDay author comment createdAt →
      Did inDay issue fields (.commented (commentIdOf comment) createdAt)

/-- The statuses that the event of a cascade names, up to the last. -/
def statusesOf (e : ActivityEvent) : List Text :=
  ((e.metadata.arrayAt ["via".toList]).getD []).filterMap Json.asStr ++
    (e.metadata.strAt ["to_status".toList]).toList

/-- The event that tells of an action on the issue `key`: of a change of the status that
of a cascade, which names the status and is not before the change. -/
def Tells (key : Text) (e : ActivityEvent) : Action → Prop
  | .created createdAt => e.kind = .jiraIssueCreated ∧ e.externalId = key ++ createdSuffix ∧
      e.occurredAt = createdAt
  | .transitioned createdAt toStatus => e.kind = .jiraIssueTransitioned ∧
      e.parentExternalId = some key ∧ createdAt ≤ e.occurredAt ∧ toStatus ∈ statusesOf e
  | .assigned createdAt => e.kind = .jiraIssueAssigned ∧
      e.externalId = key ++ assignedSuffix createdAt ∧ e.occurredAt = createdAt
  | .unassigned createdAt => e.kind = .jiraIssueUnassigned ∧
      e.externalId = key ++ unassignedSuffix createdAt ∧ e.occurredAt = createdAt
  | .commented commentId createdAt => e.kind = .jiraIssueCommented ∧
      e.externalId = key ++ commentSuffix commentId ∧ e.occurredAt = createdAt

/-! ### An event for every action -/

/-- The status of every change of a run is named by its cascade. -/
theorem mem_statuses_of_builds {run : List StatusTransition} {c : CollapsedTransition}
    (h : Collapse.Builds singleton extendCascade run c) :
    ∀ t ∈ run, t.toStatus ∈ c.via ++ [c.toStatus] := by
  obtain ⟨a, as, rfl, rfl⟩ := h
  induction as using List.reverseRecOn with
  | nil =>
    intro t ht
    rw [List.mem_singleton.mp ht]
    exact List.mem_singleton.mpr rfl
  | append_singleton as b ih =>
    intro t ht
    rw [List.foldl_concat]
    rw [← List.cons_append] at ht
    rcases List.mem_append.mp ht with ht | ht
    · exact List.mem_append_left _ (ih t ht)
    · rw [List.mem_singleton.mp ht]
      exact List.mem_concat_self

/-- **Every change is in a cascade** that names its status and ends at or after it. -/
theorem exists_cascade {transitions : List StatusTransition}
    (hsorted : transitions.Pairwise fun a b => a.createdAt ≤ b.createdAt)
    {t : StatusTransition} (ht : t ∈ transitions) :
    ∃ c ∈ collapseRapidTransitions transitions, t.createdAt ≤ c.createdAt ∧
      t.toStatus ∈ c.via ++ [c.toStatus] := by
  have hat : ∀ a, (singleton a).createdAt = a.createdAt := fun _ => rfl
  have hext : ∀ b a, (extendCascade b a).createdAt = a.createdAt := fun _ _ => rfl
  obtain ⟨run, hrun, htrun, c, hc, hbuilds⟩ :=
    @Collapse.exists_builds_of_mem _ _ _ _ _ _ CollapsedTransition.createdAt
      StatusTransition.createdAt withinWindow (fun _ _ => rfl) hat hext _ _ ht
  obtain ⟨last, hlast, hlastAt⟩ := @Collapse.at_of_builds _ _ _ _ _
    CollapsedTransition.createdAt StatusTransition.createdAt hat hext _ _ hbuilds
  refine ⟨c, hc, ?_, mem_statuses_of_builds hbuilds t htrun⟩
  have hsub : run.Pairwise fun a b => a.createdAt ≤ b.createdAt := by
    have hflat := List.sublist_flatten_of_mem hrun
    rw [List.flatten_splitBy] at hflat
    exact hsorted.sublist hflat
  rw [hlastAt]
  obtain ⟨front, rfl⟩ := List.getLast?_eq_some_iff.mp hlast
  rcases List.mem_append.mp htrun with hfront | hfront
  · exact (List.pairwise_append.mp hsub).2.2 t hfront last (List.mem_singleton.mpr rfl)
  · rw [List.mem_singleton.mp hfront]

variable {crates sourceId workspaceUrl selfAccountId window} {inDay : ℤ → Prop}

theorem ownInstant_of_own (hday : ∀ t, inDay t → window.contains t = true) {author entry : Json}
    {createdAt : ℤ} (h : Own crates selfAccountId inDay author entry createdAt) :
    ownInstant crates selfAccountId window author entry = some createdAt := by
  obtain ⟨haccount, hcreated, hin⟩ := h
  obtain ⟨raw, hraw, hparse⟩ := Option.bind_eq_some_iff.mp hcreated
  unfold ownInstant
  rw [haccount, hraw]
  simp only [Option.bind_eq_bind, Option.bind_some, hparse]
  rw [if_pos ⟨trivial, hday _ hin⟩]

theorem ownEntry_of_own (hday : ∀ t, inDay t → window.contains t = true) {author entry : Json}
    {createdAt : ℤ} (hauthor : entry.get "author".toList = some author)
    (h : Own crates selfAccountId inDay author entry createdAt) :
    ownEntry crates selfAccountId window entry = some (author, createdAt, entry) := by
  unfold ownEntry
  rw [hauthor]
  simp only [Option.bind_eq_bind, Option.bind_some, ownInstant_of_own hday h]
  rfl

theorem parseIssue_eq_ok {issue fields : Json} {info : Issue}
    (h : parseIssue issue = .ok (info, fields)) :
    issue.strAt ["key".toList] = some info.key ∧ issue.get "fields".toList = some fields := by
  unfold parseIssue at h
  split at h
  · exact nomatch h
  · exact nomatch h
  · next key fields' hkey hfields =>
    split at h
    · exact nomatch h
    · split at h
      · exact nomatch h
      · obtain ⟨rfl, rfl⟩ := Prod.mk.inj (Except.ok.inj h)
        exact ⟨hkey, hfields⟩

/-- An issue has its mandatory fields: its key, and the key of its project. -/
def WellFormedIssue (issue : Json) : Prop :=
  (issue.strAt ["key".toList]).isSome = true ∧
    (issue.strAt ["fields".toList, "project".toList, "key".toList]).isSome = true

theorem strAt_projectKey (issue : Json) :
    issue.strAt ["fields".toList, "project".toList, "key".toList] =
      (issue.get "fields".toList).bind fun fields =>
        (fields.get "project".toList).bind fun project => project.strAt ["key".toList] := by
  unfold Json.strAt Json.path
  simp only [List.foldlM_cons, List.foldlM_nil, Option.bind_eq_bind, Option.bind_assoc]

theorem exists_parseIssue_iff {issue : Json} :
    (∃ parsed, parseIssue issue = .ok parsed) ↔ WellFormedIssue issue := by
  unfold parseIssue WellFormedIssue
  rw [strAt_projectKey]
  cases issue.strAt ["key".toList] with
  | none => exact iff_of_false (fun ⟨_, h⟩ => nomatch h) fun h => Bool.noConfusion h.1
  | some key =>
    cases issue.get "fields".toList with
    | none => exact iff_of_false (fun ⟨_, h⟩ => nomatch h) fun h => Bool.noConfusion h.2
    | some fields =>
      rw [Option.bind_some]
      dsimp only
      cases fields.get "project".toList with
      | none => exact iff_of_false (fun ⟨_, h⟩ => nomatch h) fun h => Bool.noConfusion h.2
      | some project =>
        rw [Option.bind_some]
        dsimp only
        cases project.strAt ["key".toList] with
        | none => exact iff_of_false (fun ⟨_, h⟩ => nomatch h) fun h => Bool.noConfusion h.2
        | some projectKey => exact iff_of_true ⟨_, rfl⟩ ⟨rfl, rfl⟩

theorem exists_normaliseIssue_iff {issue : Json} :
    (∃ events, normaliseIssue crates sourceId workspaceUrl selfAccountId window issue =
      .ok events) ↔ WellFormedIssue issue := by
  rw [← exists_parseIssue_iff]
  constructor
  · rintro ⟨events, h⟩
    obtain ⟨parsed, hparsed, -⟩ := Paging.exists_of_map_eq_ok h
    exact ⟨parsed, hparsed⟩
  · rintro ⟨parsed, h⟩
    exact ⟨_, by rw [normaliseIssue, h]; rfl⟩

/-- The event of a cascade names the statuses of the cascade. -/
theorem statusesOf_buildTransitionEvent (info : Issue) (c : CollapsedTransition) :
    statusesOf (buildTransitionEvent crates sourceId workspaceUrl selfAccountId info c) =
      c.via ++ [c.toStatus] := by
  have hvia : (c.via.map Json.string).filterMap Json.asStr = c.via := by
    rw [List.filterMap_map]
    exact List.filterMap_some
  unfold statusesOf
  rw [show (buildTransitionEvent crates sourceId workspaceUrl selfAccountId info c).metadata.arrayAt
    ["via".toList] = some (c.via.map Json.string) from rfl,
    show (buildTransitionEvent crates sourceId workspaceUrl selfAccountId info c).metadata.strAt
    ["to_status".toList] = some c.toStatus from rfl]
  simp [hvia]

theorem mem_ownItems (hday : ∀ t, inDay t → window.contains t = true) {issue history author item : Json}
    {histories items : List Json} {createdAt : ℤ}
    (hhistories : issue.arrayAt ["changelog".toList, "histories".toList] = some histories)
    (hhistory : history ∈ histories) (hauthor : history.get "author".toList = some author)
    (hown : Own crates selfAccountId inDay author history createdAt)
    (hitems : history.arrayAt ["items".toList] = some items) (hitem : item ∈ items) :
    (author, createdAt, item) ∈ ownItems crates selfAccountId window issue := by
  unfold ownItems
  rw [hhistories, List.mem_flatMap]
  refine ⟨(author, createdAt, history),
    List.mem_filterMap.mpr ⟨history, hhistory, ownEntry_of_own hday hauthor hown⟩, ?_⟩
  dsimp only
  rw [hitems]
  exact List.mem_map_of_mem hitem

/-- A change of the status is told of by the event of its cascade. -/
theorem exists_tells_transition {info : Issue} {issue author item : Json} {createdAt : ℤ}
    (hitem : (author, createdAt, item) ∈ ownItems crates selfAccountId window issue)
    (hfield : fieldOf item = "status".toList) :
    ∃ e ∈ (collapseRapidTransitions (ownTransitions crates selfAccountId window info issue)).map
      (buildTransitionEvent crates sourceId workspaceUrl selfAccountId info),
      Tells info.key e (.transitioned createdAt ((item.strAt ["toString".toList]).getD [])) := by
  have htransition : transitionOf info createdAt item = some ⟨createdAt,
      (item.strAt ["fromString".toList]).getD [], (item.strAt ["toString".toList]).getD [],
      info.statusCategory⟩ := if_pos hfield
  have hsorted : (ownTransitions crates selfAccountId window info issue).Pairwise
      fun a b => a.createdAt ≤ b.createdAt := by
    refine (List.pairwise_mergeSort ?_ ?_ _).imp of_decide_eq_true
    · intro a b c hab hbc
      simp only [decide_eq_true_eq] at hab hbc ⊢
      omega
    · intro a b
      simp only [Bool.or_eq_true, decide_eq_true_eq]
      omega
  obtain ⟨c, hc, hle, hstatus⟩ := exists_cascade hsorted
    (List.mem_mergeSort.mpr (List.mem_filterMap.mpr ⟨_, hitem, htransition⟩))
  refine ⟨_, List.mem_map_of_mem hc, rfl, rfl, hle, ?_⟩
  rw [statusesOf_buildTransitionEvent]
  exact hstatus

/-- **An event for every action**: what the user did to an issue in the day is told of. -/
theorem exists_tells (hday : ∀ t, inDay t → window.contains t = true) {issue fields : Json}
    {events : List ActivityEvent} {action : Action}
    (h : normaliseIssue crates sourceId workspaceUrl selfAccountId window issue = .ok events)
    (hfields : issue.get "fields".toList = some fields)
    (hdid : Did crates selfAccountId inDay issue fields action) :
    ∃ key, issue.strAt ["key".toList] = some key ∧ ∃ e ∈ events, Tells key e action := by
  obtain ⟨⟨info, fields'⟩, hparse, rfl⟩ := Paging.exists_of_map_eq_ok h
  obtain ⟨hkey, hfields'⟩ := parseIssue_eq_ok hparse
  obtain rfl := Option.some.inj (hfields.symm.trans hfields')
  refine ⟨info.key, hkey, ?_⟩
  unfold issueEvents
  simp only [List.mem_append]
  cases hdid with
  | @created reporter createdAt hreporter hown =>
    have hcreation : ownCreation crates selfAccountId window fields =
        some (reporter, createdAt) := by
      unfold ownCreation
      rw [hreporter]
      simp only [Option.bind_eq_bind, Option.bind_some, ownInstant_of_own hday hown]
      rfl
    rw [hcreation]
    exact ⟨_, Or.inl (Or.inl (Or.inl (List.mem_singleton.mpr rfl))), rfl, rfl, rfl⟩
  | @changed _ _ _ author item createdAt _ hhistories hhistory hauthor hown hitems hitem haction =>
    have hmem := mem_ownItems hday hhistories hhistory hauthor hown hitems hitem
    rcases haction with ⟨hfield, rfl⟩ | ⟨hfield, hto, rfl⟩ | ⟨hfield, hto, hfrom, rfl⟩
    · obtain ⟨e, he, htells⟩ :=
        @exists_tells_transition _ sourceId workspaceUrl _ _ info _ _ _ _ hmem hfield
      exact ⟨e, Or.inl (Or.inr he), htells⟩
    · refine ⟨buildAssignedEvent crates sourceId workspaceUrl info author createdAt,
        Or.inl (Or.inl (Or.inr (List.mem_filterMap.mpr ⟨_, hmem, ?_⟩))), rfl, rfl, rfl⟩
      exact (if_pos hfield).trans (if_pos hto)
    · refine ⟨buildUnassignedEvent crates sourceId workspaceUrl info author createdAt
        (toAccountOf item),
        Or.inl (Or.inl (Or.inr (List.mem_filterMap.mpr ⟨_, hmem, ?_⟩))), rfl, rfl, rfl⟩
      exact (if_pos hfield).trans ((if_neg hto).trans (if_pos hfrom))
  | @commented comments comment author createdAt hcomments hcomment hauthor hown =>
    have hmem : (author, createdAt, comment) ∈ ownComments crates selfAccountId window fields := by
      unfold ownComments
      rw [hcomments]
      exact List.mem_filterMap.mpr ⟨_, hcomment, ownEntry_of_own hday hauthor hown⟩
    exact ⟨_, Or.inr (List.mem_map_of_mem hmem), rfl, rfl, rfl⟩

end Jira
end Dayseam
