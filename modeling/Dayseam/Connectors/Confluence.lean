import Dayseam.Connectors.Adf
import Dayseam.Connectors.Atlassian
import Dayseam.Core.Ids
import Dayseam.Core.JsonObject
import Dayseam.Lib.Collapse
import Dayseam.Lib.StableSort
import Mathlib

/-!
# The normaliser of Confluence content

A row of a search is a page or a comment.  It becomes at most one event: a page that the
user created or edited in the window, or a comment that the user made in it.  The edits of
a page that follow each other within five minutes are saves of one edit.

## Main definitions

* `Confluence.normaliseResult` — the event of a row.
* `Confluence.collapseRapidEdits` — the edits that a list of saves comes to.

## Main results

* `Confluence.isEditOf_of_normaliseResult` — the event of an edited page.
-/

namespace Dayseam
namespace Confluence

open Atlassian (Crates numSeconds timestampMillis)

def shapeError (message : Text) : DayseamError := Atlassian.shapeError .confluence message

/-! ### The parts of an event -/

def spaceEntity (spaceKey : Text) (spaceName : Option Text) : EntityRef :=
  ⟨.confluenceSpace, spaceKey, spaceName⟩

def pageEntity (contentId title : Text) : EntityRef :=
  ⟨.confluencePage, contentId, if title = [] then none else some title⟩

def commentEntity (contentId : Text) : EntityRef := ⟨.confluenceComment, contentId, none⟩

def actorFromHistory (createdBy : Json) : Actor where
  displayName := (createdBy.strAt ["displayName".toList]).getD []
  email := createdBy.strAt ["email".toList]
  externalId := createdBy.strAt ["accountId".toList]

/-- The id and the title under a field of the content that names the parent page. -/
def parentRef (parent : Json) : Option (Text × Option Text) :=
  (parent.strAt ["id".toList]).map fun id => (id, (parent.strAt ["title".toList]).filter (· ≠ []))

/-- The page of a comment: the last ancestor, or the container. -/
def commentParentPageRef (content : Json) : Option (Text × Option Text) :=
  (((content.arrayAt ["ancestors".toList]).bind List.getLast?).bind parentRef).or
    ((content.get "container".toList).bind parentRef)

def pageRef (contentId : Text) : Text := "page:".toList ++ contentId

def commentParentPageId (content : Json) : Option Text :=
  (commentParentPageRef content).map fun parent => pageRef parent.1

variable (crates : Crates) (sourceId : Uuid) (workspaceUrl selfAccountId : Text)
  (window : Connectors.DayWindow)

/-- The address of a row: the path of the row, or else the one of its content. -/
def resultLink (result content : Json) : Except DayseamError Link :=
  let label := content.strAt ["title".toList]
  match result.strAt ["url".toList], result.strAt ["_links".toList, "base".toList] with
  | some path, some base => .ok ⟨Text.trimEndMatches (· == '/') base ++ path, label⟩
  | _, _ =>
    match content.strAt ["_links".toList, "webui".toList] with
    | some webui => .ok ⟨match crates.joinUrl workspaceUrl ("wiki".toList ++ webui) with
        | .ok url => url
        | .error _ => workspaceUrl ++ "wiki".toList ++ webui, label⟩
    | none => .error (shapeError
        "result is missing both top-level url/_links.base and content._links.webui".toList)

/-! ### Pages -/

/-- A page as its row has it. -/
structure Page where
  contentId : Text
  title : Text
  spaceKey : Text
  spaceName : Option Text
  link : Link
  deriving DecidableEq, Repr

def createdId (contentId : Text) : Text := pageRef contentId ++ ":created".toList

def editedId (contentId : Text) (occurredAt : ℤ) : Text :=
  pageRef contentId ++ ":edited:".toList ++ i64Text (timestampMillis occurredAt)

def versionField (versionNumber : ℕ) : Text × Json :=
  ("version_number".toList, .number (Nat.toDigits 10 versionNumber))

/-- The event of a page; `verb` is what the user did to it. -/
def buildPageEvent (kind : ActivityKind) (externalId verb : Text) (page : Page) (occurredAt : ℤ)
    (versionNumber : ℕ) : ActivityEvent where
  id := ActivityEvent.deterministicId crates.newV5 sourceId externalId kind
  sourceId := sourceId
  externalId := externalId
  kind := kind
  occurredAt := occurredAt
  actor := ⟨[], none, some selfAccountId⟩
  title := if page.title = [] then verb ++ " page ".toList ++ page.contentId
    else verb ++ " page \"".toList ++ page.title ++ ['"']
  body := none
  links := [page.link]
  entities := [spaceEntity page.spaceKey page.spaceName, pageEntity page.contentId page.title]
  parentExternalId := some (pageRef page.contentId)
  metadata := .object [versionField versionNumber]
  privacy := .normal

def createdEvent (page : Page) (occurredAt : ℤ) (versionNumber : ℕ) : ActivityEvent :=
  buildPageEvent crates sourceId selfAccountId .confluencePageCreated (createdId page.contentId)
    "Created".toList page occurredAt versionNumber

def editedEvent (page : Page) (occurredAt : ℤ) (versionNumber : ℕ) : ActivityEvent :=
  buildPageEvent crates sourceId selfAccountId .confluencePageEdited
    (editedId page.contentId occurredAt) "Edited".toList page occurredAt versionNumber

/-- The instant under a key, where it is in the window. -/
def instantIn (value : Json) (key : Text) : Option ℤ :=
  ((value.strAt [key]).bind crates.parseDatetime).filter window.contains

def accountUnder (value : Json) (key : Text) : Option Text :=
  value.strAt [key, "accountId".toList]

/-- The number of the version, cut to 32 bits. -/
def versionNumberOf (version : Json) : ℕ :=
  (((version.get "number".toList).bind Json.asU64).getD 1) % 2 ^ 32

def normalisePage (page : Page) (content : Json) : Except DayseamError (Option ActivityEvent) :=
  match content.get "history".toList with
  | none => .error (shapeError "page.history missing".toList)
  | some history =>
    let version := (content.get "version".toList).getD .null
    let versionNumber := versionNumberOf version
    let created := if accountUnder history "createdBy".toList = some selfAccountId ∧
        versionNumber = 1 then instantIn crates window history "createdDate".toList else none
    let edited := if accountUnder version "by".toList = some selfAccountId ∧ 1 < versionNumber then
      instantIn crates window version "when".toList else none
    match created, edited with
    | some ts, _ => .ok (some (createdEvent crates sourceId selfAccountId page ts versionNumber))
    | none, some ts => .ok (some (editedEvent crates sourceId selfAccountId page ts versionNumber))
    | none, none => .ok none

/-! ### Comments -/

def locationOf (content : Json) : Text :=
  (content.strAt ["extensions".toList, "location".toList]).getD "footer".toList

/-- The plain text of a comment, which is a document or a text that holds one. -/
def commentBody (content : Json) : Text :=
  match content.path ["body".toList, "atlas_doc_format".toList, "value".toList] with
  | some (.string raw) => match crates.fromJsonStr raw with
    | some value => Adf.adfToPlain value
    | none => []
  | some value => Adf.adfToPlain value
  | none => []

def buildCommentEvent (page : Page) (content history : Json) (createdAt : ℤ) : ActivityEvent where
  id := ActivityEvent.deterministicId crates.newV5 sourceId ("comment:".toList ++ page.contentId)
    .confluenceComment
  sourceId := sourceId
  externalId := "comment:".toList ++ page.contentId
  kind := .confluenceComment
  occurredAt := createdAt
  actor := actorFromHistory ((history.get "createdBy".toList).getD .null)
  title := "Comment on ".toList ++ page.link.label.getD "page".toList
  body := if commentBody crates content = [] then none else some (commentBody crates content)
  links := [page.link]
  entities := [spaceEntity page.spaceKey page.spaceName, commentEntity page.contentId] ++
    (commentParentPageRef content).toList.map fun parent =>
      pageEntity parent.1 (parent.2.getD [])
  parentExternalId := commentParentPageId content
  metadata :=
    let metadata := Json.object [("location".toList, .string (locationOf content))]
    if (commentParentPageRef content).isSome then metadata
    else metadata.set "unattached".toList (.bool true)
  privacy := .normal

/-- A comment that another user made, or that has no instant in the window, is dropped. -/
def normaliseComment (page : Page) (content : Json) : Except DayseamError (Option ActivityEvent) :=
  match content.get "history".toList with
  | none => .error (shapeError "comment.history missing".toList)
  | some history =>
    if accountUnder history "createdBy".toList = some selfAccountId then
      .ok ((instantIn crates window history "createdDate".toList).map
        (buildCommentEvent crates sourceId page content history))
    else .ok none

/-! ### Rows -/

/-- A mandatory field. -/
def require {α : Type} (field : Option α) (message : Text) : Except DayseamError α :=
  match field with
  | some a => .ok a
  | none => .error (shapeError message)

/-- The event of a row; other content than pages and comments is dropped. -/
def normaliseResult (result : Json) : Except DayseamError (Option ActivityEvent) := do
  let content ← require (result.get "content".toList) "result.content missing".toList
  let contentType ← require (content.strAt ["type".toList]) "result.content.type missing".toList
  let contentId ← require (content.strAt ["id".toList]) "result.content.id missing".toList
  let space ← require (content.get "space".toList) "result.content.space missing".toList
  let spaceKey ← require (space.strAt ["key".toList]) "result.content.space.key missing".toList
  let link ← resultLink crates workspaceUrl result content
  let page : Page := ⟨contentId, (content.strAt ["title".toList]).getD [], spaceKey,
    space.strAt ["name".toList], link⟩
  if contentType = "page".toList then
    normalisePage crates sourceId selfAccountId window page content
  else if contentType = "comment".toList then
    normaliseComment crates sourceId selfAccountId window page content
  else .ok none

/-! ### The event of an edited page -/

/-- The event of an edit of a page, as the normaliser builds it. -/
structure IsEditOf (contentId : Text) (e : ActivityEvent) : Prop where
  kind : e.kind = .confluencePageEdited
  externalId : ∃ t, e.externalId = editedId contentId t
  parent : e.parentExternalId = some (pageRef contentId)
  metadata : e.metadata.Canonical
  saveCount : e.metadata.get "save_count".toList = none

variable {crates sourceId workspaceUrl selfAccountId window}

theorem isEditOf_editedEvent (page : Page) (occurredAt : ℤ) (versionNumber : ℕ) :
    IsEditOf page.contentId
      (editedEvent crates sourceId selfAccountId page occurredAt versionNumber) :=
  ⟨rfl, ⟨occurredAt, rfl⟩, rfl, ⟨_, rfl, List.pairwise_singleton _ _⟩, rfl⟩

theorem isEditOf_of_normalisePage {page : Page} {content : Json} {e : ActivityEvent}
    (h : normalisePage crates sourceId selfAccountId window page content = .ok (some e))
    (hkind : e.kind = .confluencePageEdited) : IsEditOf page.contentId e := by
  unfold normalisePage at h
  split at h
  · cases h
  · dsimp only at h
    split at h
    · cases h
      cases hkind
    · cases h
      exact isEditOf_editedEvent _ _ _
    · cases h

theorem require_eq_ok_iff {α : Type} {field : Option α} {message : Text} {a : α} :
    require field message = .ok a ↔ field = some a := by
  cases field <;> simp [require]

/-- **The event of an edited page** is one of the page that the row is about. -/
theorem isEditOf_of_normaliseResult {result : Json} {e : ActivityEvent}
    (h : normaliseResult crates sourceId workspaceUrl selfAccountId window result = .ok (some e))
    (hkind : e.kind = .confluencePageEdited) :
    ∃ contentId, result.strAt ["content".toList, "id".toList] = some contentId ∧
      IsEditOf contentId e := by
  unfold normaliseResult at h
  obtain ⟨content, hcontent, h⟩ := Paging.exists_of_bind_eq_ok h
  obtain ⟨contentType, -, h⟩ := Paging.exists_of_bind_eq_ok h
  obtain ⟨contentId, hid, h⟩ := Paging.exists_of_bind_eq_ok h
  obtain ⟨space, -, h⟩ := Paging.exists_of_bind_eq_ok h
  obtain ⟨spaceKey, -, h⟩ := Paging.exists_of_bind_eq_ok h
  obtain ⟨link, -, h⟩ := Paging.exists_of_bind_eq_ok h
  have hpath : result.strAt ["content".toList, "id".toList] = some contentId := by
    have hget := require_eq_ok_iff.mp hid
    unfold Json.strAt Json.path at hget ⊢
    rw [List.foldlM_cons, require_eq_ok_iff.mp hcontent]
    exact hget
  refine ⟨contentId, hpath, ?_⟩
  dsimp only at h
  split_ifs at h with hpage hcomment
  · exact isEditOf_of_normalisePage h hkind
  · -- a comment is no edit
    unfold normaliseComment at h
    split at h
    · cases h
    · split_ifs at h
      · obtain ⟨ts, -, rfl⟩ := Option.map_eq_some_iff.mp (Except.ok.inj h)
        cases hkind
      · cases h
  · cases h

/-! ### Saves -/

def RAPID_SAVE_WINDOW_SECONDS : ℤ := 5 * 60

structure PageEditRecord where
  occurredAt : ℤ
  versionNumber : ℕ
  deriving DecidableEq, Repr

/-- An edit that one or more saves come to. -/
structure CollapsedEdit where
  occurredAt : ℤ
  versionNumber : ℕ
  saveCount : ℕ
  deriving DecidableEq, Repr

def singleton (e : PageEditRecord) : CollapsedEdit := ⟨e.occurredAt, e.versionNumber, 1⟩

/-- A save joins the edit before it where it comes at most five minutes after it. -/
def joins (last : CollapsedEdit) (e : PageEditRecord) : Bool :=
  0 ≤ numSeconds (e.occurredAt - last.occurredAt) &&
    numSeconds (e.occurredAt - last.occurredAt) ≤ RAPID_SAVE_WINDOW_SECONDS

/-- The count saturates. -/
def extendEdit (last : CollapsedEdit) (e : PageEditRecord) : CollapsedEdit :=
  ⟨e.occurredAt, e.versionNumber, min (last.saveCount + 1) (2 ^ 32 - 1)⟩

def collapseRapidEdits (edits : List PageEditRecord) : List CollapsedEdit :=
  Collapse.collapse joins singleton extendEdit edits

end Confluence
end Dayseam
