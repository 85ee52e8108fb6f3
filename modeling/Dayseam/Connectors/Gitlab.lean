import Dayseam.Core.Ids
import Dayseam.Core.Time
import Mathlib

/-!
# GitLab events

The rows of the events API of GitLab, and the activity event that a row becomes.  A
row of an unknown shape becomes none.

## Main definitions

* `GitlabEvent` — a row.
* `Gitlab.normaliseEvent` — its activity event.
* `Gitlab.Anchor` — what names a row among those of its kind.

## Main results

* `Gitlab.normaliseEvent_eq_some` — the identity of the activity event of a row.
* `Gitlab.identity_eq_iff` — the rows that get the same identity.
-/

namespace Dayseam

/-! ### Rows -/

inductive GitlabAction
  | pushed
  | opened
  | closed
  | merged
  | approved
  | commented
  | other
  deriving DecidableEq, Repr

def GitlabAction.parse (s : Text) : GitlabAction :=
  if s ∈ ["pushed to".toList, "pushed new".toList, "pushed".toList] then .pushed
  else if s ∈ ["opened".toList, "created".toList] then .opened
  else if s = "closed".toList then .closed
  else if s ∈ ["merged".toList, "accepted".toList] then .merged
  else if s = "approved".toList then .approved
  else if s ∈ ["commented on".toList, "commented".toList] then .commented
  else .other

inductive GitlabTargetType
  | mergeRequest
  | issue
  | note
  | diffNote
  | discussionNote
  | unknown
  deriving DecidableEq, Repr

structure GitlabAuthor where
  id : ℤ
  username : Text
  name : Option Text
  deriving DecidableEq, Repr

structure GitlabPushData where
  gitRef : Option Text
  commitCount : Option ℤ
  commitTo : Option Text
  commitFrom : Option Text
  deriving DecidableEq, Repr

/-- A row of the events of a user; `note` is the body of a comment. -/
structure GitlabEvent where
  id : ℤ
  actionName : Text
  targetType : Option GitlabTargetType
  targetIid : Option ℤ
  targetId : Option ℤ
  targetTitle : Option Text
  projectId : Option ℤ
  createdAt : ℤ
  authorId : ℤ
  author : Option GitlabAuthor
  note : Option Text
  pushData : Option GitlabPushData
  deriving DecidableEq, Repr

/-- The paths of the projects that a walk has looked up; a lookup may find none. -/
abbrev ProjectPaths := ℤ → Option (Option Text)

namespace Gitlab

/-! ### The activity event of a row -/

/-- What the rows of a kind of action on a kind of target are; notes count as
comments on merge requests. -/
def mapKind : GitlabAction → Option GitlabTargetType → Option ActivityKind
  | .pushed, _ => some .commitAuthored
  | .opened, some .mergeRequest => some .mrOpened
  | .merged, some .mergeRequest => some .mrMerged
  | .closed, some .mergeRequest => some .mrClosed
  | .approved, some .mergeRequest => some .mrApproved
  | .opened, some .issue => some .issueOpened
  | .closed, some .issue => some .issueClosed
  | .commented, some .note | .commented, some .diffNote
  | .commented, some .discussionNote => some .mrReviewComment
  | .commented, some .issue => some .issueComment
  | _, _ => none

variable (event : GitlabEvent) (kind : ActivityKind)

/-- The kind of the activity event of a row. -/
def kindOf : Option ActivityKind := mapKind (GitlabAction.parse event.actionName) event.targetType

/-- The id of the row itself, for a row that does not say what it is about. -/
def eventToken : Text := "event:".toList ++ i64Text event.id

/-- The upstream id; a kind of another connector never gets here. -/
def eventExternalId : Text :=
  match kind with
  | .commitAuthored => (event.pushData.bind (·.commitTo)).getD (eventToken event)
  | .mrOpened | .mrMerged | .mrClosed | .mrApproved =>
    (event.targetIid.map fun iid => '!' :: i64Text iid).getD (eventToken event)
  | .issueOpened | .issueClosed =>
    (event.targetIid.map fun iid => '#' :: i64Text iid).getD (eventToken event)
  | .mrReviewComment | .issueComment =>
    (event.targetId.map fun id => "note:".toList ++ i64Text id).getD (eventToken event)
  | _ => []

def pushTitle : Text :=
  let count := (event.pushData.bind (·.commitCount)).getD 1
  let refLabel := match event.pushData.bind (·.gitRef) with
    | some ref => (("refs/heads/".toList).isPrefixOf? ref).getD ref
    | none => "a branch".toList
  "Pushed ".toList ++ i64Text count ++ ' ' :: (if count = 1 then "commit".toList
    else "commits".toList) ++ " to ".toList ++ refLabel

def title : Text :=
  let about (verb : Text) : Text := verb ++ event.targetTitle.getD "(no title)".toList
  match kind with
  | .commitAuthored => pushTitle event
  | .mrOpened => about "Opened MR: ".toList
  | .mrMerged => about "Merged MR: ".toList
  | .mrClosed => about "Closed MR: ".toList
  | .mrApproved => about "Approved MR: ".toList
  | .mrReviewComment => about "Commented on MR: ".toList
  | .issueOpened => about "Opened issue: ".toList
  | .issueClosed => about "Closed issue: ".toList
  | .issueComment => about "Commented on issue: ".toList
  | _ => []

def body : Option Text := event.note.filter fun s => decide (s.trim ≠ [])

def actorFromEvent : Actor :=
  match event.author with
  | some author => ⟨author.name.getD author.username, none, some (i64Text author.id)⟩
  | none => ⟨"user:".toList ++ i64Text event.authorId, none, some (i64Text event.authorId)⟩

/-- The first eight bytes; a commit has a hexadecimal name. -/
def shortSha (sha : Text) : Text := ((sha.splitAtByte 8).map (·.1)).getD sha

def composeLinks (baseUrl : Text) : List Link :=
  let base := baseUrl.trimEndMatches (· == '/')
  let projectSlug := (event.projectId.map fun id => "projects/".toList ++ i64Text id).getD
    "projects/unknown".toList
  let url (path : Text) : Text := base ++ "/api/v4/".toList ++ projectSlug ++ path
  match kind, event.targetIid with
  | .mrOpened, some iid | .mrMerged, some iid | .mrClosed, some iid | .mrApproved, some iid
  | .mrReviewComment, some iid =>
    [⟨url ("/merge_requests/".toList ++ i64Text iid), some ('!' :: i64Text iid)⟩]
  | .issueOpened, some iid | .issueClosed, some iid | .issueComment, some iid =>
    [⟨url ("/issues/".toList ++ i64Text iid), some ('#' :: i64Text iid)⟩]
  | .commitAuthored, _ =>
    let sha := (event.pushData.bind (·.commitTo)).getD []
    if sha = [] then []
    else [⟨url ("/repository/commits/".toList ++ sha), some (shortSha sha)⟩]
  | _, _ => []

/-- The project and its repository, under a path of its own where none was found. -/
def projectEntities (projectPaths : ProjectPaths) (pid : ℤ) : List EntityRef :=
  let repo := ((projectPaths pid).bind id).getD ("project-".toList ++ i64Text pid)
  [⟨.project, i64Text pid, none⟩, ⟨.repo, repo, (repo.splitOn '/').getLast?⟩]

def targetEntity (iid : ℤ) : EntityRef where
  kind := .target
  externalId := i64Text iid
  label := match event.targetType with
    | some .mergeRequest => some ('!' :: i64Text iid)
    | some .issue => some ('#' :: i64Text iid)
    | _ => none

def composeEntities (projectPaths : ProjectPaths) : List EntityRef :=
  (event.projectId.map (projectEntities projectPaths)).getD [] ++
    (event.targetIid.map (targetEntity event)).toList

def parentExternalId : Option Text :=
  match kind with
  | .mrReviewComment => event.targetIid.map fun iid => '!' :: i64Text iid
  | .issueComment => event.targetIid.map fun iid => '#' :: i64Text iid
  | _ => none

def metadata : Json :=
  let text (value : Option Text) : Json := value.elim .null .string
  let eventId : Text × Json := ("gitlab_event_id".toList, .number (i64Text event.id))
  match kind, event.pushData with
  | .commitAuthored, some p => .object [eventId,
      ("commit_count".toList, p.commitCount.elim .null fun n => .number (i64Text n)),
      ("ref".toList, text p.gitRef), ("commit_from".toList, text p.commitFrom),
      ("commit_to".toList, text p.commitTo)]
  | _, _ => .object [eventId]

variable (newV5 : Uuid → List UInt8 → Uuid) (sourceId : Uuid) (baseUrl : Text)
  (projectPaths : ProjectPaths)

def normaliseEvent : Option ActivityEvent :=
  (kindOf event).map fun kind =>
    { id := ActivityEvent.deterministicId newV5 sourceId (eventExternalId event kind) kind
      sourceId := sourceId
      externalId := eventExternalId event kind
      kind := kind
      occurredAt := event.createdAt
      actor := actorFromEvent event
      title := title event kind
      body := body event
      links := composeLinks event kind baseUrl
      entities := composeEntities event projectPaths
      parentExternalId := parentExternalId event kind
      metadata := metadata event kind
      privacy := .normal }

variable {event kind newV5 sourceId baseUrl projectPaths}

/-- The identity of the activity event of a row. -/
theorem normaliseEvent_eq_some {e : ActivityEvent}
    (h : normaliseEvent event newV5 sourceId baseUrl projectPaths = some e) :
    kindOf event = some e.kind ∧ e.externalId = eventExternalId event e.kind ∧
      e.sourceId = sourceId ∧
      e.id = ActivityEvent.deterministicId newV5 sourceId e.externalId e.kind := by
  obtain ⟨kind, hkind, rfl⟩ := Option.map_eq_some_iff.mp h
  exact ⟨hkind, rfl, rfl, rfl⟩

/-! ### The rows with one identity -/

/-- What names a row among those of its kind: the tip of a push; the number of a merge
request or an issue in its project, or of a note; or the row itself. -/
inductive Anchor
  | tip (sha : Text)
  | number (n : ℤ)
  | row (id : ℤ)
  deriving DecidableEq, Repr

def anchorOf (event : GitlabEvent) : ActivityKind → Anchor
  | .commitAuthored => ((event.pushData.bind (·.commitTo)).map Anchor.tip).getD (.row event.id)
  | .mrReviewComment | .issueComment => (event.targetId.map Anchor.number).getD (.row event.id)
  | _ => (event.targetIid.map Anchor.number).getD (.row event.id)

/-- Equal names; and the tip of one push may read like the row of another. -/
def Anchor.Clash : Anchor → Anchor → Prop
  | .tip sha, .row id | .row id, .tip sha => sha = "event:".toList ++ i64Text id
  | a, b => a = b

instance : DecidableRel Anchor.Clash := fun a b => by
  unfold Anchor.Clash
  split <;> infer_instance

/-- Rows of one kind under one name. -/
def SameKey (a b : GitlabEvent) : Prop :=
  kindOf a = kindOf b ∧ ∀ kind ∈ kindOf a, (anchorOf a kind).Clash (anchorOf b kind)

instance : DecidableRel SameKey := fun _ _ => inferInstanceAs (Decidable (_ ∧ _))

variable {a b : GitlabEvent}

theorem eventToken_inj : eventToken a = eventToken b ↔ a.id = b.id :=
  ⟨fun h => i64Text_injective (List.append_cancel_left h),
    congrArg fun id => "event:".toList ++ i64Text id⟩

/-- A numbered name, which starts with another letter than that of a row. -/
theorem numbered_eq_iff {c : Char} {p : Text} (hc : c ≠ 'e') (x y : Option ℤ) :
    (x.map fun n => c :: (p ++ i64Text n)).getD (eventToken a) =
        (y.map fun n => c :: (p ++ i64Text n)).getD (eventToken b) ↔
      ((x.map Anchor.number).getD (.row a.id)).Clash ((y.map Anchor.number).getD (.row b.id)) := by
  have hrow : ∀ (event : GitlabEvent) (n : ℤ), c :: (p ++ i64Text n) ≠ eventToken event :=
    fun _ _ h => hc (List.cons.inj h).1
  cases x with
  | none =>
    cases y with
    | none => simp [Anchor.Clash, eventToken_inj]
    | some m => simpa [Anchor.Clash] using (hrow a m).symm
  | some n =>
    cases y with
    | none => simpa [Anchor.Clash] using hrow b n
    | some m =>
      simp only [Option.map_some, Option.getD_some, Anchor.Clash, Anchor.number.injEq]
      exact ⟨fun h => i64Text_injective (List.append_cancel_left (List.cons.inj h).2),
        fun h => by rw [h]⟩

theorem tip_eq_iff (x y : Option Text) :
    x.getD (eventToken a) = y.getD (eventToken b) ↔
      ((x.map Anchor.tip).getD (.row a.id)).Clash ((y.map Anchor.tip).getD (.row b.id)) := by
  cases x with
  | none =>
    cases y with
    | none => simp [Anchor.Clash, eventToken_inj]
    | some t => exact eq_comm
  | some s =>
    cases y with
    | none => exact Iff.rfl
    | some t => simp [Anchor.Clash]

/-- The upstream ids of two rows of one kind. -/
theorem eventExternalId_eq_iff {kind : ActivityKind} (h : kindOf a = some kind) :
    eventExternalId a kind = eventExternalId b kind ↔
      (anchorOf a kind).Clash (anchorOf b kind) := by
  have hnote : "note:".toList = 'n' :: "ote:".toList := by decide
  cases kind with
  | commitAuthored => exact tip_eq_iff _ _
  | mrOpened | mrMerged | mrClosed | mrApproved | issueOpened | issueClosed =>
    exact numbered_eq_iff (p := []) (by decide) _ _
  | mrReviewComment | issueComment =>
    simp only [eventExternalId, hnote]
    exact numbered_eq_iff (by decide) _ _
  | _ => unfold kindOf mapKind at h; split at h <;> simp at h

/-- **The rows with one identity** are those of one kind under one name. -/
theorem identity_eq_iff {paths paths' : ProjectPaths} {e e' : ActivityEvent}
    (ha : normaliseEvent a newV5 sourceId baseUrl paths = some e)
    (hb : normaliseEvent b newV5 sourceId baseUrl paths' = some e') :
    (e.externalId, e.kind) = (e'.externalId, e'.kind) ↔ SameKey a b := by
  obtain ⟨hka, hea, -, -⟩ := normaliseEvent_eq_some ha
  obtain ⟨hkb, heb, -, -⟩ := normaliseEvent_eq_some hb
  rw [Prod.mk.injEq, hea, heb]
  constructor
  · rintro ⟨hext, hkind⟩
    refine ⟨by rw [hka, hkb, hkind], fun kind hk => ?_⟩
    obtain rfl := Option.some.inj (hka.symm.trans hk)
    rw [← hkind] at hext
    exact (eventExternalId_eq_iff hka).mp hext
  · rintro ⟨hkinds, hclash⟩
    have hkind : e.kind = e'.kind := Option.some.inj (hka.symm.trans (hkinds.trans hkb))
    rw [← hkind]
    exact ⟨(eventExternalId_eq_iff hka).mpr (hclash _ hka), rfl⟩

end Gitlab
end Dayseam
