import Dayseam.Core.Activity
import Dayseam.Lib.Text
import Mathlib

/-!
# Cross-source enrichment

Three passes over the events of a day: ticket keys in titles and bodies become
entities, pull request URLs in merge requests become entities, and a status
change of an issue gets the merge request that went before it as its parent.

## Main definitions

* `scanTicketKeys`, `scanGithubPrUrls` — the scanners.
* `extractTicketKeys`, `extractGithubPrUrls`, `annotateTransitionWithMr` — the passes.
-/

namespace Dayseam
namespace Report

/-! ### Ticket keys -/

def MAX_TICKET_KEYS_PER_EVENT : ℕ := 3

/-- The loop of `scan_ticket_keys` over the rest of a text; `afterAlnum` says that
the character before it is a letter or a digit.  Each round consumes a character,
so a fuel of the length of the text is enough. -/
def scanTicketKeysLoop : ℕ → Bool → Text → List Text
  | 0, _, _ => []
  | _, _, [] => []
  | fuel + 1, afterAlnum, c :: rest =>
    if !c.isUpper || afterAlnum then scanTicketKeysLoop fuel c.isAlphanum rest
    else
      let letters := (c :: rest).takeWhile Char.isUpper
      match (c :: rest).dropWhile Char.isUpper with
      | '-' :: afterHyphen =>
        let digits := afterHyphen.takeWhile Char.isDigit
        let after := afterHyphen.dropWhile Char.isDigit
        if !(2 ≤ letters.length && letters.length ≤ 10) then
          scanTicketKeysLoop fuel true ('-' :: afterHyphen)
        else if digits.isEmpty then scanTicketKeysLoop fuel false afterHyphen
        else if (after.head?.map Char.isAlphanum).getD false then
          scanTicketKeysLoop fuel true after
        else (letters ++ '-' :: digits) :: scanTicketKeysLoop fuel true after
      | after => scanTicketKeysLoop fuel true after

def scanTicketKeys (t : Text) : List Text := scanTicketKeysLoop t.length false t

example : scanTicketKeys "Merged CAR-5117: LOG4J-2 AB-1a [XY-7]".toList =
    ["CAR-5117".toList, "XY-7".toList] := by decide +kernel

/-- The title and the body of an event. -/
def scannedTexts (e : ActivityEvent) : List Text := e.title :: e.body.toList

/-- The event with an entity for each of the texts that has none of its kind. -/
def addEntities (kind : EntityKind) (refs : List (Text × Option Text)) (e : ActivityEvent) :
    ActivityEvent :=
  refs.foldl (fun e ref =>
    if e.entities.any fun ent => ent.kind == kind && ent.externalId == ref.1 then e
    else { e with entities := e.entities ++ [⟨kind, ref.1, ref.2⟩] }) e

/-- The event differs by entities of the kind, behind those that it has. -/
theorem addEntities_eq (kind : EntityKind) (refs : List (Text × Option Text)) (e : ActivityEvent) :
    ∃ extra, (∀ ent ∈ extra, ent.kind = kind) ∧
      addEntities kind refs e = { e with entities := e.entities ++ extra } := by
  induction refs generalizing e with
  | nil => exact ⟨[], by simp, by simp [addEntities]⟩
  | cons ref refs ih =>
    unfold addEntities
    rw [List.foldl_cons]
    split_ifs
    · exact ih e
    · obtain ⟨extra, hextra, heq⟩ := ih { e with entities := e.entities ++ [⟨kind, ref.1, ref.2⟩] }
      refine ⟨⟨kind, ref.1, ref.2⟩ :: extra, List.forall_mem_cons.mpr ⟨rfl, hextra⟩, ?_⟩
      rw [← List.append_cons] at heq
      exact heq

/-- The ticket keys of an event, in order and without repetition. -/
def ticketKeys (e : ActivityEvent) : List Text :=
  (((scannedTexts e).flatMap scanTicketKeys).mergeSort fun a b => decide (a ≤ b)).destutter (· ≠ ·)

def extractTicketKeysOf (e : ActivityEvent) : ActivityEvent :=
  -- an event with more keys than that is taken for noise
  if (ticketKeys e).length ≤ MAX_TICKET_KEYS_PER_EVENT then
    addEntities .jiraIssue ((ticketKeys e).map fun key => (key, none)) e
  else e

theorem extractTicketKeysOf_eq (e : ActivityEvent) :
    ∃ extra, (∀ ent ∈ extra, ent.kind = EntityKind.jiraIssue) ∧
      extractTicketKeysOf e = { e with entities := e.entities ++ extra } := by
  unfold extractTicketKeysOf
  split_ifs
  · exact addEntities_eq _ _ e
  · exact ⟨[], by simp, by simp⟩

def extractTicketKeys (events : List ActivityEvent) : List ActivityEvent :=
  events.map extractTicketKeysOf

/-! ### Pull request URLs -/

def PULL_NEEDLE : Text := "/pull/".toList

def isUrlIdent (c : Char) : Bool := c.isAlphanum || c == '-' || c == '_' || c == '.'

/-- The segment that ends where `before` does, read backwards to a slash; none
where there is no slash. -/
def segmentBefore (before : Text) : Option (Text × Text) :=
  match before.dropWhile (· != '/') with
  | '/' :: rest => some ((before.takeWhile (· != '/')).reverse, rest)
  | _ => none

/-- The host, owner and repository before a match; `before` is reversed. -/
def repoBefore (before : Text) : Option (Text × Text × Text) := do
  let (repo, beforeRepo) ← segmentBefore before
  let (owner, beforeOwner) ← segmentBefore beforeRepo
  let (host, _) ← segmentBefore beforeOwner
  some (host, owner, repo)

/-- The loop of `scan_github_pr_urls`; `before` is what was passed, reversed. -/
def scanGithubPrUrlsLoop : ℕ → Text → Text → List (Text × Option Text)
  | 0, _, _ => []
  | _, _, [] => []
  | fuel + 1, before, c :: rest =>
    if !PULL_NEEDLE.isPrefixOf (c :: rest) then scanGithubPrUrlsLoop fuel (c :: before) rest
    else
      let after := (c :: rest).drop PULL_NEEDLE.length
      let past := PULL_NEEDLE.reverse ++ before
      let digits := after.takeWhile Char.isDigit
      match repoBefore before with
      | some (host, owner, repo) =>
        if host.map Char.toLower ≠ "github.com".toList ∨ owner.isEmpty ∨ repo.isEmpty ∨
            !owner.all isUrlIdent ∨ !repo.all isUrlIdent ∨ digits.isEmpty then
          scanGithubPrUrlsLoop fuel past after
        else (repo ++ '#' :: digits, some ('#' :: digits)) ::
          scanGithubPrUrlsLoop fuel (digits.reverse ++ past) (after.drop digits.length)
      | none => scanGithubPrUrlsLoop fuel past after

def scanGithubPrUrls (t : Text) : List (Text × Option Text) := scanGithubPrUrlsLoop t.length [] t

example : scanGithubPrUrls "see https://github.com/ada/engine/pull/42/files".toList =
    [("engine#42".toList, some "#42".toList)] := by decide +kernel

def extractGithubPrUrlsOf (e : ActivityEvent) : ActivityEvent :=
  if e.kind = .mrOpened ∨ e.kind = .mrMerged then
    let found := ((scannedTexts e).flatMap scanGithubPrUrls).mergeSort fun a b =>
      decide (a.1 ≤ b.1)
    addEntities .gitHubPullRequest (found.destutter fun a b => a.1 ≠ b.1) e
  else e

def extractGithubPrUrls (events : List ActivityEvent) : List ActivityEvent :=
  events.map extractGithubPrUrlsOf

/-! ### Status changes and the merge requests before them -/

/-- A day in nanoseconds. -/
def MR_TRIGGER_WINDOW : ℤ := 24 * 3600 * 1000000000

def isMrLike : ActivityKind → Bool
  | .mrOpened | .mrMerged | .gitHubPullRequestOpened | .gitHubPullRequestMerged
  | .gitHubPullRequestClosed => true
  | _ => false

structure MrCandidate where
  occurredAt : ℤ
  id : Uuid
  externalId : Text
  deriving DecidableEq, Repr

/-- The merge requests of an issue, one entry for each entity that names it. -/
def issueCandidates (events : List ActivityEvent) (issueKey : Text) : List MrCandidate :=
  (events.filter fun e => isMrLike e.kind).flatMap fun e =>
    (e.entities.filter fun ent => ent.kind == .jiraIssue && ent.externalId == issueKey).map
      fun _ => ⟨e.occurredAt, e.id, e.externalId⟩

/-- The earliest merge request of the issue in the day before the status change. -/
def triggerOf (events : List ActivityEvent) (transition : ActivityEvent) (issueKey : Text) :
    Option MrCandidate :=
  (((issueCandidates events issueKey).filter fun c =>
    decide (transition.occurredAt - MR_TRIGGER_WINDOW ≤ c.occurredAt ∧
      c.occurredAt ≤ transition.occurredAt)).mergeSort fun a b =>
        decide ((toLex (a.occurredAt, a.id) : ℤ ×ₗ Uuid) ≤ toLex (b.occurredAt, b.id))).head?

def annotateTransitionOf (events : List ActivityEvent) (e : ActivityEvent) : ActivityEvent :=
  if e.kind = .jiraIssueTransitioned then
    -- only the first issue of the change is looked up
    match (e.entity? .jiraIssue).bind fun issue => triggerOf events e issue.externalId with
    | some c => { e with parentExternalId := some c.externalId }
    | none => e
  else e

def annotateTransitionWithMr (events : List ActivityEvent) : List ActivityEvent :=
  events.map (annotateTransitionOf events)

end Report
end Dayseam
