import Dayseam.Auth.LoginSession
import Dayseam.Db.LocalRepos
import Dayseam.Desktop.ScanRoots
import Dayseam.Desktop.SecretCommands
import Dayseam.Lib.Attempt
import Mathlib

/-!
# The commands that add and update sources

A command writes a source, its secrets, its identities and its local repositories one after
the other.  Any of its calls to the database and the keychain can fail, and some of the
commands undo what they wrote before.

## Main definitions

* `SourceIpc.State` — the rows, the keychain and the login sessions.
* `SourceIpc.sourcesAdd`, `SourceIpc.outlookSourcesAdd` — adding sources.
* `SourceIpc.sourcesUpdate` — a new label, configuration or token.
-/

namespace Dayseam
namespace SourceIpc

open AtlassianIpc (secretStoreKey)
open LocalGit (DiscoveryOutcome)
open ScanRoots (IPC_SOURCE_NOT_FOUND IPC_SOURCE_CONFIG_KIND_MISMATCH)

def IPC_GITLAB_PAT_MISSING : Text := "ipc.gitlab.pat_missing".toList

def IPC_GITLAB_KEYCHAIN_WRITE_FAILED : Text := "ipc.gitlab.keychain_write_failed".toList

def IPC_GITLAB_INVALID_BASE_URL : Text := "ipc.gitlab.invalid_base_url".toList

def IPC_OUTLOOK_SESSION_NOT_FOUND : Text := "ipc.outlook.session_not_found".toList

def IPC_OUTLOOK_SESSION_NOT_READY : Text := "ipc.outlook.session_not_ready".toList

def IPC_OUTLOOK_KEYCHAIN_WRITE_FAILED : Text := "ipc.outlook.keychain_write_failed".toList

def IPC_OUTLOOK_SOURCE_ALREADY_EXISTS : Text := "ipc.outlook.source_already_exists".toList

def OUTLOOK_UPSTREAM_SHAPE_CHANGED : Text := "outlook.upstream_shape_changed".toList

/-! ### The state -/

/-- The rows of the sources with their identities and secrets, the local repositories, and
the login sessions. -/
@[ext] structure State where
  accounts : AtlassianIpc.Store
  repos : LocalRepoRows
  sessions : Uuid → Option OAuthSession

namespace State

variable (s : State)

def get (id : Uuid) : Option Source := s.accounts.sources.find? (·.id = id)

def insertSource (source : Source) : State := { s with accounts := s.accounts.insertSource source }

/-- The identities and the local repositories of a source go with it. -/
def deleteSource (id : Uuid) : State :=
  { s with
    accounts := s.accounts.deleteSource id
    repos := ⟨s.repos.rows.filter fun r => r.sourceId ≠ id, s.repos.distinct.filter _⟩ }

/-- `UPDATE sources SET … WHERE id = ?`. -/
def updateSource (id : Uuid) (f : Source → Source) : State :=
  { s with accounts := { s.accounts with
      sources := s.accounts.sources.map fun source => if source.id = id then f source else source } }

def updateLabel (id : Uuid) (label : Text) : State :=
  s.updateSource id fun source => { source with label := label }

def updateConfig (id : Uuid) (config : SourceConfig) : State :=
  s.updateSource id fun source => source.updateConfig id config

def updateSecretRef (id : Uuid) (ref : SecretRef) : State :=
  s.updateSource id fun source => { source with secretRef := some ref }

def ensureIdentity (identity : SourceIdentity) : State :=
  { s with accounts := s.accounts.ensureIdentity identity }

def putSecret (ref : SecretRef) (token : Text) : State :=
  { s with accounts := s.accounts.putSecret ref token }

def deleteSecret (ref : SecretRef) : State := { s with accounts := s.accounts.deleteSecret ref }

/-- `take_token_pair`: the session goes with its tokens. -/
def takeSession (id : Uuid) : State :=
  { s with sessions := Function.update s.sessions id none }

end State

/-- The calls of the commands that can fail; the last four are made to undo others. -/
inductive Op
  | getExisting
  | listSources
  | findDuplicate
  | updateLabel
  | updateConfig
  | insert
  | put
  | putRefresh
  | updateSecretRef
  | bootstrapSelf
  | listIdentities
  | ensureIdentity (index : ℕ)
  | upsertRepo (index : ℕ)
  | listRepos
  | reconcile
  | get
  | getForRollback
  | deleteRow
  | deleteKey
  | deleteRefreshKey
  deriving DecidableEq

/-- The calls that fail in a command, with their errors. -/
abbrev Faults := Op → Option Text

/-- What the commands take from other crates and the standard library. -/
structure Crates where
  urls : AtlassianIpc.Crates
  paths : ScanRoots.Paths

abbrev Command (α : Type) := Attempt State DayseamError α

variable (crates : Crates) (faults : Faults)

/-- A write whose fault is an internal error. -/
def write (op : Op) (code : Text) (f : State → State) : Command Unit :=
  .write ((faults op).map (.internal code)) f

/-- A read whose fault is an internal error. -/
def read {α : Type} (op : Op) (code : Text) (f : State → Except DayseamError α) : Command α :=
  .check fun s => match faults op with
    | some e => .error (.internal code e)
    | none => f s

/-- The write where it does not fail; a failure is logged. -/
def bestEffort (op : Op) (f : State → State) (s : State) : State :=
  if faults op = none then f s else s

/-! ### What the commands share -/

def gitlabSecretRef (id : Uuid) : SecretRef := (Secrets.Slot.gitLab id).secretRef

def invalidBaseUrl (message : Text) : DayseamError :=
  .invalidConfig IPC_GITLAB_INVALID_BASE_URL message

/-- `parse_gitlab_base_url`, as released: without the loopback hosts of the tests. -/
def parseGitlabBaseUrl (input : Text) : Except DayseamError AtlassianIpc.Url :=
  let trimmed := input.trim
  if trimmed = [] then .error (invalidBaseUrl "GitLab base URL must not be empty".toList)
  else
    let padded := if "/".toList <:+ trimmed then trimmed else trimmed ++ "/".toList
    match crates.urls.parseUrl padded with
    | .error e => .error (invalidBaseUrl ("GitLab base URL `".toList ++ trimmed ++
        "` is not a valid URL: ".toList ++ e))
    | .ok parsed =>
      if parsed.hostStr.getD [] = [] then
        .error (invalidBaseUrl "GitLab base URL has no host component".toList)
      else if parsed.scheme ≠ "https".toList then
        .error (invalidBaseUrl ("GitLab base URL scheme must be `https`; got `".toList ++
          parsed.scheme ++ "`".toList))
      else if parsed.query.isSome = true ∨ parsed.fragment.isSome = true then
        .error (invalidBaseUrl
          "GitLab base URL must not carry a query string or fragment".toList)
      else .ok parsed

/-- `ensure_local_git_scan_roots_are_disjoint`. -/
def ensureDisjoint (self : Option Uuid) (proposed : List PathBuf) (s : State) :
    Except DayseamError Unit :=
  if proposed = [] then .ok ()
  else match faults .listSources with
  | some e => .error (.internal "sources.list".toList e)
  | none => ScanRoots.ensureDisjoint crates.paths self proposed s.accounts.sources

/-- `persist_gitlab_pat`. -/
def persistGitlabPat (id : Uuid) (pat : Text) : Command Unit :=
  let ref := gitlabSecretRef id
  .write ((faults .put).map fun e => .internal IPC_GITLAB_KEYCHAIN_WRITE_FAILED
    ("keychain write for ".toList ++ secretStoreKey ref ++ " failed: ".toList ++ e))
    (·.putSecret ref pat)

/-- `bootstrap_self`; the state knows the person of the user. -/
def bootstrapSelf (code : Text) : Command Uuid :=
  read faults .bootstrapSelf code fun s => .ok s.accounts.selfPerson

/-- `ensure_gitlab_self_identity`. -/
def ensureGitlabSelfIdentity (identityId sourceId : Uuid) (userId : ℤ) : Command Unit := do
  let person ← bootstrapSelf faults "persons.bootstrap_self".toList
  write faults (.ensureIdentity 0) "source_identities.ensure".toList
    (·.ensureIdentity ⟨identityId, person, some sourceId, .gitLabUserId, i64Text userId⟩)

/-- The rows of a scan that stopped at the cap. -/
def upsertEach (id : Uuid) : ℕ → List LocalRepo → Command Unit
  | _, [] => pure ()
  | i, repo :: repos => do
    write faults (.upsertRepo i) "local_repos.upsert".toList
      fun s => { s with repos := LocalRepoRepo.upsert s.repos id repo }
    upsertEach id (i + 1) repos

/-- `upsert_discovered_repos`. -/
def upsertDiscoveredRepos (id : Uuid) (scanRoots : List PathBuf)
    (found : Except DayseamError DiscoveryOutcome) (now : ℤ) : Command Unit :=
  if scanRoots = [] then pure ()
  else match found with
  | .error _ => pure ()
  | .ok outcome =>
    let rows := Store.keep outcome.repos now
    let reconcile := write faults .reconcile "local_repos.reconcile".toList
      fun s => { s with repos := LocalRepoRepo.reconcileForSource s.repos id rows }
    if outcome.truncated = true then upsertEach faults id 0 rows
    else if rows = [] then do
      let prior ← read faults .listRepos "local_repos.list_for_source".toList
        fun s => .ok (LocalRepoRepo.listForSource s.repos id)
      if prior ≠ [] then pure () else reconcile
    else reconcile

/-- The row is read again. -/
def reread (code what : Text) (id : Uuid) : Command Source :=
  read faults .get code fun s => match s.get id with
    | none => .error (.invalidConfig IPC_SOURCE_NOT_FOUND
        ("source ".toList ++ id.display ++ what))
    | some source => .ok source

def disappeared : Text := " disappeared immediately after insert".toList

/-! ### `sources_add` -/

structure AddInput where
  kind : SourceKind
  label : Text
  config : SourceConfig
  pat : Option Text

/-- The ids that the call makes up, and what the scan of its roots finds. -/
structure AddFresh where
  sourceId : Uuid
  identityId : Uuid
  found : Except DayseamError DiscoveryOutcome
  now : ℤ

/-- What the command checks before it writes. -/
def checkAdd (input : AddInput) (s : State) :
    Except DayseamError (PLift (input.config.kind = input.kind)) :=
  if h : input.config.kind = input.kind then do
    match input.config with
    | .localGit scanRoots => ensureDisjoint crates faults none scanRoots s
    | .gitLab baseUrl _ _ => match input.pat with
      | some pat =>
        if pat.trim = [] then .error (.invalidConfig IPC_GITLAB_PAT_MISSING
          "sources_add for GitLab requires a non-empty PAT".toList)
        else (parseGitlabBaseUrl crates baseUrl).map fun _ => ()
      | none => .error (.invalidConfig IPC_GITLAB_PAT_MISSING
          "sources_add for GitLab requires a non-empty PAT".toList)
    | _ => .ok ()
    return ⟨h⟩
  else .error (.invalidConfig IPC_SOURCE_CONFIG_KIND_MISMATCH
    ("kind ".toList ++ Orchestrator.SourceKind.debug input.kind ++
      " does not match config kind ".toList ++
        Orchestrator.SourceKind.debug input.config.kind))

def newSource (input : AddInput) (id : Uuid) (h : input.config.kind = input.kind) : Source where
  id := id
  kind := input.kind
  label := input.label
  config := input.config
  secretRef := none
  kind_config := h

/-- The row goes, where its deletion does not fail. -/
def undoRow (id : Uuid) : State → State := bestEffort faults .deleteRow (·.deleteSource id)

/-- `best_effort_delete_secret`. -/
def undoSecret (ref : SecretRef) : State → State :=
  bestEffort faults .deleteKey (·.deleteSecret ref)

/-- The secret of the row as it is read again, and then the row. -/
def undoAdd (id : Uuid) (s : State) : State :=
  match (if faults .getForRollback = none then s.get id else none).bind (·.secretRef) with
  | some ref => undoRow faults id (undoSecret faults ref s)
  | none => undoRow faults id s

/-- The token and the identity of a GitLab source. -/
def addSecret (input : AddInput) (fresh : AddFresh) : Command Unit :=
  match input.config, input.pat with
  | .gitLab _ userId _, some pat => do
    let ref := gitlabSecretRef fresh.sourceId
    (persistGitlabPat faults fresh.sourceId pat).orUndo (undoRow faults fresh.sourceId)
    (write faults .updateSecretRef "sources.update_secret_ref".toList
      (·.updateSecretRef fresh.sourceId ref)).orUndo
        fun s => undoRow faults fresh.sourceId (undoSecret faults ref s)
    (ensureGitlabSelfIdentity faults fresh.identityId fresh.sourceId userId).orUndo
      (undoAdd faults fresh.sourceId)
  | _, _ => pure ()

/-- The repositories of a LocalGit source.  Nothing is undone where it fails. -/
def addRepos (input : AddInput) (fresh : AddFresh) : Command Unit :=
  match input.config with
  | .localGit scanRoots =>
    upsertDiscoveredRepos faults fresh.sourceId scanRoots fresh.found fresh.now
  | _ => pure ()

/-- `sources_add`, as released without the sandbox of the App Store. -/
def sourcesAdd (input : AddInput) (fresh : AddFresh) : Command Source := do
  let ⟨h⟩ ← .check (checkAdd crates faults input)
  write faults .insert "sources.insert".toList (·.insertSource (newSource input fresh.sourceId h))
  addSecret faults input fresh
  addRepos faults input fresh
  reread faults "sources.get".toList disappeared fresh.sourceId

/-! ### `outlook_sources_add` -/

structure OutlookUserInfo where
  id : Text
  userPrincipalName : Text

structure OutlookInput where
  sessionId : Uuid
  label : Text

/-- The ids that the call makes up, and what the probe says about a pair of tokens: the
tenant that the access token names, and the user that Graph knows. -/
structure OutlookFresh where
  sourceId : Uuid
  objectIdRow : Uuid
  principalNameRow : Uuid
  probe : TokenPair → Except DayseamError (Text × OutlookUserInfo)

/-- `find_by_outlook_identity`. -/
def findByOutlookIdentity (tenantId userPrincipalName : Text) (s : State) : Option Source :=
  s.accounts.sources.find? fun source => match source.config with
    | .outlook tenant principal => decide (tenant = tenantId) &&
        eqIgnoreAsciiCase principal userPrincipalName
    | _ => false

/-- What the command checks before it takes the session. -/
def checkOutlook (input : OutlookInput) (fresh : OutlookFresh) (s : State) :
    Except DayseamError (Text × OutlookUserInfo) :=
  match (s.sessions input.sessionId).bind (·.tokenPair) with
  | none => .error (.invalidConfig IPC_OUTLOOK_SESSION_NOT_READY
      ("OAuth session ".toList ++ input.sessionId.display ++
        " is missing or has not produced a TokenPair yet".toList))
  | some pair => match fresh.probe pair with
    | .error e => .error e
    | .ok (tenantId, info) => match faults .findDuplicate with
      | some e => .error (.internal "ipc.sources.find_by_outlook_identity".toList e)
      | none => match findByOutlookIdentity tenantId info.userPrincipalName s with
        | some existing => .error (.invalidConfig IPC_OUTLOOK_SOURCE_ALREADY_EXISTS
            ("an Outlook source for ".toList ++ info.userPrincipalName ++ " (tenant ".toList ++
              tenantId ++ ") already exists as `".toList ++ existing.label ++ "` (".toList ++
                existing.id.display ++ ("); reconnect it from Settings rather than adding " ++
                  "a second row").toList))
        | none => .ok (tenantId, info)

/-- `take_token_pair`. -/
def takeTokenPair (id : Uuid) : Command TokenPair := fun s =>
  (s.takeSession id, match (s.sessions id).bind (·.tokenPair) with
    | some pair => .ok pair
    | none => .error (.invalidConfig IPC_OUTLOOK_SESSION_NOT_FOUND
        ("OAuth session ".toList ++ id.display ++
          " vanished between validate and commit; restart sign-in".toList)))

def outlookAccessRef (id : Uuid) : SecretRef := (Secrets.Slot.outlookAccess id).secretRef

def outlookRefreshRef (id : Uuid) : SecretRef := (Secrets.Slot.outlookRefresh id).secretRef

/-- A token of the pair goes to the keychain. -/
def putToken (op : Op) (what : Text) (ref : SecretRef) (token : Text) : Command Unit :=
  .write ((faults op).map fun e => .internal IPC_OUTLOOK_KEYCHAIN_WRITE_FAILED
    ("keychain write for ".toList ++ what ++ " token failed: ".toList ++ e))
    (·.putSecret ref token)

/-- `rollback_outlook_keychain`, with what was written. -/
def rollbackOutlookKeychain (id : Uuid) (wroteRefresh : Bool) (s : State) : State :=
  let s := bestEffort faults .deleteKey (·.deleteSecret (outlookAccessRef id)) s
  if wroteRefresh = true then
    bestEffort faults .deleteRefreshKey (·.deleteSecret (outlookRefreshRef id)) s
  else s

/-- `rollback_outlook_sources_add`. -/
def rollbackOutlook (id : Uuid) (inserted : Bool) (s : State) : State :=
  rollbackOutlookKeychain faults id true (if inserted = true then undoRow faults id s else s)

/-- `list_identities`. -/
def listIdentities (info : OutlookUserInfo) (fresh : OutlookFresh) (person : Uuid) :
    Except DayseamError (List SourceIdentity) :=
  if info.id.trim = [] then .error (.upstreamChanged OUTLOOK_UPSTREAM_SHAPE_CHANGED
    ("Microsoft Graph /me returned an empty object id; refusing to seed an identity row that " ++
      "would silently match no events").toList)
  else if info.userPrincipalName.trim = [] then
    .error (.upstreamChanged OUTLOOK_UPSTREAM_SHAPE_CHANGED
      ("Microsoft Graph /me returned an empty userPrincipalName for object id ".toList ++
        info.id ++ ("; refusing to seed a UPN identity row that would silently match no " ++
          "events").toList))
  else .ok [
    ⟨fresh.objectIdRow, person, some fresh.sourceId, .outlookUserObjectId, info.id⟩,
    ⟨fresh.principalNameRow, person, some fresh.sourceId, .outlookUserPrincipalName,
      info.userPrincipalName⟩]

def ensureEach : ℕ → List SourceIdentity → Command Unit
  | _, [] => pure ()
  | i, identity :: identities => do
    write faults (.ensureIdentity i) "ipc.source_identities.ensure".toList
      (·.ensureIdentity identity)
    ensureEach (i + 1) identities

def newOutlookSource (input : OutlookInput) (id : Uuid) (tenantId : Text)
    (info : OutlookUserInfo) : Source where
  id := id
  kind := .outlook
  label :=
    if input.label.trim = [] then "Outlook - ".toList ++ info.userPrincipalName
    else input.label.trim
  config := .outlook tenantId info.userPrincipalName
  secretRef := some (outlookAccessRef id)
  kind_config := rfl

/-- `outlook_sources_add`. -/
def outlookSourcesAdd (input : OutlookInput) (fresh : OutlookFresh) : Command Source := do
  let (tenantId, info) ← .check (checkOutlook faults input fresh)
  let pair ← takeTokenPair input.sessionId
  let id := fresh.sourceId
  putToken faults .put "access".toList (outlookAccessRef id) pair.accessToken
  (putToken faults .putRefresh "refresh".toList (outlookRefreshRef id) pair.refreshToken).orUndo
    (rollbackOutlookKeychain faults id false)
  let person ← (bootstrapSelf faults "ipc.persons.bootstrap_self".toList).orUndo
    (rollbackOutlook faults id false)
  (write faults .insert "ipc.sources.insert".toList
    (·.insertSource (newOutlookSource input id tenantId info))).orUndo
      (rollbackOutlook faults id false)
  let identities ← (Attempt.check fun _ => listIdentities info fresh person).orUndo
    (rollbackOutlook faults id true)
  (ensureEach faults 0 identities).orUndo (rollbackOutlook faults id true)
  reread faults "ipc.sources.get".toList disappeared id

/-! ### `sources_update` -/

structure UpdateInput where
  id : Uuid
  label : Option Text
  config : Option SourceConfig
  pat : Option Text

structure UpdateFresh where
  identityId : Uuid
  found : Except DayseamError DiscoveryOutcome
  now : ℤ

/-- The caller only renames the source. -/
def UpdateInput.labelOnly (input : UpdateInput) : Bool := input.config.isNone && input.pat.isNone

def readExisting (id : Uuid) : Command Source :=
  read faults .getExisting "sources.get".toList fun s => match s.get id with
    | none => .error (.invalidConfig IPC_SOURCE_NOT_FOUND
        ("no source with id ".toList ++ id.display))
    | some existing => .ok existing

def patchLabel (input : UpdateInput) : Command Unit :=
  match input.label with
  | some label => write faults .updateLabel "sources.update_label".toList
      (·.updateLabel input.id label)
  | none => pure ()

/-- What the command checks before it writes a configuration. -/
def checkConfig (existing : Source) (config : SourceConfig) (s : State) :
    Except DayseamError Unit :=
  if config.kind ≠ existing.kind then .error (.invalidConfig IPC_SOURCE_CONFIG_KIND_MISMATCH
    ("patch kind ".toList ++ Orchestrator.SourceKind.debug config.kind ++
      " does not match persisted kind ".toList ++ Orchestrator.SourceKind.debug existing.kind))
  else match config with
  | .localGit scanRoots => ensureDisjoint crates faults (some existing.id) scanRoots s
  | .gitLab baseUrl _ _ => (parseGitlabBaseUrl crates baseUrl).map fun _ => ()
  | _ => .ok ()

def patchConfig (input : UpdateInput) (existing : Source) : Command Unit :=
  match input.config with
  | some config => do
    .check (checkConfig crates faults existing config)
    write faults .updateConfig "sources.update_config".toList (·.updateConfig input.id config)
  | none => pure ()

/-- `validate_pat_arg`. -/
def validatePatArg (existing : Source) (pat : Option Text) (labelOnly : Bool) :
    Except DayseamError Unit :=
  match existing.kind, pat, existing.secretRef with
  | .localGit, some _, _ => .error (.invalidConfig IPC_SOURCE_CONFIG_KIND_MISMATCH
      ("pat arg is only valid for GitLab sources; ".toList ++ existing.id.display ++
        " is ".toList ++ Orchestrator.SourceKind.debug existing.kind))
  | .gitLab, some pat, _ =>
    if pat.trim = [] then .error (.invalidConfig IPC_GITLAB_PAT_MISSING
      "sources_update pat must be non-empty when provided".toList)
    else .ok ()
  | .gitLab, none, none =>
    if labelOnly = true then .ok ()
    else .error (.invalidConfig IPC_GITLAB_PAT_MISSING
      ("GitLab source ".toList ++ existing.id.display ++ (" has no PAT on file and " ++
        "sources_update was called without one. The reconnect dialog must provide `pat` in " ++
          "the IPC payload").toList))
  | _, _, _ => .ok ()

def patchSecret (input : UpdateInput) : Command Unit :=
  match input.pat with
  | some pat => do
    persistGitlabPat faults input.id pat
    write faults .updateSecretRef "sources.update_secret_ref".toList
      (·.updateSecretRef input.id (gitlabSecretRef input.id))
  | none => pure ()

/-- `ensure_atlassian_self_identity`; a source without an identity is left alone. -/
def ensureAtlassianSelfIdentity (id : Uuid) : Command Unit := do
  let _ ← bootstrapSelf faults "persons.bootstrap_self".toList
  let rows ← read faults .listIdentities "source_identities.list_for_source".toList
    fun s => .ok (s.accounts.listForSource id)
  match rows.find? (·.kind = .atlassianAccountId) with
  | some existing =>
    write faults (.ensureIdentity 0) "source_identities.ensure".toList
      (·.ensureIdentity existing)
  | none => pure ()

/-- The identity of the user is made sure of. -/
def seedIdentity (input : UpdateInput) (fresh : UpdateFresh) (existing : Source) : Command Unit :=
  match existing.kind with
  | .gitLab => match input.config.getD existing.config with
    | .gitLab _ userId _ => ensureGitlabSelfIdentity faults fresh.identityId input.id userId
    | _ => pure ()
  | .jira | .confluence => ensureAtlassianSelfIdentity faults input.id
  | _ => pure ()

/-- The new roots of a LocalGit source are scanned. -/
def rescan (input : UpdateInput) (fresh : UpdateFresh) : Command Unit :=
  match input.config with
  | some (.localGit scanRoots) =>
    upsertDiscoveredRepos faults input.id scanRoots fresh.found fresh.now
  | _ => pure ()

/-- `sources_update`, as released without the sandbox of the App Store. -/
def sourcesUpdate (input : UpdateInput) (fresh : UpdateFresh) : Command Source := do
  let existing ← readExisting faults input.id
  patchLabel faults input
  patchConfig crates faults input existing
  .check fun _ => validatePatArg existing input.pat input.labelOnly
  patchSecret faults input
  seedIdentity faults input fresh existing
  rescan faults input fresh
  reread faults "sources.get".toList " disappeared mid-update".toList input.id

end SourceIpc
end Dayseam
