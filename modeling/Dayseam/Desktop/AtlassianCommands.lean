import Dayseam.Connectors.Atlassian
import Dayseam.Desktop.ScanRoots
import Mathlib

/-!
# Atlassian sources and their tokens

Jira and Confluence sources hold a reference to a keychain slot, and two of them may hold
the same.  One command adds sources, with a slot of their own or with that of a sibling,
another puts a new token into the slot of a source.

## Main definitions

* `AtlassianIpc.Store` — the sources, the identities and the keychain.
* `AtlassianIpc.Store.admitAdd`, `AtlassianIpc.Store.sourcesAdd` — adding sources.
* `AtlassianIpc.Store.admitReconnect`, `AtlassianIpc.Store.sourcesReconnect` — a new token.
* `AtlassianIpc.machine` — the calls of both, one after the other.
-/

namespace Dayseam
namespace AtlassianIpc

open Atlassian (Product)
open ScanRoots (IPC_SOURCE_NOT_FOUND IPC_SOURCE_CONFIG_KIND_MISMATCH)

def IPC_ATLASSIAN_NO_PRODUCT_SELECTED : Text := "ipc.atlassian.no_product_selected".toList

def IPC_ATLASSIAN_CREDENTIALS_MISSING : Text := "ipc.atlassian.credentials_missing".toList

def IPC_ATLASSIAN_INVALID_WORKSPACE_URL : Text := "ipc.atlassian.invalid_workspace_url".toList

def IPC_ATLASSIAN_KEYCHAIN_WRITE_FAILED : Text := "ipc.atlassian.keychain_write_failed".toList

def IPC_ATLASSIAN_REUSE_SECRET_MISSING : Text := "ipc.atlassian.reuse_secret_missing".toList

def ATLASSIAN_AUTH_INVALID_CREDENTIALS : Text := "atlassian.auth.invalid_credentials".toList

def ATLASSIAN_IDENTITY_MALFORMED_ACCOUNT_ID : Text :=
  "atlassian.identity.malformed_account_id".toList

/-! ### Workspace URLs and credentials -/

/-- A URL in its parts; the origin is its ASCII serialization. -/
structure Url where
  scheme : Text
  hostStr : Option Text
  path : Text
  query : Option Text
  fragment : Option Text
  origin : Text

/-- What the commands take from other crates and the standard library: the parser of URLs,
with the text of its error, and the `Debug` text of a string. -/
structure Crates where
  parseUrl : Text → Except Text Url
  debug : Text → Text

variable (crates : Crates)

def invalidWorkspaceUrl (message : Text) : DayseamError :=
  .invalidConfig IPC_ATLASSIAN_INVALID_WORKSPACE_URL message

/-- `parse_workspace_url`, as released: without the loopback hosts of the tests. -/
def parseWorkspaceUrl (input : Text) : Except DayseamError Url :=
  let trimmed := input.trim
  if trimmed = [] then .error (invalidWorkspaceUrl "workspace_url must not be empty".toList)
  else match crates.parseUrl trimmed with
  | .error e => .error (invalidWorkspaceUrl
      ("workspace_url `".toList ++ trimmed ++ "` is not a valid URL: ".toList ++ e))
  | .ok parsed =>
    let host := parsed.hostStr.getD []
    let hostLower := host.map Char.toLower
    if host = [] then
      .error (invalidWorkspaceUrl "workspace_url has no host component".toList)
    else if parsed.scheme ≠ "https".toList then
      .error (invalidWorkspaceUrl ("workspace_url scheme must be `https`; got `".toList ++
        parsed.scheme ++ "`".toList))
    else if hostLower ≠ "atlassian.net".toList ∧ ¬".atlassian.net".toList <:+ hostLower then
      .error (invalidWorkspaceUrl (("workspace_url host must be a `*.atlassian.net` " ++
        "Atlassian Cloud tenant; got `").toList ++ host ++ "`".toList))
    else if parsed.path ≠ "/".toList ∧ parsed.path ≠ [] then
      .error (invalidWorkspaceUrl ("workspace_url must be origin-only; got path `".toList ++
        parsed.path ++ "`".toList))
    else if parsed.query.isSome = true ∨ parsed.fragment.isSome = true then
      .error (invalidWorkspaceUrl
        "workspace_url must not carry a query string or fragment".toList)
    else .ok parsed

def canonicalWorkspaceUrl (url : Url) : Text := url.origin.trimEndMatches (· == '/')

def requireNonemptyEmail (email : Text) : Except DayseamError Unit :=
  if email.trim = [] then .error (.invalidConfig IPC_ATLASSIAN_CREDENTIALS_MISSING
    "email must not be empty or whitespace-only".toList)
  else .ok ()

def requireNonemptyToken (token : Text) : Except DayseamError Unit :=
  if token.trim = [] then .error (.invalidConfig IPC_ATLASSIAN_CREDENTIALS_MISSING
    "api_token must not be empty or whitespace-only".toList)
  else .ok ()

def MAX_ACCOUNT_ID_LEN : ℕ := 128

/-- An account id is a short ASCII text. -/
def validateAccountId (candidate : Text) : Except DayseamError Unit :=
  if candidate = [] ∨ MAX_ACCOUNT_ID_LEN < candidate.byteLen ∨ ¬candidate.all (·.val < 128) then
    .error (.upstreamChanged ATLASSIAN_IDENTITY_MALFORMED_ACCOUNT_ID
      ("upstream returned accountId=".toList ++ crates.debug candidate ++
        " which fails the shape check (expected non-empty ASCII, ≤ 128 chars)".toList))
  else .ok ()

/-- The account that each token belongs to, and what `/myself` answers in a workspace to
the holder of a token: the account of the token, or an error. -/
structure Probe (accountOf : Text → Option Text) (token : Text) where
  myself : Text → Text → Except DayseamError Text
  sound : ∀ workspaceUrl email account,
    myself workspaceUrl email = .ok account → accountOf token = some account

/-- `discover_cloud`, as far as the account. -/
def discoverCloud {accountOf : Text → Option Text} {token : Text}
    (probe : Probe accountOf token) (workspaceUrl email : Text) : Except DayseamError Text :=
  match probe.myself workspaceUrl email with
  | .error e => .error e
  | .ok account => match validateAccountId crates account with
    | .error e => .error e
    | .ok () => .ok account

/-! ### The store -/

def ATLASSIAN_KEYCHAIN_SERVICE : Text := "dayseam.atlassian".toList

def newAtlassianSecretRef (slot : Uuid) : SecretRef :=
  ⟨ATLASSIAN_KEYCHAIN_SERVICE, "slot:".toList ++ slot.display⟩

/-- The name of a slot in the keychain. -/
def secretStoreKey (ref : SecretRef) : Text :=
  ref.keychainService ++ "::".toList ++ ref.keychainAccount

/-- The sources in the order of their times, the identities, and the secrets. -/
structure Store where
  sources : List Source
  identities : List SourceIdentity
  keychain : Text → Option Text
  selfPerson : Uuid

/-- The operations of a call that can fail. -/
inductive Op
  | probe
  | put
  | bootstrapSelf
  | insert (product : Product)
  | ensure (product : Product)
  | deleteRow (product : Product)
  | deleteKey
  | getSource
  | listIdentities
  | listSources
  | get (product : Product)

/-- The operations that fail in a call, with their errors. -/
abbrev Faults := Op → Option Text

namespace Store

variable (s : Store)

def putSecret (ref : SecretRef) (token : Text) : Store :=
  { s with keychain := Function.update s.keychain (secretStoreKey ref) (some token) }

def deleteSecret (ref : SecretRef) : Store :=
  { s with keychain := Function.update s.keychain (secretStoreKey ref) none }

variable {s} {ref ref' : SecretRef} {token : Text}

theorem keychain_putSecret_of_eq (h : secretStoreKey ref' = secretStoreKey ref) :
    (s.putSecret ref token).keychain (secretStoreKey ref') = some token := by
  rw [h]
  exact Function.update_self ..

theorem keychain_putSecret_of_ne (h : secretStoreKey ref' ≠ secretStoreKey ref) :
    (s.putSecret ref token).keychain (secretStoreKey ref') = s.keychain (secretStoreKey ref') :=
  Function.update_of_ne h ..

theorem keychain_deleteSecret_of_eq (h : secretStoreKey ref' = secretStoreKey ref) :
    (s.deleteSecret ref).keychain (secretStoreKey ref') = none := by
  rw [h]
  exact Function.update_self ..

theorem keychain_deleteSecret_of_ne (h : secretStoreKey ref' ≠ secretStoreKey ref) :
    (s.deleteSecret ref).keychain (secretStoreKey ref') = s.keychain (secretStoreKey ref') :=
  Function.update_of_ne h ..

variable (s)

def insertSource (source : Source) : Store := { s with sources := s.sources ++ [source] }

/-- The identities of a source go with it. -/
def deleteSource (id : Uuid) : Store :=
  { s with
    sources := s.sources.filter fun source => source.id ≠ id
    identities := s.identities.filter fun row => row.sourceId ≠ some id }

/-- `ensure`: an identity is there once. -/
def ensureIdentity (identity : SourceIdentity) : Store :=
  if s.identities.any fun row => decide (row.id = identity.id ∨
      row.personId = identity.personId ∧ row.sourceId = identity.sourceId ∧
        row.kind = identity.kind ∧ row.externalActorId = identity.externalActorId) then s
  else { s with identities := s.identities ++ [identity] }

/-- The text of a kind of identities, by which they are ordered. -/
def kindToDb : SourceIdentityKind → Text
  | .gitEmail => "GitEmail".toList
  | .gitLabUserId => "GitLabUserId".toList
  | .gitLabUsername => "GitLabUsername".toList
  | .gitHubLogin => "GitHubLogin".toList
  | .gitHubUserId => "GitHubUserId".toList
  | .atlassianAccountId => "AtlassianAccountId".toList
  | .outlookUserObjectId => "OutlookUserObjectId".toList
  | .outlookUserPrincipalName => "OutlookUserPrincipalName".toList

/-- An identity of the user that is of the source, or of no source. -/
def IsListed (id : Uuid) (row : SourceIdentity) : Prop :=
  row.personId = s.selfPerson ∧ (row.sourceId = some id ∨ row.sourceId = none)

instance (id : Uuid) (row : SourceIdentity) : Decidable (s.IsListed id row) :=
  inferInstanceAs (Decidable (_ ∧ _))

def listForSource (id : Uuid) : List SourceIdentity :=
  (s.identities.filter fun row => decide (s.IsListed id row)).mergeSort fun a b =>
    decide (toLex (kindToDb a.kind, a.externalActorId) ≤
      toLex (kindToDb b.kind, b.externalActorId))

end Store

/-! ### What the commands are given -/

structure AddInput where
  workspaceUrl : Text
  email : Text
  apiToken : Option Text
  accountId : Text
  enableJira : Bool
  enableConfluence : Bool
  reuseSecretRef : Option SecretRef

def AddInput.products (input : AddInput) : List Product :=
  (if input.enableJira then [.jira] else []) ++ if input.enableConfluence then [.confluence] else []

/-- The ids that a call makes up. -/
structure Fresh where
  slot : Uuid
  sourceId : Product → Uuid
  identityId : Product → Uuid

/-- The slot of the new sources, the token in it, and whether the call puts it there. -/
structure Slot where
  ref : SecretRef
  token : Text
  isNew : Bool

def checkAdd (input : AddInput) : Except DayseamError Url :=
  if input.enableJira = false ∧ input.enableConfluence = false then
    .error (.invalidConfig IPC_ATLASSIAN_NO_PRODUCT_SELECTED
      "at least one of enable_jira / enable_confluence must be true".toList)
  else match requireNonemptyEmail input.email with
  | .error e => .error e
  | .ok () =>
    if input.accountId.trim = [] then .error (.invalidConfig IPC_ATLASSIAN_CREDENTIALS_MISSING
      "account_id must not be empty; call atlassian_validate_credentials first".toList)
    else parseWorkspaceUrl crates input.workspaceUrl

def keychainFailed (operation key e : Text) : DayseamError :=
  .internal IPC_ATLASSIAN_KEYCHAIN_WRITE_FAILED
    ("keychain ".toList ++ operation ++ " for ".toList ++ key ++ " failed: ".toList ++ e)

def productKind : Product → SourceKind
  | .jira => .jira
  | .confluence => .confluence

def productConfig (workspaceUrl email : Text) : Product → SourceConfig
  | .jira => .jira workspaceUrl email
  | .confluence => .confluence workspaceUrl email

def productText : Product → Text
  | .jira => "jira".toList
  | .confluence => "confluence".toList

def newSource (url : Url) (slot : Slot) (fresh : Fresh) (input : AddInput) (p : Product) :
    Source where
  id := fresh.sourceId p
  kind := productKind p
  label := (productKind p).displayLabel ++ " - ".toList ++
    url.hostStr.getD (canonicalWorkspaceUrl url)
  config := productConfig (canonicalWorkspaceUrl url) input.email p
  secretRef := some slot.ref
  kind_config := by cases p <;> rfl

structure ReconnectInput (accountOf : Text → Option Text) where
  sourceId : Uuid
  apiToken : Text
  probe : Probe accountOf apiToken

/-- The workspace and the email of an Atlassian configuration. -/
def workspaceOf : SourceConfig → Option (Text × Text)
  | .jira workspaceUrl email => some (workspaceUrl, email)
  | .confluence workspaceUrl email => some (workspaceUrl, email)
  | _ => none

def wrongAccount (new existing : Text) : DayseamError :=
  .auth ATLASSIAN_AUTH_INVALID_CREDENTIALS
    ("token is valid but for account `".toList ++ new ++ "`; this source is bound to `".toList ++
      existing ++ ("`. Paste a token for the original account, or delete this source and add a " ++
        "new one.").toList) false (some "reconnect".toList)

/-! ### The commands -/

namespace Store

variable (s : Store)

/-- The slot that is to be reused, or one for the new token. -/
def resolveSlot (faults : Faults) (slot : Uuid) (input : AddInput) : Except DayseamError Slot :=
  match input.reuseSecretRef with
  | some existing => match faults .probe with
    | some e => .error (keychainFailed "probe".toList (secretStoreKey existing) e)
    | none => match s.keychain (secretStoreKey existing) with
      | none => .error (.invalidConfig IPC_ATLASSIAN_REUSE_SECRET_MISSING
          ("reuse_secret_ref `".toList ++ secretStoreKey existing ++
            ("` is empty in the keychain; the owning source was likely deleted. Re-open the " ++
              "dialog and paste a fresh token instead.").toList))
      | some token => .ok ⟨existing, token, false⟩
  | none => match input.apiToken with
    | none => .error (.invalidConfig IPC_ATLASSIAN_CREDENTIALS_MISSING
        "api_token must be provided when reuse_secret_ref is null".toList)
    | some token => match requireNonemptyToken token with
      | .error e => .error e
      | .ok () => match faults .put with
        | some e => .error
            (keychainFailed "write".toList (secretStoreKey (newAtlassianSecretRef slot)) e)
        | none => .ok ⟨newAtlassianSecretRef slot, token, true⟩

/-- What the command checks before it inserts a row. -/
def admitAdd (faults : Faults) (fresh : Fresh) (input : AddInput) :
    Except DayseamError (Url × Slot) :=
  match checkAdd crates input with
  | .error e => .error e
  | .ok url => match s.resolveSlot faults fresh.slot input with
    | .error e => .error e
    | .ok slot => .ok (url, slot)

def seedAtlassianIdentity (fresh : Fresh) (input : AddInput) (p : Product) :
    Except DayseamError SourceIdentity :=
  match validateAccountId crates input.accountId with
  | .error e => .error e
  | .ok () => .ok ⟨fresh.identityId p, s.selfPerson, some (fresh.sourceId p),
      .atlassianAccountId, input.accountId⟩

/-- The row of a product and its identity; the list is of the rows that are there. -/
def insertProduct (faults : Faults) (url : Url) (slot : Slot) (fresh : Fresh) (input : AddInput)
    (inserted : List Product) (p : Product) : Store × List Product × Except DayseamError Unit :=
  match faults (.insert p) with
  | some e => (s, inserted, .error (.internal "ipc.sources.insert".toList
      ("sources.insert(".toList ++ productText p ++ ") failed: ".toList ++ e)))
  | none =>
    let s := s.insertSource (newSource url slot fresh input p)
    match s.seedAtlassianIdentity crates fresh input p with
    | .error e => (s, inserted ++ [p], .error e)
    | .ok identity => match faults (.ensure p) with
      | some e => (s, inserted ++ [p], .error (.internal "ipc.source_identities.ensure".toList e))
      | none => (s.ensureIdentity identity, inserted ++ [p], .ok ())

def insertProducts (faults : Faults) (url : Url) (slot : Slot) (fresh : Fresh)
    (input : AddInput) : Store → List Product → List Product →
      Store × List Product × Except DayseamError Unit
  | s, inserted, [] => (s, inserted, .ok ())
  | s, inserted, p :: ps =>
    match s.insertProduct crates faults url slot fresh input inserted p with
    | (s, inserted, .error e) => (s, inserted, .error e)
    | (s, inserted, .ok ()) => insertProducts faults url slot fresh input s inserted ps

/-- The row of a product is deleted, where that does not fail. -/
def rollbackRow (faults : Faults) (fresh : Fresh) (s : Store) (p : Product) : Store :=
  if (faults (.deleteRow p)).isSome then s else s.deleteSource (fresh.sourceId p)

/-- `rollback_sources_add`. -/
def rollbackSourcesAdd (faults : Faults) (fresh : Fresh) (inserted : List Product)
    (slot : Slot) : Store :=
  let s := inserted.foldl (rollbackRow faults fresh) s
  if slot.isNew = true ∧ faults .deleteKey = none then s.deleteSecret slot.ref else s

/-- The rows are read again. -/
def reread (faults : Faults) (fresh : Fresh) (p : Product) : Except DayseamError Source :=
  match faults (.get p) with
  | some e => .error (.internal "ipc.sources.get".toList e)
  | none => match s.sources.find? (·.id = fresh.sourceId p) with
    | none => .error (.invalidConfig IPC_SOURCE_NOT_FOUND ("source ".toList ++
        (fresh.sourceId p).display ++ " disappeared immediately after insert".toList))
    | some source => .ok source

/-- `atlassian_sources_add`. -/
def sourcesAdd (faults : Faults) (fresh : Fresh) (input : AddInput) :
    Store × Except DayseamError (List Source) :=
  match s.admitAdd crates faults fresh input with
  | .error e => (s, .error e)
  | .ok (url, slot) =>
    let s := if slot.isNew then s.putSecret slot.ref slot.token else s
    match faults .bootstrapSelf with
    | some e => (s.rollbackSourcesAdd faults fresh [] slot,
        .error (.internal "ipc.persons.bootstrap_self".toList e))
    | none => match insertProducts crates faults url slot fresh input s [] input.products with
      | (s, inserted, .error e) => (s.rollbackSourcesAdd faults fresh inserted slot, .error e)
      | (s, inserted, .ok ()) => (s, inserted.mapM (s.reread faults fresh))

/-- The account that the source is bound to, from the first identity of its kind. -/
def boundAccountId (id : Uuid) : Option Text :=
  ((s.listForSource id).find? (·.kind = .atlassianAccountId)).map (·.externalActorId)

/-- The slot of a source that a token can go to. -/
def reconnectSlot (faults : Faults) (id : Uuid) :
    Except DayseamError (SecretRef × Text × Text) :=
  match faults .getSource with
  | some e => .error (.internal "ipc.sources.get".toList e)
  | none => match s.sources.find? (·.id = id) with
    | none => .error (.invalidConfig IPC_SOURCE_NOT_FOUND
        ("source ".toList ++ id.display ++ " does not exist".toList))
    | some source => match workspaceOf source.config with
      | none => .error (.invalidConfig IPC_SOURCE_CONFIG_KIND_MISMATCH
          ("source ".toList ++ id.display ++ " is ".toList ++
            Orchestrator.SourceKind.debug source.kind ++
              "; atlassian_sources_reconnect is Jira/Confluence only".toList))
      | some (workspaceUrl, email) => match source.secretRef with
        | none => .error (.invalidConfig IPC_ATLASSIAN_REUSE_SECRET_MISSING
            ("source ".toList ++ id.display ++ (" has no secret_ref on file; delete the source " ++
              "and add it again rather than reconnecting").toList))
        | some ref =>
          if email.trim = [] then .error (.invalidConfig IPC_ATLASSIAN_CREDENTIALS_MISSING
            ("source ".toList ++ id.display ++ (" has no email on file; delete the source and " ++
              "add it again so the dialog can capture one").toList))
          else .ok (ref, workspaceUrl, email)

/-- The account of the source against that of the token. -/
def checkAccount (faults : Faults) (id : Uuid) (new : Text) : Except DayseamError Unit :=
  match faults .bootstrapSelf with
  | some e => .error (.internal "ipc.persons.bootstrap_self".toList e)
  | none => match faults .listIdentities with
    | some e => .error (.internal "ipc.source_identities.list_for_source".toList e)
    | none => match s.boundAccountId id with
      | none => .ok ()
      | some existing => if existing ≠ new then .error (wrongAccount new existing) else .ok ()

variable {accountOf : Text → Option Text}

/-- What the command checks before it writes the token: the slot, and the account that the
token belongs to. -/
def admitReconnect (faults : Faults) (input : ReconnectInput accountOf) :
    Except DayseamError (SecretRef × Text) :=
  match requireNonemptyToken input.apiToken with
  | .error e => .error e
  | .ok () => match s.reconnectSlot faults input.sourceId with
    | .error e => .error e
    | .ok (ref, workspaceUrl, email) => match parseWorkspaceUrl crates workspaceUrl with
      | .error e => .error e
      | .ok _ => match discoverCloud crates input.probe workspaceUrl email with
        | .error e => .error e
        | .ok new => match s.checkAccount faults input.sourceId new with
          | .error e => .error e
          | .ok () => .ok (ref, new)

/-- `atlassian_sources_reconnect`. -/
def sourcesReconnect (faults : Faults) (input : ReconnectInput accountOf) :
    Store × Except DayseamError (List Uuid) :=
  match s.admitReconnect crates faults input with
  | .error e => (s, .error e)
  | .ok (ref, _) => match faults .put with
    | some e => (s, .error (keychainFailed "write".toList (secretStoreKey ref) e))
    | none =>
      let s := s.putSecret ref input.apiToken
      match faults .listSources with
      | some e => (s, .error (.internal "ipc.sources.list".toList e))
      | none => (s, .ok ((s.sources.filter fun source =>
          decide (source.secretRef = some ref)).map (·.id)))

end Store

/-! ### Calls -/

inductive Call (accountOf : Text → Option Text)
  | add (input : AddInput) (fresh : Fresh) (faults : Faults)
  | reconnect (input : ReconnectInput accountOf) (faults : Faults)

inductive Reply
  | added (sources : List Source)
  | rotated (ids : List Uuid)

/-- The store, and what the last call returned. -/
structure Session where
  store : Store
  last : Option (Except DayseamError Reply)

/-- The ids that a call makes up are new. -/
def Store.IsNew (s : Store) (fresh : Fresh) : Prop :=
  s.keychain (secretStoreKey (newAtlassianSecretRef fresh.slot)) = none ∧
    (∀ source ∈ s.sources, source.secretRef.map secretStoreKey ≠
      some (secretStoreKey (newAtlassianSecretRef fresh.slot))) ∧
    ∀ p ∈ [Product.jira, .confluence], (∀ source ∈ s.sources, source.id ≠ fresh.sourceId p) ∧
      ∀ row ∈ s.identities, row.sourceId ≠ some (fresh.sourceId p)

instance (s : Store) (fresh : Fresh) : Decidable (s.IsNew fresh) :=
  inferInstanceAs (Decidable (_ ∧ _ ∧ ∀ p ∈ [Product.jira, .confluence], _ ∧ _))

def call {accountOf : Text → Option Text} (s : Session) : Call accountOf → Option Session
  | .add input fresh faults =>
    if s.store.IsNew fresh then
      let (store, result) := s.store.sourcesAdd crates faults fresh input
      some ⟨store, some (result.map .added)⟩
    else none
  | .reconnect input faults =>
    let (store, result) := s.store.sourcesReconnect crates faults input
    some ⟨store, some (result.map .rotated)⟩

/-- The calls, from any store. -/
def machine (accountOf : Text → Option Text) (start : Store) :
    Machine Session (Call accountOf) where
  init := ⟨start, none⟩
  step := call crates

end AtlassianIpc
end Dayseam
