import Dayseam.Core.Ids
import Dayseam.Core.Path
import Dayseam.Core.Runs
import Dayseam.Core.Time
import Dayseam.Lib.Paging
import Dayseam.Orchestrator.FanOut
import Mathlib

/-!
# The local-git connector

One connector discovers the git repositories under its scan roots and walks the
commits of a day in each.  Commits are kept by the e-mail addresses of the source that
the sync is for; the repositories do not depend on that source.

## Main definitions

* `discoverRepos` — the repositories under the scan roots.
* `walkRepoForDay` — the commits of a day in one repository.
* `LocalGitConnector.sync` — the whole connector.

## Main results

* `startsWith_of_mem_discoverRepos` — a repository lies under a scan root.
* `mem_events_sync` — what a sync emits.
-/

namespace Dayseam
namespace LocalGit

open Orchestrator (SyncResult)

/-! ### The file system -/

inductive FileKind
  | file
  | dir
  | symlink
  | other
  deriving DecidableEq

/-- What a walk sees of the file system: whether a path exists, the kind of what is
there without following symbolic links, and the names in a directory that can be read. -/
structure FileSystem where
  present : PathBuf → Bool
  kind : PathBuf → Option FileKind
  readDir : PathBuf → Option (List Text)
  names : ∀ dir names, readDir dir = some names → ∀ name ∈ names, '/' ∉ name

/-- The tuning knobs of the walk. -/
structure DiscoveryConfig where
  maxDepth : ℕ
  maxRoots : ℕ

def DiscoveryConfig.default : DiscoveryConfig := ⟨6, 512⟩

structure DiscoveredRepo where
  path : PathBuf
  label : Text
  deriving DecidableEq

def DiscoveredRepo.fromPath (path : PathBuf) : DiscoveredRepo :=
  ⟨path, path.fileName.getD path.text⟩

structure DiscoveryOutcome where
  repos : List DiscoveredRepo
  truncated : Bool
  deriving DecidableEq

variable (fs : FileSystem)

def isPlainFile (path : PathBuf) : Bool := fs.kind path == some .file

def isPlainDir (path : PathBuf) : Bool := fs.kind path == some .dir

/-- A worktree, a regular repository or a bare one. -/
def isGitRepo (path : PathBuf) : Bool :=
  let dotGit := path.join ".git".toList
  isPlainFile fs dotGit || (isPlainDir fs dotGit && isPlainFile fs (dotGit.join "HEAD".toList)) ||
    (isPlainFile fs (path.join "HEAD".toList) && isPlainDir fs (path.join "objects".toList) &&
      isPlainDir fs (path.join "refs".toList))

def isHiddenNonGit (name : Text) : Bool :=
  name != ".git".toList && name.head? == some '.'

def protectedNames : List Text :=
  ["Library".toList, "Pictures".toList, "Music".toList, "Movies".toList, "Desktop".toList,
    "Documents".toList, "Downloads".toList, "Public".toList, "Volumes".toList,
    ".Trash".toList, "node_modules".toList]

def protectedExtensions : List Text :=
  [".photoslibrary".toList, ".musiclibrary".toList, ".tvlibrary".toList,
    ".imovielibrary".toList, ".app".toList, ".bundle".toList, ".framework".toList]

def isMacosProtectedName (name : Text) : Bool :=
  protectedNames.contains name ||
    protectedExtensions.any fun ext => ext.isSuffixOf (name.map Char.toLower)

/-- The directories to go down into. -/
def children (dir : PathBuf) (names : List Text) : List PathBuf :=
  ((names.filter fun name => isPlainDir fs (dir.join name) && !isHiddenNonGit name &&
    !isMacosProtectedName name).map dir.join).mergeSort fun a b => decide (a.text ≤ b.text)

/-! ### Discovery -/

def LOCAL_GIT_REPO_NOT_FOUND : Text := "local_git.repo_not_found".toList

variable (config : DiscoveryConfig)

/-- The directories of one depth, in the order of the queue: the repositories so far,
the directories of the next depth, and whether the walk stopped at the cap.  Only a scan
root that cannot be read is an error. -/
def walkLevel (depth : ℕ) : List PathBuf → List DiscoveredRepo →
    Except DayseamError (List DiscoveredRepo × List PathBuf × Bool)
  | [], out => .ok (out, [], false)
  | dir :: dirs, out =>
    if config.maxRoots ≤ out.length then .ok (out, [], true)
    else if isGitRepo fs dir then walkLevel depth dirs (out ++ [.fromPath dir])
    else if config.maxDepth ≤ depth then walkLevel depth dirs out
    else match fs.readDir dir with
      | none =>
        if depth = 0 then .error (.io LOCAL_GIT_REPO_NOT_FOUND (some dir.text)
          ("cannot read scan root ".toList ++ dir.text))
        else walkLevel depth dirs out
      | some names => (walkLevel depth dirs out).map fun (out, next, truncated) =>
          (out, children fs dir names ++ next, truncated)

/-- The walk of one scan root, a depth at a time. -/
def walkRoot : ℕ → ℕ → List PathBuf → List DiscoveredRepo →
    Except DayseamError (List DiscoveredRepo × Bool)
  | 0, _, _, out => .ok (out, false)
  | fuel + 1, depth, dirs, out => do
    let (out, next, truncated) ← walkLevel fs config depth dirs out
    if truncated then .ok (out, true) else walkRoot fuel (depth + 1) next out

/-- The scan roots one after the other, up to the cap. -/
def walkRoots : List PathBuf → List DiscoveredRepo →
    Except DayseamError (List DiscoveredRepo × Bool)
  | [], out => .ok (out, false)
  | root :: roots, out =>
    if fs.present root then do
      let (out, truncated) ← walkRoot fs config (config.maxDepth + 1) 0 [root] out
      if truncated then .ok (out, true) else walkRoots roots out
    else .error (.io LOCAL_GIT_REPO_NOT_FOUND (some root.text)
      ("scan root does not exist: ".toList ++ root.text))

/-- `discover_repos`. -/
def discoverRepos (scanRoots : List PathBuf) : Except DayseamError DiscoveryOutcome :=
  (walkRoots fs config scanRoots []).map fun (out, truncated) =>
    ⟨(out.mergeSort fun a b => decide (a.path.text ≤ b.path.text)).destutter
      fun a b => ¬a.path.same b.path, truncated⟩

section Under

variable {fs config} {root : PathBuf} {depth : ℕ} {dirs next : List PathBuf}
  {out out' : List DiscoveredRepo} {truncated : Bool}

theorem startsWith_children {dir child : PathBuf} {names : List Text}
    (hread : fs.readDir dir = some names) (h : child ∈ children fs dir names) :
    child.startsWith dir := by
  rw [children, List.mem_mergeSort, List.mem_map] at h
  obtain ⟨name, hname, rfl⟩ := h
  refine PathBuf.startsWith_join fun hhead => ?_
  exact fs.names dir names hread name (List.mem_filter.mp hname).1 (List.mem_of_mem_head? hhead)

/-- The directories of the next depth and the new repositories lie under the root. -/
theorem walkLevel_under (hdirs : ∀ d ∈ dirs, d.startsWith root)
    (h : walkLevel fs config depth dirs out = .ok (out', next, truncated)) :
    (∀ r ∈ out', r ∈ out ∨ r.path.startsWith root) ∧ ∀ d ∈ next, d.startsWith root := by
  induction dirs generalizing out out' next truncated with
  | nil =>
    cases h
    exact ⟨fun _ hr => Or.inl hr, fun _ hd => absurd hd List.not_mem_nil⟩
  | cons dir dirs ih =>
    have hdir := hdirs dir List.mem_cons_self
    have hrest : ∀ d ∈ dirs, d.startsWith root := fun d hd => hdirs d (List.mem_cons_of_mem _ hd)
    unfold walkLevel at h
    split at h
    · cases h
      exact ⟨fun _ hr => Or.inl hr, fun _ hd => absurd hd List.not_mem_nil⟩
    split at h
    · obtain ⟨hout, hnext⟩ := ih hrest h
      refine ⟨fun r hr => ?_, hnext⟩
      rcases hout r hr with hr | hr
      · rcases List.mem_append.mp hr with hr | hr
        · exact Or.inl hr
        · rw [List.mem_singleton.mp hr]
          exact Or.inr hdir
      · exact Or.inr hr
    split at h
    · exact ih hrest h
    split at h
    · split at h
      · cases h
      · exact ih hrest h
    · next names hread =>
      obtain ⟨⟨o, n, tr⟩, hlevel, heq⟩ := Paging.exists_of_map_eq_ok h
      cases heq
      obtain ⟨hout, hnext⟩ := ih hrest hlevel
      refine ⟨hout, fun d hd => ?_⟩
      rcases List.mem_append.mp hd with hd | hd
      · exact PathBuf.startsWith_trans (startsWith_children hread hd) hdir
      · exact hnext d hd

theorem walkRoot_under {fuel : ℕ} (hdirs : ∀ d ∈ dirs, d.startsWith root)
    (h : walkRoot fs config fuel depth dirs out = .ok (out', truncated)) :
    ∀ r ∈ out', r ∈ out ∨ r.path.startsWith root := by
  induction fuel generalizing depth dirs out with
  | zero =>
    cases h
    exact fun _ hr => Or.inl hr
  | succ fuel ih =>
    rw [walkRoot] at h
    obtain ⟨⟨o, n, tr⟩, hlevel, h⟩ := Paging.exists_of_bind_eq_ok h
    obtain ⟨hout, hnext⟩ := walkLevel_under hdirs hlevel
    dsimp only at h
    split at h
    · cases h
      exact hout
    · intro r hr
      rcases ih hnext h r hr with hr | hr
      · exact hout r hr
      · exact Or.inr hr

theorem walkRoots_under {roots : List PathBuf}
    (h : walkRoots fs config roots out = .ok (out', truncated)) :
    ∀ r ∈ out', r ∈ out ∨ ∃ root ∈ roots, r.path.startsWith root := by
  induction roots generalizing out with
  | nil =>
    cases h
    exact fun _ hr => Or.inl hr
  | cons root roots ih =>
    rw [walkRoots] at h
    split at h
    · obtain ⟨⟨o, tr⟩, hroot, h⟩ := Paging.exists_of_bind_eq_ok h
      have hself : ∀ d ∈ [root], d.startsWith root := fun d hd =>
        List.mem_singleton.mp hd ▸ PathBuf.startsWith_refl root
      have hout := walkRoot_under hself hroot
      have hunder : ∀ r ∈ o, r ∈ out ∨ ∃ root' ∈ root :: roots, r.path.startsWith root' := fun r hr =>
        (hout r hr).imp_right fun h => ⟨root, List.mem_cons_self, h⟩
      dsimp only at h
      split at h
      · cases h
        exact hunder
      · intro r hr
        rcases ih h r hr with hr | ⟨root', hmem, hr⟩
        · exact hunder r hr
        · exact Or.inr ⟨root', List.mem_cons_of_mem _ hmem, hr⟩
    · cases h

/-- **A discovered repository lies under a scan root.** -/
theorem startsWith_of_mem_discoverRepos {roots : List PathBuf} {outcome : DiscoveryOutcome}
    {repo : DiscoveredRepo} (h : discoverRepos fs config roots = .ok outcome)
    (hrepo : repo ∈ outcome.repos) : ∃ root ∈ roots, repo.path.startsWith root := by
  obtain ⟨⟨o, tr⟩, hwalk, rfl⟩ := Paging.exists_of_map_eq_ok h
  have hmem := List.mem_mergeSort.mp ((List.destutter_sublist ..).mem hrepo)
  exact (walkRoots_under hwalk repo hmem).resolve_left List.not_mem_nil

end Under

/-! ### Commits -/

/-- A commit that a branch of a repository leads to, with the time of its committer. -/
structure GitCommit where
  sha : Text
  committedAt : Option ℤ
  authorName : Option Text
  committerName : Option Text
  authorEmail : Option Text
  committerEmail : Option Text
  message : Option Text
  deriving DecidableEq

/-- The title and the body of a message. -/
def splitMessage (message : Text) : Text × Option Text :=
  match Text.splitFirst '\n' message with
  | some (title, rest) =>
    (title.trim, if rest.trim.isEmpty then none else some rest.trim)
  | none => (message, none)

/-- What the walk takes from other crates: UUIDv5, the lower-case form of a text, and
the commits of a repository in the order of the walk. -/
structure Crates where
  newV5 : Uuid → List UInt8 → Uuid
  toLowercase : Text → Text
  commits : PathBuf → Except DayseamError (List GitCommit)

variable (crates : Crates) (sourceId : Uuid) (repoRoot : PathBuf) (emails : List Text)

/-- The e-mail address by which the commit is the user's, the author's first. -/
def GitCommit.matchedEmail (commit : GitCommit) : Option Text :=
  (commit.authorEmail.filter fun email => emails.contains (crates.toLowercase email)).or
    (commit.committerEmail.filter fun email => emails.contains (crates.toLowercase email))

/-- `build_commit_event`. -/
def buildCommitEvent (commit : GitCommit) (committed : ℤ) (email : Text) : ActivityEvent :=
  let message := splitMessage (commit.message.getD []).trim
  let label := repoRoot.fileName.getD "repo".toList
  { id := ActivityEvent.deterministicId crates.newV5 sourceId commit.sha .commitAuthored
    sourceId := sourceId
    externalId := commit.sha
    kind := .commitAuthored
    occurredAt := committed
    actor :=
      ⟨(commit.authorName.or commit.committerName).getD "unknown".toList, some email, none⟩
    title := message.1
    body := message.2
    links := [⟨"file://".toList ++ repoRoot.text, some label⟩]
    entities := [⟨.repo, repoRoot.text, some label⟩]
    parentExternalId := none
    metadata := .object []
    privacy := .normal }

/-- `redact_private_event`. -/
def redactPrivateEvent (event : ActivityEvent) : ActivityEvent :=
  { event with
    title := []
    body := none
    entities := []
    parentExternalId := none
    metadata := .object []
    privacy := .redactedPrivateRepo }

variable (day : NaiveDate) (tz : FixedOffset) (isPrivate : Bool)

/-- The event of a commit of the day that is the user's. -/
def commitEvent (commit : GitCommit) : Option ActivityEvent := do
  let committed ← commit.committedAt
  let email ← commit.matchedEmail crates emails
  if localDate tz committed = day then
    let event := buildCommitEvent crates sourceId repoRoot commit committed email
    some (if isPrivate then redactPrivateEvent event else event)
  else none

/-- What the walk of a repository makes. -/
structure RepoWalk where
  events : List ActivityEvent
  artifact : Option Artifact

def buildCommitSetArtifact (events : List ActivityEvent) (createdAt : ℤ) : Artifact :=
  let externalId := repoRoot.text ++ "::".toList ++ Calendar.isoText day.day
  { id := ArtifactId.deterministic crates.newV5 sourceId .commitSet externalId
    sourceId := sourceId
    kind := .commitSet
    externalId := externalId
    payload := .commitSet repoRoot day
      ((events.map (·.id)).mergeSort fun a b => decide (a ≤ b)) (events.map (·.externalId))
    createdAt := createdAt }

/-- `walk_repo_for_day`; a commit is visited once. -/
def walkRepoForDay (createdAt : ℤ) : Except DayseamError RepoWalk :=
  (crates.commits repoRoot).map fun commits =>
    let events := ((KeyedMerge.keepNew GitCommit.sha [] commits).filterMap
      (commitEvent crates sourceId repoRoot emails day tz isPrivate)).mergeSort
        fun a b => decide (a.externalId ≤ b.externalId)
    ⟨events, if events.isEmpty then none
      else some (buildCommitSetArtifact crates sourceId repoRoot day events createdAt)⟩

/-! ### The connector -/

/-- The flag of the configuration, or the marker file in the repository. -/
def isPrivateRepo (configuredPrivate : Bool) : Bool :=
  configuredPrivate || fs.present ((repoRoot.join ".dayseam".toList).join "private".toList)

end LocalGit

structure LocalGitConnector where
  scanRoots : List PathBuf
  configuredPrivateRoots : List PathBuf
  discovery : LocalGit.DiscoveryConfig
  localTz : FixedOffset

namespace LocalGitConnector

open LocalGit
open Orchestrator (SyncResult)

variable (connector : LocalGitConnector) (fs : FileSystem) (crates : Crates)
  (identities : List SourceIdentity) (sourceId : Uuid) (day : NaiveDate)

/-- The e-mail addresses of the source, and those of no source. -/
def identityEmails : List Text :=
  (identities.filter fun si => decide (si.kind = .gitEmail ∧
    (si.sourceId = none ∨ si.sourceId = some sourceId))).map fun si =>
      crates.toLowercase si.externalActorId

/-- The path is one of the roots that the connector was built with. -/
def isConfiguredPrivate (path : PathBuf) : Bool :=
  connector.configuredPrivateRoots.any fun root => decide (root.same path)

/-- The walk of one repository; a broken one is logged and skipped. -/
def walk (createdAt : ℤ) (repo : DiscoveredRepo) : Option RepoWalk :=
  (walkRepoForDay crates sourceId repo.path (identityEmails crates identities sourceId) day
    connector.localTz
    (isPrivateRepo fs repo.path (connector.isConfiguredPrivate repo.path)) createdAt).toOption

/-- `sync` for a day; a cancellation, which makes it an error, is left out. -/
def sync (createdAt : ℤ) : Except DayseamError SyncResult :=
  (discoverRepos fs connector.discovery connector.scanRoots).map fun outcome =>
    let walks := outcome.repos.filterMap (connector.walk fs crates identities sourceId day createdAt)
    ⟨walks.flatMap (·.events), walks.filterMap (·.artifact)⟩

/-! ### What a sync emits -/

/-- The walk finds the repository, and comes past the commit in it. -/
def Visits (repo : DiscoveredRepo) (commit : GitCommit) : Prop :=
  (∃ outcome, discoverRepos fs connector.discovery connector.scanRoots = .ok outcome ∧
    repo ∈ outcome.repos) ∧
  ∃ commits, crates.commits repo.path = .ok commits ∧
    commit ∈ KeyedMerge.keepNew GitCommit.sha [] commits

/-- The event that the sync makes of a commit in a repository. -/
def eventOf (repo : DiscoveredRepo) (commit : GitCommit) : Option ActivityEvent :=
  commitEvent crates sourceId repo.path (identityEmails crates identities sourceId) day
    connector.localTz (isPrivateRepo fs repo.path (connector.isConfiguredPrivate repo.path)) commit

variable {connector fs crates identities sourceId day} {createdAt : ℤ} {repo : DiscoveredRepo}
  {event : ActivityEvent} {res : SyncResult}

theorem mem_events_walk {w : RepoWalk}
    (h : connector.walk fs crates identities sourceId day createdAt repo = some w) :
    event ∈ w.events ↔ ∃ commits, crates.commits repo.path = .ok commits ∧
      ∃ commit ∈ KeyedMerge.keepNew GitCommit.sha [] commits,
        connector.eventOf fs crates identities sourceId day repo commit = some event := by
  unfold walk walkRepoForDay at h
  cases hcommits : crates.commits repo.path with
  | error err =>
    rw [hcommits] at h
    cases h
  | ok commits =>
    rw [hcommits] at h
    cases h
    dsimp only
    rw [List.mem_mergeSort, List.mem_filterMap]
    constructor
    · rintro ⟨commit, hmem, hevent⟩
      exact ⟨commits, rfl, commit, hmem, hevent⟩
    · rintro ⟨_, heq, commit, hmem, hevent⟩
      cases heq
      exact ⟨commit, hmem, hevent⟩

/-- **What a sync emits**: the events of the commits that it visits. -/
theorem mem_events_sync (h : connector.sync fs crates identities sourceId day createdAt = .ok res) :
    event ∈ res.events ↔ ∃ repo commit, connector.Visits fs crates repo commit ∧
      connector.eventOf fs crates identities sourceId day repo commit = some event := by
  obtain ⟨outcome, hdiscover, rfl⟩ := Paging.exists_of_map_eq_ok h
  simp only [List.mem_flatMap, List.mem_filterMap]
  constructor
  · rintro ⟨w, ⟨repo, hrepo, hwalk⟩, hevent⟩
    obtain ⟨commits, hcommits, commit, hmem, heq⟩ := (mem_events_walk hwalk).mp hevent
    exact ⟨repo, commit, ⟨⟨outcome, hdiscover, hrepo⟩, commits, hcommits, hmem⟩, heq⟩
  · rintro ⟨repo, commit, ⟨⟨outcome', hdiscover', hrepo⟩, commits, hcommits, hmem⟩, heq⟩
    rw [hdiscover] at hdiscover'
    cases hdiscover'
    obtain ⟨w, hwalk⟩ : ∃ w,
        connector.walk fs crates identities sourceId day createdAt repo = some w := by
      unfold walk walkRepoForDay
      rw [hcommits]
      exact ⟨_, rfl⟩
    exact ⟨w, ⟨repo, hrepo, hwalk⟩, (mem_events_walk hwalk).mpr ⟨commits, hcommits, commit, hmem, heq⟩⟩

/-- Nothing is visited by a sync that fails. -/
theorem exists_sync_of_visits {commit : GitCommit} (h : connector.Visits fs crates repo commit) :
    ∃ res, connector.sync fs crates identities sourceId day createdAt = .ok res := by
  obtain ⟨⟨outcome, hdiscover, -⟩, -⟩ := h
  unfold sync
  rw [hdiscover]
  exact ⟨_, rfl⟩

/-- **A commit of a private repository is redacted.** -/
theorem privacy_of_isPrivateRepo {commit : GitCommit}
    (h : connector.eventOf fs crates identities sourceId day repo commit = some event)
    (hprivate : isPrivateRepo fs repo.path (connector.isConfiguredPrivate repo.path) = true) :
    event.privacy = .redactedPrivateRepo := by
  unfold eventOf commitEvent at h
  obtain ⟨committed, -, h⟩ := Option.bind_eq_some_iff.mp h
  obtain ⟨email, -, h⟩ := Option.bind_eq_some_iff.mp h
  rw [hprivate] at h
  dsimp only at h
  rw [if_pos (rfl : true = true)] at h
  split_ifs at h
  cases h
  rfl

/-- The commit is of the day, and the user's by an address of the source. -/
def IsTheirs (connector : LocalGitConnector) (crates : Crates) (identities : List SourceIdentity)
    (sourceId : Uuid) (day : NaiveDate) (commit : GitCommit) : Prop :=
  (commit.committedAt.map (localDate connector.localTz)) = some day ∧
    (commit.matchedEmail crates (identityEmails crates identities sourceId)).isSome = true

instance (commit : GitCommit) : Decidable (IsTheirs connector crates identities sourceId day commit) :=
  inferInstanceAs (Decidable (_ ∧ _))

theorem exists_eventOf_iff {commit : GitCommit} :
    (∃ event, connector.eventOf fs crates identities sourceId day repo commit = some event) ↔
      connector.IsTheirs crates identities sourceId day commit := by
  unfold eventOf commitEvent IsTheirs
  cases commit.committedAt with
  | none => simp
  | some committed =>
    cases GitCommit.matchedEmail crates (identityEmails crates identities sourceId) commit with
    | none => simp
    | some email =>
      by_cases hday : localDate connector.localTz committed = day
      · simp [hday]
      · simp [hday]

end LocalGitConnector
end Dayseam
