import Dayseam.Desktop.AddRollback
import Mathlib

/-!
# Updates of sources that fail

A command that updates a source writes the label before it looks at the configuration, and
the configuration before it looks at the token.  Where it fails, nothing is undone.

## Main definitions

* `SourceIpc.stages` — the stages of the command, as lists of what can fail and of what is
  new.
* `SourceIpc.Unchanged` — the row of a source, its identities and its secret are as before.

## Main results

* `SourceIpc.update_unchanged_iff` — **when a failed update leaves no trace.**
-/

namespace Dayseam
namespace SourceIpc

open AtlassianIpc (secretStoreKey)
open Attempt (Ends Fails Stage FailsClean Follows ends_bind_iff ends_check_iff ends_write_iff
  ends_pure_iff fails_bind_iff)
open LocalGit (DiscoveryOutcome)

/-! ### The stages of an update -/

section

variable (crates : Crates) (faults : Faults) (s : State) (input : UpdateInput)
  (fresh : UpdateFresh) (existing : Source)

def labelStage : Stage where
  fails := input.label ≠ none ∧ faults .updateLabel ≠ none
  changes := ∃ label, input.label = some label ∧ label ≠ existing.label

def configStage : Stage where
  fails := ∃ config, input.config = some config ∧
    ((∃ e, checkConfig crates faults existing config s = .error e) ∨ faults .updateConfig ≠ none)
  changes := ∃ config, input.config = some config ∧ config ≠ existing.config

/-- The argument is checked after the label and the configuration are written. -/
def patStage : Stage where
  fails := ∃ e, validatePatArg existing input.pat input.labelOnly = .error e
  changes := False

def tokenStage : Stage where
  fails := input.pat ≠ none ∧ faults .put ≠ none
  changes := ∃ pat, input.pat = some pat ∧
    s.accounts.keychain (secretStoreKey (gitlabSecretRef existing.id)) ≠ some pat

def refStage : Stage where
  fails := input.pat ≠ none ∧ faults .updateSecretRef ≠ none
  changes := input.pat ≠ none ∧ existing.secretRef ≠ some (gitlabSecretRef existing.id)

/-- The identity is there, by its id or by what it says. -/
def HasIdentity (identity : SourceIdentity) : Prop :=
  ∃ row ∈ s.accounts.identities, row.id = identity.id ∨
    row.personId = identity.personId ∧ row.sourceId = identity.sourceId ∧
      row.kind = identity.kind ∧ row.externalActorId = identity.externalActorId

/-- The user of a GitLab source after the update. -/
def effectiveUser : Option ℤ :=
  match input.config.getD existing.config with
  | .gitLab _ userId _ => some userId
  | _ => none

def selfIdentity (userId : ℤ) : SourceIdentity :=
  ⟨fresh.identityId, s.accounts.selfPerson, some existing.id, .gitLabUserId, i64Text userId⟩

def identityStage : Stage where
  fails := match existing.kind with
    | .gitLab => effectiveUser input existing ≠ none ∧
        (faults .bootstrapSelf ≠ none ∨ faults (.ensureIdentity 0) ≠ none)
    | .jira | .confluence => faults .bootstrapSelf ≠ none ∨ faults .listIdentities ≠ none ∨
        (∃ row ∈ s.accounts.listForSource existing.id, row.kind = .atlassianAccountId) ∧
          faults (.ensureIdentity 0) ≠ none
    | _ => False
  changes := existing.kind = .gitLab ∧ ∃ userId, effectiveUser input existing = some userId ∧
    ¬HasIdentity s (selfIdentity s fresh existing userId)

/-- A call of the scan to the database faults. -/
def ScanFaults (repos : LocalRepoRows) (id : Uuid) (rows : List LocalRepo)
    (truncated : Bool) : Prop :=
  if truncated = true then ∃ i < rows.length, faults (.upsertRepo i) ≠ none
  else if rows = [] then faults .listRepos ≠ none ∨
    LocalRepoRepo.listForSource repos id = [] ∧ faults .reconcile ≠ none
  else faults .reconcile ≠ none

def scanStage : Stage where
  fails := ∃ scanRoots outcome, input.config = some (.localGit scanRoots) ∧ scanRoots ≠ [] ∧
    fresh.found = .ok outcome ∧ ScanFaults faults s.repos existing.id
      (Store.keep outcome.repos fresh.now) outcome.truncated
  changes := False

def rereadStage : Stage where
  fails := faults .get ≠ none
  changes := False

/-- The stages of an update of a source that is there. -/
def stages : List Stage :=
  [labelStage faults input existing, configStage crates faults s input existing,
    patStage input existing, tokenStage faults s input existing, refStage faults input existing,
    identityStage faults s input fresh existing, scanStage faults s input fresh existing,
    rereadStage faults]

end

/-! ### What is to stay as it was -/

/-- A slot of the source: the one that a token goes to, or the one that the row names. -/
def State.IsSlotOf (s : State) (id : Uuid) (ref : SecretRef) : Prop :=
  ref = gitlabSecretRef id ∨ ∃ source, s.get id = some source ∧ source.secretRef = some ref

def State.identitiesOf (s : State) (id : Uuid) : List SourceIdentity :=
  s.accounts.identities.filter fun row => row.sourceId = some id

/-- The row of a source, its identities and its secrets are as before. -/
structure Unchanged (s : State) (id : Uuid) (t : State) : Prop where
  row : t.get id = s.get id
  identities : t.identitiesOf id = s.identitiesOf id
  keychain : ∀ ref, s.IsSlotOf id ref →
    t.accounts.keychain (secretStoreKey ref) = s.accounts.keychain (secretStoreKey ref)

/-- What is new in the row of a source. -/
structure RowChanged (existing : Source) (label config ref : Prop) (row : Source) : Prop where
  id : row.id = existing.id
  kind : row.kind = existing.kind
  label : row.label ≠ existing.label ↔ label
  config : row.config ≠ existing.config ↔ config
  secretRef : row.secretRef ≠ existing.secretRef ↔ ref

/-- What an update has changed of a source up to its identities. -/
structure Changed (s : State) (existing : Source) (label config token ref : Prop)
    (t : State) : Prop where
  row : ∃ row, t.get existing.id = some row ∧ RowChanged existing label config ref row
  others : ∀ source, source.id ≠ existing.id →
    (source ∈ t.accounts.sources ↔ source ∈ s.accounts.sources)
  token : t.accounts.keychain (secretStoreKey (gitlabSecretRef existing.id)) ≠
    s.accounts.keychain (secretStoreKey (gitlabSecretRef existing.id)) ↔ token
  keychain : ∀ key, key ≠ secretStoreKey (gitlabSecretRef existing.id) →
    t.accounts.keychain key = s.accounts.keychain key
  identities : t.accounts.identities = s.accounts.identities
  selfPerson : t.accounts.selfPerson = s.accounts.selfPerson
  repos : t.repos = s.repos

variable {crates : Crates} {faults : Faults} {s t : State} {input : UpdateInput}
  {fresh : UpdateFresh} {existing : Source} {label config token ref : Prop}

theorem RowChanged.congr {row : Source} {label' config' ref' : Prop}
    (h : RowChanged existing label config ref row) (hlabel : label ↔ label')
    (hconfig : config ↔ config') (href : ref ↔ ref') :
    RowChanged existing label' config' ref' row :=
  ⟨h.id, h.kind, h.label.trans hlabel, h.config.trans hconfig, h.secretRef.trans href⟩

/-- A row without anything new is the old one. -/
theorem RowChanged.eq_iff {row : Source} (h : RowChanged existing label config ref row) :
    row = existing ↔ ¬label ∧ ¬config ∧ ¬ref := by
  rw [← h.label, ← h.config, ← h.secretRef]
  simp only [not_not]
  refine ⟨by rintro rfl; exact ⟨rfl, rfl, rfl⟩, ?_⟩
  rintro ⟨hlabel, hconfig, href⟩
  obtain ⟨hid, hkind, -⟩ := h
  obtain ⟨id, kind, label, config, secretRef, hrow⟩ := row
  obtain ⟨id', kind', label', config', secretRef', hexisting⟩ := existing
  dsimp only at *
  subst hid hkind hlabel hconfig href
  rfl

/-- A read of what is there fails where the database does. -/
theorem ends_read_iff {α : Type} {op : Op} {code : Text} {f : State → Except DayseamError α} {a : α}
    {Q : α → State → Prop} {P : State → Prop} (h : f t = .ok a) :
    Ends (read faults op code f) t Q P ↔
      (faults op ≠ none → P t) ∧ (faults op = none → Q a t) := by
  unfold read
  cases hfault : faults op with
  | some e =>
    have herror : Ends (Attempt.check fun _ : State =>
        (.error (.internal code e) : Except DayseamError α)) t Q P ↔ P t :=
      Attempt.ends_check_of_error rfl
    simpa using herror
  | none => simp [Attempt.ends_check_of_ok h]

theorem get_id {id : Uuid} (h : s.get id = some existing) : existing.id = id := by
  simpa using List.find?_some h

/-- The state before the first stage. -/
theorem Changed.refl (h : s.get existing.id = some existing) :
    Changed s existing False False False False s where
  row := ⟨existing, h, by constructor <;> simp⟩
  others _ _ := Iff.rfl
  token := by simp
  keychain _ _ := rfl
  identities := rfl
  selfPerson := rfl
  repos := rfl

/-- A write to the row. -/
theorem Changed.updateSource (h : Changed s existing label config token ref t)
    {f : Source → Source} {label' config' ref' : Prop} (hid : ∀ source, (f source).id = source.id)
    (hf : ∀ row, RowChanged existing label config ref row →
      RowChanged existing label' config' ref' (f row)) :
    Changed s existing label' config' token ref' (t.updateSource existing.id f) where
  row := by
    obtain ⟨row, hrow, hchanged⟩ := h.row
    exact ⟨f row, by rw [get_updateSource hid, hrow, Option.map_some], hf row hchanged⟩
  others source hne := by
    rw [← h.others source hne]
    simp only [State.updateSource, List.mem_map]
    constructor
    · rintro ⟨old, hold, rfl⟩
      -- the row of the source keeps its id
      split_ifs at hne ⊢ with hold'
      · exact absurd ((hid old).trans hold') hne
      · exact hold
    · exact fun hmem => ⟨source, hmem, if_neg hne⟩
  token := h.token
  keychain := h.keychain
  identities := h.identities
  selfPerson := h.selfPerson
  repos := h.repos

theorem Changed.putSecret (h : Changed s existing label config False ref t) {pat : Text}
    (htoken : s.accounts.keychain (secretStoreKey (gitlabSecretRef existing.id)) ≠ some pat ↔
      token) :
    Changed s existing label config token ref (t.putSecret (gitlabSecretRef existing.id) pat) where
  row := h.row
  others := h.others
  token := by
    rw [← htoken, State.putSecret, AtlassianIpc.Store.keychain_putSecret_of_eq rfl]
    exact ne_comm
  keychain key hkey := by
    rw [← h.keychain key hkey]
    exact Function.update_of_ne hkey ..
  identities := h.identities
  selfPerson := h.selfPerson
  repos := h.repos

theorem Changed.congr {label' config' token' ref' : Prop}
    (h : Changed s existing label config token ref t) (hlabel : label ↔ label')
    (hconfig : config ↔ config') (htoken : token ↔ token') (href : ref ↔ ref') :
    Changed s existing label' config' token' ref' t := by
  obtain ⟨⟨row, hrow, hchanged⟩, hothers, ht, hkeychain, hidentities, hself, hrepos⟩ := h
  exact ⟨⟨row, hrow, hchanged.congr hlabel hconfig href⟩, hothers, ht.trans htoken, hkeychain,
    hidentities, hself, hrepos⟩

/-- **What is left** up to the identities, in terms of what is new. -/
theorem Changed.unchanged_iff (h : Changed s existing label config token ref t)
    (hget : s.get existing.id = some existing) :
    Unchanged s existing.id t ↔ ¬label ∧ ¬config ∧ ¬token ∧ ¬ref := by
  obtain ⟨row, hrow, hchanged⟩ := h.row
  have hrowIff : t.get existing.id = s.get existing.id ↔ ¬label ∧ ¬config ∧ ¬ref := by
    rw [hrow, hget, Option.some_inj, hchanged.eq_iff]
  constructor
  · intro hsame
    obtain ⟨hlabel, hconfig, href⟩ := hrowIff.mp hsame.row
    refine ⟨hlabel, hconfig, fun htoken => ?_, href⟩
    exact h.token.mpr htoken (hsame.keychain _ (Or.inl rfl))
  · rintro ⟨hlabel, hconfig, htoken, href⟩
    refine ⟨hrowIff.mpr ⟨hlabel, hconfig, href⟩, ?_, fun slot _ => ?_⟩
    · rw [State.identitiesOf, h.identities]
      rfl
    · -- the slot is the one that the token goes to, or one that no stage writes to
      by_cases hkey : secretStoreKey slot = secretStoreKey (gitlabSecretRef existing.id)
      · rw [hkey]
        exact not_not.mp fun hne => htoken (h.token.mp hne)
      · exact h.keychain _ hkey

/-! ### The stages up to the secret -/

theorem follows_patchLabel (hid : existing.id = input.id)
    (h : Changed s existing False config token ref t) :
    Follows (patchLabel faults input) t (labelStage faults input existing)
      (Changed s existing False config token ref)
      fun _ => Changed s existing (labelStage faults input existing).changes config token ref := by
  unfold Follows patchLabel labelStage
  cases hinput : input.label with
  | none =>
    have hnone : False ↔ ∃ label, none = some label ∧ label ≠ existing.label := by simp
    exact ⟨fun hfails => hfails.1 rfl, h.congr hnone Iff.rfl Iff.rfl Iff.rfl⟩
  | some label =>
    dsimp only
    rw [write, ends_write_iff, ne_eq, write_eq_none, ← hid]
    refine ⟨fun hfault => ⟨⟨Option.some_ne_none _, hfault⟩, h⟩, fun hfault => ⟨fun hfails => hfails.2 hfault, ?_⟩⟩
    refine h.updateSource (fun _ => rfl) fun row hrow => ⟨hrow.id, hrow.kind, ?_, hrow.config,
      hrow.secretRef⟩
    simp only [Option.some.injEq, exists_eq_left']

/-- The check of a configuration does not depend on the row of the source itself. -/
theorem checkConfig_error_iff (h : Changed s existing label config token ref t)
    {proposed : SourceConfig} :
    (∃ e, checkConfig crates faults existing proposed t = .error e) ↔
      ∃ e, checkConfig crates faults existing proposed s = .error e := by
  unfold checkConfig
  split_ifs with hkind
  · exact Iff.rfl
  split
  · next scanRoots =>
    unfold ensureDisjoint
    split_ifs with hroots
    · exact Iff.rfl
    split
    · exact Iff.rfl
    -- both look at the same other sources
    have hok : ScanRoots.ensureDisjoint crates.paths (some existing.id) scanRoots
        t.accounts.sources = .ok () ↔ ScanRoots.ensureDisjoint crates.paths (some existing.id)
          scanRoots s.accounts.sources = .ok () := by
      rw [ScanRoots.ensureDisjoint_eq_ok_iff, ScanRoots.ensureDisjoint_eq_ok_iff]
      refine forall_congr' fun source => ?_
      by_cases hsource : source.id = existing.id
      · simp only [hsource, ne_eq, not_true_eq_false, false_imp_iff, implies_true]
      · rw [h.others source hsource]
    have herror : ∀ r : Except DayseamError Unit, (∃ e, r = .error e) ↔ ¬r = .ok () := by
      intro r
      cases r <;> simp
    rw [herror, herror, hok]
  · exact Iff.rfl
  · exact Iff.rfl

theorem follows_patchConfig (hid : existing.id = input.id)
    (h : Changed s existing label False token ref t) :
    Follows (patchConfig crates faults input existing) t
      (configStage crates faults s input existing) (Changed s existing label False token ref)
      fun _ => Changed s existing label (configStage crates faults s input existing).changes
        token ref := by
  unfold Follows patchConfig configStage
  cases hinput : input.config with
  | none =>
    have hnone : False ↔ ∃ config, none = some config ∧ config ≠ existing.config := by simp
    exact ⟨by simp, h.congr Iff.rfl hnone Iff.rfl Iff.rfl⟩
  | some proposed =>
    simp only [Option.some.injEq, exists_eq_left']
    rw [ends_bind_iff, ends_check_iff, checkConfig_error_iff h]
    refine ⟨fun herror => ⟨Or.inl herror, h⟩, fun _ hok => ?_⟩
    have hpasses : ¬∃ e, checkConfig crates faults existing proposed s = .error e := by
      rw [← checkConfig_error_iff h, hok]
      simp
    rw [write, ends_write_iff, ne_eq, write_eq_none, ← hid]
    refine ⟨fun hfault => ⟨Or.inr hfault, h⟩, fun hfault => ⟨?_, ?_⟩⟩
    · rintro (herror | hfails)
      · exact hpasses herror
      · exact hfails hfault
    · have hkind : proposed.kind = existing.kind := by
        by_contra hne
        exact hpasses ⟨_, if_pos hne⟩
      refine h.updateSource (fun _ => Source.id_updateConfig) fun row hrow => ?_
      have hnew : row.updateConfig existing.id proposed = { row with
          config := proposed, kind_config := hkind.trans hrow.kind.symm } :=
        dif_pos ⟨hrow.id, hkind.trans hrow.kind.symm⟩
      rw [hnew]
      exact ⟨hrow.id, hrow.kind, hrow.label, Iff.rfl, hrow.secretRef⟩

theorem follows_validatePatArg (h : Changed s existing label config token ref t) :
    Follows (Attempt.check fun _ => validatePatArg existing input.pat input.labelOnly) t
      (patStage input existing) (Changed s existing label config token ref)
      fun _ => Changed s existing label config token ref := by
  unfold Follows patStage
  rw [ends_check_iff]
  refine ⟨fun herror => ⟨herror, h⟩, fun _ hok => ⟨?_, h⟩⟩
  rw [hok]
  simp

/-- The first half of `patchSecret`. -/
def putPat (faults : Faults) (input : UpdateInput) : Command Unit :=
  match input.pat with
  | some pat => persistGitlabPat faults input.id pat
  | none => pure ()

/-- The second half. -/
def stampRef (faults : Faults) (input : UpdateInput) : Command Unit :=
  match input.pat with
  | some _ => write faults .updateSecretRef "sources.update_secret_ref".toList
      (·.updateSecretRef input.id (gitlabSecretRef input.id))
  | none => pure ()

theorem patchSecret_eq :
    patchSecret faults input = putPat faults input >>= fun _ => stampRef faults input := by
  unfold patchSecret putPat stampRef
  cases input.pat <;> rfl

theorem follows_putPat (hid : existing.id = input.id)
    (h : Changed s existing label config False ref t) :
    Follows (putPat faults input) t (tokenStage faults s input existing)
      (Changed s existing label config False ref)
      fun _ => Changed s existing label config (tokenStage faults s input existing).changes
        ref := by
  unfold Follows putPat tokenStage
  cases hinput : input.pat with
  | none =>
    have hnone : False ↔ ∃ pat, none = some pat ∧
        s.accounts.keychain (secretStoreKey (gitlabSecretRef existing.id)) ≠ some pat := by simp
    exact ⟨fun hfails => hfails.1 rfl, h.congr Iff.rfl Iff.rfl hnone Iff.rfl⟩
  | some pat =>
    dsimp only
    rw [persistGitlabPat, ends_write_iff, ne_eq, Option.map_eq_none_iff, ← hid]
    refine ⟨fun hfault => ⟨⟨Option.some_ne_none _, hfault⟩, h⟩, fun hfault => ⟨fun hfails => hfails.2 hfault, ?_⟩⟩
    refine h.putSecret ?_
    simp only [Option.some.injEq, exists_eq_left']

theorem follows_stampRef (hid : existing.id = input.id)
    (h : Changed s existing label config token False t) :
    Follows (stampRef faults input) t (refStage faults input existing)
      (Changed s existing label config token False)
      fun _ => Changed s existing label config token (refStage faults input existing).changes := by
  unfold Follows stampRef refStage
  cases hinput : input.pat with
  | none =>
    have hnone : False ↔ (none : Option Text) ≠ none ∧
        existing.secretRef ≠ some (gitlabSecretRef existing.id) := by simp
    exact ⟨fun hfails => hfails.1 rfl, h.congr Iff.rfl Iff.rfl Iff.rfl hnone⟩
  | some pat =>
    dsimp only
    rw [write, ends_write_iff, ne_eq, write_eq_none, ← hid]
    refine ⟨fun hfault => ⟨⟨Option.some_ne_none _, hfault⟩, h⟩, fun hfault => ⟨fun hfails => hfails.2 hfault, ?_⟩⟩
    refine h.updateSource (fun _ => rfl) fun row hrow => ⟨hrow.id, hrow.kind, hrow.label,
      hrow.config, ?_⟩
    simp only [ne_eq, reduceCtorEq, not_false_eq_true, true_and]
    exact not_congr eq_comm

/-! ### The identity, the scan and the last look -/

/-- The row is still there, and what is left says whether anything was changed. -/
structure Left (s : State) (id : Uuid) (changed : Prop) (t : State) : Prop where
  row : ∃ row, t.get id = some row
  unchanged : Unchanged s id t ↔ ¬changed

variable {id : Uuid} {changed : Prop} {u : State}

/-- Only the rows and the keychain count. -/
theorem Left.of_accounts (h : Left s id changed t) (hu : u.accounts = t.accounts) :
    Left s id changed u where
  row := by
    rw [State.get, hu]
    exact h.row
  unchanged := by
    rw [← h.unchanged]
    have hof : ∀ v v' : State, v.accounts = v'.accounts → Unchanged s id v → Unchanged s id v' := by
      intro v v' haccounts hv
      refine ⟨?_, ?_, fun ref href => ?_⟩
      · rw [← hv.row, State.get, State.get, haccounts]
      · rw [← hv.identities, State.identitiesOf, State.identitiesOf, haccounts]
      · rw [← hv.keychain ref href, haccounts]
    exact ⟨hof u t hu, hof t u hu.symm⟩

theorem Changed.left (h : Changed s existing label config token ref t)
    (hget : s.get existing.id = some existing) :
    Left s existing.id (label ∨ config ∨ token ∨ ref) t where
  row := h.row.imp fun _ hrow => hrow.1
  unchanged := by
    rw [h.unchanged_iff hget]
    tauto

theorem ensureIdentity_of_hasIdentity {identity : SourceIdentity} (h : HasIdentity t identity) :
    t.ensureIdentity identity = t := by
  have hany : t.accounts.ensureIdentity identity = t.accounts := by
    refine if_pos (List.any_eq_true.mpr ?_)
    obtain ⟨row, hrow, hsame⟩ := h
    exact ⟨row, hrow, decide_eq_true hsame⟩
  rw [State.ensureIdentity, hany]

theorem ensureIdentity_of_not_hasIdentity {identity : SourceIdentity}
    (h : ¬HasIdentity t identity) : (t.ensureIdentity identity).accounts =
      { t.accounts with identities := t.accounts.identities ++ [identity] } := by
  refine if_neg fun hany => h ?_
  obtain ⟨row, hrow, hsame⟩ := List.any_eq_true.mp hany
  exact ⟨row, hrow, of_decide_eq_true hsame⟩

/-- An identity of the source that is not there counts as a change. -/
theorem Changed.ensureIdentity (h : Changed s existing label config token ref t)
    (hget : s.get existing.id = some existing) {identity : SourceIdentity}
    (hsource : identity.sourceId = some existing.id) :
    Left s existing.id ((label ∨ config ∨ token ∨ ref) ∨ ¬HasIdentity s identity)
      (t.ensureIdentity identity) := by
  have hsame : HasIdentity t identity ↔ HasIdentity s identity := by
    unfold HasIdentity
    rw [h.identities]
  by_cases hhas : HasIdentity s identity
  · rw [ensureIdentity_of_hasIdentity (hsame.mpr hhas)]
    refine ⟨(h.left hget).row, ?_⟩
    rw [(h.left hget).unchanged]
    tauto
  · have hnew := ensureIdentity_of_not_hasIdentity (mt hsame.mp hhas)
    refine ⟨?_, iff_of_false (fun hun => ?_) fun hclean => hclean (Or.inr hhas)⟩
    · rw [State.get, hnew]
      exact (h.left hget).row
    · -- there is one more identity of the source
      have hlist := congrArg List.length hun.identities
      rw [State.identitiesOf, hnew, State.identitiesOf] at hlist
      simp only [h.identities, List.filter_append, List.length_append, List.filter_cons, hsource,
        decide_true, if_true, List.filter_nil, List.length_singleton] at hlist
      omega

/-- The identity of a source that has one is listed, and so it is there. -/
theorem hasIdentity_of_listed {identity : SourceIdentity}
    (h : identity ∈ s.accounts.listForSource id) : HasIdentity s identity := by
  rw [AtlassianIpc.Store.listForSource, List.mem_mergeSort] at h
  exact ⟨identity, (List.mem_filter.mp h).1, Or.inl rfl⟩

theorem follows_ensureGitlab (h : Changed s existing label config token ref t)
    (hget : s.get existing.id = some existing) {userId : ℤ} :
    Follows (ensureGitlabSelfIdentity faults fresh.identityId existing.id userId) t
      ⟨faults .bootstrapSelf ≠ none ∨ faults (.ensureIdentity 0) ≠ none,
        ¬HasIdentity s (selfIdentity s fresh existing userId)⟩
      (Changed s existing label config token ref) fun _ v =>
        Left s existing.id ((label ∨ config ∨ token ∨ ref) ∨
          ¬HasIdentity s (selfIdentity s fresh existing userId)) v ∧ v.repos = s.repos := by
  unfold Follows ensureGitlabSelfIdentity
  have hself : (.ok t.accounts.selfPerson : Except DayseamError Uuid) =
      .ok s.accounts.selfPerson := by rw [h.selfPerson]
  rw [ends_bind_iff, bootstrapSelf, ends_read_iff hself]
  refine ⟨fun hfault => ⟨Or.inl hfault, h⟩, fun hperson => ?_⟩
  rw [write, ends_write_iff, ne_eq, write_eq_none]
  refine ⟨fun hfault => ⟨Or.inr hfault, h⟩, fun hfault => ⟨?_, ?_, h.repos⟩⟩
  · rintro (hfails | hfails)
    · exact hfails hperson
    · exact hfails hfault
  · exact h.ensureIdentity hget rfl

theorem follows_ensureAtlassian (h : Changed s existing label config token ref t)
    (hget : s.get existing.id = some existing) :
    Follows (ensureAtlassianSelfIdentity faults existing.id) t
      ⟨faults .bootstrapSelf ≠ none ∨ faults .listIdentities ≠ none ∨
        (∃ row ∈ s.accounts.listForSource existing.id, row.kind = .atlassianAccountId) ∧
          faults (.ensureIdentity 0) ≠ none, False⟩
      (Changed s existing label config token ref) fun _ v =>
        Left s existing.id (label ∨ config ∨ token ∨ ref) v ∧ v.repos = s.repos := by
  unfold Follows ensureAtlassianSelfIdentity
  have hlist : t.accounts.listForSource existing.id = s.accounts.listForSource existing.id := by
    have hlisted : ∀ row, t.accounts.IsListed existing.id row ↔
        s.accounts.IsListed existing.id row := by
      intro row
      rw [AtlassianIpc.Store.IsListed, AtlassianIpc.Store.IsListed, h.selfPerson]
    simp only [AtlassianIpc.Store.listForSource, hlisted, h.identities]
  have hrows : (.ok (t.accounts.listForSource existing.id) : Except DayseamError _) =
      .ok (s.accounts.listForSource existing.id) := by rw [hlist]
  rw [ends_bind_iff, bootstrapSelf, @ends_read_iff faults t _ _ _ _ t.accounts.selfPerson _ _ rfl]
  refine ⟨fun hfault => ⟨Or.inl hfault, h⟩, fun hperson => ?_⟩
  rw [ends_bind_iff, ends_read_iff hrows]
  refine ⟨fun hfault => ⟨Or.inr (Or.inl hfault), h⟩, fun hlisted => ?_⟩
  cases hfind : (s.accounts.listForSource existing.id).find? (·.kind = .atlassianAccountId) with
  | none =>
    refine ⟨?_, h.left hget, h.repos⟩
    rintro (hfails | hfails | ⟨⟨row, hrow, hkind⟩, -⟩)
    · exact hfails hperson
    · exact hfails hlisted
    · exact absurd hkind (by simpa using List.find?_eq_none.mp hfind row hrow)
  | some identity =>
    have hmem := List.mem_of_find?_eq_some hfind
    have hkind : identity.kind = .atlassianAccountId := by
      simpa using List.find?_some hfind
    dsimp only
    rw [write, ends_write_iff, ne_eq, write_eq_none]
    refine ⟨fun hfault => ⟨Or.inr (Or.inr ⟨⟨identity, hmem, hkind⟩, hfault⟩), h⟩,
      fun hfault => ⟨?_, ?_⟩⟩
    · rintro (hfails | hfails | ⟨-, hfails⟩)
      · exact hfails hperson
      · exact hfails hlisted
      · exact hfails hfault
    · -- the identity is there, so nothing is written
      have hhas : HasIdentity t identity := by
        rw [← hlist] at hmem
        exact hasIdentity_of_listed hmem
      rw [ensureIdentity_of_hasIdentity hhas]
      exact ⟨h.left hget, h.repos⟩

theorem Left.congr {changed' : Prop} (h : Left s id changed t) (hiff : changed ↔ changed') :
    Left s id changed' t :=
  ⟨h.row, h.unchanged.trans (not_congr hiff)⟩

theorem follows_seedIdentity (hid : existing.id = input.id)
    (h : Changed s existing label config token ref t)
    (hget : s.get existing.id = some existing) :
    Follows (seedIdentity faults input fresh existing) t
      (identityStage faults s input fresh existing) (Changed s existing label config token ref)
      fun _ v => Left s existing.id ((label ∨ config ∨ token ∨ ref) ∨
        (identityStage faults s input fresh existing).changes) v ∧ v.repos = s.repos := by
  -- a stage that changes nothing
  have hnothing : ∀ {v : State}, ¬(identityStage faults s input fresh existing).changes →
      Left s existing.id (label ∨ config ∨ token ∨ ref) v ∧ v.repos = s.repos →
      Left s existing.id ((label ∨ config ∨ token ∨ ref) ∨
        (identityStage faults s input fresh existing).changes) v ∧ v.repos = s.repos :=
    fun hno hv => ⟨hv.1.congr (or_iff_left hno).symm, hv.2⟩
  have hstay : Left s existing.id (label ∨ config ∨ token ∨ ref) t ∧ t.repos = s.repos :=
    ⟨h.left hget, h.repos⟩
  unfold seedIdentity
  rw [← hid]
  cases hkind : existing.kind with
  | gitLab =>
    dsimp only
    split
    · next baseUrl userId username hconfig =>
      have huser : effectiveUser input existing = some userId := by
        rw [effectiveUser, hconfig]
      refine ((follows_ensureGitlab h hget).of_iff ?_).mono (fun _ hv => hv) fun _ v hv =>
        ⟨hv.1.congr (or_congr_right ?_), hv.2⟩
      · simp only [identityStage, hkind, huser, ne_eq, reduceCtorEq, not_false_eq_true, true_and]
      · simp only [identityStage, hkind, huser, Option.some.injEq, exists_eq_left', true_and]
    · next hconfig =>
      -- a GitLab source has a GitLab configuration, unless the patch has another
      have huser : effectiveUser input existing = none := by
        unfold effectiveUser
        split
        · exact absurd ‹_› (hconfig _ _ _)
        · rfl
      refine Attempt.follows_pure ?_ (hnothing ?_ hstay)
      · simp only [identityStage, hkind, huser, ne_eq, not_true_eq_false, false_and,
          not_false_eq_true]
      · simp only [identityStage, huser, reduceCtorEq, false_and, exists_false, and_false,
          not_false_eq_true]
  | jira | confluence =>
    have hno : ¬(identityStage faults s input fresh existing).changes := by
      simp only [identityStage, hkind, reduceCtorEq, false_and, not_false_eq_true]
    refine ((follows_ensureAtlassian h hget).of_iff ?_).mono (fun _ hv => hv) fun _ v hv =>
      hnothing hno hv
    simp only [identityStage, hkind]
  | localGit | gitHub | outlook =>
    have hno : ¬(identityStage faults s input fresh existing).changes := by
      simp only [identityStage, hkind, reduceCtorEq, false_and, not_false_eq_true]
    refine Attempt.follows_pure ?_ (hnothing hno hstay)
    simp only [identityStage, hkind, not_false_eq_true]

/-- Rows of a scan that stopped at the cap are written until one faults. -/
theorem ends_upsertEach (rows : List LocalRepo) (i : ℕ) (t : State) :
    Ends (upsertEach faults id i rows) t
      (fun _ v => (¬∃ j < rows.length, faults (.upsertRepo (i + j)) ≠ none) ∧
        v.accounts = t.accounts)
      fun v => (∃ j < rows.length, faults (.upsertRepo (i + j)) ≠ none) ∧
        v.accounts = t.accounts := by
  induction rows generalizing i t with
  | nil => exact ⟨by simp, rfl⟩
  | cons row rows ih =>
    rw [upsertEach, ends_bind_iff, write, ends_write_iff, ne_eq, write_eq_none]
    refine ⟨fun hfault => ⟨⟨0, Nat.succ_pos _, hfault⟩, rfl⟩, fun hfault => ?_⟩
    refine (ih (i + 1) _).mono (fun _ v hv => ⟨?_, hv.2⟩) fun v hv => ⟨?_, hv.2⟩
    · rintro ⟨j, hj, hfails⟩
      cases j with
      | zero => exact hfails hfault
      | succ j =>
        refine hv.1 ⟨j, Nat.lt_of_succ_lt_succ hj, ?_⟩
        rwa [Nat.add_right_comm, Nat.add_assoc]
    · obtain ⟨j, hj, hfails⟩ := hv.1
      refine ⟨j + 1, Nat.succ_lt_succ hj, ?_⟩
      rwa [← Nat.add_assoc, Nat.add_right_comm]

theorem ends_reconcile (rows : List LocalRepo) :
    Ends (write faults .reconcile "local_repos.reconcile".toList fun s =>
        { s with repos := LocalRepoRepo.reconcileForSource s.repos id rows }) t
      (fun _ v => ¬faults .reconcile ≠ none ∧ v.accounts = t.accounts)
      fun v => faults .reconcile ≠ none ∧ v.accounts = t.accounts := by
  rw [write, ends_write_iff, ne_eq, write_eq_none]
  exact ⟨fun hfault => ⟨hfault, rfl⟩, fun hfault => ⟨not_not.mpr hfault, rfl⟩⟩

/-- A scan fails where a call of it to the database does, and is on the repositories only. -/
theorem ends_scan {scanRoots : List PathBuf} (hroots : scanRoots ≠ []) {outcome : DiscoveryOutcome}
    {now : ℤ} : Ends (upsertDiscoveredRepos faults id scanRoots (.ok outcome) now) t
      (fun _ v => ¬ScanFaults faults t.repos id (Store.keep outcome.repos now) outcome.truncated ∧
        v.accounts = t.accounts)
      fun v => ScanFaults faults t.repos id (Store.keep outcome.repos now) outcome.truncated ∧
        v.accounts = t.accounts := by
  unfold upsertDiscoveredRepos ScanFaults
  rw [if_neg hroots]
  dsimp only
  split_ifs with htruncated hempty
  · simpa using ends_upsertEach (Store.keep outcome.repos now) 0 t
  · rw [ends_bind_iff,
      @ends_read_iff faults t _ _ _ _ (LocalRepoRepo.listForSource t.repos id) _ _ rfl]
    refine ⟨fun hfault => ⟨Or.inl hfault, rfl⟩, fun hlist => ?_⟩
    split_ifs with hprior
    · exact ⟨by simp [hlist, hprior], rfl⟩
    · have hprior := not_not.mp hprior
      refine (ends_reconcile _).mono (fun _ v hv => ⟨?_, hv.2⟩) fun v hv =>
        ⟨Or.inr ⟨hprior, hv.1⟩, hv.2⟩
      rintro (hfails | ⟨-, hfails⟩)
      · exact hfails hlist
      · exact hv.1 hfails
  · exact ends_reconcile _

theorem follows_rescan (hid : existing.id = input.id) (hrepos : t.repos = s.repos)
    (h : Left s existing.id changed t) :
    Follows (rescan faults input fresh) t (scanStage faults s input fresh existing)
      (Left s existing.id changed) fun _ => Left s existing.id changed := by
  unfold rescan
  rw [← hid]
  split
  · next scanRoots hconfig =>
    by_cases hroots : scanRoots = []
    · unfold upsertDiscoveredRepos
      rw [if_pos hroots]
      refine Attempt.follows_pure ?_ h
      rintro ⟨roots, _, hsome, hne, -⟩
      rw [hconfig] at hsome
      cases hsome
      exact hne hroots
    cases hfound : fresh.found with
    | error e =>
      unfold upsertDiscoveredRepos
      rw [if_neg hroots]
      refine Attempt.follows_pure ?_ h
      rintro ⟨_, _, -, -, hok, -⟩
      rw [hfound] at hok
      cases hok
    | ok outcome =>
      have hstage : (scanStage faults s input fresh existing).fails ↔ ScanFaults faults s.repos
          existing.id (Store.keep outcome.repos fresh.now) outcome.truncated := by
        simp [scanStage, hconfig, hfound, hroots]
      refine (ends_scan hroots).mono (fun _ v hv => ?_) fun v hv => ?_ <;> rw [hrepos] at hv
      · exact ⟨mt hstage.mp hv.1, h.of_accounts hv.2⟩
      · exact ⟨hstage.mpr hv.1, h.of_accounts hv.2⟩
  · next hconfig =>
    refine Attempt.follows_pure ?_ h
    rintro ⟨roots, _, hsome, -⟩
    exact hconfig roots hsome

theorem follows_reread {code what : Text} (h : Left s id changed t) :
    Follows (reread faults code what id) t (rereadStage faults) (Left s id changed)
      fun _ _ => True := by
  obtain ⟨row, hrow⟩ := h.row
  unfold Follows rereadStage reread
  rw [@ends_read_iff faults t _ _ _ _ row _ _ (by rw [hrow])]
  exact ⟨fun hfault => ⟨hfault, h⟩, fun hfault => ⟨fun hfails => hfails hfault, trivial⟩⟩

/-! ### Updates that fail -/

theorem fails_readExisting_iff {f : Source → Command Source} {P : State → Prop} (hs : P s) :
    Fails (readExisting faults id >>= f) s P ↔
      ∀ existing, faults .getExisting = none → s.get id = some existing →
        Fails (f existing) s P := by
  rw [fails_bind_iff, readExisting, read, ends_check_iff]
  cases hfault : faults .getExisting with
  | some e => simp [hs]
  | none => cases hget : s.get id <;> simp [hs]

/-- **When a failed update leaves no trace**: the first stage that fails, if any, comes
before every stage that writes something new. -/
theorem update_unchanged_iff (crates : Crates) (faults : Faults) (s : State)
    (input : UpdateInput) (fresh : UpdateFresh) :
    (∀ e, (sourcesUpdate crates faults input fresh s).2 = .error e →
      Unchanged s input.id (sourcesUpdate crates faults input fresh s).1) ↔
      ∀ existing, faults .getExisting = none → s.get input.id = some existing →
        FailsClean False (stages crates faults s input fresh existing) := by
  rw [← Attempt.fails_iff, sourcesUpdate, fails_readExisting_iff ⟨rfl, rfl, fun _ _ => rfl⟩]
  refine forall₃_congr fun existing _ hget => ?_
  have hid : existing.id = input.id := get_id hget
  rw [← hid] at hget ⊢
  unfold stages
  -- one stage after the other, with what is new in the row and the keychain so far
  refine Attempt.fails_stage_iff (follows_patchLabel hid (Changed.refl hget))
    (fun t ht => (ht.unchanged_iff hget).trans (by tauto)) fun _ t ht => ?_
  refine Attempt.fails_stage_iff (follows_patchConfig hid ht)
    (fun t ht => (ht.unchanged_iff hget).trans (by tauto)) fun _ t ht => ?_
  refine Attempt.fails_stage_iff (follows_validatePatArg ht)
    (fun t ht => (ht.unchanged_iff hget).trans (by tauto)) fun _ t ht => ?_
  rw [patchSecret_eq, Attempt.bind_assoc]
  refine Attempt.fails_stage_iff (follows_putPat hid ht)
    (fun t ht => (ht.unchanged_iff hget).trans ?_) fun _ t ht => ?_
  · simp only [patStage]
    tauto
  refine Attempt.fails_stage_iff (follows_stampRef hid ht)
    (fun t ht => (ht.unchanged_iff hget).trans ?_) fun _ t ht => ?_
  · simp only [patStage]
    tauto
  refine Attempt.fails_stage_iff (follows_seedIdentity hid ht hget)
    (fun t ht => (ht.unchanged_iff hget).trans ?_) fun _ t ht => ?_
  · simp only [patStage]
    tauto
  refine Attempt.fails_stage_iff (follows_rescan hid ht.2 ht.1)
    (fun t ht => ht.unchanged.trans ?_) fun _ t ht => ?_
  · simp only [patStage]
    tauto
  refine Attempt.fails_last_iff (follows_reread ht) fun t ht => ht.unchanged.trans ?_
  simp only [patStage, scanStage]
  tauto

/-! ### A new name with a URL that is refused -/

def workGitlab : Source where
  id := 7
  kind := .gitLab
  label := "Work".toList
  config := .gitLab "https://gitlab.example.com/".toList 42 "ada".toList
  secretRef := some (gitlabSecretRef 7)
  kind_config := rfl

def withWork : State := { signedIn with accounts := signedIn.accounts.insertSource workGitlab }

/-- The new URL has no scheme. -/
def renameAndMove : UpdateInput where
  id := 7
  label := some "Day job".toList
  config := some (.gitLab "gitlab.example.org".toList 42 "ada".toList)
  pat := none

/-- The URL is refused, and the new name stays. -/
theorem renamed_by_refused_update : ¬∀ e,
    (sourcesUpdate plainCrates (fun _ => none) renameAndMove ⟨8, .ok ⟨[], false⟩, 0⟩
      withWork).2 = .error e →
    Unchanged withWork renameAndMove.id (sourcesUpdate plainCrates (fun _ => none) renameAndMove
      ⟨8, .ok ⟨[], false⟩, 0⟩ withWork).1 := by
  intro h
  obtain ⟨hrow, -, -⟩ := h _ rfl
  have hlabel := congrArg (Option.map Source.label) hrow
  revert hlabel
  decide

end SourceIpc
end Dayseam
