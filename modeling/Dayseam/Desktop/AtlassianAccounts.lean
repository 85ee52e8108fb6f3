import Dayseam.Desktop.AtlassianCommands
import Mathlib

/-!
# The accounts of Atlassian sources

The token in the slot of a source belongs to an Atlassian account, and an identity records
which one.  Adding takes the account as its caller gives it, and a new token is checked
against the identities of one source, while the slot may be that of several.

## Main definitions

* `AtlassianIpc.Bound` — every token belongs to the account recorded for its sources.
* `AtlassianIpc.KeepsAccounts` — a call that writes the account of its token.

## Main results

* `AtlassianIpc.bound_of_keepsAccounts` — **tokens stay bound** in runs of such calls.
* `AtlassianIpc.sibling_rebound` — a token for a source without an identity.
-/

namespace Dayseam
namespace AtlassianIpc

open Atlassian (Product)

/-! ### Recorded accounts -/

/-- A source of Jira or Confluence. -/
def IsAtlassian (source : Source) : Prop := source.kind = .jira ∨ source.kind = .confluence

instance (source : Source) : Decidable (IsAtlassian source) :=
  inferInstanceAs (Decidable (_ ∨ _))

/-- The source holds a reference to the slot. -/
def Holds (source : Source) (ref : SecretRef) : Prop :=
  source.secretRef.map secretStoreKey = some (secretStoreKey ref)

instance (source : Source) (ref : SecretRef) : Decidable (Holds source ref) :=
  inferInstanceAs (Decidable (_ = _))

/-- An identity of the source, or of no source, names the account. -/
def Recorded (s : Store) (id : Uuid) (account : Text) : Prop :=
  ∃ row ∈ s.identities, s.IsListed id row ∧ row.kind = .atlassianAccountId ∧
    row.externalActorId = account

/-- An identity of no source names the account. -/
def Agnostic (s : Store) (account : Text) : Prop :=
  ∃ row ∈ s.identities, row.personId = s.selfPerson ∧ row.sourceId = none ∧
    row.kind = .atlassianAccountId ∧ row.externalActorId = account

/-- **Every token belongs to the account** that is recorded for the sources of its slot. -/
def Bound (accountOf : Text → Option Text) (s : Store) : Prop :=
  ∀ source ∈ s.sources, IsAtlassian source → ∀ ref, source.secretRef = some ref →
    ∀ token, s.keychain (secretStoreKey ref) = some token →
      ∀ account, Recorded s source.id account → accountOf token = some account

/-- **A call that writes the account of its token.**  Where a call adds sources, the token in
their slot belongs to the account it was given; where it writes a new token, that belongs to
every account recorded for a source of the slot. -/
def KeepsAccounts (crates : Crates) {accountOf : Text → Option Text} (s : Session) :
    Call accountOf → Prop
  | .add input fresh faults => ∀ url slot,
      s.store.admitAdd crates faults fresh input = .ok (url, slot) → ∀ account,
        (account = input.accountId ∧ validateAccountId crates account = .ok ()) ∨
          Agnostic s.store account → accountOf slot.token = some account
  | .reconnect input faults => ∀ ref new,
      s.store.admitReconnect crates faults input = .ok (ref, new) →
        ∀ source ∈ s.store.sources, IsAtlassian source → Holds source ref →
          ∀ account, Recorded s.store source.id account → account = new

variable {crates : Crates} {accountOf : Text → Option Text} {s : Store} {id : Uuid}
  {account token : Text} {ref : SecretRef} {fresh : Fresh} {slot : Slot}

/-! ### Writes -/

theorem recorded_of_agnostic (h : Agnostic s account) : Recorded s id account := by
  obtain ⟨row, hrow, hself, hnone, hkind, hname⟩ := h
  exact ⟨row, hrow, ⟨hself, Or.inr hnone⟩, hkind, hname⟩

/-- Nothing but agnostic identities is listed for a new id. -/
theorem agnostic_of_recorded (hnew : ∀ row ∈ s.identities, row.sourceId ≠ some id)
    (h : Recorded s id account) : Agnostic s account := by
  obtain ⟨row, hrow, ⟨hself, hsource⟩, hkind, hname⟩ := h
  exact ⟨row, hrow, hself, hsource.resolve_left (hnew row hrow), hkind, hname⟩

theorem recorded_deleteSource {old : Uuid} (h : Recorded (s.deleteSource old) id account) :
    Recorded s id account := by
  obtain ⟨row, hrow, hlisted, hrest⟩ := h
  exact ⟨row, (List.mem_filter.mp hrow).1, hlisted, hrest⟩

theorem bound_deleteSource {old : Uuid} (h : Bound accountOf s) :
    Bound accountOf (s.deleteSource old) :=
  fun source hsource hkind ref href token htoken account hrecorded =>
    h source (List.mem_filter.mp hsource).1 hkind ref href token htoken account
      (recorded_deleteSource hrecorded)

theorem bound_deleteSecret (h : Bound accountOf s) : Bound accountOf (s.deleteSecret ref) := by
  intro source hsource hkind ref' href token htoken account hrecorded
  refine h source hsource hkind ref' href token ?_ account hrecorded
  by_cases hkey : secretStoreKey ref' = secretStoreKey ref
  · rw [Store.keychain_deleteSecret_of_eq hkey] at htoken
    cases htoken
  · rwa [Store.keychain_deleteSecret_of_ne hkey] at htoken

/-- **A new token** keeps the tokens bound where it belongs to the accounts of its slot. -/
theorem bound_putSecret (h : Bound accountOf s)
    (haccounts : ∀ source ∈ s.sources, IsAtlassian source → Holds source ref →
      ∀ account, Recorded s source.id account → accountOf token = some account) :
    Bound accountOf (s.putSecret ref token) := by
  intro source hsource hkind ref' href token' htoken account hrecorded
  by_cases hkey : secretStoreKey ref' = secretStoreKey ref
  · rw [Store.keychain_putSecret_of_eq hkey] at htoken
    cases htoken
    exact haccounts source hsource hkind (by rw [Holds, href, Option.map_some, hkey]) account
      hrecorded
  · rw [Store.keychain_putSecret_of_ne hkey] at htoken
    exact h source hsource hkind ref' href token' htoken account hrecorded

theorem recorded_ensureIdentity {identity : SourceIdentity}
    (h : Recorded (s.ensureIdentity identity) id account) :
    Recorded s id account ∨ s.IsListed id identity ∧ identity.externalActorId = account := by
  unfold Store.ensureIdentity at h
  split_ifs at h
  · exact Or.inl h
  obtain ⟨row, hrow, hlisted, hkind, hname⟩ := h
  rcases List.mem_append.mp hrow with hrow | hrow
  · exact Or.inl ⟨row, hrow, hlisted, hkind, hname⟩
  · rw [List.mem_singleton.mp hrow] at hlisted hname
    exact Or.inr ⟨hlisted, hname⟩

theorem keychain_ensureIdentity (identity : SourceIdentity) :
    (s.ensureIdentity identity).keychain = s.keychain := by
  unfold Store.ensureIdentity
  split_ifs <;> rfl

theorem sources_ensureIdentity (identity : SourceIdentity) :
    (s.ensureIdentity identity).sources = s.sources := by
  unfold Store.ensureIdentity
  split_ifs <;> rfl

/-! ### Adding -/

/-- What holds while the rows of a call are inserted and deleted. -/
structure Adding (accountOf : Text → Option Text) (fresh : Fresh) (slot : Slot) (s : Store) :
    Prop where
  bound : Bound accountOf s
  token : s.keychain (secretStoreKey slot.ref) = some slot.token
  accounts : ∀ p account, Recorded s (fresh.sourceId p) account →
    accountOf slot.token = some account
  refs : ∀ p, ∀ source ∈ s.sources, source.id = fresh.sourceId p →
    source.secretRef = some slot.ref

namespace Adding

theorem deleteSource (h : Adding accountOf fresh slot s) (id : Uuid) :
    Adding accountOf fresh slot (s.deleteSource id) where
  bound := bound_deleteSource h.bound
  token := h.token
  accounts := fun p account hrecorded => h.accounts p account (recorded_deleteSource hrecorded)
  refs := fun p source hsource => h.refs p source (List.mem_filter.mp hsource).1

theorem insertSource (h : Adding accountOf fresh slot s) {source : Source} {p : Product}
    (hid : source.id = fresh.sourceId p) (href : source.secretRef = some slot.ref) :
    Adding accountOf fresh slot (s.insertSource source) where
  bound := by
    intro other hother hkind ref hothers token htoken account hrecorded
    rcases List.mem_append.mp hother with hother | hother
    · exact h.bound other hother hkind ref hothers token htoken account hrecorded
    · rw [List.mem_singleton.mp hother] at hothers hrecorded
      cases hothers.symm.trans href
      cases htoken.symm.trans h.token
      rw [hid] at hrecorded
      exact h.accounts p account hrecorded
  token := h.token
  accounts := h.accounts
  refs := by
    intro q other hother hids
    rcases List.mem_append.mp hother with hother | hother
    · exact h.refs q other hother hids
    · rw [List.mem_singleton.mp hother, href]

/-- The identity that is seeded names the account of the token. -/
theorem ensureIdentity (h : Adding accountOf fresh slot s) {identity : SourceIdentity}
    {p : Product} (hsource : identity.sourceId = some (fresh.sourceId p))
    (haccount : accountOf slot.token = some identity.externalActorId) :
    Adding accountOf fresh slot (s.ensureIdentity identity) where
  bound := by
    intro source hmem hkind ref href token htoken account hrecorded
    rw [sources_ensureIdentity] at hmem
    rw [keychain_ensureIdentity] at htoken
    rcases recorded_ensureIdentity hrecorded with hrecorded | ⟨⟨-, hlisted⟩, rfl⟩
    · exact h.bound source hmem hkind ref href token htoken account hrecorded
    · rw [hsource] at hlisted
      have hid : source.id = fresh.sourceId p := (Option.some.inj (hlisted.resolve_right nofun)).symm
      cases href.symm.trans (h.refs p source hmem hid)
      cases htoken.symm.trans h.token
      exact haccount
  token := by rw [keychain_ensureIdentity, h.token]
  accounts := by
    intro q account hrecorded
    rcases recorded_ensureIdentity hrecorded with hrecorded | ⟨-, rfl⟩
    · exact h.accounts q account hrecorded
    · exact haccount
  refs := by
    intro q source hmem
    rw [sources_ensureIdentity] at hmem
    exact h.refs q source hmem

variable {faults : Faults} {url : Url} {input : AddInput}

theorem insertProduct (h : Adding accountOf fresh slot s)
    (haccount : validateAccountId crates input.accountId = .ok () →
      accountOf slot.token = some input.accountId) (inserted : List Product) (p : Product) :
    Adding accountOf fresh slot
      (s.insertProduct crates faults url slot fresh input inserted p).1 := by
  unfold Store.insertProduct Store.seedAtlassianIdentity
  cases faults (.insert p) with
  | some e => exact h
  | none =>
    have hrow : Adding accountOf fresh slot (s.insertSource (newSource url slot fresh input p)) :=
      h.insertSource rfl rfl
    dsimp only
    cases hvalid : validateAccountId crates input.accountId with
    | error e => exact hrow
    | ok _ =>
      cases faults (.ensure p) with
      | some e => exact hrow
      | none => exact hrow.ensureIdentity rfl (haccount hvalid)

theorem insertProducts (haccount : validateAccountId crates input.accountId = .ok () →
      accountOf slot.token = some input.accountId) (products inserted : List Product)
    (h : Adding accountOf fresh slot s) : Adding accountOf fresh slot
      (Store.insertProducts crates faults url slot fresh input s inserted products).1 := by
  induction products generalizing s inserted with
  | nil => exact h
  | cons p products ih =>
    have hstep : Adding accountOf fresh slot
        (s.insertProduct crates faults url slot fresh input inserted p).1 :=
      h.insertProduct haccount inserted p
    unfold Store.insertProducts
    split
    · next heq =>
      rw [heq] at hstep
      exact hstep
    · next heq =>
      rw [heq] at hstep
      exact ih _ hstep

theorem rollback (h : Adding accountOf fresh slot s) (inserted : List Product) :
    Bound accountOf (s.rollbackSourcesAdd faults fresh inserted slot) := by
  have hrows : Adding accountOf fresh slot
      (inserted.foldl (Store.rollbackRow faults fresh) s) := by
    induction inserted generalizing s with
    | nil => exact h
    | cons p inserted ih =>
      refine ih ?_
      unfold Store.rollbackRow
      split_ifs
      · exact h
      · exact h.deleteSource _
  unfold Store.rollbackSourcesAdd
  dsimp only
  split_ifs
  · exact bound_deleteSecret hrows.bound
  · exact hrows.bound

end Adding

variable {faults : Faults} {input : AddInput} {url : Url}

/-- The slot of the call is where it says, and the token in it. -/
theorem resolveSlot_eq_ok (h : s.resolveSlot faults fresh.slot input = .ok slot) :
    slot.isNew = true ∧ slot.ref = newAtlassianSecretRef fresh.slot ∨
      slot.isNew = false ∧ s.keychain (secretStoreKey slot.ref) = some slot.token := by
  unfold Store.resolveSlot at h
  split at h
  · split at h
    · cases h
    split at h
    · cases h
    · next hpresent =>
      cases h
      exact Or.inr ⟨rfl, hpresent⟩
  · split at h
    · cases h
    split at h
    · cases h
    split at h
    · cases h
    · cases h
      exact Or.inl ⟨rfl, rfl⟩

theorem admitAdd_eq_ok (h : s.admitAdd crates faults fresh input = .ok (url, slot)) :
    s.resolveSlot faults fresh.slot input = .ok slot := by
  unfold Store.admitAdd at h
  split at h
  · cases h
  split at h
  · cases h
  · next hslot =>
    cases h
    exact hslot

/-- The rows can be inserted once the token is in its slot. -/
theorem adding_of_admitAdd (h : Bound accountOf s) (hnew : s.IsNew fresh)
    (hpassed : s.admitAdd crates faults fresh input = .ok (url, slot))
    (hagnostic : ∀ account, Agnostic s account → accountOf slot.token = some account) :
    Adding accountOf fresh slot (if slot.isNew then s.putSecret slot.ref slot.token else s) := by
  obtain ⟨-, hslotNew, hidsNew⟩ := hnew
  have hids : ∀ p, (∀ source ∈ s.sources, source.id ≠ fresh.sourceId p) ∧
      ∀ row ∈ s.identities, row.sourceId ≠ some (fresh.sourceId p) :=
    fun p => hidsNew p (by cases p <;> simp)
  have haccounts : ∀ p account, Recorded s (fresh.sourceId p) account →
      accountOf slot.token = some account :=
    fun p account hrecorded => hagnostic account (agnostic_of_recorded (hids p).2 hrecorded)
  rcases resolveSlot_eq_ok (admitAdd_eq_ok hpassed) with ⟨hwrite, href⟩ | ⟨hwrite, htoken⟩
  · rw [if_pos hwrite]
    refine ⟨bound_putSecret h ?_, Store.keychain_putSecret_of_eq rfl, haccounts, ?_⟩
    · intro source hsource _ hholds
      rw [Holds, href] at hholds
      exact absurd hholds (hslotNew source hsource)
    · intro p source hsource hid
      exact absurd hid ((hids p).1 source hsource)
  · rw [if_neg (by simp [hwrite])]
    exact ⟨h, htoken, haccounts, fun p source hsource hid => absurd hid ((hids p).1 source hsource)⟩

theorem bound_sourcesAdd (h : Bound accountOf s) (hnew : s.IsNew fresh)
    (hkeeps : ∀ url slot, s.admitAdd crates faults fresh input = .ok (url, slot) → ∀ account,
      (account = input.accountId ∧ validateAccountId crates account = .ok ()) ∨
        Agnostic s account → accountOf slot.token = some account) :
    Bound accountOf (s.sourcesAdd crates faults fresh input).1 := by
  unfold Store.sourcesAdd
  cases hpassed : s.admitAdd crates faults fresh input with
  | error e => exact h
  | ok admitted =>
    obtain ⟨url, slot⟩ := admitted
    have hadding := adding_of_admitAdd h hnew hpassed fun account hagnostic =>
      hkeeps url slot hpassed account (Or.inr hagnostic)
    dsimp only
    cases faults .bootstrapSelf with
    | some e => exact hadding.rollback []
    | none =>
      have hrows : Adding accountOf fresh slot (Store.insertProducts crates faults url slot fresh
          input (if slot.isNew then s.putSecret slot.ref slot.token else s) [] input.products).1 :=
        Adding.insertProducts
          (fun hvalid => hkeeps url slot hpassed input.accountId (Or.inl ⟨rfl, hvalid⟩)) _ _ hadding
      dsimp only
      split
      · next heq =>
        rw [heq] at hrows
        exact hrows.rollback _
      · next heq =>
        rw [heq] at hrows
        exact hrows.bound

/-! ### A new token -/

variable {reconnect : ReconnectInput accountOf} {new : Text}

theorem discoverCloud_eq_ok {probe : Probe accountOf token} {workspaceUrl email : Text}
    (h : discoverCloud crates probe workspaceUrl email = .ok account) :
    accountOf token = some account := by
  unfold discoverCloud at h
  split at h
  · cases h
  · next answered hanswer =>
    split at h
    · cases h
    · cases h
      exact probe.sound workspaceUrl email account hanswer

/-- **A token is written** only where it belongs to the account that Atlassian names. -/
theorem admitReconnect_eq_ok (h : s.admitReconnect crates faults reconnect = .ok (ref, new)) :
    accountOf reconnect.apiToken = some new := by
  unfold Store.admitReconnect at h
  split at h
  · cases h
  split at h
  · cases h
  split at h
  · cases h
  split at h
  · cases h
  · next hcloud =>
    split at h
    · cases h
    · cases h
      exact discoverCloud_eq_ok hcloud

theorem bound_sourcesReconnect (h : Bound accountOf s)
    (hkeeps : ∀ ref new, s.admitReconnect crates faults reconnect = .ok (ref, new) →
      ∀ source ∈ s.sources, IsAtlassian source → Holds source ref →
        ∀ account, Recorded s source.id account → account = new) :
    Bound accountOf (s.sourcesReconnect crates faults reconnect).1 := by
  unfold Store.sourcesReconnect
  cases hpassed : s.admitReconnect crates faults reconnect with
  | error e => exact h
  | ok admitted =>
    obtain ⟨ref, new⟩ := admitted
    have hput : Bound accountOf (s.putSecret ref reconnect.apiToken) := by
      refine bound_putSecret h fun source hsource hkind hholds account hrecorded => ?_
      rw [hkeeps ref new hpassed source hsource hkind hholds account hrecorded]
      exact admitReconnect_eq_ok hpassed
    dsimp only
    cases faults .put with
    | some e => exact h
    | none => cases faults .listSources <;> exact hput

/-! ### Runs -/

/-- **One call** that writes the account of its token keeps the tokens bound. -/
theorem bound_call {session session' : Session} {c : Call accountOf}
    (h : Bound accountOf session.store) (hkeeps : KeepsAccounts crates session c)
    (hcall : call crates session c = some session') : Bound accountOf session'.store := by
  cases c with
  | add input fresh faults =>
    unfold call at hcall
    dsimp only at hcall
    split_ifs at hcall with hnew
    cases hcall
    exact bound_sourcesAdd h hnew hkeeps
  | reconnect input faults =>
    cases hcall
    exact bound_sourcesReconnect h hkeeps

/-- **Tokens stay bound**: in a run of calls that write the accounts of their tokens, the
token in every slot belongs to the account recorded for every source of the slot. -/
theorem bound_of_keepsAccounts {start : Store} (hstart : Bound accountOf start)
    {session : Session}
    (h : (machine crates accountOf start).Reach (KeepsAccounts crates) session) :
    Bound accountOf session.store :=
  h.invariant (I := fun session => Bound accountOf session.store) hstart
    fun _ _ _ _ hbound hkeeps hcall => bound_call hbound hkeeps hcall

/-! ### A source without an identity -/

/-- One workspace, however it is written. -/
def oneWorkspace : Crates where
  parseUrl _ := .ok ⟨"https".toList, some "a.atlassian.net".toList, "/".toList, none, none,
    "https://a.atlassian.net".toList⟩
  debug text := '"' :: text ++ ['"']

/-- The account of a token is the token. -/
def sameName : Text → Option Text := some

/-- A token of the account. -/
def probeOf (account : Text) : Probe sameName account := ⟨fun _ _ => .ok account, by
  intro _ _ answered h
  cases h
  rfl⟩

def sharedRef : SecretRef := newAtlassianSecretRef 7

def jiraSource : Source :=
  ⟨1, .jira, "Jira".toList, .jira "https://a.atlassian.net".toList "me".toList, some sharedRef, rfl⟩

def confluenceSource : Source :=
  ⟨2, .confluence, "Confluence".toList, .confluence "https://a.atlassian.net".toList "me".toList,
    some sharedRef, rfl⟩

/-- Two sources of one slot; the identity of one of them was never seeded. -/
def siblings : Store where
  sources := [jiraSource, confluenceSource]
  identities := [⟨3, 9, some 2, .atlassianAccountId, "work".toList⟩]
  keychain key := if key = secretStoreKey sharedRef then some "work".toList else none
  selfPerson := 9

def noFaults : Faults := fun _ => none

/-- A token of the account, for the source without an identity. -/
def tokenOf (account : Text) : ReconnectInput sameName := ⟨1, account, probeOf account⟩

theorem bound_siblings : Bound sameName siblings := by
  intro source hsource _ ref href token htoken account ⟨row, hrow, _, _, hname⟩
  have hshared : source.secretRef = some sharedRef := by
    rcases List.mem_cons.mp hsource with rfl | hsource
    · rfl
    · rw [List.mem_singleton.mp hsource]
      rfl
  cases hshared.symm.trans href
  rw [List.mem_singleton.mp hrow] at hname
  have hwork : siblings.keychain (secretStoreKey sharedRef) = some "work".toList := by
    simp [siblings]
  rw [← Option.some.inj (hwork.symm.trans htoken), ← hname]
  rfl

/-- No account is checked for the source without an identity. -/
theorem boundAccountId_jiraSource : siblings.boundAccountId 1 = none := by
  have hnone : siblings.identities.filter (fun row => decide (siblings.IsListed 1 row)) = [] := by
    decide
  rw [Store.boundAccountId, Store.listForSource, hnone, List.mergeSort_nil]
  rfl

theorem admitReconnect_tokenOf (htoken : requireNonemptyToken account = .ok ())
    (hvalid : validateAccountId oneWorkspace account = .ok ()) :
    siblings.admitReconnect oneWorkspace noFaults (tokenOf account) = .ok (sharedRef, account) := by
  have hslot : siblings.reconnectSlot noFaults 1 =
      .ok (sharedRef, "https://a.atlassian.net".toList, "me".toList) := rfl
  have hcloud : discoverCloud oneWorkspace (probeOf account) "https://a.atlassian.net".toList
      "me".toList = .ok account := by
    unfold discoverCloud probeOf
    dsimp only
    rw [hvalid]
  have hcheck : siblings.checkAccount noFaults 1 account = .ok () := by
    unfold Store.checkAccount
    rw [boundAccountId_jiraSource]
    rfl
  have hurl : ∃ url, parseWorkspaceUrl oneWorkspace "https://a.atlassian.net".toList = .ok url :=
    ⟨_, rfl⟩
  obtain ⟨url, hurl⟩ := hurl
  unfold Store.admitReconnect tokenOf
  dsimp only
  rw [htoken, hslot]
  dsimp only
  rw [hurl]
  dsimp only
  rw [hcloud]
  dsimp only
  rw [hcheck]

theorem call_tokenOf (htoken : requireNonemptyToken account = .ok ())
    (hvalid : validateAccountId oneWorkspace account = .ok ()) :
    call oneWorkspace ⟨siblings, none⟩ (.reconnect (tokenOf account) noFaults) =
      some ⟨siblings.putSecret sharedRef account, some (.ok (.rotated [1, 2]))⟩ := by
  have hreconnect : siblings.sourcesReconnect oneWorkspace noFaults (tokenOf account) =
      (siblings.putSecret sharedRef account, .ok [1, 2]) := by
    unfold Store.sourcesReconnect
    rw [admitReconnect_tokenOf htoken hvalid]
    rfl
  show some (Session.mk (siblings.sourcesReconnect oneWorkspace noFaults (tokenOf account)).1
    (some ((siblings.sourcesReconnect oneWorkspace noFaults (tokenOf account)).2.map .rotated))) = _
  rw [hreconnect]
  rfl

/-- A new token of the account that both sources are bound to. -/
theorem rotated_bound : ∃ session, session.last = some (.ok (.rotated [1, 2])) ∧
    (machine oneWorkspace sameName siblings).Reach (KeepsAccounts oneWorkspace) session ∧
      Bound sameName session.store := by
  have hkeeps : KeepsAccounts oneWorkspace ⟨siblings, none⟩
      (.reconnect (tokenOf "work".toList) noFaults) := by
    intro ref new hpassed source _ _ _ account ⟨row, hrow, _, _, hname⟩
    rw [List.mem_singleton.mp hrow] at hname
    rw [← hname]
    exact Option.some.inj (admitReconnect_eq_ok hpassed)
  have hreach : (machine oneWorkspace sameName siblings).Reach (KeepsAccounts oneWorkspace)
      ⟨siblings.putSecret sharedRef "work".toList, some (.ok (.rotated [1, 2]))⟩ :=
    .step .init hkeeps (call_tokenOf rfl rfl)
  exact ⟨_, rfl, hreach, bound_of_keepsAccounts bound_siblings hreach⟩

/-- **The sibling is rebound**: a token of another account is written for the source without
an identity, and goes to the slot of its sibling. -/
theorem sibling_rebound : ¬∀ (crates : Crates) (accountOf : Text → Option Text) (start : Store),
    Bound accountOf start → ∀ calls : List (Call accountOf),
      (machine crates accountOf start).Throughout
        (fun session => ∀ reply, session.last = some (.ok reply) → Bound accountOf session.store)
        (machine crates accountOf start).init calls := by
  intro h
  have hrun := h oneWorkspace sameName siblings bound_siblings
    [.reconnect (tokenOf "home".toList) noFaults]
  have hexec : (machine oneWorkspace sameName siblings).exec
      (machine oneWorkspace sameName siblings).init [.reconnect (tokenOf "home".toList) noFaults] =
        some ⟨siblings.putSecret sharedRef "home".toList, some (.ok (.rotated [1, 2]))⟩ := by
    show (call oneWorkspace ⟨siblings, none⟩ (.reconnect (tokenOf "home".toList) noFaults)).bind _ = _
    rw [call_tokenOf rfl rfl]
    rfl
  have hbound := hrun.last hexec (.rotated [1, 2]) rfl
  have hhome := hbound confluenceSource (by simp [siblings, Store.putSecret]) (Or.inr rfl) sharedRef
    rfl "home".toList (Store.keychain_putSecret_of_eq rfl) "work".toList
    ⟨_, List.mem_singleton_self _, ⟨rfl, Or.inl rfl⟩, rfl, rfl⟩
  exact absurd hhome (by decide)

end AtlassianIpc
end Dayseam
