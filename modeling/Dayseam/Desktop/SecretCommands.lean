import Dayseam.Core.Ids
import Dayseam.Desktop.AtlassianCommands
import Mathlib

/-!
# Commands on sources and their secrets

A source holds a reference to a keychain slot.  The commands that add, delete and reconnect
sources write rows and keychain entries one after the other, and any number of them may be
under way.

## Main definitions

* `Secrets.Slot` — the keychain slots of the commands, and `Slot.secretRef`, their names.
* `Secrets.Store` — the rows of the sources and the entries of the keychain.
* `Secrets.next` — the next operation of a command, which may fail.
* `Secrets.machine` — any number of commands, interleaved in any order.

## Main results

* `Secrets.Slot.key_injective` — two slots have two names in the keychain.
-/

namespace Dayseam
namespace Secrets

open AtlassianIpc (secretStoreKey newAtlassianSecretRef)

/-! ### Slots -/

/-- The slots that the commands write: of a GitLab or GitHub source, of the two tokens of an
Outlook source, and of Atlassian sources, which may share one. -/
inductive Slot
  | gitLab (source : Uuid)
  | gitHub (source : Uuid)
  | outlookAccess (source : Uuid)
  | outlookRefresh (source : Uuid)
  | atlassian (slot : Uuid)
  deriving DecidableEq

def GITLAB_KEYCHAIN_SERVICE : Text := "dayseam.gitlab".toList

def GITHUB_KEYCHAIN_SERVICE : Text := "dayseam.github".toList

def OUTLOOK_KEYCHAIN_SERVICE : Text := "dayseam.outlook".toList

def OUTLOOK_ACCESS_ACCOUNT_SUFFIX : Text := ".oauth.access".toList

def OUTLOOK_REFRESH_ACCOUNT_SUFFIX : Text := ".oauth.refresh".toList

def sourceAccount (source : Uuid) : Text := "source:".toList ++ source.display

namespace Slot

/-- The service and the account of a slot. -/
def secretRef : Slot → SecretRef
  | gitLab source => ⟨GITLAB_KEYCHAIN_SERVICE, sourceAccount source⟩
  | gitHub source => ⟨GITHUB_KEYCHAIN_SERVICE, sourceAccount source⟩
  | outlookAccess source =>
    ⟨OUTLOOK_KEYCHAIN_SERVICE, sourceAccount source ++ OUTLOOK_ACCESS_ACCOUNT_SUFFIX⟩
  | outlookRefresh source =>
    ⟨OUTLOOK_KEYCHAIN_SERVICE, sourceAccount source ++ OUTLOOK_REFRESH_ACCOUNT_SUFFIX⟩
  | atlassian slot => newAtlassianSecretRef slot

/-- What the name of a slot begins with. -/
inductive Service
  | gitLab
  | gitHub
  | outlook
  | atlassian

def Service.text : Service → Text
  | .gitLab => "dayseam.gitlab::source:".toList
  | .gitHub => "dayseam.github::source:".toList
  | .outlook => "dayseam.outlook::source:".toList
  | .atlassian => "dayseam.atlassian::slot:".toList

theorem Service.length_text (service : Service) : 12 ≤ service.text.length := by
  cases service <;> decide

/-- The first letters tell the services apart. -/
theorem Service.eq_of_take {a b : Service} (h : a.text.take 12 = b.text.take 12) : a = b := by
  cases a <;> cases b <;> first | rfl | exact absurd h (by decide)

def service : Slot → Service
  | gitLab _ => .gitLab
  | gitHub _ => .gitHub
  | outlookAccess _ | outlookRefresh _ => .outlook
  | atlassian _ => .atlassian

def id : Slot → Uuid
  | gitLab source => source
  | gitHub source => source
  | outlookAccess source => source
  | outlookRefresh source => source
  | atlassian slot => slot

/-- What the name of a slot ends with. -/
def token : Slot → Text
  | outlookAccess _ => OUTLOOK_ACCESS_ACCOUNT_SUFFIX
  | outlookRefresh _ => OUTLOOK_REFRESH_ACCOUNT_SUFFIX
  | _ => []

theorem key_eq (slot : Slot) :
    secretStoreKey slot.secretRef = slot.service.text ++ (slot.id.display ++ slot.token) := by
  cases slot with
  | gitLab source | gitHub source | atlassian source => exact congrArg _ (List.append_nil _).symm
  | outlookAccess source | outlookRefresh source => rfl

theorem outlookSuffix_ne : OUTLOOK_ACCESS_ACCOUNT_SUFFIX ≠ OUTLOOK_REFRESH_ACCOUNT_SUFFIX := by
  decide

/-- A slot is known by its service, its id and what its name ends with. -/
theorem eq_of_parts {a b : Slot} (hservice : a.service = b.service) (hid : a.id = b.id)
    (htoken : a.token = b.token) : a = b := by
  cases a with
  | gitLab source =>
    cases b with
    | gitLab other => exact congrArg gitLab hid
    | _ => exact nomatch hservice
  | gitHub source =>
    cases b with
    | gitHub other => exact congrArg gitHub hid
    | _ => exact nomatch hservice
  -- the two tokens of an Outlook source have one service and one id
  | outlookAccess source =>
    cases b with
    | outlookAccess other => exact congrArg outlookAccess hid
    | outlookRefresh other => exact absurd htoken outlookSuffix_ne
    | _ => exact nomatch hservice
  | outlookRefresh source =>
    cases b with
    | outlookAccess other => exact absurd htoken.symm outlookSuffix_ne
    | outlookRefresh other => exact congrArg outlookRefresh hid
    | _ => exact nomatch hservice
  | atlassian slot =>
    cases b with
    | atlassian other => exact congrArg atlassian hid
    | _ => exact nomatch hservice

/-- **Two slots have two names.** -/
theorem key_injective : Function.Injective fun slot : Slot => secretStoreKey slot.secretRef := by
  intro a b h
  dsimp only at h
  rw [key_eq, key_eq] at h
  have htake := congrArg (List.take 12) h
  rw [List.take_append_of_le_length (Service.length_text _),
    List.take_append_of_le_length (Service.length_text _)] at htake
  have hservice := Service.eq_of_take htake
  rw [hservice] at h
  obtain ⟨hdisplay, htoken⟩ := List.append_inj (List.append_cancel_left h)
    (by simp [Uuid.display])
  exact eq_of_parts hservice (Uuid.display_injective hdisplay) htoken

end Slot

/-! ### The store -/

/-- A source, as far as its secret goes. -/
structure Row where
  id : Uuid
  kind : SourceKind
  secretRef : Option Slot
  deriving DecidableEq

/-- The slots of a source: the one it holds a reference to, and the refresh token of an
Outlook source, whose slot is read off its id. -/
def Row.slots (row : Row) : List Slot :=
  row.secretRef.toList ++
    if row.kind = .outlook ∧ row.secretRef ≠ none then [.outlookRefresh row.id] else []

structure Store where
  rows : List Row
  keychain : Slot → Bool

namespace Store

def empty : Store := ⟨[], fun _ => false⟩

variable (s : Store)

def put (slot : Slot) : Store := { s with keychain := Function.update s.keychain slot true }

def drop (slot : Slot) : Store := { s with keychain := Function.update s.keychain slot false }

variable {s} {slot other : Slot}

@[simp] theorem keychain_put_self : (s.put slot).keychain slot = true := Function.update_self ..

theorem keychain_put_of_ne (h : other ≠ slot) : (s.put slot).keychain other = s.keychain other :=
  Function.update_of_ne h ..

@[simp] theorem keychain_drop_self : (s.drop slot).keychain slot = false :=
  Function.update_self ..

theorem keychain_drop_of_ne (h : other ≠ slot) : (s.drop slot).keychain other = s.keychain other :=
  Function.update_of_ne h ..

variable (s)

/-- No source has the id. -/
def IsNew (id : Uuid) : Prop := ∀ row ∈ s.rows, row.id ≠ id

instance (id : Uuid) : Decidable (s.IsNew id) := inferInstanceAs (Decidable (∀ row ∈ _, _))

def insert (row : Row) : Store := { s with rows := s.rows ++ [row] }

def delete (id : Uuid) : Store := { s with rows := s.rows.filter fun row => row.id ≠ id }

/-- `update_secret_ref`, which changes nothing where no source has the id. -/
def stamp (id : Uuid) (slot : Slot) : Store :=
  { s with rows := s.rows.map fun row =>
      if row.id = id then { row with secretRef := some slot } else row }

def get (id : Uuid) : Option Row := s.rows.find? (·.id = id)

def refOf (id : Uuid) : Option Slot := (s.get id).bind (·.secretRef)

/-- `SourceRepo::delete` hands the slot of the source back where no other holds a reference. -/
def orphaned (id : Uuid) : Option Slot :=
  (s.refOf id).filter fun slot => (s.delete id).rows.all fun row => row.secretRef ≠ some slot

end Store

/-! ### Commands -/

/-- What an addition with a secret writes: the entries, if the slot is not one that is there,
and then the rows, the first of which has the entries as its own. -/
structure Plan where
  slots : List Slot
  first : Row
  rest : List Row
  owns : ∀ slot ∈ slots, slot ∈ first.slots

/-- The products that an Atlassian addition enables, with the ids of their sources. -/
inductive Products
  | jira (id : Uuid)
  | confluence (id : Uuid)
  | both (jira confluence : Uuid)

def Products.first (slot : Slot) : Products → Row
  | jira id => ⟨id, .jira, some slot⟩
  | confluence id => ⟨id, .confluence, some slot⟩
  | both id _ => ⟨id, .jira, some slot⟩

def Products.rest (slot : Slot) : Products → List Row
  | both _ id => [⟨id, .confluence, some slot⟩]
  | _ => []

theorem Products.secretRef_first (slot : Slot) (products : Products) :
    (products.first slot).secretRef = some slot := by
  cases products <;> rfl

theorem mem_slots_of_secretRef {row : Row} {slot : Slot} (h : row.secretRef = some slot) :
    slot ∈ row.slots :=
  List.mem_append_left _ (by simp [h])

namespace Plan

def gitHub (id : Uuid) : Plan where
  slots := [.gitHub id]
  first := ⟨id, .gitHub, some (.gitHub id)⟩
  rest := []
  owns slot h := by
    rw [List.mem_singleton.mp h]
    exact mem_slots_of_secretRef rfl

def outlook (id : Uuid) : Plan where
  slots := [.outlookAccess id, .outlookRefresh id]
  first := ⟨id, .outlook, some (.outlookAccess id)⟩
  rest := []
  owns _ h := h

/-- Sources with a slot of their own. -/
def atlassian (slot : Uuid) (products : Products) : Plan where
  slots := [.atlassian slot]
  first := products.first (.atlassian slot)
  rest := products.rest (.atlassian slot)
  owns other h := by
    rw [List.mem_singleton.mp h]
    exact mem_slots_of_secretRef (products.secretRef_first _)

/-- Sources with a slot that is there. -/
def reuse (slot : Slot) (products : Products) : Plan where
  slots := []
  first := products.first slot
  rest := products.rest slot
  owns _ h := absurd h List.not_mem_nil

end Plan

/-- A command with the ids that it makes up. -/
inductive Command
  /-- `sources_add`; the token of a GitLab source goes to a slot of its own -/
  | sourcesAdd (id : Uuid) (kind : SourceKind)
  | githubSourcesAdd (id : Uuid)
  | outlookSourcesAdd (id : Uuid)
  /-- `atlassian_sources_add` with a new slot, or with the one of a sibling -/
  | atlassianSourcesAdd (slot : Uuid) (products : Products)
  | atlassianSourcesReuse (slot : Slot) (products : Products)
  | sourcesDelete (id : Uuid)
  /-- `github_sources_reconnect` and `atlassian_sources_reconnect` -/
  | reconnect (id : Uuid)
  /-- `sources_update` with a token, which reconnects a GitLab source -/
  | sourcesUpdate (id : Uuid)

/-- A step of a rollback. -/
inductive Undo
  | deleteRow (id : Uuid)
  | deleteKey (slot : Slot)
  deriving DecidableEq

/-- The next operation of a command. -/
inductive Phase
  | idle
  /-- `sources_add`: insert the row -/
  | addRow (id : Uuid) (kind : SourceKind)
  /-- of a GitLab source: put the token, stamp the row, seed the identity, or read the row
  again to undo it -/
  | addPut (id : Uuid)
  | addStamp (id : Uuid)
  | addSeed (id : Uuid)
  | addReread (id : Uuid)
  /-- look whether the slot of a sibling is there -/
  | probe (slot : Slot) (plan : Plan)
  /-- put the tokens, one after the other, and find the user -/
  | put (plan : Plan) (written todo : List Slot) (h : written ++ todo = plan.slots)
  /-- insert a row; the first comes first -/
  | insert (plan : Plan) (inserted : List Uuid) (row : Row) (todo : List Row)
      (h : inserted = [] → row = plan.first)
  /-- seed the identities of the last row -/
  | seed (plan : Plan) (inserted : List Uuid) (todo : List Row) (h : inserted ≠ [])
  /-- best effort -/
  | undo (steps : List Undo)
  /-- `sources_delete`: delete the row -/
  | delete (id : Uuid)
  /-- a reconnect: read the row, and put the token -/
  | read (id : Uuid)
  | rotate (slot : Slot)
  /-- `sources_update`: read the row, put the token and stamp the row -/
  | updateRead (id : Uuid)
  | updatePut (id : Uuid)
  | updateStamp (id : Uuid)
  | done

def Command.start : Command → Phase
  | sourcesAdd id kind => .addRow id kind
  | githubSourcesAdd id => .put (.gitHub id) [] _ rfl
  | outlookSourcesAdd id => .put (.outlook id) [] _ rfl
  | atlassianSourcesAdd slot products => .put (.atlassian slot products) [] _ rfl
  | atlassianSourcesReuse slot products => .probe slot (.reuse slot products)
  | sourcesDelete id => .delete id
  | reconnect id => .read id
  | sourcesUpdate id => .updateRead id

/-- The rollback of an addition: the rows that were inserted, and then the entries. -/
def rollback (slots : List Slot) (inserted : List Uuid) : Phase :=
  .undo (inserted.map .deleteRow ++ slots.map .deleteKey)

/-- The kinds of the sources that the reconnects take. -/
def reconnectable : SourceKind → Bool
  | .gitHub | .jira | .confluence => true
  | _ => false

/-- The next operation of a command, and whether it goes well; the checks that precede an
operation can fail in its place. -/
def next (s : Store) (ok : Bool) : Phase → Store × Phase
  | .addRow id kind =>
    if ok = true ∧ s.IsNew id then
      (s.insert ⟨id, kind, none⟩, if kind = .gitLab then .addPut id else .done)
    else (s, .done)
  | .addPut id =>
    if ok = true then (s.put (.gitLab id), .addStamp id) else (s, .undo [.deleteRow id])
  | .addStamp id =>
    if ok = true then (s.stamp id (.gitLab id), .addSeed id)
    else (s, .undo [.deleteKey (.gitLab id), .deleteRow id])
  | .addSeed id => if ok = true then (s, .done) else (s, .addReread id)
  | .addReread id =>
    (s, .undo ((if ok = true then s.refOf id else none).toList.map .deleteKey ++ [.deleteRow id]))
  | .probe slot plan =>
    if ok = true ∧ s.keychain slot = true then (s, .put plan [] plan.slots rfl) else (s, .done)
  | .put plan written (slot :: todo) h =>
    if ok = true then
      (s.put slot, .put plan (written ++ [slot]) todo (by rw [← h, List.append_assoc]; rfl))
    else (s, rollback written [])
  | .put plan written [] _ =>
    if ok = true then (s, .insert plan [] plan.first plan.rest fun _ => rfl)
    else (s, rollback written [])
  | .insert plan inserted row todo _ =>
    if ok = true ∧ s.IsNew row.id then
      (s.insert row, .seed plan (inserted ++ [row.id]) todo (by simp))
    else (s, rollback plan.slots inserted)
  | .seed plan inserted todo h =>
    if ok = true then
      match todo with
      | [] => (s, .done)
      | row :: todo => (s, .insert plan inserted row todo fun hnil => absurd hnil h)
    else (s, rollback plan.slots inserted)
  | .undo [] => (s, .done)
  | .undo (.deleteRow id :: steps) => (if ok = true then s.delete id else s, .undo steps)
  | .undo (.deleteKey slot :: steps) => (if ok = true then s.drop slot else s, .undo steps)
  | .delete id =>
    if ok = true then (s.delete id, .undo ((s.orphaned id).toList.map .deleteKey))
    else (s, .done)
  | .read id => match s.get id with
    | some ⟨_, kind, some slot⟩ =>
      if ok = true ∧ reconnectable kind = true then (s, .rotate slot) else (s, .done)
    | _ => (s, .done)
  | .rotate slot => (if ok = true then s.put slot else s, .done)
  | .updateRead id => match s.get id with
    | some row => if ok = true ∧ row.kind ≠ .localGit then (s, .updatePut id) else (s, .done)
    | none => (s, .done)
  | .updatePut id =>
    if ok = true then (s.put (.gitLab id), .updateStamp id) else (s, .done)
  | .updateStamp id => (if ok = true then s.stamp id (.gitLab id) else s, .done)
  | .idle => (s, .idle)
  | .done => (s, .done)

/-! ### Interleavings -/

structure State (C : Type) where
  store : Store
  phase : C → Phase

/-- A command is called, or comes to its next operation. -/
inductive Action (C : Type)
  | call (c : C) (command : Command)
  | advance (c : C) (ok : Bool)

def step {C : Type} [DecidableEq C] (s : State C) : Action C → State C
  | .call c command => match s.phase c with
    | .idle => { s with phase := Function.update s.phase c command.start }
    | _ => s
  | .advance c ok =>
    let (store, phase) := next s.store ok (s.phase c)
    ⟨store, Function.update s.phase c phase⟩

/-- Any number of commands, on a store without sources. -/
def machine (C : Type) [DecidableEq C] : Machine (State C) (Action C) where
  init := ⟨Store.empty, fun _ => .idle⟩
  step := fun s a => some (step s a)

end Secrets
end Dayseam
