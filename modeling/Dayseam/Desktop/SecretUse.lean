import Dayseam.Desktop.SecretCommands
import Mathlib

/-!
# Secrets in use

Where no command is under way, every reference of a source should name an entry of the
keychain, and every entry should be of a source.  A command that is under way owes some of
this: it will drop an entry or give it to a source, and it will delete a row.

## Main definitions

* `Secrets.Bijection` — references and entries, where no command is under way.
* `Secrets.View` — the same while commands are under way, as one command sees the others.
* `Secrets.Orderly` — an operation that leaves nothing behind.

## Main results

* `Secrets.view_next` — one operation of one command.
* `Secrets.bijection_of_orderly` — **references and entries stay in bijection** in runs of
  such operations.
* `Secrets.refresh_token_left` — an Outlook source that is added and deleted.
-/

namespace Dayseam
namespace Secrets

/-! ### References and entries -/

/-- The entry is one of a source. -/
def Held (s : Store) (slot : Slot) : Prop := ∃ row ∈ s.rows, slot ∈ row.slots

/-- Every reference names an entry, and every entry is of a source. -/
def Bijection (s : Store) : Prop :=
  (∀ row ∈ s.rows, ∀ slot, row.secretRef = some slot → s.keychain slot = true) ∧
    ∀ slot, s.keychain slot = true → Held s slot

namespace Phase

/-- The command will drop the entry, or give it to a source. -/
def Promises : Phase → Slot → Prop
  | .addStamp id, slot => slot = .gitLab id
  | .updateStamp id, slot => slot = .gitLab id
  | .put _ written _ _, slot => slot ∈ written
  | .insert plan inserted _ _ _, slot => inserted = [] ∧ slot ∈ plan.slots
  | .undo steps, slot => .deleteKey slot ∈ steps
  | _, _ => False

/-- The command will delete the row. -/
def Removes : Phase → Uuid → Prop
  | .undo steps, id => .deleteRow id ∈ steps
  | _, _ => False

def AtRest : Phase → Prop
  | .idle | .done => True
  | _ => False

instance : ∀ p : Phase, Decidable p.AtRest
  | .idle | .done => inferInstanceAs (Decidable True)
  | .addRow _ _ | .addPut _ | .addStamp _ | .addSeed _ | .addReread _ | .probe _ _ | .put _ _ _ _
  | .insert _ _ _ _ _ | .seed _ _ _ _ | .undo _ | .delete _ | .read _ | .rotate _ | .updateRead _
  | .updatePut _ | .updateStamp _ => inferInstanceAs (Decidable False)

end Phase

/-- What a command at `p` sees, where the other commands will delete the rows of `removes`
and look after the entries of `promises`. -/
structure View (removes : Uuid → Prop) (promises : Slot → Prop) (s : Store) (p : Phase) :
    Prop where
  refs : ∀ row ∈ s.rows, ∀ slot, row.secretRef = some slot →
    s.keychain slot = true ∨ p.Removes row.id ∨ removes row.id
  entries : ∀ slot, s.keychain slot = true → Held s slot ∨ p.Promises slot ∨ promises slot

/-! ### Orderly operations -/

/-- Nobody need look after the entry: it is not there, or it is of a source, or another
command does. -/
def Settled (promises : Slot → Prop) (s : Store) (slot : Slot) : Prop :=
  s.keychain slot = false ∨ Held s slot ∨ promises slot

/-- The same, without the source. -/
def Spared (promises : Slot → Prop) (s : Store) (id : Uuid) (slot : Slot) : Prop :=
  s.keychain slot = false ∨ (∃ row ∈ s.rows, row.id ≠ id ∧ slot ∈ row.slots) ∨ promises slot

/-- A reference can be stamped on the source: its entry is there, and the slots that the
source had are still its own or need no looking after; without the source, nor does the
entry. -/
def Stampable (promises : Slot → Prop) (s : Store) (id : Uuid) (slot : Slot) : Prop :=
  (∀ row ∈ s.rows, row.id = id → s.keychain slot = true ∧ ∀ old ∈ row.slots,
    old ∈ Row.slots { row with secretRef := some slot } ∨ Spared promises s id old) ∧
      (s.IsNew id → Settled promises s slot)

/-- **An operation that leaves nothing behind.**  A row is inserted only while the entry of its
slot is there; an entry is dropped only while no source refers to it but those that the
same rollback deletes; a source is deleted only where its slots are dropped with it or need
no looking after; a token is put only where it is of a source; and what fails leaves
nothing that needs looking after. -/
def Orderly (promises : Slot → Prop) (s : Store) : Phase → Bool → Prop
  | .insert _ _ row _ _, true =>
    s.IsNew row.id → ∀ slot ∈ row.secretRef, s.keychain slot = true
  | .addStamp id, true => Stampable promises s id (.gitLab id)
  | .updateStamp id, true => Stampable promises s id (.gitLab id)
  | .updateStamp id, false => Settled promises s (.gitLab id)
  | .undo (.deleteKey slot :: steps), true =>
    ∀ row ∈ s.rows, row.secretRef = some slot → .deleteRow row.id ∈ steps
  | .undo (.deleteKey slot :: steps), false => .deleteKey slot ∈ steps ∨ Settled promises s slot
  | .undo (.deleteRow id :: steps), true => ∀ row ∈ s.rows, row.id = id → ∀ slot ∈ row.slots,
    .deleteKey slot ∈ steps ∨ Spared promises s id slot
  | .undo (.deleteRow id :: _), false =>
    ∀ row ∈ s.rows, row.id = id → ∀ slot ∈ row.secretRef, s.keychain slot = true
  | .delete id, true => ∀ row ∈ s.rows, row.id = id → ∀ slot ∈ row.slots,
    s.orphaned id = some slot ∨ Spared promises s id slot
  | .rotate slot, true => s.keychain slot = true ∨ Held s slot ∨ promises slot
  | _, _ => True

section Decidable

variable (promises : Slot → Prop) [DecidablePred promises] (s : Store)

instance (slot : Slot) : Decidable (Held s slot) := inferInstanceAs (Decidable (∃ row ∈ _, _))

instance (slot : Slot) : Decidable (Settled promises s slot) :=
  inferInstanceAs (Decidable (_ ∨ _ ∨ _))

instance (id : Uuid) (slot : Slot) : Decidable (Spared promises s id slot) :=
  inferInstanceAs (Decidable (_ ∨ (∃ row ∈ _, _ ∧ _) ∨ _))

instance (id : Uuid) (slot : Slot) : Decidable (Stampable promises s id slot) :=
  inferInstanceAs (Decidable ((∀ row ∈ _, _ → _ ∧ ∀ old ∈ _, _ ∨ _) ∧ (_ → _)))

instance (slot : Slot) : ∀ p : Phase, Decidable (p.Promises slot)
  | .addStamp _ | .updateStamp _ => inferInstanceAs (Decidable (_ = _))
  | .put _ _ _ _ => inferInstanceAs (Decidable (_ ∈ _))
  | .insert _ _ _ _ _ => inferInstanceAs (Decidable (_ ∧ _))
  | .undo _ => inferInstanceAs (Decidable (_ ∈ _))
  | .idle | .addRow _ _ | .addPut _ | .addSeed _ | .addReread _ | .probe _ _ | .seed _ _ _ _
  | .delete _ | .read _ | .rotate _ | .updateRead _ | .updatePut _ | .done =>
    inferInstanceAs (Decidable False)

instance : ∀ (p : Phase) (ok : Bool), Decidable (Orderly promises s p ok)
  | .insert _ _ _ _ _, true => inferInstanceAs (Decidable (_ → ∀ slot ∈ _, _))
  | .addStamp _, true | .updateStamp _, true => inferInstanceAs (Decidable (Stampable _ _ _ _))
  | .updateStamp _, false => inferInstanceAs (Decidable (Settled _ _ _))
  | .undo (.deleteKey _ :: _), true => inferInstanceAs (Decidable (∀ row ∈ _, _ → _ ∈ _))
  | .undo (.deleteKey _ :: _), false => inferInstanceAs (Decidable (_ ∈ _ ∨ Settled _ _ _))
  | .undo (.deleteRow _ :: _), true =>
    inferInstanceAs (Decidable (∀ row ∈ _, _ → ∀ slot ∈ _, _ ∈ _ ∨ Spared _ _ _ _))
  | .undo (.deleteRow _ :: _), false =>
    inferInstanceAs (Decidable (∀ row ∈ _, _ → ∀ slot ∈ _, _))
  | .delete _, true =>
    inferInstanceAs (Decidable (∀ row ∈ _, _ → ∀ slot ∈ _, _ ∨ Spared _ _ _ _))
  | .rotate _, true => inferInstanceAs (Decidable (_ ∨ Held _ _ ∨ _))
  | .undo [], _ | .delete _, false | .rotate _, false | .insert _ _ _ _ _, false
  | .addStamp _, false | .idle, _ | .addRow _ _, _ | .addPut _, _ | .addSeed _, _
  | .addReread _, _ | .probe _ _, _ | .put _ _ _ _, _ | .seed _ _ _ _, _ | .read _, _
  | .updateRead _, _ | .updatePut _, _ | .done, _ => inferInstanceAs (Decidable True)

end Decidable

/-! ### What one operation preserves -/

variable {removes : Uuid → Prop} {promises : Slot → Prop} {s : Store} {p p' : Phase}
  {slot : Slot} {id : Uuid}

namespace View

/-- The command comes to another phase, in which it owes as much. -/
theorem goto (h : View removes promises s p)
    (hremoves : ∀ row ∈ s.rows, p.Removes row.id → ∀ slot, row.secretRef = some slot →
      s.keychain slot = true ∨ p'.Removes row.id)
    (hpromises : ∀ slot, p.Promises slot → p'.Promises slot ∨ Settled promises s slot) :
    View removes promises s p' where
  refs := by
    intro row hrow slot href
    rcases h.refs row hrow slot href with hentry | hmine | hothers
    · exact Or.inl hentry
    · rcases hremoves row hrow hmine slot href with hentry | hmine
      · exact Or.inl hentry
      · exact Or.inr (Or.inl hmine)
    · exact Or.inr (Or.inr hothers)
  entries := by
    intro slot hentry
    rcases h.entries slot hentry with hheld | hmine | hothers
    · exact Or.inl hheld
    · rcases hpromises slot hmine with hmine | habsent | hheld | hothers
      · exact Or.inr (Or.inl hmine)
      · rw [hentry] at habsent
        exact absurd habsent (by decide)
      · exact Or.inl hheld
      · exact Or.inr (Or.inr hothers)
    · exact Or.inr (Or.inr hothers)

/-- The command owed nothing. -/
theorem start (h : View removes promises s p) (hremoves : ∀ id, ¬p.Removes id)
    (hpromises : ∀ slot, ¬p.Promises slot) : View removes promises s p' :=
  h.goto (fun row _ hmine => absurd hmine (hremoves row.id))
    fun slot hmine => absurd hmine (hpromises slot)

theorem put (h : View removes promises s p)
    (hslot : s.keychain slot = true ∨ Held s slot ∨ p.Promises slot ∨ promises slot) :
    View removes promises (s.put slot) p where
  refs := by
    intro row hrow other href
    rcases h.refs row hrow other href with hentry | howed
    · refine Or.inl ?_
      by_cases hsame : other = slot
      · rw [hsame, Store.keychain_put_self]
      · rwa [Store.keychain_put_of_ne hsame]
    · exact Or.inr howed
  entries := by
    intro other hentry
    by_cases hsame : other = slot
    · rw [hsame]
      rcases hslot with hold | hslot
      · exact h.entries slot hold
      · exact hslot
    · rw [Store.keychain_put_of_ne hsame] at hentry
      exact h.entries other hentry

/-- An entry is dropped that only sources to be deleted refer to. -/
theorem drop (h : View removes promises s p)
    (hrefs : ∀ row ∈ s.rows, row.secretRef = some slot → p.Removes row.id) :
    View removes promises (s.drop slot) p where
  refs := by
    intro row hrow other href
    by_cases hsame : other = slot
    · rw [hsame] at href
      exact Or.inr (Or.inl (hrefs row hrow href))
    · rcases h.refs row hrow other href with hentry | howed
      · exact Or.inl ((Store.keychain_drop_of_ne hsame).trans hentry)
      · exact Or.inr howed
  entries := by
    intro other hentry
    by_cases hsame : other = slot
    · rw [hsame, Store.keychain_drop_self] at hentry
      exact absurd hentry (by decide)
    · rw [Store.keychain_drop_of_ne hsame] at hentry
      exact h.entries other hentry

theorem insert (h : View removes promises s p) {row : Row}
    (href : ∀ slot, row.secretRef = some slot → s.keychain slot = true) :
    View removes promises (s.insert row) p where
  refs := by
    intro other hother slot hslot
    rcases List.mem_append.mp hother with hother | hother
    · exact h.refs other hother slot hslot
    · rw [List.mem_singleton.mp hother] at hslot
      exact Or.inl (href slot hslot)
  entries := by
    intro slot hentry
    rcases h.entries slot hentry with ⟨other, hother, hslot⟩ | howed
    · exact Or.inl ⟨other, List.mem_append_left _ hother, hslot⟩
    · exact Or.inr howed

theorem delete (h : View removes promises s p)
    (hslots : ∀ row ∈ s.rows, row.id = id → ∀ slot ∈ row.slots,
      p.Promises slot ∨ Spared promises s id slot) :
    View removes promises (s.delete id) p where
  refs := fun row hrow => h.refs row (List.mem_filter.mp hrow).1
  entries := by
    intro slot hentry
    have hkept : ∀ row ∈ s.rows, row.id ≠ id → slot ∈ row.slots → Held (s.delete id) slot :=
      fun row hrow hid hslot => ⟨row, List.mem_filter.mpr ⟨hrow, decide_eq_true hid⟩, hslot⟩
    rcases h.entries slot hentry with ⟨row, hrow, hslot⟩ | howed
    · by_cases hid : row.id = id
      · rcases hslots row hrow hid slot hslot with hmine | habsent | ⟨other, hother, hne, hheld⟩ | hp
        · exact Or.inr (Or.inl hmine)
        · rw [show s.keychain slot = true from hentry] at habsent
          exact absurd habsent (by decide)
        · exact Or.inl (hkept other hother hne hheld)
        · exact Or.inr (Or.inr hp)
      · exact Or.inl (hkept row hrow hid hslot)
    · exact Or.inr howed

theorem stamp (h : View removes promises s p) (hstamp : Stampable promises s id slot) :
    View removes promises (s.stamp id slot) p where
  refs := by
    intro row hrow other href
    obtain ⟨old, hold, rfl⟩ := List.mem_map.mp hrow
    split_ifs at href ⊢ with hid
    · cases href
      exact Or.inl (hstamp.1 old hold hid).1
    · exact h.refs old hold other href
  entries := by
    intro other hentry
    have hkept : ∀ row ∈ s.rows, row.id ≠ id → other ∈ row.slots → Held (s.stamp id slot) other :=
      fun row hrow hid hother => ⟨_, List.mem_map_of_mem hrow, by rwa [if_neg hid]⟩
    rcases h.entries other hentry with ⟨row, hrow, hother⟩ | howed
    · by_cases hid : row.id = id
      · rcases (hstamp.1 row hrow hid).2 other hother with
          hnew | habsent | ⟨kept, hmem, hne, hheld⟩ | hp
        · exact Or.inl ⟨_, List.mem_map_of_mem hrow, by rwa [if_pos hid]⟩
        · rw [show s.keychain other = true from hentry] at habsent
          exact absurd habsent (by decide)
        · exact Or.inl (hkept kept hmem hne hheld)
        · exact Or.inr (Or.inr hp)
      · exact Or.inl (hkept row hrow hid hother)
    · exact Or.inr howed

end View

/-- The entry is looked after once its reference is stamped. -/
theorem settled_stamp (h : Stampable promises s id slot) :
    Settled promises (s.stamp id slot) slot := by
  by_cases hnew : s.IsNew id
  · have hsame : s.stamp id slot = s := by
      unfold Store.stamp
      congr 1
      refine (List.map_congr_left fun row hrow => if_neg (hnew row hrow)).trans (List.map_id' _)
    rw [hsame]
    exact h.2 hnew
  · unfold Store.IsNew at hnew
    push Not at hnew
    obtain ⟨row, hrow, hid⟩ := hnew
    refine Or.inr (Or.inl ⟨_, List.mem_map_of_mem hrow, ?_⟩)
    rw [if_pos hid]
    exact mem_slots_of_secretRef rfl

/-- A row that was put in holds its slots. -/
theorem held_insert {row : Row} (h : slot ∈ row.slots) : Held (s.insert row) slot :=
  ⟨row, List.mem_append_right _ (List.mem_singleton_self _), h⟩

theorem promises_rollback {slots : List Slot} {inserted : List Uuid} (h : slot ∈ slots) :
    (rollback slots inserted).Promises slot :=
  List.mem_append_right _ (List.mem_map_of_mem h)

/-- **A step of a rollback**, done or failed. -/
theorem view_undo {undone : Undo} {steps : List Undo} {ok : Bool}
    (h : View removes promises s (.undo (undone :: steps)))
    (horderly : Orderly promises s (.undo (undone :: steps)) ok) :
    View removes promises (next s ok (.undo (undone :: steps))).1
      (next s ok (.undo (undone :: steps))).2 := by
  cases undone with
  | deleteRow id =>
    have hpromises : ∀ slot, Phase.Promises (.undo (.deleteRow id :: steps)) slot →
        Phase.Promises (.undo steps) slot :=
      fun slot hmine => (List.mem_cons.mp hmine).resolve_left nofun
    cases ok with
    | true =>
      refine (h.delete fun row hrow hid slot hslot => ?_).goto ?_ fun slot hmine =>
        Or.inl (hpromises slot hmine)
      · exact (horderly row hrow hid slot hslot).imp_left (List.mem_cons_of_mem _)
      · intro row hrow hmine _ _
        rcases List.mem_cons.mp hmine with hthis | hlater
        · cases hthis
          exact absurd rfl (of_decide_eq_true (List.mem_filter.mp hrow).2)
        · exact Or.inr hlater
    | false =>
      refine h.goto ?_ fun slot hmine => Or.inl (hpromises slot hmine)
      intro row hrow hmine slot href
      rcases List.mem_cons.mp hmine with hthis | hlater
      · cases hthis
        exact Or.inl (horderly row hrow rfl slot href)
      · exact Or.inr hlater
  | deleteKey slot =>
    have hremoves : ∀ id, Phase.Removes (.undo (.deleteKey slot :: steps)) id →
        Phase.Removes (.undo steps) id :=
      fun id hmine => (List.mem_cons.mp hmine).resolve_left nofun
    cases ok with
    | true =>
      refine (h.drop fun row hrow href => ?_).goto (fun row _ hmine _ _ =>
        Or.inr (hremoves row.id hmine)) ?_
      · exact List.mem_cons_of_mem _ (horderly row hrow href)
      · intro other hmine
        rcases List.mem_cons.mp hmine with hthis | hlater
        · cases hthis
          exact Or.inr (Or.inl Store.keychain_drop_self)
        · exact Or.inl hlater
    | false =>
      refine h.goto (fun row _ hmine _ _ => Or.inr (hremoves row.id hmine)) ?_
      intro other hmine
      rcases List.mem_cons.mp hmine with hthis | hlater
      · cases hthis
        exact horderly
      · exact Or.inl hlater

/-- **One operation** of one command. -/
theorem view_next (h : View removes promises s p) {ok : Bool}
    (horderly : Orderly promises s p ok) :
    View removes promises (next s ok p).1 (next s ok p).2 := by
  cases p with
  | idle | done => exact h
  | addRow id kind =>
    have hinserted : View removes promises (s.insert ⟨id, kind, none⟩) (.addRow id kind) :=
      h.insert fun slot href => nomatch href
    unfold next
    dsimp only
    split_ifs
    · exact hinserted.start nofun nofun
    · exact hinserted.start nofun nofun
    · exact h.start nofun nofun
  | addPut id =>
    have hstamping : View removes promises s (.addStamp id) := h.start nofun nofun
    cases ok with
    | true => exact hstamping.put (Or.inr (Or.inr (Or.inl rfl)))
    | false => exact h.start nofun nofun
  | addStamp id =>
    cases ok with
    | true =>
      refine (h.stamp horderly).goto (fun _ _ hmine => nomatch hmine) fun slot hmine => ?_
      rw [show slot = .gitLab id from hmine]
      exact Or.inr (settled_stamp horderly)
    | false =>
      refine h.goto (fun _ _ hmine => nomatch hmine) fun slot hmine => Or.inl ?_
      rw [show slot = .gitLab id from hmine]
      exact List.mem_cons_self
  | addSeed id => cases ok <;> exact h.start nofun nofun
  | addReread id => exact h.start nofun nofun
  | probe slot plan =>
    unfold next
    dsimp only
    split_ifs <;> exact h.start nofun nofun
  | put plan written todo hplan =>
    cases ok with
    | false =>
      cases todo <;>
        exact h.goto (fun _ _ hmine => nomatch hmine) fun slot hmine =>
          Or.inl (promises_rollback hmine)
    | true =>
      cases todo with
      | nil =>
        refine h.goto (fun _ _ hmine => nomatch hmine) fun slot hmine => Or.inl ⟨rfl, ?_⟩
        rw [← hplan, List.append_nil]
        exact hmine
      | cons next todo =>
        have hwritten : View removes promises s (.put plan (written ++ [next]) todo
            (by rw [← hplan, List.append_assoc]; rfl)) :=
          h.goto (fun _ _ hmine => nomatch hmine) fun slot hmine =>
            Or.inl (List.mem_append_left _ hmine)
        exact hwritten.put (Or.inr (Or.inr (Or.inl
          (List.mem_append_right _ (List.mem_singleton_self _)))))
  | insert plan inserted row todo hfirst =>
    have hrollback : View removes promises s (rollback plan.slots inserted) :=
      h.goto (fun _ _ hmine => nomatch hmine) fun slot hmine => Or.inl (promises_rollback hmine.2)
    cases ok with
    | false => exact hrollback
    | true =>
      unfold next
      dsimp only
      split_ifs with hnew
      · refine (h.insert (horderly hnew.2)).goto (fun _ _ hmine => nomatch hmine) ?_
        rintro slot ⟨hnil, hslot⟩
        refine Or.inr (Or.inr (Or.inl (held_insert ?_)))
        rw [hfirst hnil]
        exact plan.owns slot hslot
      · exact hrollback
  | seed plan inserted todo hinserted =>
    cases ok with
    | false => exact h.start nofun nofun
    | true => cases todo <;> exact h.start nofun nofun
  | undo steps =>
    cases steps with
    | nil => exact h.start (fun _ => List.not_mem_nil) fun _ => List.not_mem_nil
    | cons undone steps => exact view_undo h horderly
  | delete id =>
    cases ok with
    | false => exact h.start nofun nofun
    | true =>
      have howed : View removes promises s
          (.undo ((s.orphaned id).toList.map Undo.deleteKey)) := h.start nofun nofun
      refine howed.delete fun row hrow hid slot hslot => ?_
      rcases horderly row hrow hid slot hslot with horphan | hspared
      · exact Or.inl (List.mem_map_of_mem (by simp [horphan]))
      · exact Or.inr hspared
  | read id =>
    unfold next
    dsimp only
    split
    · split_ifs <;> exact h.start nofun nofun
    · exact h.start nofun nofun
  | rotate slot =>
    cases ok with
    | false => exact h.start nofun nofun
    | true =>
      have hdone : View removes promises s .done := h.start nofun nofun
      refine hdone.put ?_
      rcases horderly with hentry | hheld | hothers
      · exact Or.inl hentry
      · exact Or.inr (Or.inl hheld)
      · exact Or.inr (Or.inr (Or.inr hothers))
  | updateRead id =>
    unfold next
    dsimp only
    split
    · split_ifs <;> exact h.start nofun nofun
    · exact h.start nofun nofun
  | updatePut id =>
    have hstamping : View removes promises s (.updateStamp id) := h.start nofun nofun
    cases ok with
    | true => exact hstamping.put (Or.inr (Or.inr (Or.inl rfl)))
    | false => exact h.start nofun nofun
  | updateStamp id =>
    cases ok with
    | true =>
      refine (h.stamp horderly).goto (fun _ _ hmine => nomatch hmine) fun slot hmine => ?_
      rw [show slot = .gitLab id from hmine]
      exact Or.inr (settled_stamp horderly)
    | false =>
      refine h.goto (fun _ _ hmine => nomatch hmine) fun slot hmine => ?_
      rw [show slot = .gitLab id from hmine]
      exact Or.inr horderly

/-! ### Runs -/

variable {C : Type} [DecidableEq C]

/-- The other commands look after the entry. -/
def OthersPromise (s : State C) (c : C) (slot : Slot) : Prop :=
  ∃ other, other ≠ c ∧ (s.phase other).Promises slot

/-- The operation of the command leaves nothing behind. -/
def OrderlyAction (s : State C) : Action C → Prop
  | .call _ _ => True
  | .advance c ok => Orderly (OthersPromise s c) s.store (s.phase c) ok

instance [Fintype C] (s : State C) (c : C) : DecidablePred (OthersPromise s c) :=
  fun slot => inferInstanceAs (Decidable (∃ other, other ≠ c ∧ (s.phase other).Promises slot))

instance [Fintype C] (s : State C) : ∀ a : Action C, Decidable (OrderlyAction s a)
  | .call _ _ => inferInstanceAs (Decidable True)
  | .advance c ok => inferInstanceAs (Decidable (Orderly (OthersPromise s c) _ _ ok))

/-- What the commands owe, all together. -/
structure Owed (s : State C) : Prop where
  refs : ∀ row ∈ s.store.rows, ∀ slot, row.secretRef = some slot →
    s.store.keychain slot = true ∨ ∃ c, (s.phase c).Removes row.id
  entries : ∀ slot, s.store.keychain slot = true →
    Held s.store slot ∨ ∃ c, (s.phase c).Promises slot

/-- What one command sees of the others. -/
theorem Owed.view {s : State C} (h : Owed s) (c : C) :
    View (fun id => ∃ other, other ≠ c ∧ (s.phase other).Removes id) (OthersPromise s c) s.store
      (s.phase c) where
  refs := by
    intro row hrow slot href
    refine (h.refs row hrow slot href).imp_right ?_
    rintro ⟨other, hremoves⟩
    by_cases hsame : other = c
    · rw [hsame] at hremoves
      exact Or.inl hremoves
    · exact Or.inr ⟨other, hsame, hremoves⟩
  entries := by
    intro slot hentry
    refine (h.entries slot hentry).imp_right ?_
    rintro ⟨other, hpromises⟩
    by_cases hsame : other = c
    · rw [hsame] at hpromises
      exact Or.inl hpromises
    · exact Or.inr ⟨other, hsame, hpromises⟩

/-- A command that comes to another phase leaves the others where they are. -/
theorem View.owed {s : State C} {c : C} {store : Store} {phase : Phase}
    (h : View (fun id => ∃ other, other ≠ c ∧ (s.phase other).Removes id) (OthersPromise s c)
      store phase) : Owed (⟨store, Function.update s.phase c phase⟩ : State C) where
  refs := by
    intro row hrow slot href
    rcases h.refs row hrow slot href with hentry | hmine | ⟨other, hne, hothers⟩
    · exact Or.inl hentry
    · exact Or.inr ⟨c, by simpa using hmine⟩
    · exact Or.inr ⟨other, by simpa [Function.update_of_ne hne] using hothers⟩
  entries := by
    intro slot hentry
    rcases h.entries slot hentry with hheld | hmine | ⟨other, hne, hothers⟩
    · exact Or.inl hheld
    · exact Or.inr ⟨c, by simpa using hmine⟩
    · exact Or.inr ⟨other, by simpa [Function.update_of_ne hne] using hothers⟩

/-- A command that is called owes nothing yet. -/
theorem view_call {command : Command} (h : View removes promises s .idle) :
    View removes promises s command.start := h.start nofun nofun

/-- **One step** of all commands. -/
theorem owed_step {s : State C} (h : Owed s) {a : Action C} (horderly : OrderlyAction s a) :
    Owed (step s a) := by
  cases a with
  | call c command =>
    unfold step
    dsimp only
    split
    · next hidle =>
      have hview := h.view c
      rw [hidle] at hview
      exact (view_call hview).owed
    · exact h
  | advance c ok => exact (view_next (h.view c) horderly).owed

/-- **References and entries stay in bijection**: in a run of operations that leave nothing
behind, whenever no command is under way, every reference of a source names an entry of the
keychain and every entry is of a source. -/
theorem bijection_of_orderly {s : State C} (h : (machine C).Reach OrderlyAction s)
    (hrest : ∀ c, (s.phase c).AtRest) : Bijection s.store := by
  have howed : Owed s := by
    refine h.invariant ⟨?_, ?_⟩ ?_
    · exact fun row hrow => absurd hrow List.not_mem_nil
    · exact fun slot hentry => absurd hentry Bool.false_ne_true
    · intro s a s' _ hs horderly hstep
      cases hstep
      exact owed_step hs horderly
  have hnothing : ∀ c, (∀ id, ¬(s.phase c).Removes id) ∧ ∀ slot, ¬(s.phase c).Promises slot := by
    intro c
    have hatRest := hrest c
    cases hphase : s.phase c with
    | idle | done => exact ⟨nofun, nofun⟩
    | _ =>
      rw [hphase] at hatRest
      exact hatRest.elim
  constructor
  · intro row hrow slot href
    exact (howed.refs row hrow slot href).resolve_right fun ⟨c, hremoves⟩ =>
      (hnothing c).1 row.id hremoves
  · intro slot hentry
    exact (howed.entries slot hentry).resolve_right fun ⟨c, hpromises⟩ =>
      (hnothing c).2 slot hpromises

/-- All operations of a command go well. -/
def wholeCommand (c : Bool) (command : Command) (operations : ℕ) : List (Action Bool) :=
  .call c command :: List.replicate operations (.advance c true)

/-- Two sources with one slot, of which one is deleted. -/
def oneOfTwo : List (Action Bool) :=
  wholeCommand false (.atlassianSourcesAdd 7 (.both 1 2)) 6 ++
    wholeCommand true (.sourcesDelete 1) 2

/-- The entry stays with the source that is left. -/
theorem shared_slot_kept : ∃ s, (machine Bool).exec (machine Bool).init oneOfTwo = some s ∧
    s.store.rows = [⟨2, .confluence, some (.atlassian 7)⟩] ∧ Bijection s.store := by
  have hrun : ((machine Bool).exec (machine Bool).init oneOfTwo).any (fun s => decide
      (s.store.rows = [⟨2, .confluence, some (.atlassian 7)⟩] ∧
        ∀ c, (s.phase c).AtRest)) = true := by
    decide +kernel
  obtain ⟨s, hs, hlast⟩ := (Option.any_eq_true ..).mp hrun
  obtain ⟨hrows, hrest⟩ := of_decide_eq_true hlast
  have hreach : (machine Bool).Reach OrderlyAction s :=
    Machine.reach_of_exec (by decide +kernel) hs
  exact ⟨s, hs, hrows, bijection_of_orderly hreach hrest⟩

/-! ### The token that is left -/

/-- An Outlook source is added, and deleted. -/
def addedAndDeleted : List (Action Bool) :=
  wholeCommand false (.outlookSourcesAdd 1) 5 ++ wholeCommand true (.sourcesDelete 1) 3

/-- **The refresh token is left**: nothing drops it with the source. -/
theorem refresh_token_left : ¬∀ (C : Type) (_ : DecidableEq C) (s : State C),
    (machine C).Reach (fun _ _ => True) s → (∀ c, (s.phase c).AtRest) → Bijection s.store := by
  intro h
  have hrun : ((machine Bool).exec (machine Bool).init addedAndDeleted).any (fun s => decide
      (s.store.rows = [] ∧ s.store.keychain (.outlookRefresh 1) = true ∧
        ∀ c, (s.phase c).AtRest)) = true := by
    decide +kernel
  obtain ⟨s, hs, hlast⟩ := (Option.any_eq_true ..).mp hrun
  obtain ⟨hrows, hentry, hrest⟩ := of_decide_eq_true hlast
  obtain ⟨row, hrow, -⟩ :=
    (h Bool inferInstance s (Machine.reach_of_exec (Machine.allowed_true _ _) hs) hrest).2 _ hentry
  rw [hrows] at hrow
  exact absurd hrow List.not_mem_nil

end Secrets
end Dayseam
