import Dayseam.Desktop.ReportKnown
import Mathlib

/-!
# A finished run on the report screen

A run tells once that it is over.  Where that comes before the hook knows the id of its
run, the hook stashes it in the one slot that it has for the completions of all runs, and
looks into the slot when an invocation answers.

## Main definitions

* `Faithful` — the latest run is shown once it is over, and a cancellation was sent.
* `Orderly` — the events that do not drop or overwrite what is known of the latest run.

## Main results

* `kept_after` — what each orderly event keeps.
* `finished_shown` — **a finished run is shown.**
* `completion_lost` — a completion that another one displaces.
-/

namespace Dayseam
namespace UseReport

variable {owner : Uuid → Option ℕ} {s : Watched} {call : ℕ} {runId : Uuid}

/-! ### A finished run -/

/-- Nothing that the hook waits for is in flight. -/
def Quiet (s : State) : Prop := s.invoked = [] ∧ s.requests = []

/-- The run that told so is shown, with the draft that the hook was given. -/
structure Shows (s : Watched) (payload : ReportCompletedEvent) : Prop where
  status : s.hook.shown.status = statusFromSyncRunStatus payload.status
  answered : ∀ draftId, payload.draftId = some draftId →
    ∃ answer, (⟨draftId, payload.runId⟩, answer) ∈ s.answers
  draft : ∀ draftId draft, payload.draftId = some draftId →
    (⟨draftId, payload.runId⟩, .ok draft) ∈ s.answers → s.hook.shown.draft = some draft

/-- **The latest run is shown once it is over**, and every click on cancel since the latest
call had a `report_cancel` of it follow. -/
def Faithful (s : Watched) : Prop :=
  ∀ runId, s.run = some runId →
    (Quiet s.hook → ∀ payload ∈ s.completions, payload.runId = runId → Shows s payload) ∧
      (s.clicked = true → runId ∈ s.cancels)

/-- The slot holds the completion of the latest call. -/
def Stashed (owner : Uuid → Option ℕ) (s : State) : Prop :=
  ∃ payload, s.pendingCompletion = some payload ∧ (owner payload.runId).isSome = true ∧
    s.latest = owner payload.runId

/-- The latest run is not over, or with this status. -/
def MayShow (s : Watched) (status : ReportStatus) : Prop :=
  ∀ payload ∈ s.completions, s.run = some payload.runId →
    statusFromSyncRunStatus payload.status = status

/-- **An event that leaves the latest run alone**: it does not clear or overwrite the slot
with the completion of the latest call, and it does not write another status or another
draft than those of the latest run once that is over. -/
def Orderly (s : Watched) : Action owner → Prop
  | .resolve call _ _ =>
    call ∈ s.hook.invoked → s.hook.latest ≠ some call → ¬Stashed owner s.hook
  | .reject call _ =>
    call ∈ s.hook.invoked → s.hook.latest ≠ some call →
      ¬Stashed owner s.hook ∧ MayShow s .failed
  | .completed _ => s.hook.current.map (·.runId) = some none → ¬Stashed owner s.hook
  | .progress call event =>
    s.hook.IsCurrent call →
      MayShow s (deriveStatusFromProgress (s.hook.shown.progress ++ [event]))
  | .got request answer =>
    request ∈ s.hook.requests → ∀ draft, answer = .ok draft →
      ∀ earlier draft', (earlier, .ok draft') ∈ s.answers → s.run = some earlier.runId →
        draft = draft'
  | _ => True

/-- What holds of the latest run in orderly events. -/
structure Kept (owner : Uuid → Option ℕ) (s : Watched) : Prop where
  stashed : ∀ payload ∈ s.completions, ∀ call ∈ s.hook.invoked, s.hook.latest = some call →
    owner payload.runId = some call → s.hook.pendingCompletion = some payload
  status : ∀ payload ∈ s.completions, s.run = some payload.runId →
    s.hook.shown.status = statusFromSyncRunStatus payload.status
  fetched : ∀ payload ∈ s.completions, s.run = some payload.runId →
    ∀ draftId, payload.draftId = some draftId → ⟨draftId, payload.runId⟩ ∈ s.hook.requests ∨
      ∃ answer, (⟨draftId, payload.runId⟩, answer) ∈ s.answers
  draft : ∀ request draft, (request, .ok draft) ∈ s.answers → s.run = some request.runId →
    s.hook.shown.draft = some draft

/-- Where nothing is in flight, a run that is over is shown. -/
theorem faithful_of_kept (hknown : Known owner s) (hkept : Kept owner s) : Faithful s := by
  intro runId hrun
  refine ⟨fun hquiet payload hpayload hid => ?_, fun hclicked => ?_⟩
  · subst hid
    refine ⟨hkept.status payload hpayload hrun, fun draftId hdraft => ?_,
      fun draftId draft hdraft hanswer => hkept.draft _ draft hanswer hrun⟩
    rcases hkept.fetched payload hpayload hrun draftId hdraft with hasked | hanswered
    · rw [hquiet.2] at hasked
      exact absurd hasked List.not_mem_nil
    · exact hanswered
  · obtain ⟨-, -, -, -, -, hsent⟩ := hknown.running runId hrun
    exact hsent hclicked

/-! ### Orderly events -/

/-- An older call clears the slot, and shows its run id. -/
theorem resolve_of_not_current {t : State} (h : ¬t.IsCurrent call) :
    t.resolve owner call runId = { t with
      pendingCompletion := none
      shown := { t.shown with runId := some runId }
      writers := t.writers ++ [some call] } := by
  have hanswered : t.answered call runId = { t with
      shown := { t.shown with runId := some runId }
      writers := t.writers ++ [some call] } := by
    unfold State.answered State.named
    rw [if_neg h]
    rfl
  have hflushed : (t.answered call runId).flush owner call runId = { t with
      pendingCompletion := none
      shown := { t.shown with runId := some runId }
      writers := t.writers ++ [some call] } := by
    rw [hanswered]
    unfold State.flush
    dsimp only
    split
    · rfl
    · exact if_neg fun hmine => h hmine.1
  rw [State.resolve, hflushed]
  exact if_neg fun hdue => h hdue.2

/-- The latest call finds the completion of its run in the slot. -/
theorem resolve_of_stashed {t : State} {payload : ReportCompletedEvent} (h : t.IsCurrent call)
    (hslot : t.pendingCompletion = some payload) (hid : payload.runId = runId) :
    (t.resolve owner call runId).shown.status = statusFromSyncRunStatus payload.status ∧
      (t.resolve owner call runId).requests =
        t.requests ++ (payload.draftId.map fun draftId => ⟨draftId, payload.runId⟩).toList := by
  obtain ⟨-, -, -, -, hrequests, -, hshown⟩ :=
    honourCancel_frame ((t.answered call runId).flush owner call runId) call
  have hnamed : (t.answered call runId).IsCurrent call ∧
      (t.answered call runId).pendingCompletion = some payload ∧
      (t.answered call runId).requests = t.requests := by
    unfold State.answered State.named
    rw [if_pos h]
    exact ⟨rfl, hslot, rfl⟩
  obtain ⟨hcurrent, hpending, hasked⟩ := hnamed
  have hflushed : (t.answered call runId).flush owner call runId =
      State.applyReportCompletion { t.answered call runId with pendingCompletion := none } owner
        payload := by
    unfold State.flush
    rw [hpending]
    exact if_pos ⟨hcurrent, hid⟩
  constructor
  · rw [State.resolve, hshown, hflushed, applyReportCompletion_status]
  · rw [State.resolve, hrequests, hflushed, applyReportCompletion_requests]
    exact congrArg (· ++ _) hasked

theorem Kept.isStashed (h : Kept owner s) {payload : ReportCompletedEvent}
    (hpayload : payload ∈ s.completions) (hcall : call ∈ s.hook.invoked)
    (hlatest : s.hook.latest = some call) (howner : owner payload.runId = some call) :
    Stashed owner s.hook := by
  refine ⟨payload, h.stashed payload hpayload call hcall hlatest howner, ?_, ?_⟩
  · rw [howner]
    rfl
  · rw [howner]
    exact hlatest

/-- The answer to the latest call: a completion of its run waits in the slot. -/
theorem kept_resolve_latest (hknown : Known owner s) (h : Kept owner s)
    (howner : owner runId = some call) (hinvoked : call ∈ s.hook.invoked)
    (hlatest : s.hook.latest = some call) (cancels : List Uuid) :
    Kept owner { s with
      hook := s.answering owner call runId
      run := some runId
      cancels := cancels } := by
  obtain ⟨-, hinv, -, hlast, -, -, -⟩ :=
    resolve_frame { s.hook with invoked := s.hook.invoked.erase call } owner call runId
  obtain ⟨hcurrent, hnone, -⟩ := hknown.waiting call hinvoked hlatest
  have hmine : State.IsCurrent { s.hook with invoked := s.hook.invoked.erase call } call :=
    congrArg (Option.map Current.call) hcurrent
  have hstashed : ∀ payload ∈ s.completions, some runId = some payload.runId →
      payload.runId = runId ∧ s.hook.pendingCompletion = some payload := by
    intro payload hpayload hsame
    cases hsame
    exact ⟨rfl, h.stashed payload hpayload call hinvoked hlatest howner⟩
  unfold Watched.answering
  refine ⟨?_, ?_, ?_, ?_⟩
  · rw [hinv, hlast]
    intro payload hpayload other hother hsame
    cases hlatest.symm.trans hsame
    exact absurd hother hknown.nodup.not_mem_erase
  · intro payload hpayload hsame
    obtain ⟨hid, hslot⟩ := hstashed payload hpayload hsame
    exact (resolve_of_stashed hmine hslot hid).1
  · intro payload hpayload hsame draftId hdraftId
    obtain ⟨hid, hslot⟩ := hstashed payload hpayload hsame
    rw [(resolve_of_stashed hmine hslot hid).2, hdraftId]
    exact Or.inl (List.mem_append_right _ (List.mem_singleton_self _))
  · -- nothing was asked of the run before its id was known
    intro request draft hanswer hsame
    cases hsame
    obtain ⟨-, hsome⟩ := hknown.asked request (Or.inr (List.mem_map_of_mem hanswer)) call howner
    exact nomatch hnone.symm.trans (hsome hlatest)

/-- The answer to an older call clears the slot, which holds nothing of the latest call. -/
theorem kept_resolve_older (hknown : Known owner s) (h : Kept owner s)
    (hlatest : s.hook.latest ≠ some call) (hempty : ¬Stashed owner s.hook) :
    Kept owner { s with hook := s.answering owner call runId } := by
  have hmine : ¬s.hook.IsCurrent call := fun hcurrent =>
    hlatest (latest_of_isCurrent hknown.hook hcurrent)
  have hanswering : s.answering owner call runId = { s.hook with
      invoked := s.hook.invoked.erase call
      pendingCompletion := none
      shown := { s.hook.shown with runId := some runId }
      writers := s.hook.writers ++ [some call] } := resolve_of_not_current hmine
  rw [hanswering]
  refine ⟨?_, h.status, h.fetched, h.draft⟩
  intro payload hpayload other hother hsame hpayloadOwner
  have hcall := List.mem_of_mem_erase hother
  exact absurd (h.isStashed hpayload hcall hsame hpayloadOwner) hempty

theorem kept_resolve (hknown : Known owner s) (h : Kept owner s) (howner : owner runId = some call)
    (horderly : Orderly s (.resolve call runId howner)) :
    Kept owner (s.after (.resolve call runId howner)) := by
  by_cases hinvoked : call ∈ s.hook.invoked
  · rw [after_resolve hinvoked howner]
    by_cases hlatest : s.hook.latest = some call
    · rw [if_pos hlatest]
      exact kept_resolve_latest hknown h howner hinvoked hlatest _
    · have hmine : ¬s.hook.IsCurrent call := fun hcurrent =>
        hlatest (latest_of_isCurrent hknown.hook hcurrent)
      rw [if_neg hlatest, if_neg fun hdue => hmine hdue.2, List.append_nil]
      exact kept_resolve_older hknown h hlatest (horderly hinvoked hlatest)
  · have hstep : step owner s.hook (.resolve call runId howner) = s.hook := if_neg hinvoked
    rw [after_of_step_eq s hstep (Or.inr (Or.inl ⟨call, runId, howner, rfl, hinvoked⟩))]
    exact h

theorem kept_reject (hknown : Known owner s) (h : Kept owner s) (call : ℕ) (message : Text)
    (horderly : Orderly s (@Action.reject owner call message)) :
    Kept owner (s.after (@Action.reject owner call message)) := by
  by_cases hinvoked : call ∈ s.hook.invoked
  · rw [after_reject s message hinvoked]
    by_cases hlatest : s.hook.latest = some call
    · -- the call that failed has no run
      have hnone : s.run = none := (hknown.waiting call hinvoked hlatest).2.1
      have hno : ∀ runId, s.run ≠ some runId := fun runId hrun => nomatch hnone.symm.trans hrun
      refine ⟨?_, fun _ _ hrun => absurd hrun (hno _), fun _ _ hrun => absurd hrun (hno _),
        fun _ _ _ hrun => absurd hrun (hno _)⟩
      intro payload hpayload other hother hsame
      cases hlatest.symm.trans hsame
      exact absurd hother hknown.nodup.not_mem_erase
    · obtain ⟨hempty, hfailed⟩ := horderly hinvoked hlatest
      refine ⟨?_, ?_, h.fetched, h.draft⟩
      · intro payload hpayload other hother hsame hpayloadOwner
        have hcall := List.mem_of_mem_erase hother
        exact absurd (h.isStashed hpayload hcall hsame hpayloadOwner) hempty
      · exact fun payload hpayload hrun => (hfailed payload hpayload hrun).symm
  · have hstep : step owner s.hook (.reject call message) = s.hook := if_neg hinvoked
    rw [after_of_step_eq s hstep (Or.inr (Or.inr ⟨call, message, rfl⟩))]
    exact h

/-- No channels are installed: the completion is dropped. -/
theorem kept_completed_dropped (hknown : Known owner s) (h : Kept owner s)
    (payload : ReportCompletedEvent) (hcurrent : s.hook.current = none) :
    Kept owner { s with completions := s.completions ++ [payload] } := by
  have hnone : ∀ runId, s.run ≠ some runId := by
    intro runId hrun
    obtain ⟨call, -, -, hcur, -, -⟩ := hknown.running runId hrun
    exact nomatch hcurrent.symm.trans hcur
  refine ⟨List.forall_mem_append.mpr ⟨h.stashed, List.forall_mem_singleton.mpr ?_⟩,
    fun _ _ hrun => absurd hrun (hnone _), fun _ _ hrun => absurd hrun (hnone _), h.draft⟩
  intro call hcall hlatest
  exact nomatch hcurrent.symm.trans (hknown.waiting call hcall hlatest).1

/-- The id of the run is not known yet: the completion is stashed. -/
theorem kept_completed_stashed (hknown : Known owner s) (h : Kept owner s)
    (payload : ReportCompletedEvent) {ref : Current} (href : s.hook.current = some ref)
    (hid : ref.runId = none) (hfree : ¬Stashed owner s.hook) :
    Kept owner { s with
      hook := { s.hook with pendingCompletion := some payload }
      completions := s.completions ++ [payload] } := by
  have hnone : ∀ runId, s.run ≠ some runId := by
    intro runId hrun
    obtain ⟨call, -, -, hcur, -, -⟩ := hknown.running runId hrun
    cases href.symm.trans hcur
    exact nomatch hid
  refine ⟨List.forall_mem_append.mpr ⟨?_, List.forall_mem_singleton.mpr fun _ _ _ _ => rfl⟩,
    fun _ _ hrun => absurd hrun (hnone _), fun _ _ hrun => absurd hrun (hnone _), h.draft⟩
  intro other hother call hcall hlatest howner
  exact absurd (h.isStashed hother hcall hlatest howner) hfree

/-- The completion of the latest run is applied: none came before. -/
theorem kept_completed_applied (hknown : Known owner s) (h : Kept owner s)
    (payload : ReportCompletedEvent) (hrun : s.run = some payload.runId)
    (hfirst : payload.runId ∉ s.completions.map (·.runId)) :
    Kept owner { s with
      hook := s.hook.applyReportCompletion owner payload
      completions := s.completions ++ [payload] } := by
  have honly : ∀ other ∈ s.completions, s.run ≠ some other.runId := by
    intro other hother hsame
    apply hfirst
    rw [Option.some.inj (hrun.symm.trans hsame)]
    exact List.mem_map_of_mem hother
  obtain ⟨-, hinvoked, -, hlatest, -, hpending, hdraft⟩ :=
    applyReportCompletion_frame s.hook owner payload
  refine ⟨?_, ?_, ?_, ?_⟩
  · rw [hinvoked, hlatest]
    intro other _ call hcall hlast howner
    exact nomatch hrun.symm.trans (hknown.waiting call hcall hlast).2.1
  · refine List.forall_mem_append.mpr ⟨?_, List.forall_mem_singleton.mpr ?_⟩
    · exact fun other hother hsame => absurd hsame (honly other hother)
    · exact fun _ => applyReportCompletion_status s.hook owner payload
  · refine List.forall_mem_append.mpr ⟨?_, List.forall_mem_singleton.mpr ?_⟩
    · exact fun other hother hsame => absurd hsame (honly other hother)
    · intro _ draftId hdraftId
      rw [applyReportCompletion_requests, hdraftId]
      exact Or.inl (List.mem_append_right _ (List.mem_singleton_self _))
  · rw [hdraft]
    exact h.draft

/-- The completion of another run is passed over. -/
theorem kept_completed_other (hknown : Known owner s) (h : Kept owner s)
    (payload : ReportCompletedEvent) (hrun : s.run = some runId) (hother : payload.runId ≠ runId) :
    Kept owner { s with completions := s.completions ++ [payload] } := by
  have hne : s.run ≠ some payload.runId := by
    intro hsame
    exact hother (Option.some.inj (hsame.symm.trans hrun))
  refine ⟨?_, List.forall_mem_append.mpr ⟨h.status, List.forall_mem_singleton.mpr ?_⟩,
    List.forall_mem_append.mpr ⟨h.fetched, List.forall_mem_singleton.mpr ?_⟩, h.draft⟩
  · intro other _ call hcall hlast howner
    exact nomatch hrun.symm.trans (hknown.waiting call hcall hlast).2.1
  · exact fun hsame => absurd hsame hne
  · exact fun hsame => absurd hsame hne

theorem kept_completed_event (hknown : Known owner s) (h : Kept owner s)
    (payload : ReportCompletedEvent) (hpossible : s.Possible (@Action.completed owner payload))
    (horderly : Orderly s (@Action.completed owner payload)) :
    Kept owner (s.after (@Action.completed owner payload)) := by
  rw [after_completed]
  unfold State.completed
  split
  · next hcurrent => exact kept_completed_dropped hknown h payload hcurrent
  · next ref href =>
    split
    · next hid =>
      refine kept_completed_stashed hknown h payload href hid (horderly ?_)
      rw [href, Option.map_some, hid]
    · next runId hid =>
      have hrun : s.run = some runId := by
        refine hknown.named ref.call runId ?_
        rw [href, ← hid]
      split_ifs with hmine
      · subst hmine
        exact kept_completed_applied hknown h payload hrun hpossible.1
      · exact kept_completed_other hknown h payload hrun hmine

theorem kept_got (h : Kept owner s) (request : ReportGet) (answer : Except Text ReportDraft)
    (horderly : Orderly s (@Action.got owner request answer)) :
    Kept owner (s.after (@Action.got owner request answer)) := by
  by_cases hasked : request ∈ s.hook.requests
  · rw [after_got s answer hasked]
    refine ⟨h.stashed, ?_, ?_, ?_⟩
    · -- the status is not written, whatever the answer
      intro payload hpayload hrun
      refine Eq.trans ?_ (h.status payload hpayload hrun)
      cases answer <;> rfl
    · intro payload hpayload hrun draftId hdraftId
      rcases h.fetched payload hpayload hrun draftId hdraftId with hold | ⟨old, hold⟩
      · by_cases hsame : (⟨draftId, payload.runId⟩ : ReportGet) = request
        · exact Or.inr ⟨answer, List.mem_append_right _ (hsame ▸ List.mem_singleton_self _)⟩
        · exact Or.inl ((List.mem_erase_of_ne hsame).mpr hold)
      · exact Or.inr ⟨old, List.mem_append_left _ hold⟩
    · intro other draft hanswer hrun
      rcases List.mem_append.mp hanswer with hold | hnew
      · cases answer with
        | ok latest =>
          -- a second draft of the run is the one shown
          rw [← horderly hasked latest rfl other draft hold hrun]
          rfl
        | error message => exact h.draft other draft hold hrun
      · cases List.mem_singleton.mp hnew
        rfl
  · have hstep : step owner s.hook (.got request answer) = s.hook := if_neg hasked
    rw [after_of_step_eq s hstep (Or.inl ⟨request, answer, rfl, hasked⟩)]
    exact h

/-- **Orderly events keep what is known of the latest run.** -/
theorem kept_after (hknown : Known owner s) (h : Kept owner s) (a : Action owner)
    (hpossible : s.Possible a) (horderly : Orderly s a) : Kept owner (s.after a) := by
  cases a with
  | generate =>
    -- nobody has told of a run of the new call
    refine ⟨?_, nofun, nofun, nofun⟩
    intro payload hpayload call _ hlatest howner
    cases hlatest
    exact absurd (hknown.told payload hpayload _ howner) (lt_irrefl _)
  | resolve call runId howner => exact kept_resolve hknown h howner horderly
  | reject call message => exact kept_reject hknown h call message horderly
  | progress call event =>
    rw [after_progress]
    unfold State.progress
    split_ifs with hcurrent
    · exact ⟨h.stashed, fun payload hpayload hrun => (horderly hcurrent payload hpayload hrun).symm,
        h.fetched, h.draft⟩
    · exact h
  | log call event =>
    rw [after_log]
    unfold State.log
    split_ifs
    · exact ⟨h.stashed, h.status, h.fetched, h.draft⟩
    · exact h
  | completed payload => exact kept_completed_event hknown h payload hpossible horderly
  | got request answer => exact kept_got h request answer horderly
  | cancel =>
    show Kept owner { s with hook := s.hook.cancel, clicked := true, cancels := _ }
    unfold State.cancel
    split <;> exact ⟨h.stashed, h.status, h.fetched, h.draft⟩
  | reset =>
    refine ⟨?_, fun _ _ hrun => ?_, fun _ _ hrun => ?_, fun _ _ _ hrun => ?_⟩
    · exact fun _ _ _ _ hlatest => nomatch hlatest
    all_goals exact nomatch hrun

/-! ### Runs -/

/-- **A finished run is shown**: in every state of a run of orderly events in which nothing is in
flight, the latest run is shown if it is over, and no click on cancel was lost. -/
theorem finished_shown (owner : Uuid → Option ℕ) (actions : List (Action owner))
    (horderly : (watch owner).Allowed Orderly (watch owner).init actions) :
    (watch owner).Throughout Faithful (watch owner).init actions := by
  refine Machine.throughout_of_allowed (I := fun s => Known owner s ∧ Kept owner s)
    (fun s h => faithful_of_kept h.1 h.2) ?_ ⟨known_init owner, ?_⟩ horderly
  · rintro s a s' ⟨hknown, hkept⟩ ha hstep
    obtain ⟨hpossible, rfl⟩ := of_step hstep
    exact ⟨known_after hknown a hpossible, kept_after hknown hkept a hpossible ha⟩
  · exact ⟨fun _ hpayload => absurd hpayload List.not_mem_nil,
      fun _ hpayload => absurd hpayload List.not_mem_nil,
      fun _ hpayload => absurd hpayload List.not_mem_nil,
      fun _ _ hanswer => absurd hanswer List.not_mem_nil⟩

/-! ### A run that is over before its id is known -/

def draftOf (id : Uuid) : ReportDraft := ⟨id, ⟨0⟩, [], [], [], [], false, 0⟩

/-- The run is cancelled and over before its id is known; its draft comes last. -/
def quickRun : List (Action ownerOf) :=
  [.generate, .cancel, .completed ⟨1, .completed, some 7⟩, .resolve 0 1 ownerOf_one,
    .got ⟨7, 1⟩ (.ok (draftOf 7))]

theorem quick_run_shown :
    (watch ownerOf).Throughout Faithful (watch ownerOf).init quickRun ∧
      ((watch ownerOf).exec (watch ownerOf).init quickRun).any (fun s => decide
        (s.hook.shown.status = .completed ∧ s.hook.shown.draft = some (draftOf 7) ∧
          s.cancels = [1])) = true := by
  refine ⟨finished_shown ownerOf quickRun ⟨trivial, trivial, ?_, ?_, ?_, trivial⟩,
    by decide +kernel⟩
  · rintro - ⟨payload, hslot, -⟩
    exact nomatch hslot
  · exact fun _ hlatest => absurd rfl hlatest
  · exact fun _ _ _ _ _ hanswer => absurd hanswer List.not_mem_nil

/-- A run in the background is over while the hook waits for the id of its own. -/
def twoCompletions : List (Action ownerOf) :=
  [.generate, .completed ⟨1, .completed, some 7⟩, .completed ⟨9, .completed, some 8⟩,
    .resolve 0 1 ownerOf_one]

/-- **A completion that another one displaces** is lost: the run is over, and the screen
waits for it. -/
theorem completion_lost : ¬∀ (owner : Uuid → Option ℕ) (actions : List (Action owner)),
    (watch owner).Throughout Faithful (watch owner).init actions := by
  intro h
  have hrun : ((watch ownerOf).exec (watch ownerOf).init twoCompletions).any (fun s => decide
      (s.run = some 1 ∧ s.hook.invoked = [] ∧ s.hook.requests = [] ∧
        ⟨1, .completed, some 7⟩ ∈ s.completions ∧ s.hook.shown.status = .starting)) = true := by
    decide +kernel
  obtain ⟨s, hs, hlast⟩ := (Option.any_eq_true ..).mp hrun
  obtain ⟨hrunId, hinvoked, hrequests, hpayload, hstatus⟩ := of_decide_eq_true hlast
  have hfaithful := (h ownerOf twoCompletions).last hs
  have hshows := (hfaithful 1 hrunId).1 ⟨hinvoked, hrequests⟩ _ hpayload rfl
  exact absurd (hstatus.symm.trans hshows.status) (by decide)

end UseReport
end Dayseam
