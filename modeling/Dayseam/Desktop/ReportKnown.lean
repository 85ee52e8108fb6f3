import Dayseam.Desktop.UseReport
import Mathlib

/-!
# What the hook knows of its latest call

The hook learns the id of a run later than the run starts.  Until then a click on cancel is
kept in a flag, and sent when the id comes.  What the hook holds is looked at beside what
came and what it sent.

## Main definitions

* `Watched` — the hook, with what came and what it sent.
* `watch` — the hook, where each run tells once that it is over.
* `Known` — what the hook knows of its latest call, whatever comes.

## Main results

* `known_after` — each event keeps it.
* `cancel_sent` — **no click on cancel is lost.**
-/

namespace Dayseam
namespace UseReport

/-! ### What came and what was sent -/

/-- The hook; the run of the latest call, once its invocation has answered; the completions
and the drafts that came; whether cancel was clicked since the latest call, and the
`report_cancel` invocations since then. -/
structure Watched where
  hook : State
  run : Option Uuid
  completions : List ReportCompletedEvent
  answers : List (ReportGet × Except Text ReportDraft)
  clicked : Bool
  cancels : List Uuid

variable {owner : Uuid → Option ℕ}

/-- The `report_cancel` that an event makes the hook invoke; neither the id nor the flush of
the slot touches the flag. -/
def reportCancel (s : State) : Action owner → Option Uuid
  | .cancel => s.current.bind (·.runId)
  | .resolve call runId _ =>
    if call ∈ s.invoked ∧ s.cancelPending = true ∧ s.IsCurrent call then some runId else none
  | _ => none

namespace Watched

variable (s : Watched)

/-- A run tells once that it is over, and not before it was called for. -/
def Possible : Action owner → Prop
  | .completed payload => payload.runId ∉ s.completions.map (·.runId) ∧
      ∀ call ∈ owner payload.runId, call < s.hook.calls
  | _ => True

instance : DecidablePred (@Watched.Possible owner s) := fun a =>
  match a with
  | .completed _ => inferInstanceAs (Decidable (_ ∧ _))
  | .generate | .resolve _ _ _ | .reject _ _ | .progress _ _ | .log _ _ | .got _ _ | .cancel
  | .reset => isTrue trivial

def after (a : Action owner) : Watched where
  hook := step owner s.hook a
  run := match a with
    | .generate | .reset => none
    | .resolve call runId _ =>
      if call ∈ s.hook.invoked ∧ s.hook.latest = some call then some runId else s.run
    | _ => s.run
  completions := match a with
    | .completed payload => s.completions ++ [payload]
    | _ => s.completions
  answers := match a with
    | .got request answer =>
      if request ∈ s.hook.requests then s.answers ++ [(request, answer)] else s.answers
    | _ => s.answers
  clicked := match a with
    | .generate | .reset => false
    | .cancel => true
    | _ => s.clicked
  cancels := match a with
    | .generate | .reset => []
    | _ => s.cancels ++ (reportCancel s.hook a).toList

end Watched

section After

variable (s : Watched)

theorem after_progress (call : ℕ) (event : ProgressEvent) :
    s.after (@Action.progress owner call event) =
      { s with hook := s.hook.progress call event } := by
  simp [Watched.after, step, reportCancel]

theorem after_log (call : ℕ) (event : LogEvent) :
    s.after (@Action.log owner call event) = { s with hook := s.hook.log call event } := by
  simp [Watched.after, step, reportCancel]

theorem after_completed (payload : ReportCompletedEvent) :
    s.after (@Action.completed owner payload) = { s with
      hook := s.hook.completed owner payload
      completions := s.completions ++ [payload] } := by
  simp [Watched.after, step, reportCancel]

theorem after_got {request : ReportGet} (answer : Except Text ReportDraft)
    (h : request ∈ s.hook.requests) :
    s.after (@Action.got owner request answer) = { s with
      hook := State.got { s.hook with requests := s.hook.requests.erase request } owner request
        answer
      answers := s.answers ++ [(request, answer)] } := by
  simp [Watched.after, step, reportCancel, h]

theorem after_reject {call : ℕ} (message : Text) (h : call ∈ s.hook.invoked) :
    s.after (@Action.reject owner call message) = { s with
      hook := State.reject { s.hook with invoked := s.hook.invoked.erase call } call
        message } := by
  simp [Watched.after, step, reportCancel, h]

/-- What is not in flight does not answer. -/
theorem after_of_step_eq {a : Action owner} (hstep : step owner s.hook a = s.hook)
    (h : (∃ request answer, a = .got request answer ∧ request ∉ s.hook.requests) ∨
      (∃ call runId howner, a = .resolve call runId howner ∧ call ∉ s.hook.invoked) ∨
      ∃ call message, a = .reject call message) : s.after a = s := by
  rcases h with ⟨request, answer, rfl, h⟩ | ⟨call, runId, howner, rfl, h⟩ | ⟨call, message, rfl⟩
  · simp [Watched.after, hstep, reportCancel, h]
  · simp [Watched.after, hstep, reportCancel, h]
  · simp [Watched.after, hstep, reportCancel]

end After

def watch (owner : Uuid → Option ℕ) : Machine Watched (Action owner) where
  init := ⟨start, none, [], [], false, []⟩
  step := fun s a => if s.Possible a then some (s.after a) else none

theorem of_step {s s' : Watched} {a : Action owner} (h : (watch owner).step s a = some s') :
    s.Possible a ∧ s' = s.after a := by
  unfold watch at h
  dsimp only at h
  split_ifs at h with hpossible
  exact ⟨hpossible, (Option.some.inj h).symm⟩

/-! ### What the hook knows of the latest call -/

/-- What holds whatever comes: the channels and the flag are those of the latest call, and
nothing is asked for or answered of a run before its id is known. -/
structure Known (owner : Uuid → Option ℕ) (s : Watched) : Prop where
  hook : Inv owner s.hook
  nodup : s.hook.invoked.Nodup
  called : ∀ call, (call ∈ s.hook.invoked ∨ s.hook.latest = some call) → call < s.hook.calls
  waiting : ∀ call ∈ s.hook.invoked, s.hook.latest = some call →
    s.hook.current = some ⟨none, call⟩ ∧ s.run = none ∧
      (s.clicked = true → s.hook.cancelPending = true)
  running : ∀ runId, s.run = some runId → ∃ call, owner runId = some call ∧
    s.hook.latest = some call ∧ s.hook.current = some ⟨some runId, call⟩ ∧
      call ∉ s.hook.invoked ∧ (s.clicked = true → runId ∈ s.cancels)
  named : ∀ call runId, s.hook.current = some ⟨some runId, call⟩ → s.run = some runId
  asked : ∀ request, (request ∈ s.hook.requests ∨ request ∈ s.answers.map Prod.fst) →
    ∀ call, owner request.runId = some call →
      call < s.hook.calls ∧ (s.hook.latest = some call → s.run = some request.runId)
  told : ∀ payload ∈ s.completions, ∀ call, owner payload.runId = some call → call < s.hook.calls

variable {s : Watched} {call : ℕ} {runId : Uuid}

/-! ### The handlers -/

section Apply

variable (t : State) (owner : Uuid → Option ℕ) (payload : ReportCompletedEvent)

/-- A completion that is applied changes the status, and asks for the draft. -/
theorem applyReportCompletion_frame :
    (t.applyReportCompletion owner payload).current = t.current ∧
    (t.applyReportCompletion owner payload).invoked = t.invoked ∧
    (t.applyReportCompletion owner payload).calls = t.calls ∧
    (t.applyReportCompletion owner payload).latest = t.latest ∧
    (t.applyReportCompletion owner payload).cancelPending = t.cancelPending ∧
    (t.applyReportCompletion owner payload).pendingCompletion = t.pendingCompletion ∧
    (t.applyReportCompletion owner payload).shown.draft = t.shown.draft := by
  unfold State.applyReportCompletion
  dsimp only
  split <;> exact ⟨rfl, rfl, rfl, rfl, rfl, rfl, rfl⟩

theorem applyReportCompletion_status : (t.applyReportCompletion owner payload).shown.status =
    statusFromSyncRunStatus payload.status := by
  unfold State.applyReportCompletion
  dsimp only
  split <;> rfl

theorem applyReportCompletion_requests : (t.applyReportCompletion owner payload).requests =
    t.requests ++ (payload.draftId.map fun draftId => ⟨draftId, payload.runId⟩).toList := by
  unfold State.applyReportCompletion
  dsimp only
  split
  · next hdraft => rw [hdraft]; exact (List.append_nil _).symm
  · next hdraft => rw [hdraft]; rfl

end Apply

/-- A step that leaves the channels, the flag and the latest run as they are. -/
theorem Known.frame {t : Watched} (h : Known owner s) (hinv : Inv owner t.hook)
    (hcurrent : t.hook.current = s.hook.current)
    (hinvoked : t.hook.invoked.Sublist s.hook.invoked) (hcalls : t.hook.calls = s.hook.calls)
    (hlatest : t.hook.latest = s.hook.latest)
    (hflag : t.hook.cancelPending = s.hook.cancelPending) (hrun : t.run = s.run)
    (hclicked : t.clicked = s.clicked) (hcancels : t.cancels = s.cancels)
    (hasked : ∀ request, (request ∈ t.hook.requests ∨ request ∈ t.answers.map Prod.fst) →
      (request ∈ s.hook.requests ∨ request ∈ s.answers.map Prod.fst) ∨
        s.run = some request.runId)
    (htold : ∀ payload ∈ t.completions, payload ∈ s.completions ∨
      ∀ call ∈ owner payload.runId, call < s.hook.calls) : Known owner t where
  hook := hinv
  nodup := h.nodup.sublist hinvoked
  called := by
    rw [hcalls, hlatest]
    exact fun call hcall => h.called call (hcall.imp_left fun hmem => hinvoked.subset hmem)
  waiting := by
    rw [hcurrent, hlatest, hrun, hclicked, hflag]
    exact fun call hcall => h.waiting call (hinvoked.subset hcall)
  running := by
    rw [hcurrent, hlatest, hrun, hclicked, hcancels]
    intro runId hrunId
    obtain ⟨call, howner, hlast, hcur, hout, hsent⟩ := h.running runId hrunId
    exact ⟨call, howner, hlast, hcur, fun hmem => hout (hinvoked.subset hmem), hsent⟩
  named := by
    rw [hcurrent, hrun]
    exact h.named
  asked := by
    rw [hcalls, hlatest, hrun]
    intro request hrequest call howner
    rcases hasked request hrequest with hold | hnew
    · exact h.asked request hold call howner
    · obtain ⟨call', howner', hlast, -, -, -⟩ := h.running _ hnew
      rw [howner] at howner'
      cases howner'
      exact ⟨h.called call (Or.inr hlast), fun _ => hnew⟩
  told := by
    rw [hcalls]
    intro payload hpayload
    rcases htold payload hpayload with hold | hnew
    · exact h.told payload hold
    · exact hnew

theorem known_generate (h : Known owner s) : Known owner (s.after (@Action.generate owner)) where
  hook := kept_generate.1
  nodup := by
    refine List.nodup_append.mpr ⟨h.nodup, List.pairwise_singleton _ _, ?_⟩
    rintro call hcall _ hnew rfl
    rw [List.mem_singleton.mp hnew] at hcall
    exact absurd (h.called _ (Or.inl hcall)) (lt_irrefl _)
  called := by
    intro call hcall
    show call < s.hook.calls + 1
    rcases hcall with hcall | hcall
    · rcases List.mem_append.mp hcall with hold | hnew
      · exact Nat.lt_succ_of_lt (h.called call (Or.inl hold))
      · rw [List.mem_singleton.mp hnew]
        exact Nat.lt_succ_self _
    · cases hcall
      exact Nat.lt_succ_self _
  waiting := by
    intro call _ hlatest
    cases hlatest
    exact ⟨rfl, rfl, fun hclicked => nomatch hclicked⟩
  running := nofun
  named := fun _ _ hcurrent => nomatch hcurrent
  asked := by
    intro request hrequest call howner
    obtain ⟨hcall, -⟩ := h.asked request hrequest call howner
    refine ⟨Nat.lt_succ_of_lt hcall, fun hlatest => ?_⟩
    cases hlatest
    exact absurd hcall (lt_irrefl _)
  told := fun payload hpayload call howner =>
    Nat.lt_succ_of_lt (h.told payload hpayload call howner)

theorem known_reset (h : Known owner s) : Known owner (s.after (@Action.reset owner)) where
  hook := kept_reset.1
  nodup := h.nodup
  called := by
    rintro call (hcall | hcall)
    · exact h.called call (Or.inl hcall)
    · exact nomatch hcall
  waiting := fun _ _ hlatest => nomatch hlatest
  running := nofun
  named := fun _ _ hcurrent => nomatch hcurrent
  asked := fun request hrequest call howner =>
    ⟨(h.asked request hrequest call howner).1, fun hlatest => nomatch hlatest⟩
  told := h.told

theorem known_cancel (h : Known owner s) : Known owner (s.after (@Action.cancel owner)) := by
  have hinv : Inv owner s.hook.cancel := by
    unfold State.cancel
    split
    · exact ⟨h.hook.current, h.hook.runId, h.hook.unwritten⟩
    · exact h.hook
  have hframe : s.hook.cancel.current = s.hook.current ∧ s.hook.cancel.invoked = s.hook.invoked ∧
      s.hook.cancel.calls = s.hook.calls ∧ s.hook.cancel.latest = s.hook.latest ∧
      s.hook.cancel.requests = s.hook.requests := by
    unfold State.cancel
    split <;> exact ⟨rfl, rfl, rfl, rfl, rfl⟩
  obtain ⟨hcurrent, hinvoked, hcalls, hlatest, hrequests⟩ := hframe
  refine ⟨hinv, ?_, ?_, ?_, ?_, ?_, ?_, ?_⟩
  · show s.hook.cancel.invoked.Nodup
    rw [hinvoked]
    exact h.nodup
  · show ∀ call, (call ∈ s.hook.cancel.invoked ∨ s.hook.cancel.latest = some call) →
      call < s.hook.cancel.calls
    rw [hinvoked, hlatest, hcalls]
    exact h.called
  · -- the id is not known: the flag is set
    show ∀ call ∈ s.hook.cancel.invoked, s.hook.cancel.latest = some call →
      s.hook.cancel.current = _ ∧ s.run = none ∧ (_ → s.hook.cancel.cancelPending = true)
    rw [hinvoked, hlatest, hcurrent]
    intro call hcall hlast
    obtain ⟨hcur, hrun, -⟩ := h.waiting call hcall hlast
    refine ⟨hcur, hrun, fun _ => ?_⟩
    unfold State.cancel
    rw [hcur]
  · -- the id is known: the cancellation is sent at once
    show ∀ runId, s.run = some runId → ∃ call, owner runId = some call ∧
      s.hook.cancel.latest = some call ∧ s.hook.cancel.current = _ ∧
        call ∉ s.hook.cancel.invoked ∧ (_ → runId ∈ s.cancels ++ (s.hook.current.bind _).toList)
    rw [hinvoked, hlatest, hcurrent]
    intro runId hrun
    obtain ⟨call, howner, hlast, hcur, hout, -⟩ := h.running runId hrun
    refine ⟨call, howner, hlast, hcur, hout, fun _ => List.mem_append_right _ ?_⟩
    rw [hcur]
    exact List.mem_singleton_self _
  · show ∀ call runId, s.hook.cancel.current = _ → _
    rw [hcurrent]
    exact h.named
  · show ∀ request, (request ∈ s.hook.cancel.requests ∨ _) → ∀ call, owner request.runId = _ →
      call < s.hook.cancel.calls ∧ (s.hook.cancel.latest = _ → _)
    rw [hrequests, hcalls, hlatest]
    exact h.asked
  · show ∀ payload ∈ s.completions, ∀ call, owner payload.runId = _ → call < s.hook.cancel.calls
    rw [hcalls]
    exact h.told

theorem known_channel (h : Known owner s) {a : Action owner} {write : ReportState → ReportState}
    (hafter : s.after a = { s with
      hook := if s.hook.IsCurrent call then s.hook.setState (some call) write else s.hook }) :
    Known owner (s.after a) := by
  rw [hafter]
  have hold : ∀ request, (request ∈ s.hook.requests ∨ request ∈ s.answers.map Prod.fst) →
      (request ∈ s.hook.requests ∨ request ∈ s.answers.map Prod.fst) ∨
        s.run = some request.runId := fun _ => Or.inl
  split_ifs
  · exact h.frame (h.hook.setState _ _) rfl (List.Sublist.refl _) rfl rfl rfl rfl rfl rfl hold
      fun _ => Or.inl
  · exact h

theorem known_got (h : Known owner s) (request : ReportGet) (answer : Except Text ReportDraft) :
    Known owner (s.after (@Action.got owner request answer)) := by
  by_cases hasked : request ∈ s.hook.requests
  · rw [after_got s answer hasked]
    refine h.frame ?_ rfl (List.Sublist.refl _) rfl rfl rfl rfl rfl rfl ?_ fun _ => Or.inl
    · have herased : Inv owner { s.hook with requests := s.hook.requests.erase request } :=
        ⟨h.hook.current, h.hook.runId, h.hook.unwritten⟩
      show Inv owner (State.got _ owner request answer)
      exact herased.setState _ _
    · -- the answered request was asked for
      intro other hother
      refine Or.inl ?_
      rcases hother with hother | hother
      · exact Or.inl (List.mem_of_mem_erase hother)
      · rw [List.map_append] at hother
        rcases List.mem_append.mp hother with hother | hother
        · exact Or.inr hother
        · rw [List.mem_singleton.mp hother]
          exact Or.inl hasked
  · have hstep : step owner s.hook (.got request answer) = s.hook := if_neg hasked
    rw [after_of_step_eq s hstep (Or.inl ⟨request, answer, rfl, hasked⟩)]
    exact h

theorem known_completed (h : Known owner s) (payload : ReportCompletedEvent)
    (hpossible : s.Possible (@Action.completed owner payload)) :
    Known owner (s.after (@Action.completed owner payload)) := by
  have htold : ∀ other ∈ s.completions ++ [payload], other ∈ s.completions ∨
      ∀ call ∈ owner other.runId, call < s.hook.calls := by
    intro other hother
    rcases List.mem_append.mp hother with hother | hother
    · exact Or.inl hother
    · rw [List.mem_singleton.mp hother]
      exact Or.inr hpossible.2
  rw [after_completed]
  unfold State.completed
  split
  · exact h.frame h.hook rfl (List.Sublist.refl _) rfl rfl rfl rfl rfl rfl (fun _ => Or.inl) htold
  · next ref href =>
    split
    · exact h.frame ⟨h.hook.current, h.hook.runId, h.hook.unwritten⟩ rfl (List.Sublist.refl _) rfl
        rfl rfl rfl rfl rfl (fun _ => Or.inl) htold
    · next runId hrun =>
      split_ifs with hmine
      · -- the draft that is asked for is of the run whose id is known
        obtain ⟨hcurrent, hinvoked, hcalls, hlatest, hflag, -, -⟩ :=
          applyReportCompletion_frame s.hook owner payload
        refine h.frame (h.hook.applyReportCompletion payload) hcurrent
          (hinvoked ▸ List.Sublist.refl _) hcalls hlatest hflag rfl rfl rfl ?_ htold
        intro request hrequest
        rcases hrequest with hrequest | hrequest
        · rw [applyReportCompletion_requests] at hrequest
          rcases List.mem_append.mp hrequest with hrequest | hrequest
          · exact Or.inl (Or.inl hrequest)
          · obtain ⟨draftId, -, rfl⟩ := Option.map_eq_some_iff.mp (Option.mem_toList.mp hrequest)
            refine Or.inr (h.named ref.call _ ?_)
            rw [href, hmine, ← hrun]
        · exact Or.inl (Or.inr hrequest)
      · exact h.frame h.hook rfl (List.Sublist.refl _) rfl rfl rfl rfl rfl rfl (fun _ => Or.inl)
          htold

theorem known_reject (h : Known owner s) (call : ℕ) (message : Text) :
    Known owner (s.after (@Action.reject owner call message)) := by
  by_cases hinvoked : call ∈ s.hook.invoked
  · have herased : Inv owner { s.hook with invoked := s.hook.invoked.erase call } :=
      ⟨h.hook.current, h.hook.runId, h.hook.unwritten⟩
    rw [after_reject s message hinvoked]
    by_cases hcurrent : s.hook.IsCurrent call
    · -- the latest call has failed: it has no run
      have hlatest := latest_of_isCurrent h.hook hcurrent
      have hrun : s.run = none := (h.waiting call hinvoked hlatest).2.1
      refine ⟨inv_reject herased message, h.nodup.erase call, ?_, ?_, ?_, ?_, ?_, h.told⟩
      · exact fun other hother =>
          h.called other (hother.imp_left fun hmem => List.mem_of_mem_erase hmem)
      · intro other hother hlast
        have hsame : some other = some call := hlast.symm.trans hlatest
        cases hsame
        exact absurd hother h.nodup.not_mem_erase
      · intro runId hrunId
        exact nomatch hrun.symm.trans hrunId
      · intro other runId hother
        have hnone : (State.reject { s.hook with invoked := s.hook.invoked.erase call } call
            message).current = none := if_pos hcurrent
        exact nomatch hnone.symm.trans hother
      · exact h.asked
    · refine h.frame (inv_reject herased message) (if_neg hcurrent) List.erase_sublist rfl rfl rfl
        rfl rfl rfl (fun _ => Or.inl) fun _ => Or.inl
  · have hstep : step owner s.hook (.reject call message) = s.hook := if_neg hinvoked
    rw [after_of_step_eq s hstep (Or.inr (Or.inr ⟨call, message, rfl⟩))]
    exact h

/-! ### The answer to a call -/

section Resolve

variable (t : State) (owner : Uuid → Option ℕ) (call : ℕ) (runId : Uuid)

theorem flush_frame :
    (t.flush owner call runId).current = t.current ∧
    (t.flush owner call runId).invoked = t.invoked ∧
    (t.flush owner call runId).calls = t.calls ∧
    (t.flush owner call runId).latest = t.latest ∧
    (t.flush owner call runId).cancelPending = t.cancelPending ∧
    (t.flush owner call runId).shown.draft = t.shown.draft := by
  unfold State.flush
  dsimp only
  split
  · exact ⟨rfl, rfl, rfl, rfl, rfl, rfl⟩
  · next payload _ =>
    split_ifs
    · obtain ⟨hcurrent, hinvoked, hcalls, hlatest, hflag, -, hdraft⟩ :=
        applyReportCompletion_frame { t with pendingCompletion := none } owner payload
      exact ⟨hcurrent, hinvoked, hcalls, hlatest, hflag, hdraft⟩
    · exact ⟨rfl, rfl, rfl, rfl, rfl, rfl⟩

/-- The flush asks for the draft of the run of the call only. -/
theorem mem_requests_flush {request : ReportGet}
    (h : request ∈ (t.flush owner call runId).requests) :
    request ∈ t.requests ∨ (t.IsCurrent call ∧ request.runId = runId) := by
  unfold State.flush at h
  dsimp only at h
  split at h
  · exact Or.inl h
  · split_ifs at h with hmine
    · rw [applyReportCompletion_requests] at h
      rcases List.mem_append.mp h with h | h
      · exact Or.inl h
      · obtain ⟨draftId, -, rfl⟩ := Option.map_eq_some_iff.mp (Option.mem_toList.mp h)
        exact Or.inr ⟨hmine.1, hmine.2⟩
    · exact Or.inl h

theorem honourCancel_frame :
    (t.honourCancel call).current = t.current ∧
    (t.honourCancel call).invoked = t.invoked ∧
    (t.honourCancel call).calls = t.calls ∧
    (t.honourCancel call).latest = t.latest ∧
    (t.honourCancel call).requests = t.requests ∧
    (t.honourCancel call).pendingCompletion = t.pendingCompletion ∧
    (t.honourCancel call).shown = t.shown := by
  unfold State.honourCancel
  split_ifs <;> exact ⟨rfl, rfl, rfl, rfl, rfl, rfl, rfl⟩

/-- **The answer to a call** touches the channels of the latest call only. -/
theorem resolve_frame :
    (t.resolve owner call runId).current =
      (if t.IsCurrent call then some ⟨some runId, call⟩ else t.current) ∧
    (t.resolve owner call runId).invoked = t.invoked ∧
    (t.resolve owner call runId).calls = t.calls ∧
    (t.resolve owner call runId).latest = t.latest ∧
    (t.resolve owner call runId).shown.draft = t.shown.draft ∧
    (¬t.IsCurrent call → (t.resolve owner call runId).cancelPending = t.cancelPending) ∧
    ∀ request ∈ (t.resolve owner call runId).requests,
      request ∈ t.requests ∨ (t.IsCurrent call ∧ request.runId = runId) := by
  obtain ⟨hhc, hhi, hhn, hhl, hhr, -, hhs⟩ :=
    honourCancel_frame ((t.answered call runId).flush owner call runId) call
  obtain ⟨hfc, hfi, hfn, hfl, hff, hfd⟩ := flush_frame (t.answered call runId) owner call runId
  have hnamed : (t.answered call runId).current =
      (if t.IsCurrent call then some ⟨some runId, call⟩ else t.current) ∧
      (t.answered call runId).invoked = t.invoked ∧ (t.answered call runId).calls = t.calls ∧
      (t.answered call runId).latest = t.latest ∧
      (t.answered call runId).cancelPending = t.cancelPending ∧
      (t.answered call runId).requests = t.requests ∧
      (t.answered call runId).shown.draft = t.shown.draft := by
    unfold State.answered State.named
    split_ifs <;> exact ⟨rfl, rfl, rfl, rfl, rfl, rfl, rfl⟩
  obtain ⟨hnc, hni, hnn, hnl, hnf, hnr, hnd⟩ := hnamed
  have hiff : (t.answered call runId).IsCurrent call ↔ t.IsCurrent call := by
    unfold State.IsCurrent
    rw [hnc]
    split_ifs with hcurrent
    · exact iff_of_true rfl hcurrent
    · exact Iff.rfl
  refine ⟨hhc.trans (hfc.trans hnc), hhi.trans (hfi.trans hni), hhn.trans (hfn.trans hnn),
    hhl.trans (hfl.trans hnl), ?_, fun hcurrent => ?_, fun request hrequest => ?_⟩
  · exact (congrArg ReportState.draft hhs).trans (hfd.trans hnd)
  · -- a cancel is honoured for the current call only
    have hout : ¬((t.answered call runId).flush owner call runId).IsCurrent call := by
      unfold State.IsCurrent
      rw [hfc]
      exact fun h => hcurrent (hiff.mp h)
    have hkeep : ((t.answered call runId).flush owner call runId).honourCancel call =
        (t.answered call runId).flush owner call runId := if_neg fun h => hout h.2
    exact (congrArg State.cancelPending hkeep).trans (hff.trans hnf)
  · have hmem := mem_requests_flush (t.answered call runId) owner call runId (hhr ▸ hrequest)
    rw [hnr, hiff] at hmem
    exact hmem

end Resolve

/-- What is left when a call is answered. -/
def Watched.answering (s : Watched) (owner : Uuid → Option ℕ) (call : ℕ) (runId : Uuid) : State :=
  State.resolve { s.hook with invoked := s.hook.invoked.erase call } owner call runId

theorem after_resolve (hinvoked : call ∈ s.hook.invoked) (howner : owner runId = some call) :
    s.after (.resolve call runId howner) = { s with
      hook := s.answering owner call runId
      run := if s.hook.latest = some call then some runId else s.run
      cancels := s.cancels ++
        (if s.hook.cancelPending = true ∧ s.hook.IsCurrent call then [runId] else []) } := by
  simp only [Watched.after, Watched.answering, step, reportCancel, hinvoked, if_true, true_and]
  split_ifs <;> rfl

theorem Known.erase (h : Known owner s) :
    Inv owner { s.hook with invoked := s.hook.invoked.erase call } :=
  ⟨h.hook.current, h.hook.runId, h.hook.unwritten⟩

/-- The answer to the latest call: its run is known, and a cancel that waits is sent. -/
theorem known_resolve_latest (h : Known owner s) (howner : owner runId = some call)
    (hinvoked : call ∈ s.hook.invoked) (hlatest : s.hook.latest = some call) :
    Known owner { s with
      hook := s.answering owner call runId
      run := some runId
      cancels := s.cancels ++
        (if s.hook.cancelPending = true ∧ s.hook.IsCurrent call then [runId] else []) } := by
  obtain ⟨hcur, hinv, hcalls, hlast, -, -, hrequests⟩ :=
    resolve_frame { s.hook with invoked := s.hook.invoked.erase call } owner call runId
  obtain ⟨hcurrent, hrun, hpending⟩ := h.waiting call hinvoked hlatest
  have hmine : s.hook.IsCurrent call := congrArg (Option.map Current.call) hcurrent
  have hout : call ∉ s.hook.invoked.erase call := h.nodup.not_mem_erase
  have hset := hcur.trans (if_pos hmine)
  unfold Watched.answering
  refine ⟨inv_resolve h.erase howner, ?_, ?_, ?_, ?_, ?_, ?_, ?_⟩
  · rw [hinv]
    exact h.nodup.erase call
  · rw [hinv, hlast, hcalls]
    exact fun other hother =>
      h.called other (hother.imp_left fun hmem => List.mem_of_mem_erase hmem)
  · rw [hinv, hlast]
    intro other hother hsame
    cases hlatest.symm.trans hsame
    exact absurd hother hout
  · -- the id is known now, and the flag is looked at
    intro other hother
    cases hother
    refine ⟨call, howner, hlast.trans hlatest, hset, hinv ▸ hout,
      fun hclicked => List.mem_append_right _ ?_⟩
    rw [if_pos ⟨hpending hclicked, hmine⟩]
    exact List.mem_singleton_self _
  · intro other otherRun hother
    cases hset.symm.trans hother
    rfl
  · rw [hcalls, hlast]
    intro request hrequest other hother
    have hold : request.runId = runId ∨
        (request ∈ s.hook.requests ∨ request ∈ s.answers.map Prod.fst) := by
      rcases hrequest with hrequest | hrequest
      · exact (hrequests request hrequest).elim (fun hmem => Or.inr (Or.inl hmem))
          fun hnew => Or.inl hnew.2
      · exact Or.inr (Or.inr hrequest)
    rcases hold with hnew | hold
    · rw [hnew, howner] at hother
      cases hother
      exact ⟨h.called call (Or.inl hinvoked), fun _ => congrArg some hnew.symm⟩
    · obtain ⟨hcalled, hknown⟩ := h.asked request hold other hother
      exact ⟨hcalled, fun hsame => nomatch hrun.symm.trans (hknown hsame)⟩
  · rw [hcalls]
    exact h.told

/-- The answer to an older call: its channels are not installed. -/
theorem known_resolve_older (h : Known owner s) (howner : owner runId = some call)
    (hlatest : s.hook.latest ≠ some call) :
    Known owner { s with hook := s.answering owner call runId } := by
  obtain ⟨hcur, hinv, hcalls, hlast, -, hflag, hrequests⟩ :=
    resolve_frame { s.hook with invoked := s.hook.invoked.erase call } owner call runId
  have hmine : ¬s.hook.IsCurrent call := fun hcurrent =>
    hlatest (latest_of_isCurrent h.hook hcurrent)
  unfold Watched.answering
  refine h.frame (inv_resolve h.erase howner) (hcur.trans (if_neg hmine)) ?_ hcalls hlast
    (hflag hmine) rfl rfl rfl ?_ fun _ => Or.inl
  · rw [hinv]
    exact List.erase_sublist
  · rintro request (hrequest | hrequest)
    · exact Or.inl (Or.inl ((hrequests request hrequest).resolve_right fun hnew => hmine hnew.1))
    · exact Or.inl (Or.inr hrequest)

theorem known_resolve (h : Known owner s) (howner : owner runId = some call) :
    Known owner (s.after (.resolve call runId howner)) := by
  by_cases hinvoked : call ∈ s.hook.invoked
  · rw [after_resolve hinvoked howner]
    by_cases hlatest : s.hook.latest = some call
    · rw [if_pos hlatest]
      exact known_resolve_latest h howner hinvoked hlatest
    · have hmine : ¬s.hook.IsCurrent call := fun hcurrent =>
        hlatest (latest_of_isCurrent h.hook hcurrent)
      rw [if_neg hlatest, if_neg fun hdue => hmine hdue.2, List.append_nil]
      exact known_resolve_older h howner hlatest
  · have hstep : step owner s.hook (.resolve call runId howner) = s.hook := if_neg hinvoked
    rw [after_of_step_eq s hstep (Or.inr (Or.inl ⟨call, runId, howner, rfl, hinvoked⟩))]
    exact h

/-- **What the hook knows of the latest call**, whatever comes. -/
theorem known_after (h : Known owner s) (a : Action owner) (hpossible : s.Possible a) :
    Known owner (s.after a) := by
  cases a with
  | generate => exact known_generate h
  | resolve call runId howner => exact known_resolve h howner
  | reject call message => exact known_reject h call message
  | progress call event => exact known_channel h (after_progress s call event)
  | log call event => exact known_channel h (after_log s call event)
  | completed payload => exact known_completed h payload hpossible
  | got request answer => exact known_got h request answer
  | cancel => exact known_cancel h
  | reset => exact known_reset h

theorem known_init (owner : Uuid → Option ℕ) : Known owner (watch owner).init where
  hook := ⟨nofun, nofun, fun _ _ => rfl⟩
  nodup := List.nodup_nil
  called := by
    rintro call (hcall | hcall)
    · exact absurd hcall List.not_mem_nil
    · exact nomatch hcall
  waiting := fun _ hcall => absurd hcall List.not_mem_nil
  running := nofun
  named := nofun
  asked := by
    rintro request (hrequest | hrequest)
    · exact absurd hrequest List.not_mem_nil
    · exact absurd hrequest List.not_mem_nil
  told := fun _ hpayload => absurd hpayload List.not_mem_nil

/-! ### Runs -/

/-- **No click is lost**: cancel is sent for the latest run, if it was clicked since the latest
call, whatever else comes. -/
theorem cancel_sent (owner : Uuid → Option ℕ) (actions : List (Action owner)) :
    (watch owner).Throughout (fun s => ∀ runId, s.run = some runId → s.clicked = true →
      runId ∈ s.cancels) (watch owner).init actions := by
  refine Machine.throughout_of_allowed (I := Known owner) ?_ ?_ (known_init owner)
    (Machine.allowed_true _ actions)
  · intro s hknown runId hrun
    obtain ⟨-, -, -, -, -, hsent⟩ := hknown.running runId hrun
    exact hsent
  · intro s a s' hknown _ hstep
    obtain ⟨hpossible, rfl⟩ := of_step hstep
    exact known_after hknown a hpossible

end UseReport
end Dayseam
