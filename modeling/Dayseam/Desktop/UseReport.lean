import Dayseam.Db.SyncRuns
import Dayseam.Lib.Machine
import Mathlib

/-!
# The report screen

One hook holds what the report screen shows.  A call of `generate` starts a run and learns
its id later; meanwhile and afterwards there come progress events, the completions of this
and of other runs, and the drafts that the hook asks for.

## Main definitions

* `UseReport.State` — what is shown, the references of the hook, and what is in flight.
* `UseReport.step` — the handlers; each write of what is shown is marked with the call
  whose event it is.
* `UseReport.Timely` — an answer that comes while its call is the latest.

## Main results

* `UseReport.unmixed_iff` — **when the screen shows one run.**
* `UseReport.late_resolution` — two overlapping calls.
-/

namespace Dayseam
namespace UseReport

/-! ### What is shown -/

inductive ProgressPhase
  | starting (message : Text)
  | inProgress (completed : ℕ) (total : Option ℕ) (message : Text)
  | completed (message : Text)
  | cancelled (message : Text)
  | failed (code message : Text)
  deriving DecidableEq

structure ProgressEvent where
  sourceId : Option Uuid
  phase : ProgressPhase
  deriving DecidableEq

structure LogEvent where
  sourceId : Option Uuid
  message : Text
  deriving DecidableEq

structure ReportCompletedEvent where
  runId : Uuid
  status : SyncRunStatus
  draftId : Option Uuid
  deriving DecidableEq

inductive ReportStatus
  | idle
  | starting
  | running
  | completed
  | cancelled
  | failed
  deriving DecidableEq

structure ReportState where
  runId : Option Uuid
  status : ReportStatus
  progress : List ProgressEvent
  logs : List LogEvent
  draft : Option ReportDraft
  error : Option Text
  deriving DecidableEq

def INITIAL : ReportState := ⟨none, .idle, [], [], none, none⟩

/-- Only an event of the run as a whole ends it. -/
def deriveStatusFromProgress (events : List ProgressEvent) : ReportStatus :=
  match events.getLast? with
  | none => .starting
  | some last => match last.phase with
    | .starting _ => .starting
    | .inProgress _ _ _ => .running
    | .completed _ => if last.sourceId = none then .completed else .running
    | .cancelled _ => if last.sourceId = none then .cancelled else .running
    | .failed _ _ => if last.sourceId = none then .failed else .running

def statusFromSyncRunStatus : SyncRunStatus → ReportStatus
  | .completed => .completed
  | .cancelled => .cancelled
  | .failed => .failed
  | .running => .running

/-! ### The hook -/

/-- The call whose channels are installed, and the id of its run once it is known. -/
structure Current where
  runId : Option Uuid
  call : ℕ

/-- A `report_get` in flight, and the run whose draft it asks for. -/
structure ReportGet where
  draftId : Uuid
  runId : Uuid
  deriving DecidableEq

/-- What is shown, the references of the mounted hook, the answers that are to come, and the
number of calls.  The last two fields are ours: the latest call, or none after a reset, and
the calls whose events wrote what is shown since then; a run that no call started is of
none. -/
structure State where
  shown : ReportState
  current : Option Current
  draftId : Option Uuid
  cancelPending : Bool
  pendingCompletion : Option ReportCompletedEvent
  invoked : List ℕ
  requests : List ReportGet
  calls : ℕ
  latest : Option ℕ
  writers : List (Option ℕ)

def start : State := ⟨INITIAL, none, none, false, none, [], [], 0, none, []⟩

/-- What can happen.  The id of a run tells which call started it. -/
inductive Action (owner : Uuid → Option ℕ)
  | generate
  /-- `report_generate` of a call answers -/
  | resolve (call : ℕ) (runId : Uuid) (h : owner runId = some call)
  | reject (call : ℕ) (message : Text)
  /-- an event on a channel of a call -/
  | progress (call : ℕ) (event : ProgressEvent)
  | log (call : ℕ) (event : LogEvent)
  /-- `report:completed` of any run -/
  | completed (payload : ReportCompletedEvent)
  /-- `report_get` answers -/
  | got (request : ReportGet) (answer : Except Text ReportDraft)
  | cancel
  | reset

namespace State

variable (s : State) (owner : Uuid → Option ℕ)

/-- `setState` with a function, in the handler of an event of a call. -/
def setState (writer : Option ℕ) (write : ReportState → ReportState) : State :=
  { s with shown := write s.shown, writers := s.writers ++ [writer] }

/-- `setState` with a value. -/
def replaceState (latest : Option ℕ) (shown : ReportState) : State :=
  { s with shown := shown, latest := latest, writers := [] }

/-- The channels of the call are installed. -/
def IsCurrent (call : ℕ) : Prop := s.current.map (·.call) = some call

instance (call : ℕ) : Decidable (s.IsCurrent call) := inferInstanceAs (Decidable (_ = _))

def applyReportCompletion (payload : ReportCompletedEvent) : State :=
  let s := s.setState (owner payload.runId) fun prev =>
    { prev with status := statusFromSyncRunStatus payload.status }
  match payload.draftId with
  | none => s
  | some draftId =>
    { s with draftId := some draftId, requests := s.requests ++ [⟨draftId, payload.runId⟩] }

/-- The start of `generate`. -/
def generate : State :=
  let call := s.calls
  let s := { s with
    current := some ⟨none, call⟩, draftId := none, cancelPending := false,
    pendingCompletion := none, invoked := s.invoked ++ [call], calls := call + 1 }
  s.replaceState (some call) { INITIAL with status := .starting }

/-- The completion that came before the id of its run. -/
def flush (call : ℕ) (runId : Uuid) : State :=
  -- the slot is cleared before it is asked whose it is
  let stashed := s.pendingCompletion
  let s := { s with pendingCompletion := none }
  match stashed with
  | none => s
  | some payload =>
    if s.IsCurrent call ∧ payload.runId = runId then s.applyReportCompletion owner payload else s

/-- The call learns the id of its run. -/
def named (call : ℕ) (runId : Uuid) : State :=
  if s.IsCurrent call then { s with current := some ⟨some runId, call⟩ } else s

/-- A cancellation that was asked for before the id was known is sent. -/
def honourCancel (call : ℕ) : State :=
  if s.cancelPending = true ∧ s.IsCurrent call then { s with cancelPending := false } else s

/-- The id of the run is shown. -/
def answered (call : ℕ) (runId : Uuid) : State :=
  (s.named call runId).setState (some call) fun prev => { prev with runId := some runId }

/-- `generate`, after its invocation has answered. -/
def resolve (call : ℕ) (runId : Uuid) : State :=
  ((s.answered call runId).flush owner call runId).honourCancel call

/-- The channels of a call that failed are not listened to. -/
def abandoned (call : ℕ) : State :=
  { s with
    current := if s.IsCurrent call then none else s.current
    -- also where the slot is of a later call
    pendingCompletion := none }

/-- `generate`, after its invocation has failed. -/
def reject (call : ℕ) (message : Text) : State :=
  (s.abandoned call).setState (some call) fun prev =>
    { prev with status := .failed, error := some message }

/-- `progress.onmessage` of a call. -/
def progress (call : ℕ) (event : ProgressEvent) : State :=
  if s.IsCurrent call then
    s.setState (some call) fun prev =>
      { prev with
        progress := prev.progress ++ [event]
        status := deriveStatusFromProgress (prev.progress ++ [event]) }
  else s

/-- `logs.onmessage` of a call. -/
def log (call : ℕ) (event : LogEvent) : State :=
  if s.IsCurrent call then
    s.setState (some call) fun prev => { prev with logs := prev.logs ++ [event] }
  else s

/-- The listener of `report:completed`. -/
def completed (payload : ReportCompletedEvent) : State :=
  match s.current with
  | none => s
  | some ref => match ref.runId with
    -- the one slot is written, whichever run the completion is of
    | none => { s with pendingCompletion := some payload }
    | some runId => if payload.runId = runId then s.applyReportCompletion owner payload else s

/-- The answer to `report_get`. -/
def got (request : ReportGet) (answer : Except Text ReportDraft) : State :=
  s.setState (owner request.runId) fun prev => match answer with
    | .ok draft => { prev with draft := some draft }
    | .error message => { prev with error := some message }

def cancel : State :=
  match s.current with
  -- the id is not known: the answer to the call will see to it
  | some ⟨none, _⟩ => { s with cancelPending := true }
  | _ => s

def reset : State :=
  let s := { s with
    current := none, draftId := none, cancelPending := false, pendingCompletion := none }
  s.replaceState none INITIAL

end State

/-- One event; an invocation answers once. -/
def step (owner : Uuid → Option ℕ) (s : State) : Action owner → State
  | .generate => s.generate
  | .resolve call runId _ =>
    if call ∈ s.invoked then
      State.resolve { s with invoked := s.invoked.erase call } owner call runId
    else s
  | .reject call message =>
    if call ∈ s.invoked then State.reject { s with invoked := s.invoked.erase call } call message
    else s
  | .progress call event => s.progress call event
  | .log call event => s.log call event
  | .completed payload => s.completed owner payload
  | .got request answer =>
    if request ∈ s.requests then
      State.got { s with requests := s.requests.erase request } owner request answer
    else s
  | .cancel => s.cancel
  | .reset => s.reset

/-- All events, in any order. -/
def machine (owner : Uuid → Option ℕ) : Machine State (Action owner) where
  init := start
  step := fun s a => some (step owner s a)

/-! ### One run -/

/-- What is shown was written by events of the latest call, or is initial where a reset, or
nothing, came last. -/
def Unmixed (s : State) : Prop :=
  (∀ writer ∈ s.writers, writer.isSome = true ∧ writer = s.latest) ∧
    (s.latest = none → s.shown = INITIAL)

/-- **An answer that comes in time**: its call is the latest. -/
def Timely (owner : Uuid → Option ℕ) (s : State) : Action owner → Prop
  | .resolve call _ _ => call ∈ s.invoked → s.latest = some call
  | .reject call _ => call ∈ s.invoked → s.latest = some call
  | .got request _ =>
    request ∈ s.requests → (owner request.runId).isSome = true ∧ s.latest = owner request.runId
  | _ => True

/-- The installed channels are those of the latest call, which knows its own run. -/
structure Inv (owner : Uuid → Option ℕ) (s : State) : Prop where
  current : ∀ ref, s.current = some ref → s.latest = some ref.call
  runId : ∀ ref runId, s.current = some ref → ref.runId = some runId → owner runId = some ref.call
  unwritten : s.writers = [] → s.latest = none → s.shown = INITIAL

variable {owner : Uuid → Option ℕ} {s : State} {call : ℕ} {runId : Uuid}

theorem latest_of_isCurrent (h : Inv owner s) (hcurrent : s.IsCurrent call) :
    s.latest = some call := by
  obtain ⟨ref, href, rfl⟩ := Option.map_eq_some_iff.mp hcurrent
  exact h.current ref href

/-- Where nothing was written since, there is nothing of another call. -/
theorem unmixed_iff_writers (h : Inv owner s) :
    Unmixed s ↔ ∀ writer ∈ s.writers, writer.isSome = true ∧ writer = s.latest := by
  refine ⟨And.left, fun hwriters => ⟨hwriters, fun hlatest => h.unwritten ?_ hlatest⟩⟩
  refine List.eq_nil_iff_forall_not_mem.mpr fun writer hwriter => ?_
  obtain ⟨hsome, hsame⟩ := hwriters writer hwriter
  rw [hsame, hlatest] at hsome
  exact absurd hsome Bool.false_ne_true

/-! ### Writes -/

theorem Inv.setState (h : Inv owner s) (writer : Option ℕ) (write : ReportState → ReportState) :
    Inv owner (s.setState writer write) where
  current := h.current
  runId := h.runId
  unwritten := fun hwriters => absurd hwriters (List.append_ne_nil_of_right_ne_nil _ nofun)

theorem Inv.applyReportCompletion (h : Inv owner s) (payload : ReportCompletedEvent) :
    Inv owner (s.applyReportCompletion owner payload) := by
  have hstatus := h.setState (owner payload.runId) fun prev =>
    { prev with status := statusFromSyncRunStatus payload.status }
  unfold State.applyReportCompletion
  dsimp only
  split
  · exact hstatus
  · exact ⟨hstatus.current, hstatus.runId, hstatus.unwritten⟩

/-- What a write is marked with stands beside what was there. -/
theorem unmixed_setState_iff (h : Inv owner s) (hs : Unmixed s) {writer : Option ℕ}
    {write : ReportState → ReportState} :
    Unmixed (s.setState writer write) ↔ writer.isSome = true ∧ s.latest = writer := by
  rw [unmixed_iff_writers (h.setState writer write)]
  constructor
  · intro hwriters
    obtain ⟨hsome, hsame⟩ := hwriters writer (List.mem_append_right _ (List.mem_singleton_self _))
    exact ⟨hsome, hsame.symm⟩
  · rintro ⟨hsome, hsame⟩ other hother
    rcases List.mem_append.mp hother with hother | hother
    · exact hs.1 other hother
    · rw [List.mem_singleton.mp hother]
      exact ⟨hsome, hsame.symm⟩

theorem unmixed_applyReportCompletion_iff (h : Inv owner s) (hs : Unmixed s)
    {payload : ReportCompletedEvent} : Unmixed (s.applyReportCompletion owner payload) ↔
      (owner payload.runId).isSome = true ∧ s.latest = owner payload.runId := by
  rw [← unmixed_setState_iff h hs]
  unfold State.applyReportCompletion
  dsimp only
  split <;> exact Iff.rfl

/-! ### Handlers -/

theorem inv_flush (h : Inv owner s) : Inv owner (s.flush owner call runId) := by
  have hflushed : Inv owner { s with pendingCompletion := none } :=
    ⟨h.current, h.runId, h.unwritten⟩
  unfold State.flush
  dsimp only
  split
  · exact hflushed
  · split_ifs
    · exact hflushed.applyReportCompletion _
    · exact hflushed

/-- The stashed completion is of the run of the call. -/
theorem unmixed_flush (h : Inv owner s) (hs : Unmixed s) (howner : owner runId = some call) :
    Unmixed (s.flush owner call runId) := by
  have hflushed : Inv owner { s with pendingCompletion := none } :=
    ⟨h.current, h.runId, h.unwritten⟩
  unfold State.flush
  dsimp only
  split
  · exact hs
  · split_ifs with hmine
    · refine (unmixed_applyReportCompletion_iff hflushed hs).mpr ?_
      rw [hmine.2, howner]
      exact ⟨rfl, latest_of_isCurrent hflushed hmine.1⟩
    · exact hs

/-- A flush only adds to what was written. -/
theorem writers_flush (owner : Uuid → Option ℕ) (s : State) (call : ℕ) (runId : Uuid) :
    (s.flush owner call runId).latest = s.latest ∧
      s.writers <+: (s.flush owner call runId).writers := by
  unfold State.flush State.applyReportCompletion
  dsimp only
  split
  · exact ⟨rfl, List.prefix_rfl⟩
  · split_ifs
    · split <;> exact ⟨rfl, List.prefix_append _ _⟩
    · exact ⟨rfl, List.prefix_rfl⟩

theorem inv_named (h : Inv owner s) (howner : owner runId = some call) :
    Inv owner (s.named call runId) := by
  unfold State.named
  split_ifs with hcurrent
  · have hlatest : s.latest = some call := latest_of_isCurrent h hcurrent
    refine ⟨?_, ?_, h.unwritten⟩
    · intro ref href
      cases href
      exact hlatest
    · intro ref runId' href hrun
      cases href
      cases hrun
      exact howner
  · exact h

theorem unmixed_named : Unmixed (s.named call runId) ↔ Unmixed s := by
  unfold State.named
  split_ifs <;> exact Iff.rfl

theorem latest_named : (s.named call runId).latest = s.latest := by
  unfold State.named
  split_ifs <;> rfl

theorem inv_honourCancel (h : Inv owner s) : Inv owner (s.honourCancel call) := by
  unfold State.honourCancel
  split_ifs
  · exact ⟨h.current, h.runId, h.unwritten⟩
  · exact h

theorem unmixed_honourCancel : Unmixed (s.honourCancel call) ↔ Unmixed s := by
  unfold State.honourCancel
  split_ifs <;> exact Iff.rfl

theorem inv_answered (h : Inv owner s) (howner : owner runId = some call) :
    Inv owner (s.answered call runId) :=
  (inv_named h howner).setState _ _

theorem unmixed_answered_iff (h : Inv owner s) (hs : Unmixed s) (howner : owner runId = some call) :
    Unmixed (s.answered call runId) ↔ s.latest = some call := by
  rw [State.answered, unmixed_setState_iff (inv_named h howner) (unmixed_named.mpr hs),
    latest_named]
  exact and_iff_right rfl

theorem inv_resolve (h : Inv owner s) (howner : owner runId = some call) :
    Inv owner (s.resolve owner call runId) :=
  inv_honourCancel (inv_flush (inv_answered h howner))

/-- **The id of a run** is of the latest call, or mixes two. -/
theorem unmixed_resolve_iff (h : Inv owner s) (hs : Unmixed s) (howner : owner runId = some call) :
    Unmixed (s.resolve owner call runId) ↔ s.latest = some call := by
  rw [State.resolve, unmixed_honourCancel, ← unmixed_answered_iff h hs howner]
  constructor
  · intro hflush
    obtain ⟨hlatest, hwrote⟩ := writers_flush owner (s.answered call runId) call runId
    refine (unmixed_iff_writers (inv_answered h howner)).mpr fun writer hwriter => ?_
    rw [← hlatest]
    exact hflush.1 writer (hwrote.subset hwriter)
  · intro hanswered
    exact unmixed_flush (inv_answered h howner) hanswered howner

theorem inv_abandoned (h : Inv owner s) : Inv owner (s.abandoned call) := by
  have hkept : ∀ ref, (s.abandoned call).current = some ref → s.current = some ref := by
    intro ref href
    unfold State.abandoned at href
    dsimp only at href
    split_ifs at href
    exact href
  exact ⟨fun ref href => h.current ref (hkept ref href),
    fun ref runId href => h.runId ref runId (hkept ref href), h.unwritten⟩

theorem inv_reject (h : Inv owner s) (message : Text) : Inv owner (s.reject call message) :=
  (inv_abandoned h).setState _ _

theorem unmixed_reject_iff (h : Inv owner s) (hs : Unmixed s) (message : Text) :
    Unmixed (s.reject call message) ↔ s.latest = some call :=
  (unmixed_setState_iff (inv_abandoned h) hs).trans (and_iff_right rfl)

/-- A channel is of the latest call, or not listened to. -/
theorem kept_channel (h : Inv owner s) (hs : Unmixed s) (write : ReportState → ReportState) :
    Inv owner (if s.IsCurrent call then s.setState (some call) write else s) ∧
      Unmixed (if s.IsCurrent call then s.setState (some call) write else s) := by
  split_ifs with hcurrent
  · exact ⟨h.setState _ _,
      (unmixed_setState_iff h hs).mpr ⟨rfl, latest_of_isCurrent h hcurrent⟩⟩
  · exact ⟨h, hs⟩

/-- **A completion** is of the latest call, or changes nothing that is shown. -/
theorem kept_completed (h : Inv owner s) (hs : Unmixed s) (payload : ReportCompletedEvent) :
    Inv owner (s.completed owner payload) ∧ Unmixed (s.completed owner payload) := by
  unfold State.completed
  split
  · exact ⟨h, hs⟩
  · next ref href =>
    split
    · exact ⟨⟨h.current, h.runId, h.unwritten⟩, hs⟩
    · next runId hrun =>
      split_ifs with hmine
      · refine ⟨h.applyReportCompletion payload, (unmixed_applyReportCompletion_iff h hs).mpr ?_⟩
        rw [hmine, h.runId ref runId href hrun]
        exact ⟨rfl, h.current ref href⟩
      · exact ⟨h, hs⟩

theorem kept_generate : Inv owner s.generate ∧ Unmixed s.generate := by
  refine ⟨⟨?_, ?_, ?_⟩, ?_, ?_⟩
  · intro ref href
    cases href
    rfl
  · intro ref runId href hrun
    cases href
    cases hrun
  · exact fun _ hlatest => nomatch hlatest
  · exact fun writer hwriter => absurd hwriter List.not_mem_nil
  · exact fun hlatest => nomatch hlatest

theorem kept_reset : Inv owner s.reset ∧ Unmixed s.reset := by
  refine ⟨⟨?_, ?_, fun _ _ => rfl⟩, ?_, fun _ => rfl⟩
  · exact fun ref href => nomatch href
  · exact fun ref runId href => nomatch href
  · exact fun writer hwriter => absurd hwriter List.not_mem_nil

theorem kept_cancel (h : Inv owner s) (hs : Unmixed s) :
    Inv owner s.cancel ∧ Unmixed s.cancel := by
  unfold State.cancel
  split
  · exact ⟨⟨h.current, h.runId, h.unwritten⟩, hs⟩
  · exact ⟨h, hs⟩

/-! ### Runs -/

/-- **What one event does** to a screen that shows one run. -/
theorem step_spec (h : Inv owner s) (hs : Unmixed s) (a : Action owner) :
    Inv owner (step owner s a) ∧ (Unmixed (step owner s a) ↔ Timely owner s a) := by
  have harmless : ∀ {t : State}, Inv owner t ∧ Unmixed t → Inv owner t ∧ (Unmixed t ↔ True) :=
    fun ht => ⟨ht.1, iff_true_intro ht.2⟩
  cases a with
  | generate => exact harmless kept_generate
  | resolve call runId howner =>
    unfold step Timely
    dsimp only
    split_ifs with hinvoked
    · have herased : Inv owner { s with invoked := s.invoked.erase call } :=
        ⟨h.current, h.runId, h.unwritten⟩
      exact ⟨inv_resolve herased howner,
        (unmixed_resolve_iff herased hs howner).trans (imp_iff_right hinvoked).symm⟩
    · exact ⟨h, iff_of_true hs fun hcall => absurd hcall hinvoked⟩
  | reject call message =>
    unfold step Timely
    dsimp only
    split_ifs with hinvoked
    · have herased : Inv owner { s with invoked := s.invoked.erase call } :=
        ⟨h.current, h.runId, h.unwritten⟩
      exact ⟨inv_reject herased message,
        (unmixed_reject_iff herased hs message).trans (imp_iff_right hinvoked).symm⟩
    · exact ⟨h, iff_of_true hs fun hcall => absurd hcall hinvoked⟩
  | progress call event => exact harmless (kept_channel h hs _)
  | log call event => exact harmless (kept_channel h hs _)
  | completed payload => exact harmless (kept_completed h hs payload)
  | got request answer =>
    unfold step Timely
    dsimp only
    split_ifs with hasked
    · have herased : Inv owner { s with requests := s.requests.erase request } :=
        ⟨h.current, h.runId, h.unwritten⟩
      exact ⟨herased.setState _ _,
        (unmixed_setState_iff herased hs).trans (imp_iff_right hasked).symm⟩
    · exact ⟨h, iff_of_true hs fun hrequest => absurd hrequest hasked⟩
  | cancel => exact harmless (kept_cancel h hs)
  | reset => exact harmless kept_reset

/-- **When the screen shows one run**: in every state of a run of events just when the answers
to a call, of `report_generate` as of `report_get`, come while it is the latest. -/
theorem unmixed_iff (owner : Uuid → Option ℕ) (actions : List (Action owner)) :
    (machine owner).Throughout Unmixed (machine owner).init actions ↔
      (machine owner).Allowed (Timely owner) (machine owner).init actions := by
  refine Machine.throughout_iff_allowed_of_invariant (I := Inv owner) (fun s a => ⟨_, rfl⟩)
    ?_ ?_ ?_ ?_
  · intro s a s' hinv hs hstep
    cases hstep
    exact (step_spec hinv hs a).1
  · intro s a s' hinv hs hstep
    cases hstep
    exact (step_spec hinv hs a).2
  · exact ⟨nofun, nofun, fun _ _ => rfl⟩
  · exact ⟨fun writer hwriter => absurd hwriter List.not_mem_nil, fun _ => rfl⟩

/-! ### Two overlapping calls -/

/-- The first two calls, and their runs. -/
def ownerOf (runId : Uuid) : Option ℕ :=
  if runId = 1 then some 0 else if runId = 2 then some 1 else none

theorem ownerOf_one : ownerOf 1 = some 0 := rfl

/-- The invocation of the first call answers last. -/
def overlapping : List (Action ownerOf) :=
  [.generate, .generate, .resolve 1 2 rfl, .resolve 0 1 ownerOf_one]

/-- **The id of the older run** is shown for the newer one. -/
theorem late_resolution : ¬∀ (owner : Uuid → Option ℕ) (actions : List (Action owner)),
    (machine owner).Throughout Unmixed (machine owner).init actions := by
  intro h
  have hrun : ((machine ownerOf).exec (machine ownerOf).init overlapping).any (fun s => decide
      (s.latest = some 1 ∧ s.shown.runId = some 1 ∧ s.writers = [some 1, some 0])) = true := by
    decide +kernel
  obtain ⟨s, hs, hlast⟩ := (Option.any_eq_true ..).mp hrun
  obtain ⟨hlatest, -, hwriters⟩ := of_decide_eq_true hlast
  have hunmixed := (h ownerOf overlapping).last hs
  have holder := (hunmixed.1 (some 0) (by simp [hwriters])).2
  rw [hlatest] at holder
  exact absurd holder (by decide)

end UseReport
end Dayseam
