import Dayseam.Auth.OAuth
import Mathlib

/-!
# Login sessions

A login has a row in the session registry and a driver that waits for the callback of
the browser, exchanges the code and settles the row.  Every call on the registry takes
its lock for itself: the user cancels, the driver stores its tokens and then the status,
and the Outlook commands look at the tokens or take them with the row.

## Main definitions

* `Login.machine` — one session, its driver and the calls on the registry.
* `Login.TerminalKept`, `Login.SignedIn` — what a login promises.
* `Login.Timely` — the steps that keep it so.

## Main results

* `Login.cancelled_never_signs_in` — **a cancelled login never signs in** in such runs.
* `Login.cancelled_signs_in` — a run in which it does.
-/

namespace Dayseam

inductive OAuthSessionStatus
  | pending
  | completed
  | failed (code message : Text)
  | cancelled
  deriving DecidableEq

def OAuthSessionStatus.isTerminal : OAuthSessionStatus → Bool
  | .pending => false
  | _ => true

/-- A row of the registry. -/
structure OAuthSession where
  status : OAuthSessionStatus
  tokenPair : Option TokenPair
  deriving DecidableEq

namespace Login

/-! ### The driver and the registry -/

/-- Where the driver is.  It listens to the cancellation only while it awaits the
callback; afterwards it has an outcome to settle. -/
inductive Driver
  | awaiting
  | exchanging
  | completing (pair : TokenPair)
  | tokensSet
  | failing (code message : Text)
  | done
  deriving DecidableEq

/-- What an observer of the registry sees: a status that was written, and a token pair
that was handed out while the row had a status. -/
inductive Event
  | wrote (status : OAuthSessionStatus)
  | yielded (status : OAuthSessionStatus)
  deriving DecidableEq

/-- One session: its row until it is taken, whether its cancellation is tripped, its
driver, and the events so far, newest first. -/
structure State where
  session : Option OAuthSession
  tripped : Bool
  driver : Driver
  history : List Event
  deriving DecidableEq

inductive Action
  | observeCancel
  | timeout
  | accept (ok : Bool)
  | callback (outcome : Except (Text × Text) TokenPair)
  | settle
  | cancel
  | peek
  | take
  | getView

def OAUTH_LOGIN_TIMEOUT : Text := "oauth.login.timeout".toList

def OAUTH_LOGIN_LOOPBACK_BIND_FAILED : Text := "oauth.login.loopback_bind_failed".toList

def timeoutMessage : Text := "no OAuth callback received within 300s".toList

def acceptMessage : Text := "listener accept() failed".toList

/-- `update_status`. -/
def updateStatus (s : State) (status : OAuthSessionStatus) : State :=
  match s.session with
  | some session => { s with
      session := some { session with status := status }, history := .wrote status :: s.history }
  | none => s

/-- `set_token_pair`. -/
def setTokenPair (s : State) (pair : TokenPair) : State :=
  { s with session := s.session.map fun session => { session with tokenPair := some pair } }

/-- `cancel`: the driver's handle is tripped, and the status is `Cancelled` whatever it
was. -/
def cancel (s : State) : State :=
  match s.session with
  | some _ => updateStatus { s with tripped := true } .cancelled
  | none => s

/-- The tokens of the row are handed out. -/
def yielding (s : State) : State :=
  match s.session with
  | some ⟨status, some _⟩ => { s with history := .yielded status :: s.history }
  | _ => s

/-- A step of the login.  The `select!` of the driver looks at the cancellation first. -/
def step (s : State) : Action → Option State
  | .observeCancel =>
    if s.driver = .awaiting ∧ s.tripped = true then some { s with driver := .done } else none
  | .timeout =>
    if s.driver = .awaiting ∧ s.tripped = false then
      some { s with driver := .failing OAUTH_LOGIN_TIMEOUT timeoutMessage }
    else none
  | .accept ok =>
    if s.driver = .awaiting ∧ s.tripped = false then
      some { s with
        driver := if ok then .exchanging
          else .failing OAUTH_LOGIN_LOOPBACK_BIND_FAILED acceptMessage }
    else none
  | .callback outcome =>
    if s.driver = .exchanging then
      some { s with
        driver := match outcome with
          | .ok pair => .completing pair
          | .error (code, message) => .failing code message }
    else none
  | .settle =>
    match s.driver with
    | .completing pair => some { setTokenPair s pair with driver := .tokensSet }
    | .tokensSet => some { updateStatus s .completed with driver := .done }
    | .failing code message => some { updateStatus s (.failed code message) with driver := .done }
    | _ => none
  | .cancel => some (cancel s)
  | .peek => some (yielding s)
  | .take => some { yielding s with session := none }
  | .getView => some s

/-- `oauth_begin_login` has inserted the row and spawned the driver. -/
def machine : Machine State Action where
  init := ⟨some ⟨.pending, none⟩, false, .awaiting, []⟩
  step := step

/-! ### What a login promises -/

/-- A terminal status is never replaced by another one.  Histories are listed newest
first. -/
def TerminalKept (history : List Event) : Prop :=
  ∀ after before status, history = after ++ .wrote status :: before →
    status.isTerminal = true → ∀ status', .wrote status' ∈ after → status' = status

/-- Tokens are handed out while the status is `Completed`, and never after the session
was reported `Cancelled`. -/
def SignedIn (history : List Event) : Prop :=
  (∀ status, .yielded status ∈ history → status = .completed) ∧
  ∀ after before, history = after ++ .wrote .cancelled :: before →
    ∀ status, .yielded status ∉ after

/-- The user cancels while the driver still awaits the callback, or again, and nobody
looks for the tokens between the two calls that store them and the status. -/
def Timely (s : State) : Action → Prop
  | .cancel => s.driver = .awaiting ∨ s.session.all (·.status = .cancelled) = true
  | .peek | .take => s.driver = .tokensSet → s.session = none
  | _ => True

/-! ### The invariant -/

/-- What the driver says about the row. -/
def Fits (tripped : Bool) (session : OAuthSession) : Driver → Prop
  | .awaiting =>
    session.tokenPair = none ∧ session.status = if tripped = true then .cancelled else .pending
  | .exchanging | .completing _ | .failing _ _ =>
    session.tokenPair = none ∧ session.status = .pending
  | .tokensSet => session.status = .pending
  | .done => session.status.isTerminal = true ∧
      (session.tokenPair.isSome = true → session.status = .completed)

/-- All statuses that were written are `status`, and tokens were handed out under
`Completed` only. -/
structure Settles (history : List Event) (status : OAuthSessionStatus) : Prop where
  wrote : ∀ status', .wrote status' ∈ history → status' = status
  yielded : ∀ status', .yielded status' ∈ history → status' = .completed ∧ status = .completed

theorem settles_nil (status : OAuthSessionStatus) : Settles [] status :=
  ⟨fun _ h => absurd h List.not_mem_nil, fun _ h => absurd h List.not_mem_nil⟩

variable {history : List Event} {status : OAuthSessionStatus} {s s' : State}

theorem Settles.write (h : Settles history status) : Settles (.wrote status :: history) status := by
  constructor
  · intro status' hmem
    rcases List.mem_cons.mp hmem with heq | hmem
    · exact Event.wrote.inj heq
    · exact h.wrote status' hmem
  · intro status' hmem
    rcases List.mem_cons.mp hmem with heq | hmem
    · cases heq
    · exact h.yielded status' hmem

theorem Settles.yield (h : Settles history .completed) :
    Settles (.yielded .completed :: history) .completed := by
  constructor
  · intro status' hmem
    rcases List.mem_cons.mp hmem with heq | hmem
    · cases heq
    · exact h.wrote status' hmem
  · intro status' hmem
    rcases List.mem_cons.mp hmem with heq | hmem
    · exact ⟨Event.yielded.inj heq, rfl⟩
    · exact h.yielded status' hmem

theorem Settles.terminalKept (h : Settles history status) : TerminalKept history := by
  rintro after before st rfl - st' hst'
  rw [h.wrote st' (List.mem_append_left _ hst'),
    h.wrote st (List.mem_append_right _ List.mem_cons_self)]

theorem Settles.signedIn (h : Settles history status) : SignedIn history := by
  refine ⟨fun st hst => (h.yielded st hst).1, ?_⟩
  rintro after before rfl st hst
  have hcancelled := h.wrote .cancelled (List.mem_append_right _ List.mem_cons_self)
  rw [(h.yielded st (List.mem_append_left _ hst)).2] at hcancelled
  cases hcancelled

/-- What timely steps preserve of a row. -/
structure RowInv (s : State) (session : OAuthSession) : Prop where
  fits : Fits s.tripped session s.driver
  fresh : session.status = .pending → s.history = []
  settles : session.status.isTerminal = true → Settles s.history session.status

/-- What timely steps preserve. -/
structure Inv (s : State) : Prop where
  row : ∀ session, s.session = some session → RowInv s session
  settles : ∃ status, Settles s.history status

theorem RowInv.settled {session : OAuthSession} (hi : RowInv s session) :
    ∃ status, Settles s.history status := by
  cases hst : session.status with
  | pending =>
    rw [hi.fresh hst]
    exact ⟨.cancelled, settles_nil _⟩
  | _ => exact ⟨_, hi.settles (by rw [hst]; rfl)⟩

/-- A step that changes the row, if there is one. -/
theorem inv_of_session {session : OAuthSession} (hs : s.session = some session)
    (hi : RowInv s session) : Inv s :=
  ⟨fun _ h => Option.some.inj (hs.symm.trans h) ▸ hi, hi.settled⟩

theorem updateStatus_some {session : OAuthSession} (hs : s.session = some session) :
    updateStatus s status = { s with
      session := some { session with status := status }, history := .wrote status :: s.history } := by
  unfold updateStatus
  rw [hs]

theorem updateStatus_none (hs : s.session = none) : updateStatus s status = s := by
  unfold updateStatus
  rw [hs]

/-- A step of the driver that leaves the row alone. -/
theorem Inv.drive (hi : Inv s) {driver : Driver}
    (hfits : ∀ session, Fits s.tripped session s.driver → Fits s.tripped session driver) :
    Inv { s with driver := driver } :=
  ⟨fun session hs => ⟨hfits session (hi.row session hs).fits, (hi.row session hs).fresh,
    (hi.row session hs).settles⟩, hi.settles⟩

/-- The driver settles the row. -/
theorem Inv.settle (hi : Inv s) (hterm : status.isTerminal = true)
    (hfits : ∀ session, Fits s.tripped session s.driver → session.status = .pending ∧
      (session.tokenPair.isSome = true → status = .completed)) :
    Inv { updateStatus s status with driver := .done } := by
  cases hs : s.session with
  | none =>
    rw [updateStatus_none hs]
    refine ⟨fun session h => ?_, hi.settles⟩
    rw [show s.session = some session from h] at hs
    cases hs
  | some session =>
    have hrow := hi.row session hs
    obtain ⟨hpending, htokens⟩ := hfits session hrow.fits
    rw [updateStatus_some hs]
    refine inv_of_session rfl ⟨⟨hterm, htokens⟩, fun hno => ?_, fun _ => ?_⟩
    · rw [show status = .pending from hno] at hterm
      cases hterm
    · rw [hrow.fresh hpending]
      exact (settles_nil status).write

/-- The driver stores its tokens. -/
theorem Inv.setTokenPair (hi : Inv s) {pair : TokenPair} (hdriver : s.driver = .completing pair) :
    Inv { setTokenPair s pair with driver := .tokensSet } := by
  refine ⟨fun session h => ?_, hi.settles⟩
  obtain ⟨old, hold, rfl⟩ := Option.map_eq_some_iff.mp h
  have hrow := hi.row old hold
  have hfits := hrow.fits
  rw [hdriver] at hfits
  exact ⟨hfits.2, hrow.fresh, hrow.settles⟩

/-- The user cancels in time. -/
theorem Inv.cancel (hi : Inv s) (ht : Timely s .cancel) : Inv (cancel s) := by
  unfold Login.cancel
  cases hs : s.session with
  | none =>
    dsimp only
    exact hi
  | some session =>
    have hrow := hi.row session hs
    have hfits := hrow.fits
    rw [Timely, hs, Option.all_some, decide_eq_true_eq] at ht
    have hsettles : Settles s.history .cancelled := by
      rcases ht with h | h
      · rw [h] at hfits
        cases htripped : s.tripped with
        | false =>
          rw [hrow.fresh (by rw [hfits.2, htripped]; rfl)]
          exact settles_nil _
        | true =>
          have hst : session.status = .cancelled := by
            rw [hfits.2, htripped]
            rfl
          exact hst ▸ hrow.settles (by rw [hst]; rfl)
      · exact h ▸ hrow.settles (by rw [h]; rfl)
    dsimp only
    rw [updateStatus_some rfl]
    refine inv_of_session rfl ⟨?_, fun hno => (by cases hno), fun _ => hsettles.write⟩
    -- the driver listens, or it has observed an earlier cancellation
    show Fits true ⟨.cancelled, session.tokenPair⟩ s.driver
    cases hd : s.driver with
    | awaiting =>
      rw [hd] at hfits
      exact ⟨hfits.1, rfl⟩
    | done =>
      rw [hd] at hfits ht
      have hst := ht.resolve_left Driver.noConfusion
      refine ⟨rfl, fun htok => ?_⟩
      have hcompleted := hfits.2 htok
      rw [hst] at hcompleted
      cases hcompleted
    | _ =>
      rw [hd] at hfits ht
      have hst := ht.resolve_left Driver.noConfusion
      simp only [Fits, hst] at hfits
      simp at hfits

/-- Somebody looks for the tokens in time. -/
theorem Inv.yielding (hi : Inv s) (ht : Timely s .peek) : Inv (yielding s) := by
  unfold Login.yielding
  split
  · next st pair hs =>
    have hrow := hi.row _ hs
    have hfits := hrow.fits
    have hst : st = .completed := by
      cases hd : s.driver with
      | done =>
        rw [hd] at hfits
        exact hfits.2 rfl
      | tokensSet =>
        have hnone := ht hd
        rw [hs] at hnone
        cases hnone
      | _ =>
        rw [hd] at hfits
        cases hfits.1
    subst hst
    exact inv_of_session hs ⟨hfits, fun hno => (by cases hno), fun h => (hrow.settles h).yield⟩
  · exact hi

/-- **A timely step** preserves the invariant. -/
theorem inv_step {a : Action} (hi : Inv s) (ht : Timely s a) (h : step s a = some s') :
    Inv s' := by
  cases a with
  | observeCancel =>
    rw [step] at h
    split_ifs at h with hg
    cases h
    refine hi.drive fun session hfits => ?_
    rw [hg.1, hg.2] at hfits
    refine ⟨by rw [hfits.2]; rfl, fun htok => ?_⟩
    rw [hfits.1] at htok
    cases htok
  | timeout =>
    rw [step] at h
    split_ifs at h with hg
    cases h
    refine hi.drive fun session hfits => ?_
    rw [hg.1, hg.2] at hfits
    exact hfits
  | accept ok =>
    simp only [step] at h
    split at h
    · next hg =>
      cases h
      refine hi.drive fun session hfits => ?_
      rw [hg.1, hg.2] at hfits
      cases ok <;> exact hfits
    · cases h
  | callback outcome =>
    simp only [step] at h
    split_ifs at h with hg
    cases h
    refine hi.drive fun session hfits => ?_
    rw [hg] at hfits
    cases outcome <;> exact hfits
  | settle =>
    rw [step] at h
    split at h
    · next pair hd =>
      cases h
      exact hi.setTokenPair hd
    · next hd =>
      cases h
      refine hi.settle rfl fun session hfits => ⟨?_, fun _ => rfl⟩
      rw [hd] at hfits
      exact hfits
    · next code message hd =>
      cases h
      refine hi.settle rfl fun session hfits => ?_
      rw [hd] at hfits
      refine ⟨hfits.2, fun htok => ?_⟩
      rw [hfits.1] at htok
      cases htok
    · cases h
  | cancel =>
    cases h
    exact hi.cancel ht
  | peek =>
    cases h
    exact hi.yielding ht
  | take =>
    cases h
    exact ⟨fun _ hno => (by cases hno), (hi.yielding ht).settles⟩
  | getView =>
    cases h
    exact hi

/-- **A cancelled login never signs in**, in every interleaving in which the user
cancels while the driver awaits the callback, and nobody looks for the tokens between
the calls that store them and the status. -/
theorem cancelled_never_signs_in (s : State) (h : machine.Reach Timely s) :
    TerminalKept s.history ∧ SignedIn s.history := by
  suffices hinv : Inv s by
    obtain ⟨status, hsettles⟩ := hinv.settles
    exact ⟨hsettles.terminalKept, hsettles.signedIn⟩
  refine h.invariant (inv_of_session rfl ⟨⟨rfl, rfl⟩, fun _ => rfl, fun hno => (by cases hno)⟩) ?_
  intro s a s' _ hi ht hstep
  exact inv_step hi ht hstep

/-! ### Two logins -/

instance (s : State) : ∀ a, Decidable (Timely s a)
  | .cancel => inferInstanceAs (Decidable
      (s.driver = .awaiting ∨ s.session.all (·.status = .cancelled) = true))
  | .peek | .take => inferInstanceAs (Decidable (s.driver = .tokensSet → s.session = none))
  | .observeCancel | .timeout | .accept _ | .callback _ | .settle | .getView => isTrue trivial

/-- The user cancels before the callback arrives. -/
def cancelledRun : List Action := [.cancel, .observeCancel, .peek, .cancel, .take]

theorem cancelled_in_time : ∃ s, machine.exec machine.init cancelledRun = some s ∧
    .wrote .cancelled ∈ s.history ∧ TerminalKept s.history ∧ SignedIn s.history := by
  have hrun : ((machine.exec machine.init cancelledRun).any fun s =>
      Event.wrote .cancelled ∈ s.history) = true := by decide +kernel
  obtain ⟨s, hs, hmem⟩ := (Option.any_eq_true ..).mp hrun
  exact ⟨s, hs, of_decide_eq_true hmem,
    cancelled_never_signs_in s (Machine.reach_of_exec (by decide +kernel) hs)⟩

/-- The user cancels while the code is exchanged. -/
def lateCancelRun : List Action :=
  [.accept true, .cancel, .callback (.ok OAuth.firstAnswer), .settle, .settle, .peek]

/-- **A cancelled login signs in**: the driver does not look at the cancellation any
more once the callback has arrived. -/
theorem cancelled_signs_in :
    ¬ ∀ s, machine.Reach (fun _ _ => True) s → TerminalKept s.history ∧ SignedIn s.history := by
  intro h
  have hrun : ((machine.exec machine.init lateCancelRun).any fun s =>
      s.history = [.yielded .completed, .wrote .completed, .wrote .cancelled]) = true := by
    decide +kernel
  obtain ⟨s, hs, hhist⟩ := (Option.any_eq_true ..).mp hrun
  obtain ⟨hkept, -⟩ := h s (Machine.reach_of_exec (Machine.allowed_true _ _) hs)
  rw [of_decide_eq_true hhist] at hkept
  exact absurd (hkept [_, _] _ .cancelled rfl rfl .completed (by decide)) (by decide)

end Login
end Dayseam
