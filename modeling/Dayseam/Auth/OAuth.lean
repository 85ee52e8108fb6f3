import Dayseam.Lib.Machine
import Dayseam.Lib.Text
import Mathlib

/-!
# Access tokens that refresh themselves

An `OAuthAuth` holds a token pair in memory and writes a refreshed one back to the
two keychain rows of its source, one row after the other.  Every sync builds an
instance of its own, which reads the rows when it is built and shares nothing else
with the others.  The calls on one instance follow each other; the instances
interleave.

## Main definitions

* `OAuth.machine` — the instances of one source over its two keychain rows.
* `OAuth.InStep` — the rows hold the pair of the memory.
* `OAuth.OnePair` — the rows come from one answer of the token endpoint.
* `OAuth.Saved`, `OAuth.Alone` — the steps that keep it so.

## Main results

* `OAuth.pair_kept` — **memory and keychain stay one token pair** in such runs.
* `OAuth.pair_lost` — two runs in which they do not.
-/

namespace Dayseam

/-- What the token endpoint answered; an empty refresh token keeps the old one. -/
structure TokenPair where
  accessToken : Text
  refreshToken : Text
  accessExpiresAt : ℤ
  deriving DecidableEq

/-- The mutable state of an `OAuthAuth`. -/
structure OAuthState where
  accessToken : Text
  refreshToken : Text
  accessExpiresAt : ℤ
  deriving DecidableEq

namespace OAuth

/-! ### One instance -/

/-- The pair that is written back after an answer. -/
def toPersist (state : OAuthState) (pair : TokenPair) : TokenPair :=
  { pair with
    refreshToken := if pair.refreshToken.isEmpty then state.refreshToken else pair.refreshToken }

/-- The memory after an answer, which is rewritten before the pair is written back. -/
def refreshed (state : OAuthState) (pair : TokenPair) : OAuthState where
  accessToken := pair.accessToken
  refreshToken := if pair.refreshToken.isEmpty then state.refreshToken else pair.refreshToken
  accessExpiresAt := pair.accessExpiresAt

/-- Where an instance is: in `build_source_auth`, between calls, or inside
`refresh_if_expired`.  Between calls it is remembered whether the last pair was
written back; the code does not know. -/
inductive Phase
  | absent
  | building (access : Text)
  | idle (saved : Bool)
  | requesting (saved : Bool)
  | writingAccess (pair : TokenPair)
  | writingRefresh (pair : TokenPair)
  deriving DecidableEq

/-- The instance is not inside `refresh_if_expired`. -/
def Phase.isQuiet : Phase → Bool
  | .absent | .building _ | .idle _ => true
  | _ => false

/-- The next step writes the access token. -/
def Phase.putsAccess : Phase → Bool
  | .writingAccess _ => true
  | _ => false

/-- The pair whose access token is written and whose refresh token is not. -/
def Phase.halfWritten : Phase → Option TokenPair
  | .writingRefresh pair => some pair
  | _ => none

structure Instance where
  memory : OAuthState
  phase : Phase

/-- What the outside world does in a step: a reading of the clock, the answer of the
token endpoint, or the outcome of a keychain write. -/
inductive Io
  | now (t : ℤ)
  | answer (pair : Option TokenPair)
  | keychain (ok : Bool)
  deriving DecidableEq

/-! ### The instances of a source -/

/-- The two keychain rows, the instances, the pairs that were to be written back so
far, and which call has just returned, with its success. -/
structure State (I : Type) where
  access : Text
  refresh : Text
  instances : I → Instance
  pairs : List (Text × Text)
  returned : Option (I × Bool)

variable {I : Type} [DecidableEq I]

/-- The instance `i` goes on to `phase`. -/
def State.enter (s : State I) (i : I) (phase : Phase) : State I :=
  { s with
    instances := Function.update s.instances i { s.instances i with phase := phase }
    returned := none }

/-- The call of the instance `i` returns. -/
def State.finish (s : State I) (i : I) (saved ok : Bool) : State I :=
  { s.enter i (.idle saved) with returned := some (i, ok) }

/-- One step of the instance `i`.  A built instance gets an expiry in the past.
`authenticate` is `refresh_if_expired` followed by a look at the access token. -/
def advance (s : State I) (i : I) (io : Io) : Option (State I) :=
  match (s.instances i).phase, io with
  | .absent, .now _ => some (s.enter i (.building s.access))
  | .building access, .now t => some { s with
      instances := Function.update s.instances i ⟨⟨access, s.refresh, t - 60⟩,
        .idle (decide (access = s.access))⟩
      returned := none }
  | .idle saved, .now t =>
    if t < (s.instances i).memory.accessExpiresAt then some (s.finish i saved true)
    else some (s.enter i (.requesting saved))
  | .requesting saved, .answer none => some (s.finish i saved false)
  | .requesting _, .answer (some pair) =>
    let persist := toPersist (s.instances i).memory pair
    some { s with
      instances := Function.update s.instances i
        ⟨refreshed (s.instances i).memory pair, .writingAccess persist⟩
      pairs := (persist.accessToken, persist.refreshToken) :: s.pairs
      returned := none }
  | .writingAccess pair, .keychain true =>
    some { s.enter i (.writingRefresh pair) with access := pair.accessToken }
  | .writingRefresh pair, .keychain true =>
    some { s.finish i true true with refresh := pair.refreshToken }
  | .writingAccess _, .keychain false | .writingRefresh _, .keychain false =>
    some (s.finish i false false)
  | _, _ => none

/-- The source after the login that wrote its first pair. -/
def start (access refresh : Text) : State I where
  access := access
  refresh := refresh
  instances := fun _ => ⟨⟨[], [], 0⟩, .absent⟩
  pairs := [(access, refresh)]
  returned := none

def machine (I : Type) [DecidableEq I] (access refresh : Text) : Machine (State I) (I × Io) where
  init := start access refresh
  step := fun s a => advance s a.1 a.2

variable {s s' : State I} {i : I} {io : Io} {access refresh : Text}

omit [DecidableEq I] in
/-- The keychain rows hold the pair of the memory. -/
def InStep (s : State I) (i : I) : Prop :=
  s.access = (s.instances i).memory.accessToken ∧ s.refresh = (s.instances i).memory.refreshToken

/-- The keychain rows were to be written back together. -/
def OnePair (s : State I) : Prop := (s.access, s.refresh) ∈ s.pairs

def Quiescent (s : State I) : Prop := ∀ i, (s.instances i).phase.isQuiet = true

/-- After a write that failed, a call comes when the token has expired. -/
def Saved (s : State I) : I × Io → Prop
  | (i, .now t) => (s.instances i).phase = .idle false → (s.instances i).memory.accessExpiresAt ≤ t
  | _ => True

/-- No instance writes its access token while another one has still to write its
refresh token, and the write of a refresh token does not fail. -/
def OneWriter (s : State I) : I × Io → Prop
  | (i, .keychain ok) =>
    ((s.instances i).phase.putsAccess = true →
      ∀ j, (s.instances j).phase.halfWritten = none) ∧
    ((s.instances i).phase.halfWritten.isSome = true → ok = true)
  | _ => True

/-! ### The calls on one instance -/

/-- The memory holds the tokens of the pair that is being written. -/
def Writes (state : OAuthState) (pair : TokenPair) : Prop :=
  pair.accessToken = state.accessToken ∧ pair.refreshToken = state.refreshToken

theorem writes_refreshed (state : OAuthState) (pair : TokenPair) :
    Writes (refreshed state pair) (toPersist state pair) := ⟨rfl, rfl⟩

/-- What the phase of the only instance says about the rows. -/
def Phase.Knows (s : State I) (i : I) : Phase → Prop
  | .absent => True
  | .building access => access = s.access
  | .idle saved | .requesting saved => saved = true → InStep s i
  | .writingAccess pair => Writes (s.instances i).memory pair
  | .writingRefresh pair => Writes (s.instances i).memory pair ∧ s.access = pair.accessToken

/-- What the calls on one instance preserve. -/
structure SoloInv (s : State I) (i : I) : Prop where
  knows : (s.instances i).phase.Knows s i
  returned : s.returned = some (i, true) → InStep s i

theorem soloInv_enter {phase : Phase} (h : phase.Knows s i) : SoloInv (s.enter i phase) i := by
  constructor
  · cases phase with
    | absent => simp [State.enter, Phase.Knows]
    | _ => simpa [State.enter, Phase.Knows, InStep] using h
  · intro hret
    cases hret

theorem soloInv_finish {saved ok : Bool} (hs : saved = true → InStep s i)
    (hok : ok = true → InStep s i) : SoloInv (s.finish i saved ok) i := by
  have hsame : InStep (s.finish i saved ok) i ↔ InStep s i := by
    simp [State.finish, State.enter, InStep]
  constructor
  · rw [show ((s.finish i saved ok).instances i).phase = .idle saved by
      simp [State.finish, State.enter]]
    exact fun h => hsame.mpr (hs h)
  · intro hret
    rw [State.finish, Option.some.injEq, Prod.mk.injEq] at hret
    exact hsame.mpr (hok hret.2)

/-- **A step of the only instance** preserves the invariant. -/
theorem soloInv_advance (hi : SoloInv s i) (hs : Saved s (i, io))
    (h : advance s i io = some s') : SoloInv s' i := by
  have hknows := hi.knows
  unfold advance at h
  split at h
  · next hph =>
    cases h
    exact soloInv_enter rfl
  · next acc t hph =>
    cases h
    rw [hph] at hknows
    refine ⟨?_, fun hret => by cases hret⟩
    simp [Phase.Knows, InStep, show acc = s.access from hknows]
  · next saved t hph =>
    rw [hph] at hknows
    split_ifs at h with halive
    · cases h
      -- an instance that finds its token alive has it written back
      have hsaved : saved = true := by
        by_contra hno
        have := hs (by rw [hph, Bool.eq_false_iff.mpr hno])
        omega
      exact soloInv_finish hknows fun _ => hknows hsaved
    · cases h
      exact soloInv_enter hknows
  · next saved hph =>
    cases h
    rw [hph] at hknows
    exact soloInv_finish hknows fun hok => by cases hok
  · next saved pair hph =>
    cases h
    refine ⟨?_, fun hret => by cases hret⟩
    simp only [Function.update_self, Phase.Knows]
    exact writes_refreshed _ _
  · next pair hph =>
    cases h
    rw [hph] at hknows
    refine ⟨?_, fun hret => by cases hret⟩
    simpa [State.enter, Phase.Knows] using hknows
  · next pair hph =>
    cases h
    rw [hph] at hknows
    obtain ⟨⟨hacc, href⟩, hrow⟩ := hknows
    have hstep : InStep { s with refresh := pair.refreshToken } i := ⟨hrow.trans hacc, href⟩
    exact soloInv_finish (fun _ => hstep) fun _ => hstep
  · cases h
    exact soloInv_finish (fun h => by cases h) fun h => by cases h
  · cases h
    exact soloInv_finish (fun h => by cases h) fun h => by cases h
  · cases h

/-- The invariant of the calls on one instance holds along the run. -/
theorem soloInv_of_reach (h : (machine I access refresh).Reach (fun s a => a.1 = i ∧ Saved s a) s) :
    SoloInv s i := by
  refine h.invariant (I := (SoloInv · i)) ⟨trivial, fun hret => by cases hret⟩ ?_
  rintro s ⟨j, io⟩ s' - hi ⟨rfl, hs⟩ hstep
  exact soloInv_advance hi hs hstep

/-! ### The instances of one source -/

/-- The tokens of a pair that was to be written back. -/
def Listed (s : State I) (pair : TokenPair) : Prop := (pair.accessToken, pair.refreshToken) ∈ s.pairs

/-- What the instances of a source preserve. -/
structure WriterInv (s : State I) : Prop where
  pending : ∀ j pair, (s.instances j).phase = .writingAccess pair → Listed s pair
  rows : (∀ j, (s.instances j).phase.halfWritten = none) → OnePair s
  half : ∀ j pair, (s.instances j).phase.halfWritten = some pair →
    s.access = pair.accessToken ∧ Listed s pair ∧
      ∀ k, k ≠ j → (s.instances k).phase.halfWritten = none

omit [DecidableEq I] in
/-- A step that writes no row. -/
theorem WriterInv.keep (hi : WriterInv s) (hrows : s'.access = s.access ∧ s'.refresh = s.refresh)
    (hpairs : s.pairs ⊆ s'.pairs)
    (hhalf : ∀ j, (s'.instances j).phase.halfWritten = (s.instances j).phase.halfWritten)
    (hpending : ∀ j pair, (s'.instances j).phase = .writingAccess pair →
      (s.instances j).phase = .writingAccess pair ∨ Listed s' pair) : WriterInv s' := by
  constructor
  · intro j pair hj
    rcases hpending j pair hj with h | h
    · exact hpairs (hi.pending j pair h)
    · exact h
  · intro hnone
    have h := hi.rows fun j => (hhalf j).symm.trans (hnone j)
    rw [OnePair, hrows.1, hrows.2]
    exact hpairs h
  · intro j pair hj
    rw [hhalf] at hj
    obtain ⟨hacc, hlisted, halone⟩ := hi.half j pair hj
    exact ⟨hrows.1.trans hacc, hpairs hlisted, fun k hk => (hhalf k).trans (halone k hk)⟩

/-- An instance that goes on without writing a row. -/
theorem WriterInv.goesOn (hi : WriterInv s) {inst : Instance} {pairs : List (Text × Text)}
    {returned : Option (I × Bool)} (hpairs : s.pairs ⊆ pairs)
    (hold : (s.instances i).phase.halfWritten = none) (hnew : inst.phase.halfWritten = none)
    (hpending : ∀ pair, inst.phase = .writingAccess pair →
      (pair.accessToken, pair.refreshToken) ∈ pairs) :
    WriterInv { s with
      instances := Function.update s.instances i inst, pairs := pairs, returned := returned } := by
  refine hi.keep ⟨rfl, rfl⟩ hpairs ?_ ?_
  · intro j
    by_cases hj : j = i
    · subst hj
      simp only [Function.update_self]
      rw [hold, hnew]
    · simp only [Function.update_of_ne hj]
  · intro j pair hpair
    by_cases hj : j = i
    · subst hj
      simp only [Function.update_self] at hpair
      exact Or.inr (hpending pair hpair)
    · simp only [Function.update_of_ne hj] at hpair
      exact Or.inl hpair

/-- The first of the two writes, with nobody between his. -/
theorem WriterInv.putAccess (hi : WriterInv s) {pair : TokenPair}
    (hph : (s.instances i).phase = .writingAccess pair)
    (hnone : ∀ j, (s.instances j).phase.halfWritten = none) :
    WriterInv { s.enter i (.writingRefresh pair) with access := pair.accessToken } := by
  have hlisted := hi.pending i pair hph
  constructor
  · intro j pair' hj
    by_cases hji : j = i
    · subst hji
      simp [State.enter] at hj
    · exact hi.pending j pair' (by simpa [State.enter, hji] using hj)
  · intro h
    have hi' := h i
    simp [State.enter, Phase.halfWritten] at hi'
  · intro j pair' hj
    have hji : j = i := by
      by_contra hji
      rw [show ((State.enter s i (.writingRefresh pair)).instances j) = s.instances j by
        simp [State.enter, hji], hnone j] at hj
      cases hj
    subst hji
    simp only [State.enter, Function.update_self, Phase.halfWritten, Option.some.injEq] at hj
    subst hj
    exact ⟨rfl, hlisted, fun k hk => by simpa [State.enter, hk] using hnone k⟩

/-- The second of the two writes. -/
theorem WriterInv.putRefresh (hi : WriterInv s) {pair : TokenPair}
    (hph : (s.instances i).phase = .writingRefresh pair) :
    WriterInv { s.finish i true true with refresh := pair.refreshToken } := by
  obtain ⟨hacc, hlisted, halone⟩ := hi.half i pair (by rw [hph]; rfl)
  have hnone : ∀ j, ((s.finish i true true).instances j).phase.halfWritten = none := by
    intro j
    by_cases hji : j = i
    · subst hji
      simp [State.finish, State.enter, Phase.halfWritten]
    · simpa [State.finish, State.enter, hji] using halone j hji
  constructor
  · intro j pair' hj
    by_cases hji : j = i
    · subst hji
      simp [State.finish, State.enter] at hj
    · exact hi.pending j pair' (by simpa [State.finish, State.enter, hji] using hj)
  · intro _
    show (s.access, pair.refreshToken) ∈ s.pairs
    rw [hacc]
    exact hlisted
  · intro j pair' hj
    have hj' := hnone j
    rw [hj] at hj'
    cases hj'

/-- **A step of one of the instances** preserves the invariant. -/
theorem writerInv_advance (hi : WriterInv s) (ha : OneWriter s (i, io))
    (h : advance s i io = some s') : WriterInv s' := by
  have hsame : s.pairs ⊆ s.pairs := List.Subset.refl _
  unfold advance at h
  split at h
  · next hph =>
    cases h
    exact hi.goesOn hsame (by rw [hph]; rfl) rfl fun _ hno => by cases hno
  · next hph =>
    cases h
    exact hi.goesOn hsame (by rw [hph]; rfl) rfl fun _ hno => by cases hno
  · next hph =>
    split_ifs at h
    all_goals
      cases h
      exact hi.goesOn hsame (by rw [hph]; rfl) rfl fun _ hno => by cases hno
  · next hph =>
    cases h
    exact hi.goesOn hsame (by rw [hph]; rfl) rfl fun _ hno => by cases hno
  · next hph =>
    cases h
    refine hi.goesOn (List.subset_cons_self ..) (by rw [hph]; rfl) rfl ?_
    rintro _ ⟨⟩
    exact List.mem_cons_self
  · next pair hph =>
    cases h
    exact hi.putAccess hph (ha.1 (by rw [hph]; rfl))
  · next pair hph =>
    cases h
    exact hi.putRefresh hph
  · next hph =>
    cases h
    exact hi.goesOn hsame (by rw [hph]; rfl) rfl fun _ hno => by cases hno
  · next hph =>
    exact absurd (ha.2 (by rw [hph]; rfl)) Bool.false_ne_true
  · cases h

/-- The invariant of the instances holds along the run. -/
theorem writerInv_of_reach (h : (machine I access refresh).Reach OneWriter s) : WriterInv s := by
  refine h.invariant ⟨fun _ _ hno => (by cases hno), fun _ => List.mem_singleton_self _,
    fun _ _ hno => (by cases hno)⟩ ?_
  rintro s ⟨j, io⟩ s' - hi ha hstep
  exact writerInv_advance hi ha hstep

omit [DecidableEq I] in
theorem Quiescent.halfWritten (h : Quiescent s) (j : I) :
    (s.instances j).phase.halfWritten = none := by
  have hj := h j
  cases hph : (s.instances j).phase with
  | writingRefresh pair =>
    rw [hph] at hj
    cases hj
  | _ => rfl

/-- **Memory and keychain stay one token pair.**  In every run of the calls on one
instance in which no call finds the token alive after a write that failed, a call that
returns `Ok` leaves the pair of the memory in the rows.  In every interleaving of the
instances in which no one writes its access token while another one has still to write
its refresh token, and no write of a refresh token fails, the rows of a quiescent state
come from one answer. -/
theorem pair_kept (access refresh : Text) :
    (∀ (i : I) (s : State I),
      (machine I access refresh).Reach (fun s a => a.1 = i ∧ Saved s a) s →
      s.returned = some (i, true) → InStep s i) ∧
    (∀ s : State I, (machine I access refresh).Reach OneWriter s → Quiescent s → OnePair s) :=
  ⟨fun _ _ h => (soloInv_of_reach h).returned,
    fun _ h hq => (writerInv_of_reach h).rows hq.halfWritten⟩

/-! ### Two answers -/

instance : ∀ (s : State I) (a : I × Io), Decidable (Saved s a)
  | s, (i, .now t) => inferInstanceAs (Decidable ((s.instances i).phase = .idle false →
      (s.instances i).memory.accessExpiresAt ≤ t))
  | _, (_, .answer _) | _, (_, .keychain _) => isTrue trivial

instance {n : ℕ} : ∀ (s : State (Fin n)) (a : Fin n × Io), Decidable (OneWriter s a)
  | s, (i, .keychain ok) => inferInstanceAs (Decidable
    (((s.instances i).phase.putsAccess = true →
      ∀ j, (s.instances j).phase.halfWritten = none) ∧
    ((s.instances i).phase.halfWritten.isSome = true → ok = true)))
  | _, (_, .answer _) | _, (_, .now _) => isTrue trivial

def firstAnswer : TokenPair := ⟨"access-1".toList, "refresh-1".toList, 3600⟩

def secondAnswer : TokenPair := ⟨"access-2".toList, "refresh-2".toList, 3600⟩

/-- The instance is built, and a call finds its token expired. -/
def opening (i : I) (answer : TokenPair) : List (I × Io) :=
  [(i, .now 0), (i, .now 0), (i, .now 0), (i, .answer (some answer))]

/-- A refresh whose pair is written back, and a call after it. -/
def savedRun : List (Fin 2 × Io) :=
  opening 0 firstAnswer ++ [(0, .keychain true), (0, .keychain true), (0, .now 60)]

/-- A refresh that rotates both tokens is written back. -/
theorem saved_run_kept : ∃ s, (machine (Fin 2) "access-0".toList "refresh-0".toList).exec
    (start "access-0".toList "refresh-0".toList) savedRun = some s ∧
    s.access = "access-1".toList ∧ InStep s 0 ∧ OnePair s := by
  have hrun : (((machine (Fin 2) "access-0".toList "refresh-0".toList).exec
      (start "access-0".toList "refresh-0".toList) savedRun).any fun s =>
        s.access = "access-1".toList ∧ s.returned = some (0, true) ∧
          ∀ i, (s.instances i).phase.isQuiet = true) = true := by decide +kernel
  obtain ⟨s, hs, hret⟩ := (Option.any_eq_true ..).mp hrun
  obtain ⟨hacc, hret, hquiet⟩ := of_decide_eq_true hret
  have hsolo : (machine (Fin 2) "access-0".toList "refresh-0".toList).Allowed
      (fun s a => a.1 = 0 ∧ Saved s a) (start "access-0".toList "refresh-0".toList) savedRun := by
    decide +kernel
  have hwriter : (machine (Fin 2) "access-0".toList "refresh-0".toList).Allowed OneWriter
      (start "access-0".toList "refresh-0".toList) savedRun := by decide +kernel
  exact ⟨s, hs, hacc,
    (pair_kept _ _).1 0 s (Machine.reach_of_exec hsolo hs) hret,
    (pair_kept _ _).2 s (Machine.reach_of_exec hwriter hs) hquiet⟩

/-- A refresh whose first write fails, and a call after it. -/
def unsavedRun : List (Fin 2 × Io) :=
  opening 0 firstAnswer ++ [(0, .keychain false), (0, .now 60)]

/-- Two instances refresh, and the writes of one lie between those of the other. -/
def crossedRun : List (Fin 2 × Io) :=
  opening 0 firstAnswer ++ opening 1 secondAnswer ++
    [(0, .keychain true), (1, .keychain true), (1, .keychain true), (0, .keychain true)]

/-- **A token pair is lost**: a call returns `Ok` with a pair that is not in the rows,
and the rows of a quiescent state come from two answers. -/
theorem pair_lost :
    (¬ ∀ (i : Fin 2) s, (machine (Fin 2) "access-0".toList "refresh-0".toList).Reach
      (fun _ a => a.1 = i) s → s.returned = some (i, true) → InStep s i) ∧
    ¬ ∀ s, (machine (Fin 2) "access-0".toList "refresh-0".toList).Reach (fun _ _ => True) s →
      Quiescent s → OnePair s := by
  constructor
  · intro h
    have hrun : (((machine (Fin 2) "access-0".toList "refresh-0".toList).exec
        (start "access-0".toList "refresh-0".toList) unsavedRun).any fun s =>
          s.returned = some (0, true) ∧ s.access = "access-0".toList ∧
            (s.instances 0).memory.accessToken = "access-1".toList) = true := by decide +kernel
    obtain ⟨s, hs, hret⟩ := (Option.any_eq_true ..).mp hrun
    obtain ⟨hret, hrow, hmem⟩ := of_decide_eq_true hret
    have hstep := (h 0 s (Machine.reach_of_exec (by decide +kernel) hs) hret).1
    rw [hrow, hmem] at hstep
    exact absurd hstep (by decide)
  · intro h
    have hrun : (((machine (Fin 2) "access-0".toList "refresh-0".toList).exec
        (start "access-0".toList "refresh-0".toList) crossedRun).any fun s =>
          (∀ i, (s.instances i).phase.isQuiet = true) ∧
            (s.access, s.refresh) ∉ s.pairs) = true := by decide +kernel
    obtain ⟨s, hs, hcrossed⟩ := (Option.any_eq_true ..).mp hrun
    obtain ⟨hquiet, hnot⟩ := of_decide_eq_true hcrossed
    exact hnot (h s (Machine.reach_of_exec (Machine.allowed_true _ _) hs) hquiet)

end OAuth
end Dayseam
