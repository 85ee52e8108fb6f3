import Dayseam.Connectors.Http
import Mathlib

/-!
# A call against its retry policy

The pauses of a call and its result, from a big-step relation on the attempts, and when
they are those that the policy promises.  The attempt is counted before its pause is
computed, so that the first pause waits twice the initial backoff; the jitter comes after
the ceiling; and an empty budget still allows a send.

## Main definitions

* `Run.Retries`, `Run.PauseDue` — the attempts that are tried again, and the pauses due.
* `Conducts` — how a call goes from an attempt on.
* `MeetsPolicy`, `Run.InTime` — what the policy promises, and when a pause keeps to it.

## Main results

* `sendLoop_conducts` — the loop goes as the relation says.
* `Run.meets_iff` — when a call meets its policy.
-/

namespace Dayseam.Http

variable {F64 : Type} (crates : Crates) (floats : Floats F64) (R : Run F64)

/-! ### The attempts of a call -/

/-- Attempt `i` is sent, and brings an outcome to retry with an attempt left. -/
structure Run.Retries (i : ℕ) : Prop where
  notBefore : R.cancelledBefore i = false
  cloneable : R.cloneable = true
  notInFlight : R.cancelledInFlight i = false
  retriable : (R.outcome i).retriable = true
  budget : i + 1 < R.policy.maxAttempts

/-- Attempt `i` is followed by another. -/
def Run.GoesOn (i : ℕ) : Prop := R.Retries i ∧ R.cancelledInBackoff i = false

/-- From attempt `a` on, a pause is due after `k` more attempts. -/
def Run.DueFrom (a k : ℕ) : Prop := (∀ j < k, R.GoesOn (a + j)) ∧ R.Retries (a + k)

/-- A pause is due after attempt `k`. -/
def Run.PauseDue (k : ℕ) : Prop := (∀ j < k, R.GoesOn j) ∧ R.Retries k

variable {R} in
theorem Run.dueFrom_succ {a k : ℕ} : R.DueFrom a (k + 1) ↔ R.GoesOn a ∧ R.DueFrom (a + 1) k := by
  constructor
  · rintro ⟨h, hr⟩
    refine ⟨h 0 (by omega), fun j hj => ?_, ?_⟩
    · have := h (j + 1) (by omega)
      rwa [← Nat.add_assoc, Nat.add_right_comm] at this
    · rwa [← Nat.add_assoc, Nat.add_right_comm] at hr
  · rintro ⟨hgo, h, hr⟩
    refine ⟨fun j hj => ?_, ?_⟩
    · rcases j with _ | j
      · exact hgo
      · have := h j (by omega)
        rwa [Nat.add_right_comm, Nat.add_assoc] at this
    · rwa [Nat.add_right_comm, Nat.add_assoc] at hr

variable {R} in
/-- The attempt that a call starts from is one to retry, where a pause is due after it. -/
theorem Run.DueFrom.retries {a k : ℕ} (h : R.DueFrom a k) : R.Retries a := by
  rcases k with _ | k
  · exact h.2
  · exact (Run.dueFrom_succ.mp h).1.1

variable {R} in
theorem Run.dueFrom_zero {k : ℕ} : R.DueFrom 0 k ↔ R.PauseDue k := by
  simp only [DueFrom, PauseDue, Nat.zero_add]

/-- The status a call remembers before attempt `n`. -/
def Run.lastStatus : ℕ → Option ℕ
  | 0 => none
  | n + 1 => (R.outcome n).status (Run.lastStatus n)

/-- The pause after attempt `i`. -/
def Run.backoff (i : ℕ) : Option Backoff :=
  computeBackoff floats R.policy (R.genRange i) (i + 1) (R.outcome i).hint

def Run.pause (i : ℕ) (b : Backoff) : Backoff × Notice :=
  (b, notice crates R.policy (R.outcome i) (i + 1) b.wait)

/-- What attempt `n` answers when it is the last. -/
def Run.answer (n : ℕ) : Result := settle crates (n + 1) (R.lastStatus (n + 1)) (R.outcome n)

/-! ### How a call goes -/

/-- A call from attempt `a` on, with its trace. -/
inductive Conducts : ℕ → Trace → Prop
  | cancelledBefore {a : ℕ} (h : R.cancelledBefore a = true) :
      Conducts a ⟨0, [], cancelled "HTTP call cancelled before send"⟩
  | uncloneable {a : ℕ} (hb : R.cancelledBefore a = false) (h : R.cloneable = false) :
      Conducts a ⟨0, [], uncloneable⟩
  | cancelledInFlight {a : ℕ} (hb : R.cancelledBefore a = false) (hc : R.cloneable = true)
      (h : R.cancelledInFlight a = true) :
      Conducts a ⟨1, [], cancelled "HTTP call cancelled in-flight"⟩
  | settled {a : ℕ} (hb : R.cancelledBefore a = false) (hc : R.cloneable = true)
      (h : (R.outcome a).retriable = true → R.policy.maxAttempts ≤ a + 1) (hn : ¬ R.Retries a) :
      Conducts a ⟨1, [], R.answer crates a⟩
  | panicked {a : ℕ} (h : R.Retries a) (hb : R.backoff floats a = none) :
      Conducts a ⟨1, [], .panicked⟩
  | cancelledInBackoff {a : ℕ} {b : Backoff} (h : R.Retries a)
      (hb : R.backoff floats a = some b) (hc : R.cancelledInBackoff a = true) :
      Conducts a ⟨1, [R.pause crates a b], cancelled (sleepMessage b.wait)⟩
  | goesOn {a : ℕ} {b : Backoff} {rest : Trace} (h : R.GoesOn a)
      (hb : R.backoff floats a = some b) (hrest : Conducts (a + 1) rest) :
      Conducts a (rest.after (R.pause crates a b))

/-- The loop goes as the relation says, from every attempt that the counter can reach. -/
theorem sendLoop_conducts {a : ℕ} (ha : a < U32_MAX) :
    Conducts crates floats R a (sendLoop crates floats R a (R.lastStatus a)) := by
  have hle := R.policy.maxAttempts_le
  -- the induction is on the attempts that are left
  induction hk : R.policy.maxAttempts - a using Nat.strong_induction_on generalizing a with
  | _ k ih =>
    have hdone : min (a + 1) U32_MAX = a + 1 := by omega
    rw [sendLoop]
    dsimp only
    rw [hdone]
    by_cases hb : R.cancelledBefore a = true
    · rw [if_pos hb]
      exact .cancelledBefore hb
    rw [if_neg hb]
    by_cases hc : R.cloneable = true
    swap
    · rw [if_pos (by simpa using hc)]
      exact .uncloneable (by simpa using hb) (by simpa using hc)
    rw [if_neg (by simpa using hc)]
    by_cases hf : R.cancelledInFlight a = true
    · rw [if_pos hf]
      exact .cancelledInFlight (by simpa using hb) hc hf
    rw [if_neg hf]
    by_cases hr : (R.outcome a).retriable = true ∧ a + 1 < R.policy.maxAttempts
    · rw [if_pos hr]
      have hretries : R.Retries a := ⟨by simpa using hb, hc, by simpa using hf, hr.1, hr.2⟩
      split
      · next hnone => exact .panicked hretries hnone
      · next b hsome =>
        split_ifs with hx
        · exact .cancelledInBackoff hretries hsome hx
        · have hlt := hr.2
          exact .goesOn ⟨hretries, by simpa using hx⟩ hsome (ih _ (by omega) (by omega) rfl)
    · rw [if_neg hr]
      refine .settled (by simpa using hb) hc (fun h => ?_) fun h => ?_
      · exact Nat.le_of_not_lt fun hlt => hr ⟨h, hlt⟩
      · exact hr ⟨h.retriable, h.budget⟩

theorem settle_ne_panicked (attempt : ℕ) (last : Option ℕ) (o : Outcome) :
    settle crates attempt last o ≠ .panicked := by
  cases o with
  | transport err => exact nofun
  | response res =>
    simp only [settle]
    split_ifs <;> exact nofun

section

variable {crates floats R} {a : ℕ} {t : Trace}

theorem Conducts.sends_le (h : Conducts crates floats R a t) :
    a + t.sends ≤ max (a + 1) R.policy.maxAttempts := by
  induction h with
  | goesOn hgo _ _ ih =>
    have := hgo.1.budget
    simp only [Trace.after]
    omega
  | _ => simp only; omega

theorem Conducts.sends_eq_zero_iff (h : Conducts crates floats R a t) :
    t.sends = 0 ↔ R.cancelledBefore a = true ∨ R.cloneable = false := by
  cases h with
  | cancelledBefore h => simp [h]
  | uncloneable hb h => simp [h]
  | cancelledInFlight hb hc _ => simp [hb, hc]
  | settled hb hc _ _ => simp [hb, hc]
  | panicked h _ => simp [h.notBefore, h.cloneable]
  | cancelledInBackoff h _ _ => simp [h.notBefore, h.cloneable]
  | goesOn h _ _ => simp [Trace.after, h.1.notBefore, h.1.cloneable]

/-- A pause that is made is due, and as long as it is computed. -/
theorem Conducts.pause_due (h : Conducts crates floats R a t) {k : ℕ} {p : Backoff × Notice}
    (hp : t.pauses[k]? = some p) : R.DueFrom a k ∧ R.backoff floats (a + k) = some p.1 := by
  induction h generalizing k with
  | @cancelledInBackoff a b h hb _ =>
    rcases k with _ | k
    · obtain rfl : R.pause crates a b = p := by simpa using hp
      exact ⟨⟨fun j hj => by omega, h⟩, hb⟩
    · simp at hp
  | @goesOn a b rest hgo hb _ ih =>
    rcases k with _ | k
    · obtain rfl : R.pause crates a b = p := by simpa [Trace.after] using hp
      exact ⟨⟨fun j hj => by omega, hgo.1⟩, hb⟩
    · obtain ⟨hdue, hback⟩ := ih (k := k) (by simpa [Trace.after] using hp)
      refine ⟨Run.dueFrom_succ.mpr ⟨hgo, hdue⟩, ?_⟩
      rwa [Nat.add_right_comm, Nat.add_assoc] at hback
  | _ => simp at hp

/-- A pause that is due is made, unless the call panics. -/
theorem Conducts.pause_or_panic (h : Conducts crates floats R a t) {k : ℕ}
    (hdue : R.DueFrom a k) : (∃ p, t.pauses[k]? = some p) ∨ t.result = .panicked := by
  induction h generalizing k with
  | panicked => exact Or.inr rfl
  | goesOn hgo hb _ ih =>
    rcases k with _ | k
    · exact Or.inl ⟨_, rfl⟩
    · simpa [Trace.after] using ih (Run.dueFrom_succ.mp hdue).2
  | cancelledInBackoff h hb hc =>
    rcases k with _ | k
    · exact Or.inl ⟨_, rfl⟩
    · -- the call ends in this pause
      have := (Run.dueFrom_succ.mp hdue).1.2
      simp [hc] at this
  | cancelledBefore h => simp [hdue.retries.notBefore] at h
  | uncloneable _ h => simp [hdue.retries.cloneable] at h
  | cancelledInFlight _ _ h => simp [hdue.retries.notInFlight] at h
  | settled _ _ _ hn => exact absurd hdue.retries hn

/-- A call that panics does so in a pause that is due. -/
theorem Conducts.panic (h : Conducts crates floats R a t) (ht : t.result = .panicked) :
    ∃ k, R.DueFrom a k ∧ R.backoff floats (a + k) = none := by
  induction h with
  | @panicked a h hb => exact ⟨0, ⟨fun j hj => by omega, h⟩, hb⟩
  | goesOn hgo _ _ ih =>
    obtain ⟨k, hdue, hnone⟩ := ih ht
    refine ⟨k + 1, Run.dueFrom_succ.mpr ⟨hgo, hdue⟩, ?_⟩
    rwa [Nat.add_right_comm, Nat.add_assoc] at hnone
  | settled => exact absurd ht (settle_ne_panicked crates _ _ _)
  | _ => simp [cancelled, Http.uncloneable] at ht

/-- The token was cancelled during a call, at some point that the call looks at it. -/
def Run.Cancelled (R : Run F64) : Prop :=
  ∃ i, R.cancelledBefore i = true ∨ R.cancelledInFlight i = true ∨
    R.cancelledInBackoff i = true

/-- A call that is stopped from outside, and says so. -/
def Run.Interrupted (R : Run F64) (r : Result) : Prop :=
  (R.Cancelled ∧ ∃ message, r = cancelled message) ∨ (R.cloneable = false ∧ r = uncloneable)

/-- A call answers with the first outcome that is not one to retry, or with the last. -/
theorem Conducts.answer (h : Conducts crates floats R a t) :
    t.result = .panicked ∨ R.Interrupted t.result ∨
      ∃ n, a + t.sends = n + 1 ∧ a ≤ n ∧ (∀ j, a ≤ j → j < n → (R.outcome j).retriable = true) ∧
        ((R.outcome n).retriable = true → R.policy.maxAttempts ≤ n + 1) ∧
        t.result = R.answer crates n := by
  induction h with
  | cancelledBefore h => exact Or.inr (Or.inl (Or.inl ⟨⟨_, Or.inl h⟩, _, rfl⟩))
  | uncloneable _ h => exact Or.inr (Or.inl (Or.inr ⟨h, rfl⟩))
  | cancelledInFlight _ _ h =>
    exact Or.inr (Or.inl (Or.inl ⟨⟨_, Or.inr (Or.inl h)⟩, _, rfl⟩))
  | @settled a _ _ h _ =>
    exact Or.inr (Or.inr ⟨a, rfl, le_rfl, fun j hj hlt => by omega, h, rfl⟩)
  | panicked => exact Or.inl rfl
  | cancelledInBackoff _ _ hc =>
    exact Or.inr (Or.inl (Or.inl ⟨⟨_, Or.inr (Or.inr hc)⟩, _, rfl⟩))
  | @goesOn a b rest hgo _ _ ih =>
    rcases ih with hp | hi | ⟨n, hsends, hle, hbefore, hlast, hres⟩
    · exact Or.inl hp
    · exact Or.inr (Or.inl hi)
    · refine Or.inr (Or.inr ⟨n, ?_, by omega, fun j hj hlt => ?_, hlast, hres⟩)
      · simp only [Trace.after]
        omega
      · rcases Nat.eq_or_lt_of_le hj with rfl | hj
        · exact hgo.1.retriable
        · exact hbefore j hj hlt

end

/-! ### The policy -/

/-- What the policy promises of a call that answers with `t`. -/
structure MeetsPolicy (t : Trace) : Prop where
  sends_le : t.sends ≤ R.policy.maxAttempts
  /-- The answer is that of the first outcome that is not one to retry; of the last attempt
  where there is none; unless the call is stopped from outside. -/
  answer : R.Interrupted t.result ∨
    ∃ n, t.sends = n + 1 ∧ (∀ j < n, (R.outcome j).retriable = true) ∧
      ((R.outcome n).retriable = true → R.policy.maxAttempts ≤ n + 1) ∧
      t.result = R.answer crates n
  /-- The pauses: a hint of the server up to the ceiling for it, and else the schedule. -/
  schedule : ∀ k p, t.pauses[k]? = some p →
    match (R.outcome k).hint with
    | some ra => p.1.wait = min ra MAX_RETRY_AFTER
    | none => p.1.capped = min (R.policy.baseBackoff * 2 ^ k) R.policy.maxBackoff ∧
        p.1.wait ≤ R.policy.maxBackoff
  no_panic : t.result ≠ .panicked

/-- The pause after attempt `k` keeps to the schedule: there is no backoff, or the doubled
exponent changes nothing, and the jitter that is drawn leaves it under the ceiling. -/
def Run.InTime (k : ℕ) : Prop :=
  R.policy.baseBackoff = 0 ∨
    ((k = 16 ∨ R.policy.maxBackoff ≤ R.policy.baseBackoff * 2 ^ min k 16) ∧
      (floats.isZero (floats.clampUnit R.policy.jitterFrac) = true ∨
        ∃ delta, R.genRange k (floats.clampUnit R.policy.jitterFrac) = some delta ∧
          ∃ w, scaled floats (min (R.policy.baseBackoff * 2 ^ k) R.policy.maxBackoff) delta
              = some w ∧ w ≤ R.policy.maxBackoff))

/-- When one step too far in the exponent changes nothing. -/
theorem min_pow_succ_iff {base ceiling : ℕ} (hbase : base ≠ 0) (k : ℕ) :
    min (base * 2 ^ min (k + 1) 16) ceiling = min (base * 2 ^ k) ceiling ↔
      k = 16 ∨ ceiling ≤ base * 2 ^ min k 16 := by
  have hpos := Nat.pos_of_ne_zero hbase
  rcases Nat.lt_trichotomy k 16 with hk | rfl | hk
  · -- below the last exponent the wait doubles
    rw [Nat.min_eq_left (by omega : k + 1 ≤ 16), Nat.min_eq_left (by omega : k ≤ 16), Nat.pow_succ,
      ← Nat.mul_assoc]
    have : 0 < base * 2 ^ k := Nat.mul_pos hpos (Nat.pow_pos (by omega))
    omega
  · simp
  · -- past it the wait stays where it is, and the schedule goes on
    rw [Nat.min_eq_right (by omega : 16 ≤ k + 1), Nat.min_eq_right (by omega : 16 ≤ k)]
    have hlt : base * 2 ^ 16 < base * 2 ^ k :=
      Nat.mul_lt_mul_of_pos_left (Nat.pow_lt_pow_right (by omega) hk) hpos
    omega

variable {floats R} in
theorem Run.inTime_iff {k : ℕ} (hint : (R.outcome k).hint = none) :
    (∃ b, R.backoff floats k = some b ∧
      b.capped = min (R.policy.baseBackoff * 2 ^ k) R.policy.maxBackoff ∧
      b.wait ≤ R.policy.maxBackoff) ↔ R.InTime floats k := by
  by_cases hbase : R.policy.baseBackoff = 0
  · simp [InTime, backoff, computeBackoff, hint, hbase]
  · rw [InTime, or_iff_right hbase, ← min_pow_succ_iff hbase, ← cappedBackoff_eq]
    simp only [backoff, computeBackoff, hint, if_neg hbase, Option.map_eq_some_iff]
    constructor
    · rintro ⟨_, ⟨w, hw, rfl⟩, hcap, hwait⟩
      refine ⟨hcap, ?_⟩
      rw [applyJitter] at hw
      split_ifs at hw with hz
      · exact Or.inl hz
      · obtain ⟨delta, hdelta, hscaled⟩ := Option.bind_eq_some_iff.mp hw
        exact Or.inr ⟨delta, hdelta, w, hcap ▸ hscaled, hwait⟩
    · rintro ⟨hcap, hjitter⟩
      by_cases hz : floats.isZero (floats.clampUnit R.policy.jitterFrac) = true
      · refine ⟨_, ⟨cappedBackoff R.policy (k + 1), ?_, rfl⟩, hcap, min_le_right _ _⟩
        rw [applyJitter, if_pos hz]
      · obtain ⟨delta, hdelta, w, hw, hwait⟩ := hjitter.resolve_left hz
        refine ⟨_, ⟨w, ?_, rfl⟩, hcap, hwait⟩
        rw [applyJitter, if_neg hz, hdelta, Option.bind_some, hcap, hw]

variable {floats R} in
theorem Run.backoff_of_hint {k ra : ℕ} (hint : (R.outcome k).hint = some ra) :
    R.backoff floats k = some ⟨min ra MAX_RETRY_AFTER, min ra MAX_RETRY_AFTER⟩ := by
  rw [backoff, hint, computeBackoff_some]

/-- The pauses due are all in time. -/
def Run.OnSchedule : Prop :=
  ∀ k, R.PauseDue k → (R.outcome k).hint = none → R.InTime floats k

theorem send_conducts : Conducts crates floats R 0 (send crates floats R) :=
  sendLoop_conducts crates floats R (by decide)

variable {floats R} in
theorem Run.meets_of_onSchedule
    (h0 : R.policy.maxAttempts = 0 → R.cancelledBefore 0 = true ∨ R.cloneable = false)
    (h : R.OnSchedule floats) : MeetsPolicy crates R (send crates floats R) := by
  have hrun := send_conducts crates floats R
  have hpanic : (send crates floats R).result ≠ .panicked := by
    intro hp
    obtain ⟨k, hdue, hnone⟩ := hrun.panic hp
    rw [Nat.zero_add] at hnone
    rcases hhint : (R.outcome k).hint with _ | ra
    · obtain ⟨b, hb, -⟩ := (Run.inTime_iff hhint).mpr (h k (Run.dueFrom_zero.mp hdue) hhint)
      simp [hb] at hnone
    · simp [Run.backoff_of_hint hhint] at hnone
  refine ⟨?_, ?_, fun k p hp => ?_, hpanic⟩
  · have hle := hrun.sends_le
    rcases Nat.eq_zero_or_pos R.policy.maxAttempts with hmax | hmax
    · have := hrun.sends_eq_zero_iff.mpr (h0 hmax)
      omega
    · omega
  · rcases hrun.answer with hp | hi | ⟨n, hsends, -, hbefore, hlast, hres⟩
    · exact absurd hp hpanic
    · exact Or.inl hi
    · exact Or.inr ⟨n, by omega, fun j hj => hbefore j (by omega) hj, hlast, hres⟩
  · obtain ⟨hdue, hback⟩ := hrun.pause_due hp
    rw [Nat.zero_add] at hback
    split
    · next ra hhint =>
      rw [Run.backoff_of_hint hhint] at hback
      rw [← Option.some.inj hback]
    · next hhint =>
      obtain ⟨b, hb, hcap, hwait⟩ :=
        (Run.inTime_iff hhint).mpr (h k (Run.dueFrom_zero.mp hdue) hhint)
      obtain rfl := Option.some.inj (hb.symm.trans hback)
      exact ⟨hcap, hwait⟩

variable {crates floats R} in
theorem Run.onSchedule_of_meets (h : MeetsPolicy crates R (send crates floats R)) :
    R.OnSchedule floats := by
  have hrun := send_conducts crates floats R
  intro k hdue hhint
  obtain ⟨p, hp⟩ := (hrun.pause_or_panic (Run.dueFrom_zero.mpr hdue)).resolve_right h.no_panic
  have hback := (hrun.pause_due hp).2
  rw [Nat.zero_add] at hback
  have hsched := h.schedule k p hp
  rw [hhint] at hsched
  exact (Run.inTime_iff hhint).mp ⟨p.1, hback, hsched⟩

/-- Fractions for `f64`: exact where both are, as they are without jitter. -/
def fractions : Floats ℚ where
  clampUnit q := max 0 (min q 1)
  isZero q := decide (q = 0)
  onePlus q := 1 + q
  maxZero q := max q 0
  mul q r := q * r
  asSecsF64 d := (d : ℚ) / 10 ^ 9
  fromSecsF64 q := if 0 ≤ q ∧ q < 2 ^ 64 then some (q * 10 ^ 9).floor.toNat else none

/-- The upstream is unavailable once, and then answers; the default policy, without jitter. -/
def unavailableOnce : Run ℚ where
  policy :=
    { maxAttempts := 5, baseBackoff := fromMillis 500, maxBackoff := fromSecs 30, jitterFrac := 0,
      maxAttempts_le := by decide, baseBackoff_le := by decide, maxBackoff_le := by decide }
  cloneable := true
  outcome i := .response ⟨if i = 0 then 503 else 200, none⟩
  genRange _ _ := none
  cancelledBefore _ := false
  cancelledInFlight _ := false
  cancelledInBackoff _ := false

end Dayseam.Http
