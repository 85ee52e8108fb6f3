import Dayseam.Orchestrator.Outcomes
import Mathlib

/-!
# The in-flight entry when an insert fails

A run whose `sync_runs` insert fails removes the in-flight entry of its key,
whoever's it is, and never marks the run that it superseded.  The entry names the
newest live run, and no superseded run is left running in the table, in every
interleaving in which a failed run finds its own entry or none, and no run leaves
its row to a successor whose insert failed.

## Main definitions

* `Tracked` — the in-flight map names the newest live run.
* `InsertGuarded` — the steps that keep it so.

## Main results

* `inFlight_tracks` — **the entry names the newest live run in guarded runs.**
* `entry_lost_on_failed_insert` — an interleaving that loses it.
-/

namespace Dayseam
namespace Orchestrator

variable {R P : Type} [DecidableEq R]

/-- The insert of the run has failed: it drains the entry, or is done and left no
row. -/
def StartFailed (s : State R P) (r : R) : Prop :=
  (s.runs r).phase = .draining ∨ ((s.runs r).phase = .done ∧ s.rows r = none)

/-- The run has left its row to a newer one that it found. -/
def LeftToNewer (s : State R P) (r : R) : Prop :=
  ∃ q, (s.runs r).phase = .cancelling (some q) ∨
    (s.runs r).phase = .dropping (cancelledOutcome r (some q)) ∨
    (s.runs r).outcome = some (cancelledOutcome r (some q))

/-- Every database statement but the insert of a `sync_runs` row succeeds when it
can. -/
def OnlyInsertsFail (s : State R P) : Action R P → Prop
  | .advance r io => (s.runs r).phase ≠ .inserting → StatementsSucceed s (.advance r io)
  | .start _ _ | .cancel _ | .cancelHandle _ => True

/-- The next step of the run looks for a newer one. -/
def Phase.looksUp : Phase R → Bool
  | .lookingUp | .guarding _ => true
  | _ => false

/-- A run whose insert failed drains its own entry or none; a run that finds a
newer one was not superseded by a start that failed; and an insert fails only
while the run that it superseded has not left its row to it. -/
def InsertGuarded (s : State R P) : Action R P → Prop
  | .advance r io => OnlyInsertsFail s (.advance r io) ∧
      ((s.runs r).phase = .draining → s.inFlight = none ∨ s.inFlight = some r) ∧
      ((s.runs r).phase.looksUp = true → supersededByNow s r ≠ none →
        ∀ q, (s.runs q).prior = some r → ¬ StartFailed s q) ∧
      ((s.runs r).phase = .inserting → io.ok = false →
        ∀ p, (s.runs r).prior = some p → ¬ LeftToNewer s p)
  | .start _ _ | .cancel _ | .cancelHandle _ => True

/-- The in-flight map names the newest live run: only its own run removes an
entry, other than by a swap; a live run that is not superseded is found by
`cancel` and is the prior of the next start; and a run that was superseded by a
start whose insert failed is not left running. -/
structure Tracked (allowed : State R P → Action R P → Prop) (s : State R P) : Prop where
  removed : ∀ a s' r, allowed s a → step s a = some s' → s.inFlight = some r →
    s'.inFlight = some r ∨ (∃ q trigger, a = .start q trigger) ∨ ∃ io, a = .advance r io
  found : ∀ r, (s.runs r).phase ≠ .idle → (s.runs r).phase ≠ .done → Newest s r →
    (cancel s r).2 = true ∧
      ∀ q trigger s', start s q trigger = some s' → (s'.runs q).prior = some r
  settled : ∀ r q, (s.runs q).prior = some r → StartFailed s q → (s.runs r).phase = .done →
    ∀ run, s.rows r = some run → run.status ≠ .running

/-- What guarded steps preserve. -/
structure TrackInv (s : State R P) : Prop extends RowsInv s where
  newest : ∀ r, Newest s r → (s.runs r).phase ≠ .done → s.inFlight = some r
  kept : ∀ r q, (s.runs q).prior = some r → StartFailed s q → ¬ LeftToNewer s r
  present : ∀ r, (s.runs r).phase.beforeInsert = false → (s.runs r).phase ≠ .draining →
    (s.runs r).phase ≠ .done → s.rows r ≠ none
  dropping : ∀ r o, (s.runs r).phase = .dropping o →
    (∃ q, o = cancelledOutcome r (some q)) ∨
      ∀ run, s.rows r = some run → run.status ≠ .running
  done : ∀ r, (s.runs r).phase = .done → LeftToNewer s r ∨
    ∀ run, s.rows r = some run → run.status ≠ .running
  unresolved : ∀ r, (s.runs r).phase ≠ .done → (s.runs r).outcome = none

variable {s s' : State R P} {r : R} {io : Io P}

/-! ### Rows left to a newer run -/

theorem leftToNewer_other (h : advance s r io = some s') {p : R} (hp : p ≠ r) :
    LeftToNewer s' p ↔ LeftToNewer s p := by
  rw [LeftToNewer, (advance_other h hp).1, (advance_other h hp).2, LeftToNewer]

/-- A run leaves its row to a newer one only by looking that run up. -/
theorem leftToNewer_self (h : advance s r io = some s') (hl : LeftToNewer s' r) :
    LeftToNewer s r ∨ ((s.runs r).phase.looksUp = true ∧ supersededByNow s r ≠ none) := by
  have hnext := advance_phase h
  obtain ⟨q, hq | hq | hq⟩ := hl
  · rw [hq] at hnext
    generalize hph : (s.runs r).phase = ph at hnext
    generalize hfound : Phase.cancelling (some q) = ph' at hnext
    cases hnext with
    | lookedUp => exact Or.inr ⟨rfl, by rw [← Phase.cancelling.inj hfound]; simp⟩
    | _ => cases hfound
  · rw [hq] at hnext
    generalize hph : (s.runs r).phase = ph at hnext
    generalize hdrop : Phase.dropping (cancelledOutcome r (some q)) = ph' at hnext
    cases hnext with
    | cancelled found =>
      cases found with
      | none => simp [cancelledOutcome] at hdrop
      | some p => exact Or.inl ⟨p, Or.inl hph⟩
    | finished | failed => simp [cancelledOutcome] at hdrop
    | _ => cases hdrop
  · rcases advance_outcome h with ⟨-, heq⟩ | ⟨-, o, ho, hres⟩
    · exact Or.inl ⟨q, Or.inr (Or.inr (heq ▸ hq))⟩
    · cases hq.symm.trans ho
      generalize hph : (s.runs r).phase = ph at hres
      generalize hout : cancelledOutcome r (some q) = o' at hres
      cases hres with
      | drained => simp [cancelledOutcome] at hout
      | superseded d p hp => exact Or.inr ⟨rfl, by rw [hp]; simp⟩
      | dropped => exact Or.inl ⟨q, Or.inr (Or.inl (by rw [hph, hout]))⟩

/-- The start of another run fails in its own step only. -/
theorem startFailed_advance (h : advance s r io = some s') {q : R} (hq : StartFailed s' q) :
    StartFailed s q ∨ (q = r ∧ (s.runs r).phase = .inserting ∧ io.ok = false) ∨
      (q = r ∧ s.rows r = none ∧ ((∃ d, (s.runs r).phase = .guarding d) ∨
        ∃ o, (s.runs r).phase = .dropping o)) ∨
      (q = r ∧ (s.runs r).phase = .inserting ∧ s.rows r ≠ none) := by
  have hrows : s'.rows q = none → s.rows q = none := by
    intro hn
    by_contra hne
    exact (advance_records h).some hne hn
  by_cases hqr : q = r
  · subst hqr
    have hnext := advance_phase h
    rcases hq with hq | ⟨hq, hn⟩
    · rw [hq] at hnext
      generalize hph : (s.runs q).phase = ph at hnext
      cases hnext
      cases hok : io.ok with
      | false => exact Or.inr (Or.inl ⟨rfl, rfl, rfl⟩)
      | true =>
        refine Or.inr (Or.inr (Or.inr ⟨rfl, rfl, fun hfree => ?_⟩))
        have := advance_inserting h hph hok hfree
        rw [hq] at this
        cases this
    · rw [hq] at hnext
      have hfree := hrows hn
      generalize hph : (s.runs q).phase = ph at hnext
      cases hnext with
      | drained => exact Or.inl (Or.inl hph)
      | superseded d => exact Or.inr (Or.inr (Or.inl ⟨rfl, hfree, Or.inl ⟨d, rfl⟩⟩))
      | dropped o => exact Or.inr (Or.inr (Or.inl ⟨rfl, hfree, Or.inr ⟨o, rfl⟩⟩))
  · rw [StartFailed, (advance_other h hqr).1] at hq
    exact Or.inl (hq.imp_right fun hd => ⟨hd.1, hrows hd.2⟩)

/-- A row that cannot be moved is not running. -/
theorem not_running_of_ownWrite {o : GenerateOutcome R} (hfin : o.Final)
    (hr : s'.rows = (ownWrite s r io o).getD s.rows) :
    ∀ run, s'.rows r = some run → run.status ≠ .running := by
  intro run hrow hst
  cases hw : ownWrite s r io o with
  | none =>
    rw [hw, Option.getD_none] at hr
    obtain ⟨t, ht⟩ := SyncRunTable.exists_transition (hr ▸ hrow) hst o.status (some io.now)
      o.cancelReason none (some io.perSource)
    rw [ownWrite, ht] at hw
    cases hw
  | some t =>
    rw [hw, Option.getD_some] at hr
    obtain ⟨-, ⟨run', hrow', hst', -⟩, -⟩ := SyncRunTable.transition_eq_some hw
    rw [← hr, hrow] at hrow'
    cases hrow'
    exact hfin.1 (hst'.symm.trans hst)

section
variable (hi : TrackInv s) (ha : InsertGuarded s (.advance r io)) (h : advance s r io = some s')
include hi h

theorem TrackInv.advance_present (q : R) (hb : (s'.runs q).phase.beforeInsert = false)
    (hd : (s'.runs q).phase ≠ .draining) (hdone : (s'.runs q).phase ≠ .done) :
    s'.rows q ≠ none := by
  by_cases hqr : q = r
  · subst hqr
    have hnext := advance_phase h
    generalize hph : (s.runs q).phase = ph at hnext
    generalize hph' : (s'.runs q).phase = ph' at hnext hb hd hdone
    have hstored : ph.beforeInsert = false → ph ≠ .draining → ph ≠ .done → s'.rows q ≠ none :=
      fun h1 h2 h3 => (advance_records h).some (hi.present q (hph ▸ h1) (hph ▸ h2) (hph ▸ h3))
    cases hnext with
    | fired => cases hb
    | inserted => exact advance_marking h hph hph'
    | refused => exact absurd rfl hd
    | drained | superseded | dropped => exact absurd rfl hdone
    | _ => exact hstored rfl (by simp) (by simp)
  · rw [(advance_other h hqr).1] at hb hd hdone
    exact (advance_records h).some (hi.present q hb hd hdone)

theorem TrackInv.advance_unresolved (q : R) (hq : (s'.runs q).phase ≠ .done) :
    (s'.runs q).outcome = none := by
  by_cases hqr : q = r
  · subst hqr
    rcases advance_outcome h with ⟨-, heq⟩ | ⟨hdone, -⟩
    · rw [heq]
      refine hi.unresolved q fun hd => ?_
      simp only [Orchestrator.advance, hd, reduceCtorEq] at h
    · exact absurd hdone hq
  · rw [(advance_other h hqr).1] at hq
    rw [(advance_other h hqr).2]
    exact hi.unresolved q hq

include ha

theorem TrackInv.advance_newest (q : R) (hn : Newest s' q) (hq : (s'.runs q).phase ≠ .done) :
    s'.inFlight = some q := by
  rw [newest_advance h] at hn
  have hlive : (s.runs q).phase ≠ .done := by
    by_cases hqr : q = r
    · subst hqr
      intro hd
      simp only [Orchestrator.advance, hd, reduceCtorEq] at h
    · rw [← (advance_other h hqr).1]
      exact hq
  have hin := hi.newest q hn hlive
  rcases advance_inFlight h with he | ⟨hdrain, -⟩ | ⟨hours, -, o, hdrop⟩
  · rw [he]
    exact hin
  · -- a failed run drains its own entry only
    exfalso
    have hqr : q = r := by
      rcases ha.2.1 hdrain with he | he
      · rw [he] at hin; cases hin
      · rw [he] at hin; exact (Option.some.inj hin).symm
    subst hqr
    have hnext := advance_phase h
    rw [hdrain] at hnext
    generalize hph' : (s'.runs q).phase = ph' at hnext hq
    cases hnext
    exact hq rfl
  · exfalso
    have hqr : q = r := Option.some.inj (hin.symm.trans hours)
    subst hqr
    have hnext := advance_phase h
    rw [hdrop] at hnext
    generalize hph' : (s'.runs q).phase = ph' at hnext hq
    cases hnext
    exact hq rfl

theorem TrackInv.advance_kept (p q : R) (hp : (s'.runs q).prior = some p)
    (hf : StartFailed s' q) : ¬ LeftToNewer s' p := by
  rw [advance_prior h] at hp
  intro hl
  -- nobody leaves a row in the step in which a start fails
  have hleft : LeftToNewer s p ∨
      (p = r ∧ (s.runs r).phase.looksUp = true ∧ supersededByNow s r ≠ none) := by
    by_cases hpr : p = r
    · subst hpr
      exact (leftToNewer_self h hl).imp_right fun hh => ⟨rfl, hh⟩
    · exact Or.inl ((leftToNewer_other h hpr).mp hl)
  rcases startFailed_advance h hf with hf | ⟨rfl, hins, hok⟩ | ⟨rfl, hfree, hph⟩ |
    ⟨rfl, hins, hrow⟩
  · rcases hleft with hl | ⟨rfl, hlook, hfound⟩
    · exact hi.kept p q hp hf hl
    · exact ha.2.2.1 hlook hfound q hp hf
  · rcases hleft with hl | ⟨rfl, hlook, -⟩
    · exact ha.2.2.2 hins hok p hp hl
    · rw [hins] at hlook
      cases hlook
  · refine hi.present q ?_ ?_ ?_ hfree <;>
      (rcases hph with ⟨d, hph⟩ | ⟨o, hph⟩ <;> (rw [hph]; first | rfl | simp))
  · exact hrow (hi.absent q (Or.inl (by rw [hins]; rfl)))

theorem TrackInv.advance_dropping (q : R) (o : GenerateOutcome R)
    (hq : (s'.runs q).phase = .dropping o) : (∃ p, o = cancelledOutcome q (some p)) ∨
      ∀ run, s'.rows q = some run → run.status ≠ .running := by
  have hrec := advance_records h
  by_cases hqr : q = r
  · subst hqr
    by_cases hnewer : ∃ p, o = cancelledOutcome q (some p)
    · exact Or.inl hnewer
    right
    have hnext := advance_phase h
    rw [hq] at hnext
    obtain ⟨hown, hstores, hbefore, -⟩ := hnext.own fun p hp => hnewer ⟨p, hp⟩
    cases hrec with
    | nothing _ _ hn => exact absurd (hn o hq) hnewer
    | inserted _ hmark => rw [hq] at hmark; cases hmark
    | superseded _ hph => rw [hph] at hown; cases hown
    | drafted _ hph => rw [hph] at hown; cases hown
    | own o' hfin ho hr _ =>
      have hok : io.ok = true :=
        ha.1 (by intro hins; rw [hins] at hbefore; cases hbefore) hstores
      rw [hok, if_pos rfl] at hr
      exact not_running_of_ownWrite hfin hr
  · rw [(advance_other h hqr).1] at hq
    refine (hi.dropping q o hq).imp_right fun hold run hrow hst => ?_
    rcases hrec.running hrow hst with hrow | ⟨rfl, -⟩
    · exact hold run hrow hst
    · exact hqr rfl

theorem TrackInv.advance_done (q : R) (hq : (s'.runs q).phase = .done) :
    LeftToNewer s' q ∨ ∀ run, s'.rows q = some run → run.status ≠ .running := by
  have hrec := advance_records h
  by_cases hqr : q = r
  · subst hqr
    rcases advance_outcome h with ⟨hne, -⟩ | ⟨-, o, ho, hres⟩
    · exact absurd hq hne
    · generalize hph : (s.runs q).phase = ph at hres
      cases hres with
      | drained =>
        right
        intro run hrow
        rcases hrec.none (hi.absent q (Or.inr hph)) with hn | ⟨-, hins, -⟩
        · rw [hn] at hrow; cases hrow
        · rw [hph] at hins; cases hins
      | superseded d p hp => exact Or.inl ⟨p, Or.inr (Or.inr ho)⟩
      | dropped =>
        rcases hi.dropping q o hph with ⟨p, rfl⟩ | hold
        · exact Or.inl ⟨p, Or.inr (Or.inr ho)⟩
        · right
          intro run hrow hst
          rcases hrec.running hrow hst with hrow | ⟨-, hins⟩
          · exact hold run hrow hst
          · rw [hph] at hins; cases hins
  · rw [(advance_other h hqr).1] at hq
    refine (hi.done q hq).imp (leftToNewer_other h hqr).mpr fun hold run hrow hst => ?_
    rcases hrec.running hrow hst with hrow | ⟨rfl, -⟩
    · exact hold run hrow hst
    · exact hqr rfl

end

/-! ### Every step -/

/-- **A guarded step of one run** preserves the invariant. -/
theorem TrackInv.advance (hi : TrackInv s) (ha : InsertGuarded s (.advance r io))
    (h : advance s r io = some s') : TrackInv s' where
  newest := hi.advance_newest ha h
  kept := hi.advance_kept ha h
  present := hi.advance_present h
  dropping := hi.advance_dropping ha h
  toRowsInv := hi.toRowsInv.advance h
  done := hi.advance_done ha h
  unresolved := hi.advance_unresolved h

/-- The swap of a starting run preserves the invariant. -/
theorem TrackInv.started (hi : TrackInv s) (h : Started s r s') : TrackInv s' := by
  have hsame : ∀ q, q ≠ r → s'.runs q = s.runs q := h.others
  have hleft : ∀ {p}, LeftToNewer s' p → p ≠ r ∧ LeftToNewer s p := by
    intro p hl
    have hpr : p ≠ r := by
      rintro rfl
      simp only [LeftToNewer, h.phase, h.outcome, reduceCtorEq, or_self, exists_false] at hl
    exact ⟨hpr, by simpa only [LeftToNewer, hsame p hpr] using hl⟩
  refine ⟨hi.toRowsInv.started h, ?_, ?_, ?_, ?_, ?_, ?_⟩
  · intro q hn _
    rw [(newest_started h).mp hn]
    exact h.inFlight
  · intro p q hp hf hl
    obtain ⟨-, hl⟩ := hleft hl
    have hqr : q ≠ r := by
      rintro rfl
      simp only [StartFailed, h.phase, reduceCtorEq, false_and, or_self] at hf
    rw [hsame q hqr] at hp
    refine hi.kept p q hp ?_ hl
    simpa only [StartFailed, hsame q hqr, h.rows] using hf
  · intro q hb hd hdone
    have hqr : q ≠ r := by
      rintro rfl
      rw [h.phase] at hb
      cases hb
    rw [hsame q hqr] at hb hd hdone
    rw [h.rows]
    exact hi.present q hb hd hdone
  · intro q o hq
    have hqr : q ≠ r := by
      rintro rfl
      rw [h.phase] at hq
      cases hq
    rw [h.rows]
    exact hi.dropping q o (hsame q hqr ▸ hq)
  · intro q hq
    have hqr : q ≠ r := by
      rintro rfl
      rw [h.phase] at hq
      cases hq
    rw [hsame q hqr] at hq
    rw [h.rows]
    refine (hi.done q hq).imp_left fun hl => ?_
    simpa only [LeftToNewer, hsame q hqr] using hl
  · intro q hq
    by_cases hqr : q = r
    · rw [hqr]
      exact h.outcome
    · rw [hsame q hqr] at hq ⊢
      exact hi.unresolved q hq

omit [DecidableEq R] in
theorem TrackInv.tokensOnly (hi : TrackInv s) (h : TokensOnly s s') : TrackInv s' := by
  have hleft : ∀ p, LeftToNewer s' p ↔ LeftToNewer s p := by
    intro p
    rw [LeftToNewer, h.phase, h.outcome, LeftToNewer]
  refine ⟨hi.toRowsInv.tokensOnly h, ?_, ?_, ?_, ?_, ?_, ?_⟩
  · intro q hn hq
    rw [h.inFlight]
    exact hi.newest q ((newest_tokensOnly h).mp hn) (h.phase q ▸ hq)
  · intro p q hp hf
    rw [hleft]
    rw [StartFailed, h.phase, h.rows] at hf
    exact hi.kept p q (h.prior q ▸ hp) hf
  · intro q hb hd hdone
    rw [h.rows]
    exact hi.present q (h.phase q ▸ hb) (h.phase q ▸ hd) (h.phase q ▸ hdone)
  · intro q o hq
    rw [h.rows]
    exact hi.dropping q o (h.phase q ▸ hq)
  · intro q hq
    rw [h.rows, hleft]
    exact hi.done q (h.phase q ▸ hq)
  · intro q hq
    rw [h.outcome]
    exact hi.unresolved q (h.phase q ▸ hq)

/-- Only its own run removes an entry, in a guarded step other than a swap. -/
theorem removed_by_owner {a : Action R P} (ha : InsertGuarded s a) (h : step s a = some s')
    (hr : s.inFlight = some r) : s'.inFlight = some r ∨ (∃ q trigger, a = .start q trigger) ∨
      ∃ io, a = .advance r io := by
  rcases step_cases h with ⟨q, t, rfl, -⟩ | ⟨q, io, rfl, hadv⟩ | htok
  · exact Or.inr (Or.inl ⟨q, t, rfl⟩)
  · rcases advance_inFlight hadv with he | ⟨hdrain, -⟩ | ⟨hours, -⟩
    · exact Or.inl (by rw [he]; exact hr)
    · rcases ha.2.1 hdrain with he | he
      · rw [he] at hr; cases hr
      · rw [he] at hr
        cases hr
        exact Or.inr (Or.inr ⟨io, rfl⟩)
    · rw [hours] at hr
      cases hr
      exact Or.inr (Or.inr ⟨io, rfl⟩)
  · exact Or.inl (by rw [htok.inFlight]; exact hr)

/-- **The in-flight map names the newest live run**, also when inserts fail, in
every interleaving of guarded steps. -/
theorem inFlight_tracks {s : State R P} (h : (machine R P).Reach InsertGuarded s) :
    Tracked InsertGuarded s := by
  have hinv : TrackInv s := by
    refine h.invariant ?_ ?_
    · refine ⟨rowsInv_init, fun q hn => ?_, fun _ q hp => ?_, fun _ hb => ?_, fun _ _ hq => ?_,
        fun _ hq => ?_, fun _ _ => rfl⟩
      · simp [Newest, machine, swapsOf] at hn
      · cases hp
      · cases hb
      · cases hq
      · cases hq
    · intro s a s' _ hi ha hstep
      rcases step_cases hstep with ⟨p, _, -, hst⟩ | ⟨p, io, rfl, hadv⟩ | htok
      · exact hi.started hst
      · exact hi.advance ha hadv
      · exact hi.tokensOnly htok
  refine ⟨fun a s' r ha hstep hr => removed_by_owner ha hstep hr, ?_, ?_⟩
  · intro r _ hdone hn
    have hin := hinv.newest r hn hdone
    refine ⟨by rw [cancel, if_pos hin], ?_⟩
    intro q t s' hstart
    rcases step_cases (a := .start q t) hstart with ⟨p, t', heq, hst⟩ | ⟨_, _, heq, -⟩ | htok
    · cases heq
      rw [hst.prior, hin]
    · cases heq
    · -- a start swaps the entry
      simp only [start] at hstart
      split at hstart
      · next hidle =>
        cases hstart
        have := htok.phase q
        simp [hidle] at this
      · cases hstart
  · intro r q hp hf hdone
    rcases hinv.done r hdone with hl | hnot
    · exact absurd hl (hinv.kept r q hp hf)
    · exact hnot

/-! ### Two runs -/

instance (s : State (Fin 2) Unit) (r : Fin 2) : Decidable (StartFailed s r) :=
  inferInstanceAs (Decidable (_ ∨ _ ∧ _))

instance (s : State (Fin 2) Unit) (r : Fin 2) : Decidable (LeftToNewer s r) :=
  inferInstanceAs (Decidable (∃ q, (s.runs r).phase = .cancelling (some q) ∨
    (s.runs r).phase = .dropping (cancelledOutcome r (some q)) ∨
    (s.runs r).outcome = some (cancelledOutcome r (some q))))

instance (s : State (Fin 2) Unit) : ∀ a, Decidable (OnlyInsertsFail s a)
  | .advance r io => inferInstanceAs (Decidable ((s.runs r).phase ≠ .inserting →
      StatementsSucceed s (.advance r io)))
  | .start _ _ | .cancel _ | .cancelHandle _ => isTrue trivial

instance (s : State (Fin 2) Unit) : ∀ a, Decidable (InsertGuarded s a)
  | .advance r io => inferInstanceAs (Decidable (OnlyInsertsFail s (.advance r io) ∧
      ((s.runs r).phase = .draining → s.inFlight = none ∨ s.inFlight = some r) ∧
      ((s.runs r).phase.looksUp = true → supersededByNow s r ≠ none →
        ∀ q, (s.runs q).prior = some r → ¬ StartFailed s q) ∧
      ((s.runs r).phase = .inserting → io.ok = false →
        ∀ p, (s.runs r).prior = some p → ¬ LeftToNewer s p)))
  | .start _ _ | .cancel _ | .cancelHandle _ => isTrue trivial

/-- The insert of the second run fails while the first one fetches. -/
def failedInsertRun : List (Action (Fin 2) Unit) :=
  .start 0 .user :: steps 0 3 ++ .start 1 .user :: steps 1 1 ++
    .advance 1 refused :: steps 1 1 ++ steps 0 4

/-- The first run is not left running. -/
theorem failed_insert_run_settled : ∃ s, (machine (Fin 2) Unit).exec
    (machine (Fin 2) Unit).init failedInsertRun = some s ∧ StartFailed s 1 ∧
      Tracked InsertGuarded s := by
  have hfailed : (((machine (Fin 2) Unit).exec (machine (Fin 2) Unit).init failedInsertRun).any
      fun s => StartFailed s 1) = true := by
    decide +kernel
  obtain ⟨s, hs, hf⟩ := (Option.any_eq_true ..).mp hfailed
  exact ⟨s, hs, of_decide_eq_true hf,
    inFlight_tracks (Machine.reach_of_exec (by decide +kernel) hs)⟩

/-- The first run drains the entry of the second one after its own insert has
failed. -/
def drainedEntryRun : List (Action (Fin 2) Unit) :=
  .start 0 .user :: steps 0 1 ++ .advance 0 refused :: .start 1 .user :: steps 1 3 ++ steps 0 1

/-- **A live run is no longer found** after another one's insert failed. -/
theorem entry_lost_on_failed_insert :
    ¬ ∀ s, (machine (Fin 2) Unit).Reach OnlyInsertsFail s → Tracked OnlyInsertsFail s := by
  intro h
  have hlost : (((machine (Fin 2) Unit).exec (machine (Fin 2) Unit).init drainedEntryRun).any
      fun s => (s.runs 1).phase = .fetching ∧ (swapsOf s.history).head? = some 1 ∧
        (cancel s 1).2 = false) = true := by
    decide +kernel
  obtain ⟨s, hs, hall⟩ := (Option.any_eq_true ..).mp hlost
  obtain ⟨hph, hn, hnot⟩ := of_decide_eq_true hall
  have hfound := (h s (Machine.reach_of_exec (by decide +kernel) hs)).found 1
    (by rw [hph]; simp) (by rw [hph]; simp) hn
  rw [hnot] at hfound
  exact absurd hfound.1 (by simp)

end Orchestrator
end Dayseam
