import Dayseam.Orchestrator.StoredRows
import Mathlib

/-!
# What the caller of a run is told

The row of a run is written by the run itself or by the newer run that
superseded it, and a write that comes second is rejected and only logged; the
outcome is put together from a separate look at the in-flight entry.  The two
agree in every interleaving in which a run writes its own terminal row only while
no newer run has marked it, and tells its caller of a newer run only when that
run has marked it.

## Main definitions

* `Agrees` — an outcome agrees with the stored row.
* `AgreeGuarded` — the steps that keep it so.

## Main results

* `outcome_agrees_with_row` — **outcomes agree with rows in guarded runs.**
* `completed_told_cancelled_stored` — an interleaving in which they do not.
-/

namespace Dayseam
namespace Orchestrator

variable {R P : Type}

/-- The outcome of `r` is final and that of its stored row. -/
def Told (s : State R P) (r : R) (o : GenerateOutcome R) : Prop :=
  s.rows.RowIs r o.status o.cancelReason ∧ o.Final

/-- The outcome agrees with a stored terminal row, and carries a draft exactly
when the row is `Completed`. -/
def Agrees (s : State R P) (r : R) (o : GenerateOutcome R) : Prop :=
  ∃ run, s.rows r = some run ∧ run.status ≠ .running ∧ o.status = run.status ∧
    o.cancelReason = run.cancelReason ∧ (o.draftId.isSome = true ↔ run.status = .completed)

/-- The next step is a database statement. -/
def Phase.storesRow : Phase R → Bool
  | .inserting | .marking | .cancelling none | .storing | .drafting _ | .finishing _ | .failing =>
    true
  | _ => false

/-- The next step writes the terminal row of the run itself. -/
def Phase.writesOwn : Phase R → Bool
  | .cancelling none | .finishing _ | .failing => true
  | _ => false

/-- The run has written its terminal row, or left it to a newer run. -/
def Phase.settled : Phase R → Bool
  | .dropping _ | .done => true
  | _ => false

variable [DecidableEq R]

/-- The newer run that the next step of `r` tells its caller of. -/
def tellsOf (s : State R P) (r : R) : Option R :=
  match (s.runs r).phase with
  | .dropping o => match o.cancelReason with
    | some (.supersededBy q) => some q
    | _ => none
  | .guarding _ => supersededByNow s r
  | _ => none

/-- Every database statement succeeds when it can. -/
def StatementsSucceed (s : State R P) : Action R P → Prop
  | .advance r io => (s.runs r).phase.storesRow = true → io.ok = true
  | .start _ _ | .cancel _ | .cancelHandle _ => True

/-- Every statement succeeds when it can, a run writes its own terminal row only
while no newer run has marked it, and it tells of a newer run only once that run
has marked it. -/
def AgreeGuarded (s : State R P) : Action R P → Prop
  | .advance r io => StatementsSucceed s (.advance r io) ∧
      ((s.runs r).phase.writesOwn = true → ∀ q, Event.superseded r q ∉ s.history) ∧
      ∀ q, tellsOf s r = some q → Event.superseded r q ∈ s.history
  | .start _ _ | .cancel _ | .cancelHandle _ => True

/-- What guarded steps preserve. -/
structure AgreeInv (s : State R P) : Prop extends RowsInv s where
  present : ∀ r, (s.runs r).phase.beforeInsert = false → s.rows r ≠ none
  inserted : ∀ r, (s.runs r).phase ≠ .draining
  marked : ∀ r q, Event.superseded r q ∈ s.history →
    s.rows.RowIs r .cancelled (some (.supersededBy q))
  running : ∀ r, (∀ q, Event.superseded r q ∉ s.history) → (s.runs r).phase.settled = false →
    ∀ run, s.rows r = some run → run.status = .running
  dropping : ∀ r o, (s.runs r).phase = .dropping o →
    (∃ q, o = cancelledOutcome r (some q)) ∨ Told s r o
  resolved : ∀ r o, (s.runs r).outcome = some o → Told s r o

variable {s s' : State R P} {r : R} {io : Io P}

theorem told_records (h : Records s r io s') {q : R} {o : GenerateOutcome R} (ht : Told s q o) :
    Told s' q o :=
  ⟨h.rowIs ht.1 ht.2.1, ht.2⟩

omit [DecidableEq R] in
theorem told_of_marked {r q : R} (h : s.rows.RowIs r .cancelled (some (.supersededBy q))) :
    Told s r (cancelledOutcome r (some q)) :=
  ⟨h, final_cancelledOutcome r (some q)⟩

theorem Next.settled {ph ph' : Phase R} (h : Next s r io ph ph') (hs : ph'.settled = false) :
    ph.settled = false := by
  cases h <;> first | rfl | cases hs

/-- A run that writes its own terminal row is at one of three points. -/
theorem Next.own {ph : Phase R} {o : GenerateOutcome R} (h : Next s r io ph (.dropping o))
    (hnot : ∀ q, o ≠ cancelledOutcome r (some q)) :
    ph.writesOwn = true ∧ ph.storesRow = true ∧ ph.beforeInsert = false ∧ ph.settled = false := by
  cases h with
  | cancelled found =>
    cases found with
    | none => exact ⟨rfl, rfl, rfl, rfl⟩
    | some q => exact absurd rfl (hnot q)
  | finished d => exact ⟨rfl, rfl, rfl, rfl⟩
  | failed => exact ⟨rfl, rfl, rfl, rfl⟩

section
variable (hi : AgreeInv s) (ha : AgreeGuarded s (.advance r io)) (h : advance s r io = some s')
include hi ha h

omit h in
/-- A run that tells of a newer one has been marked by it. -/
theorem AgreeInv.told_newer {q : R} (ht : tellsOf s r = some q) :
    Told s r (cancelledOutcome r (some q)) :=
  told_of_marked (hi.marked r q (ha.2.2 q ht))

theorem AgreeInv.advance_inserted (q : R) : (s'.runs q).phase ≠ .draining := by
  intro hq
  by_cases hqr : q = r
  · subst hqr
    have hins := (advance_phase h).beforeInsert.2.2 hq
    have hok : io.ok = true := ha.1 (by rw [hins]; rfl)
    have := advance_inserting h hins hok (hi.absent q (Or.inl (by rw [hins]; rfl)))
    rw [hq] at this
    cases this
  · rw [(advance_other h hqr).1] at hq
    exact hi.inserted q hq

theorem AgreeInv.advance_present (q : R) (hq : (s'.runs q).phase.beforeInsert = false) :
    s'.rows q ≠ none := by
  by_cases hqr : q = r
  · subst hqr
    rcases (advance_phase h).beforeInsert.2.1 hq with hb | hins
    · exact (advance_records h).some (hi.present q hb)
    · have hfree := hi.absent q (Or.inl (by rw [hins]; rfl))
      exact advance_marking h hins (advance_inserting h hins (ha.1 (by rw [hins]; rfl)) hfree)
  · rw [(advance_other h hqr).1] at hq
    exact (advance_records h).some (hi.present q hq)

omit ha in
theorem AgreeInv.advance_marked (p q : R) (hm : Event.superseded p q ∈ s'.history) :
    s'.rows.RowIs p .cancelled (some (.supersededBy q)) := by
  have hrec := advance_records h
  have hold : Event.superseded p q ∈ s.history →
      s'.rows.RowIs p .cancelled (some (.supersededBy q)) :=
    fun hm => hrec.rowIs (hi.marked p q hm) (by decide)
  cases hrec with
  | nothing _ hh | inserted _ _ _ hh | own _ _ _ _ hh =>
    rw [hh] at hm
    exact hold hm
  | drafted _ _ _ hh =>
    rw [hh] at hm
    exact hold (by simpa using hm)
  | superseded id _ _ hrow hh =>
    rw [hh, List.mem_cons] at hm
    rcases hm with heq | hm
    · cases heq
      exact (SyncRunTable.transition_eq_some hrow).2.1
    · exact hold hm

theorem AgreeInv.advance_running (q : R) (hno : ∀ p, Event.superseded q p ∉ s'.history)
    (hset : (s'.runs q).phase.settled = false) (run : SyncRun R P) (hrow : s'.rows q = some run) :
    run.status = .running := by
  have hrec := advance_records h
  have hset' : (s.runs q).phase.settled = false := by
    by_cases hqr : q = r
    · subst hqr
      exact (advance_phase h).settled hset
    · rw [← (advance_other h hqr).1]
      exact hset
  have hold : (∀ p, Event.superseded q p ∉ s.history) → s'.rows q = s.rows q →
      run.status = .running :=
    fun hno hsame => hi.running q hno hset' run (hsame ▸ hrow)
  cases hrec with
  | nothing hr hh => exact hold (hh ▸ hno) (by rw [hr])
  | drafted _ _ hr hh => exact hold (fun p hp => hno p (by rw [hh]; simp [hp])) (by rw [hr])
  | inserted _ _ hins hh =>
    obtain ⟨-, hr⟩ := SyncRunTable.insert_eq_some hins
    by_cases hqr : q = r
    · subst hqr
      rw [hr] at hrow
      simp only [startedRow, Function.update_self, Option.some.injEq] at hrow
      rw [← hrow]
    · exact hold (hh ▸ hno) (by rw [hr]; exact Function.update_of_ne hqr ..)
  | superseded id _ _ hm hh =>
    have hne : q ≠ id := by
      rintro rfl
      exact hno r (by rw [hh]; simp)
    exact hold (fun p hp => hno p (by rw [hh]; simp [hp]))
      ((SyncRunTable.transition_eq_some hm).2.2 q hne)
  | own o _ ho hr hh =>
    have hne : q ≠ r := by
      rintro rfl
      rw [ho] at hset
      cases hset
    refine hold (hh ▸ hno) ?_
    rw [hr]
    cases hw : (if io.ok then ownWrite s r io o else none) with
    | none => rfl
    | some t =>
      split at hw
      · exact (SyncRunTable.transition_eq_some hw).2.2 q hne
      · cases hw

theorem AgreeInv.advance_dropping (q : R) (o : GenerateOutcome R)
    (hq : (s'.runs q).phase = .dropping o) :
    (∃ p, o = cancelledOutcome q (some p)) ∨ Told s' q o := by
  have hrec := advance_records h
  by_cases hqr : q = r
  · subst hqr
    by_cases hnewer : ∃ p, o = cancelledOutcome q (some p)
    · exact Or.inl hnewer
    right
    have hnext := advance_phase h
    rw [hq] at hnext
    obtain ⟨hown, hstores, hbefore, hset⟩ := hnext.own fun p hp => hnewer ⟨p, hp⟩
    cases hrec with
    | nothing _ _ hn => exact absurd (hn o hq) hnewer
    | inserted _ hmark => rw [hq] at hmark; cases hmark
    | superseded _ hph => rw [hph] at hown; cases hown
    | drafted _ hph => rw [hph] at hown; cases hown
    | own o' hfin ho hr _ =>
      -- the row is still running, so the write goes through
      cases hq.symm.trans ho
      obtain ⟨run, hrow⟩ := Option.ne_none_iff_exists'.mp (hi.present q hbefore)
      have hrun := hi.running q (ha.2.1 hown) hset run hrow
      obtain ⟨t, ht⟩ := SyncRunTable.exists_transition hrow hrun o.status (some io.now)
        o.cancelReason none (some io.perSource)
      rw [ha.1 hstores, if_pos rfl, ownWrite, ht, Option.getD_some] at hr
      refine ⟨?_, hfin⟩
      rw [hr]
      exact (SyncRunTable.transition_eq_some ht).2.1
  · rw [(advance_other h hqr).1] at hq
    exact (hi.dropping q o hq).imp_right (told_records hrec)

theorem AgreeInv.advance_resolved (q : R) (o : GenerateOutcome R)
    (hq : (s'.runs q).outcome = some o) : Told s' q o := by
  have hrec := advance_records h
  refine told_records hrec ?_
  by_cases hqr : q = r
  · subst hqr
    rcases advance_outcome h with ⟨-, heq⟩ | ⟨-, o', ho', hres⟩
    · exact hi.resolved q o (heq ▸ hq)
    · cases hq.symm.trans ho'
      generalize hph : (s.runs q).phase = ph at hres
      cases hres with
      | drained => exact absurd hph (hi.inserted q)
      | superseded d p hp => exact hi.told_newer ha (by rw [tellsOf, hph]; exact hp)
      | dropped =>
        rcases hi.dropping q o hph with ⟨p, rfl⟩ | ht
        · exact hi.told_newer ha (by rw [tellsOf, hph]; rfl)
        · exact ht
  · rw [(advance_other h hqr).2] at hq
    exact hi.resolved q o hq

/-- **A guarded step of one run** preserves the invariant. -/
theorem AgreeInv.advance : AgreeInv s' where
  toRowsInv := hi.toRowsInv.advance h
  present := hi.advance_present ha h
  inserted := hi.advance_inserted ha h
  marked := hi.advance_marked h
  running := hi.advance_running ha h
  dropping := hi.advance_dropping ha h
  resolved := hi.advance_resolved ha h

end

/-- The swap of a starting run preserves the invariant. -/
theorem AgreeInv.started (hi : AgreeInv s) (h : Started s r s') : AgreeInv s' := by
  have hrow : s'.rows r = none := by
    rw [h.rows]
    exact hi.absent r (Or.inl (by rw [h.idle]; rfl))
  have hhist : ∀ {p q : R}, Event.superseded p q ∈ s'.history ↔ Event.superseded p q ∈ s.history := by
    intro p q
    rw [h.history]
    simp
  have hphase : ∀ q, q ≠ r → (s'.runs q).phase = (s.runs q).phase :=
    fun q hq => by rw [h.others q hq]
  have htold : ∀ {q o}, Told s q o → Told s' q o := by
    intro q o ht
    rw [Told, h.rows]
    exact ht
  refine ⟨hi.toRowsInv.started h, ?_, ?_, ?_, ?_, ?_, ?_⟩
  · intro q hq
    by_cases hqr : q = r
    · rw [hqr, h.phase] at hq; cases hq
    · rw [h.rows]; exact hi.present q (hphase q hqr ▸ hq)
  · intro q hq
    by_cases hqr : q = r
    · rw [hqr, h.phase] at hq; cases hq
    · exact hi.inserted q (hphase q hqr ▸ hq)
  · intro p q hm
    rw [h.rows]
    exact hi.marked p q (hhist.mp hm)
  · intro q hno hset run hq
    by_cases hqr : q = r
    · rw [hqr, hrow] at hq; cases hq
    · exact hi.running q (fun p hp => hno p (hhist.mpr hp)) (hphase q hqr ▸ hset) run
        (by rw [← h.rows]; exact hq)
  · intro q o hq
    by_cases hqr : q = r
    · rw [hqr, h.phase] at hq; cases hq
    · exact (hi.dropping q o (hphase q hqr ▸ hq)).imp_right htold
  · intro q o hq
    by_cases hqr : q = r
    · rw [hqr, h.outcome] at hq; cases hq
    · rw [h.others q hqr] at hq
      exact htold (hi.resolved q o hq)

omit [DecidableEq R] in
theorem AgreeInv.tokensOnly (hi : AgreeInv s) (h : TokensOnly s s') : AgreeInv s' := by
  have htold : ∀ {q o}, Told s q o → Told s' q o := by
    intro q o ht
    rw [Told, h.rows]
    exact ht
  refine ⟨hi.toRowsInv.tokensOnly h, ?_, ?_, ?_, ?_, ?_, ?_⟩
  · intro q hq
    rw [h.rows]
    exact hi.present q (h.phase q ▸ hq)
  · intro q hq
    exact hi.inserted q (h.phase q ▸ hq)
  · intro p q hm
    rw [h.rows]
    exact hi.marked p q (h.history ▸ hm)
  · intro q hno hset run hq
    exact hi.running q (h.history ▸ hno) (h.phase q ▸ hset) run (h.rows ▸ hq)
  · intro q o hq
    exact (hi.dropping q o (h.phase q ▸ hq)).imp_right htold
  · intro q o hq
    exact htold (hi.resolved q o (h.outcome q ▸ hq))

/-- **What the caller is told agrees with what is stored**, in every interleaving
of guarded steps. -/
theorem outcome_agrees_with_row {s : State R P} (h : (machine R P).Reach AgreeGuarded s)
    (r : R) (o : GenerateOutcome R) (ho : (s.runs r).outcome = some o) : Agrees s r o := by
  have hinv : AgreeInv s := by
    refine h.invariant ?_ ?_
    · refine ⟨rowsInv_init, fun _ hq => ?_, fun _ hq => ?_, fun _ _ hm => ?_,
        fun _ _ _ _ hq => ?_, fun _ _ hq => ?_, fun _ _ hq => ?_⟩
      · cases hq
      · cases hq
      · simp [machine] at hm
      · cases hq
      · cases hq
      · cases hq
    · intro s a s' _ hi ha hstep
      rcases step_cases hstep with ⟨p, _, -, hst⟩ | ⟨p, io, rfl, hadv⟩ | htok
      · exact hi.started hst
      · exact hi.advance ha hadv
      · exact hi.tokensOnly htok
  obtain ⟨⟨run, hrow, hst, hreason⟩, hterm, hdraft⟩ := hinv.resolved r o ho
  exact ⟨run, hrow, by rw [hst]; exact hterm, hst.symm, hreason.symm, by rw [hst]; exact hdraft⟩

/-! ### Two runs -/

instance (s : State (Fin 2) Unit) : ∀ a, Decidable (StatementsSucceed s a)
  | .advance r io =>
    inferInstanceAs (Decidable ((s.runs r).phase.storesRow = true → io.ok = true))
  | .start _ _ | .cancel _ | .cancelHandle _ => isTrue trivial

instance (s : State (Fin 2) Unit) : ∀ a, Decidable (AgreeGuarded s a)
  | .advance r io => inferInstanceAs (Decidable (StatementsSucceed s (.advance r io) ∧
      ((s.runs r).phase.writesOwn = true → ∀ q, Event.superseded r q ∉ s.history) ∧
      ∀ q, tellsOf s r = some q → Event.superseded r q ∈ s.history))
  | .start _ _ | .cancel _ | .cancelHandle _ => isTrue trivial

/-- The second run supersedes the first one, which sees it at its cancel check. -/
def supersedingRun : List (Action (Fin 2) Unit) :=
  .start 0 .user :: steps 0 3 ++ .start 1 .user :: steps 1 3 ++ steps 0 4

/-- The first run is told what is stored. -/
theorem superseding_run_agrees : ∃ s, (machine (Fin 2) Unit).exec (machine (Fin 2) Unit).init
    supersedingRun = some s ∧ Agrees s 0 (cancelledOutcome 0 (some 1)) := by
  have hdone : (((machine (Fin 2) Unit).exec (machine (Fin 2) Unit).init supersedingRun).any
      fun s => (s.runs 0).outcome = some (cancelledOutcome 0 (some 1))) = true := by
    decide +kernel
  obtain ⟨s, hs, hout⟩ := (Option.any_eq_true ..).mp hdone
  exact ⟨s, hs, outcome_agrees_with_row (Machine.reach_of_exec (by decide +kernel) hs) 0 _
    (of_decide_eq_true hout)⟩

/-- The second run marks the first one between its guard and its completion. -/
def markedLateRun : List (Action (Fin 2) Unit) :=
  .start 0 .user :: steps 0 7 ++ .start 1 .user :: steps 1 3 ++ steps 0 3

/-- **A run is told `Completed` and stored `Cancelled`**, with every statement
succeeding that can. -/
theorem completed_told_cancelled_stored :
    ¬ ∀ s, (machine (Fin 2) Unit).Reach StatementsSucceed s →
      ∀ r o, (s.runs r).outcome = some o → Agrees s r o := by
  intro h
  have hlate : (((machine (Fin 2) Unit).exec (machine (Fin 2) Unit).init markedLateRun).any fun s =>
      (s.runs 0).outcome = some ⟨0, .completed, some 0, none⟩ ∧
        (s.rows 0).map (·.status) = some .cancelled) = true := by
    decide +kernel
  obtain ⟨s, hs, hboth⟩ := (Option.any_eq_true ..).mp hlate
  obtain ⟨hout, hrow⟩ := of_decide_eq_true hboth
  obtain ⟨run, hrun, -, hst, -⟩ :=
    h s (Machine.reach_of_exec (by decide +kernel) hs) 0 _ hout
  rw [hrun, Option.map_some, ← hst] at hrow
  cases hrow

end Orchestrator
end Dayseam
