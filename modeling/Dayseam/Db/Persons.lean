import Dayseam.Db.SyncRunRepo
import Dayseam.Lib.Machine
import Mathlib

/-!
# The user's own person

Every report asks which events are the user's own.  The answer hangs on one row of
`persons`, which whoever needs it first creates: several commands and the backfills of a
start may find it missing at the same time.  The partial index on `is_self` lets one of them
through, and the others read its row again.  The identities of the user on each source are
then put under that person.

## Main definitions

* `PersonRows`, `SourceIdentityRows` — the tables with their constraints.
* `PersonRepo.getSelf`, `PersonRepo.insert`, `SourceIdentityRepo.ensure` — the statements.
* `Call`, `Phase`, `Desk` — calls of `bootstrap_self` and `bootstrap_from_identity`.
* `machine` — their statements in any order.

## Main results

* `selves_agree` — **all calls that end well have the same person**, and no actor of a source
  has two identities.
* `bootstrap_settles` — a call of `bootstrap_self` whose statements succeed ends well.
-/

namespace Dayseam

/-- A canonical human. -/
structure Person where
  id : Uuid
  displayName : Text
  isSelf : Bool
  deriving DecidableEq

/-- The rows of `persons`: `id` is the primary key, and a partial index admits one self. -/
structure PersonRows where
  rows : List Person
  nodup : (rows.map (·.id)).Nodup
  single : ∀ p ∈ rows, ∀ q ∈ rows, p.isSelf = true → q.isSelf = true → p = q

namespace PersonRepo

/-- The self row. -/
def getSelf (t : PersonRows) : Option Person := t.rows.find? (·.isSelf)

/-- The insert meets the primary key or the partial index. -/
def Clashes (t : PersonRows) (p : Person) : Prop :=
  p.id ∈ t.rows.map (·.id) ∨ p.isSelf = true ∧ ∃ q ∈ t.rows, q.isSelf = true

instance decidableClashes (t : PersonRows) (p : Person) : Decidable (Clashes t p) :=
  inferInstanceAs (Decidable (_ ∨ _))

def insert (t : PersonRows) (p : Person) : Except DbError PersonRows :=
  if h : Clashes t p then .error (.conflict "persons.insert".toList)
  else .ok {
    rows := t.rows ++ [p]
    nodup := by
      rw [List.map_append, List.map_singleton, ← List.concat_eq_append]
      exact List.Nodup.concat (fun hid => h (Or.inl hid)) t.nodup
    single := by
      -- a self that is new is alone
      have hnew : p.isSelf = true → ∀ q ∈ t.rows, q.isSelf ≠ true :=
        fun hp q hq hself => h (Or.inr ⟨hp, q, hq, hself⟩)
      intro q hq r hr hqs hrs
      rcases List.mem_append.mp hq with hq' | hq' <;> rcases List.mem_append.mp hr with hr' | hr'
      · exact t.single q hq' r hr' hqs hrs
      · rw [List.mem_singleton] at hr'
        exact absurd hqs (hnew (hr' ▸ hrs) q hq')
      · rw [List.mem_singleton] at hq'
        exact absurd hrs (hnew (hq' ▸ hqs) r hr')
      · rw [List.mem_singleton.mp hq', List.mem_singleton.mp hr'] }

/-- `update_display_name`; `is_self` and the id stay. -/
def rename (t : PersonRows) (id : Uuid) (displayName : Text) : PersonRows where
  rows := t.rows.map fun p => if p.id = id then { p with displayName := displayName } else p
  nodup := by
    rw [List.map_map, List.map_congr_left (g := (·.id))]
    · exact t.nodup
    · intro p _
      show (if p.id = id then { p with displayName := displayName } else p).id = p.id
      split_ifs <;> rfl
  single := by
    intro q hq r hr hqs hrs
    obtain ⟨q', hq', rfl⟩ := List.mem_map.mp hq
    obtain ⟨r', hr', rfl⟩ := List.mem_map.mp hr
    have hself : ∀ p : Person, (if p.id = id then { p with displayName := displayName } else p :
        Person).isSelf = p.isSelf := by
      intro p
      split_ifs <;> rfl
    rw [hself] at hqs hrs
    rw [t.single q' hq' r' hr' hqs hrs]

end PersonRepo

/-- The rows of `source_identities`; the index `idx_source_identities_dedup_with_null_source`
tells no source from none. -/
structure SourceIdentityRows where
  rows : List SourceIdentity
  nodup : (rows.map (·.id)).Nodup
  distinct : (rows.map fun x => (x.personId, x.sourceId, x.kind, x.externalActorId)).Nodup

namespace SourceIdentityRepo

/-- The insert meets the primary key or the unique index. -/
def Clashes (t : SourceIdentityRows) (x : SourceIdentity) : Prop :=
  x.id ∈ t.rows.map (·.id) ∨ (x.personId, x.sourceId, x.kind, x.externalActorId) ∈
    t.rows.map fun y => (y.personId, y.sourceId, y.kind, y.externalActorId)

instance decidableClashes (t : SourceIdentityRows) (x : SourceIdentity) :
    Decidable (Clashes t x) := inferInstanceAs (Decidable (_ ∨ _))

/-- `INSERT OR IGNORE`: a row that is there is left, and the foreign keys are checked. -/
def ensure (persons : PersonRows) (sources : List Uuid) (t : SourceIdentityRows)
    (x : SourceIdentity) : Except DbError SourceIdentityRows :=
  if h : Clashes t x then .ok t
  else if x.personId ∈ persons.rows.map (·.id) ∧ x.sourceId.all (· ∈ sources) then .ok {
    rows := t.rows ++ [x]
    nodup := by
      rw [List.map_append, List.map_singleton, ← List.concat_eq_append]
      exact List.Nodup.concat (fun hid => h (Or.inl hid)) t.nodup
    distinct := by
      rw [List.map_append, List.map_singleton, ← List.concat_eq_append]
      exact List.Nodup.concat (fun hkey => h (Or.inr hkey)) t.distinct }
  else .error (.conflict "source_identities.ensure".toList)

/-- `ON DELETE CASCADE`. -/
def deleteForSource (t : SourceIdentityRows) (source : Uuid) : SourceIdentityRows where
  rows := t.rows.filter (·.sourceId ≠ some source)
  nodup := t.nodup.sublist (List.filter_sublist.map _)
  distinct := t.distinct.sublist (List.filter_sublist.map _)

end SourceIdentityRepo

namespace Bootstrap

open PersonRepo SourceIdentityRepo

/-! ### Calls -/

/-- An identity to put under the person. -/
structure Seed where
  id : Uuid
  sourceId : Uuid
  kind : SourceIdentityKind
  externalActorId : Text

inductive Call
  /-- `bootstrap_self` with its fallback name and its new id, and the identities that its caller
  puts under the person. -/
  | bootstrapSelf (fallbackDisplayName : Text) (fresh : Uuid) (seeds : List Seed)
  | bootstrapFromIdentity (id : Uuid) (displayName : Text)

/-- How far a call is. -/
inductive Phase
  | start
  /-- There was no self row. -/
  | missed
  | named (person : Person)
  | conflicted
  | found (person : Person) (seeds : List Seed)
  | failed (err : DbError)

/-- The tables and the calls. -/
structure Desk (ι : Type) where
  persons : PersonRows
  /-- The names of the legacy table `identities`; `none` where a name cannot be read. -/
  legacy : List (Option Text)
  sources : List Uuid
  identities : SourceIdentityRows
  phase : ι → Phase

/-- The next statement of a call, and the statements of others. -/
inductive Action (ι : Type)
  | getSelf (i : ι)
  | readName (i : ι)
  | insert (i : ι)
  | reread (i : ι)
  | ensure (i : ι)
  /-- The next statement of a call fails. -/
  | fail (i : ι) (err : DbError)
  | rename (id : Uuid) (displayName : Text)
  | setLegacy (names : List (Option Text))
  | addSource (id : Uuid)
  | deleteSource (id : Uuid)

variable {ι : Type} [DecidableEq ι]

def Desk.setPhase (s : Desk ι) (i : ι) (p : Phase) : Desk ι :=
  { s with phase := Function.update s.phase i p }

def Call.seeds : Call → List Seed
  | .bootstrapSelf _ _ seeds => seeds
  | .bootstrapFromIdentity _ _ => []

/-- The person that a call inserts: the name is that of the first legacy row. -/
def Call.person (legacy : List (Option Text)) : Call → Person
  | .bootstrapSelf fallback fresh _ =>
    ⟨fresh, match legacy with
      | some name :: _ => name
      | _ => fallback, true⟩
  | .bootstrapFromIdentity id displayName => ⟨id, displayName, true⟩

/-- What a call does about a conflict of its insert. -/
def Call.onConflict (err : DbError) : Call → Phase
  | .bootstrapSelf _ _ _ => .conflicted
  | .bootstrapFromIdentity _ _ => .failed err

/-- A conflict, and no self row on the second look. -/
def noSelfRow : DbError :=
  .invalidData "persons.is_self".toList
    "conflict on bootstrap_self but no self row on re-read".toList

/-- What a failed statement is for a call: a seed that fails is logged. -/
def Phase.onFail (err : DbError) : Phase → Phase
  | .found person seeds => .found person seeds.tail
  | .failed e => .failed e
  | .start | .missed | .named _ | .conflicted => .failed err

def Seed.identity (x : Seed) (person : Uuid) : SourceIdentity :=
  ⟨x.id, person, some x.sourceId, x.kind, x.externalActorId⟩

variable (call : ι → Call)

/-- A step; a statement that is not a call's next one changes nothing. -/
def step (s : Desk ι) : Action ι → Desk ι
  | .getSelf i =>
    match s.phase i with
    | .start =>
      match getSelf s.persons with
      | some existing => s.setPhase i (.found existing (call i).seeds)
      | none => s.setPhase i .missed
    | _ => s
  | .readName i =>
    match s.phase i with
    | .missed => s.setPhase i (.named ((call i).person s.legacy))
    | _ => s
  | .insert i =>
    match s.phase i with
    | .named person =>
      match insert s.persons person with
      | .ok persons => { s.setPhase i (.found person (call i).seeds) with persons := persons }
      | .error err => s.setPhase i ((call i).onConflict err)
    | _ => s
  | .reread i =>
    match s.phase i with
    | .conflicted =>
      match getSelf s.persons with
      | some existing => s.setPhase i (.found existing (call i).seeds)
      | none => s.setPhase i (.failed noSelfRow)
    | _ => s
  | .ensure i =>
    match s.phase i with
    | .found person (x :: seeds) =>
      match ensure s.persons s.sources s.identities (x.identity person.id) with
      | .ok identities => { s.setPhase i (.found person seeds) with identities := identities }
      | .error _ => s.setPhase i (.found person seeds)
    | _ => s
  | .fail i err => s.setPhase i ((s.phase i).onFail err)
  | .rename id displayName => { s with persons := rename s.persons id displayName }
  | .setLegacy names => { s with legacy := names }
  | .addSource id => { s with sources := id :: s.sources }
  | .deleteSource id =>
    { s with
      sources := s.sources.filter (· ≠ id)
      identities := deleteForSource s.identities id }

def machine (init : Desk ι) : Machine (Desk ι) (Action ι) where
  init := init
  step s a := some (step call s a)

/-! ### The self row -/

/-- The self row has the id. -/
def IsSelf (t : PersonRows) (id : Uuid) : Prop := ∃ p ∈ t.rows, p.isSelf = true ∧ p.id = id

theorem IsSelf.unique {t : PersonRows} {a b : Uuid} (ha : IsSelf t a) (hb : IsSelf t b) :
    a = b := by
  obtain ⟨p, hp, hps, rfl⟩ := ha
  obtain ⟨q, hq, hqs, rfl⟩ := hb
  rw [t.single p hp q hq hps hqs]

theorem isSelf_of_getSelf {t : PersonRows} {p : Person} (h : getSelf t = some p) :
    IsSelf t p.id :=
  ⟨p, List.mem_of_find?_eq_some h, List.find?_some h, rfl⟩

theorem insert_eq_ok {t t' : PersonRows} {p : Person} (h : PersonRepo.insert t p = .ok t') :
    ¬Clashes t p ∧ t'.rows = t.rows ++ [p] := by
  unfold PersonRepo.insert at h
  split at h
  · cases h
  · next hno =>
    cases h
    exact ⟨hno, rfl⟩

theorem insert_eq_error {t : PersonRows} {p : Person} {err : DbError}
    (h : PersonRepo.insert t p = .error err) : Clashes t p := by
  by_contra hno
  rw [PersonRepo.insert, dif_neg hno] at h
  cases h

theorem IsSelf.insert {t t' : PersonRows} {p : Person} {id : Uuid} (h : IsSelf t id)
    (hins : PersonRepo.insert t p = .ok t') : IsSelf t' id := by
  obtain ⟨q, hq, hqs, rfl⟩ := h
  refine ⟨q, ?_, hqs, rfl⟩
  rw [(insert_eq_ok hins).2]
  exact List.mem_append_left _ hq

theorem isSelf_of_insert {t t' : PersonRows} {p : Person} (hp : p.isSelf = true)
    (hins : PersonRepo.insert t p = .ok t') : IsSelf t' p.id := by
  refine ⟨p, ?_, hp, rfl⟩
  rw [(insert_eq_ok hins).2]
  exact List.mem_append_right _ (List.mem_singleton_self p)

/-- A rename keeps the self row where it is. -/
theorem IsSelf.rename {t : PersonRows} {id : Uuid} (h : IsSelf t id) (target : Uuid)
    (displayName : Text) : IsSelf (PersonRepo.rename t target displayName) id := by
  obtain ⟨q, hq, hqs, rfl⟩ := h
  refine ⟨_, List.mem_map_of_mem hq, ?_, ?_⟩
  · split_ifs <;> exact hqs
  · split_ifs <;> rfl

theorem mem_ensure {persons : PersonRows} {sources : List Uuid} {t t' : SourceIdentityRows}
    {x y : SourceIdentity} (h : ensure persons sources t x = .ok t') (hy : y ∈ t'.rows) :
    y ∈ t.rows ∨ y = x := by
  unfold ensure at h
  split_ifs at h
  · cases h
    exact Or.inl hy
  · cases h
    exact (List.mem_append.mp hy).imp_right List.mem_singleton.mp

@[simp] theorem Call.isSelf_person (legacy : List (Option Text)) (c : Call) :
    (c.person legacy).isSelf = true := by
  cases c <;> rfl

/-! ### What a step does -/

/-- What a step does, with what it needs. -/
inductive Does (call : ι → Call) (s : Desk ι) : Action ι → Desk ι → Prop
  | found {a : Action ι} {i : ι} {existing : Person} : getSelf s.persons = some existing →
      Does call s a (s.setPhase i (.found existing (call i).seeds))
  | missed {i : ι} : s.phase i = .start → Does call s (.getSelf i) (s.setPhase i .missed)
  | named {i : ι} : s.phase i = .missed →
      Does call s (.readName i) (s.setPhase i (.named ((call i).person s.legacy)))
  | inserted {i : ι} {person : Person} {persons : PersonRows} : s.phase i = .named person →
      insert s.persons person = .ok persons →
      Does call s (.insert i)
        { s.setPhase i (.found person (call i).seeds) with persons := persons }
  | clashed {i : ι} {person : Person} {err : DbError} : s.phase i = .named person →
      insert s.persons person = .error err →
      Does call s (.insert i) (s.setPhase i ((call i).onConflict err))
  | vanished {i : ι} : s.phase i = .conflicted → getSelf s.persons = none →
      Does call s (.reread i) (s.setPhase i (.failed noSelfRow))
  | ensured {i : ι} {person : Person} {x : Seed} {seeds : List Seed}
      {identities : SourceIdentityRows} : s.phase i = .found person (x :: seeds) →
      ensure s.persons s.sources s.identities (x.identity person.id) = .ok identities →
      Does call s (.ensure i) { s.setPhase i (.found person seeds) with identities := identities }
  | skipped {i : ι} {person : Person} {x : Seed} {seeds : List Seed} :
      s.phase i = .found person (x :: seeds) →
      Does call s (.ensure i) (s.setPhase i (.found person seeds))
  | failed (i : ι) (err : DbError) :
      Does call s (.fail i err) (s.setPhase i ((s.phase i).onFail err))
  | renamed (id : Uuid) (displayName : Text) :
      Does call s (.rename id displayName) { s with persons := rename s.persons id displayName }
  | around {a : Action ι} (legacy : List (Option Text)) (sources : List Uuid)
      (identities : SourceIdentityRows) : (∀ x ∈ identities.rows, x ∈ s.identities.rows) →
      Does call s a { s with legacy := legacy, sources := sources, identities := identities }
  | nothing {a : Action ι} : Does call s a s

theorem does_step (s : Desk ι) (a : Action ι) : Does call s a (step call s a) := by
  cases a with
  | getSelf i =>
    cases hi : s.phase i <;> simp only [step, hi] <;> try exact .nothing
    cases hself : getSelf s.persons with
    | some existing => exact .found hself
    | none => exact .missed hi
  | readName i =>
    cases hi : s.phase i <;> simp only [step, hi] <;> try exact .nothing
    exact .named hi
  | insert i =>
    cases hi : s.phase i <;> simp only [step, hi] <;> try exact .nothing
    next person =>
      cases hins : insert s.persons person with
      | ok persons => exact .inserted hi hins
      | error err => exact .clashed hi hins
  | reread i =>
    cases hi : s.phase i <;> simp only [step, hi] <;> try exact .nothing
    cases hself : getSelf s.persons with
    | some existing => exact .found hself
    | none => exact .vanished hi hself
  | ensure i =>
    cases hi : s.phase i <;> simp only [step, hi] <;> try exact .nothing
    next person seeds =>
      cases seeds with
      | nil => exact .nothing
      | cons x seeds =>
        dsimp only
        cases hens : ensure s.persons s.sources s.identities (x.identity person.id) with
        | ok identities => exact .ensured hi hens
        | error err => exact .skipped hi
  | fail i err => exact .failed i err
  | rename id displayName => exact .renamed id displayName
  | setLegacy names => exact .around names s.sources s.identities fun x hx => hx
  | addSource id => exact .around s.legacy (id :: s.sources) s.identities fun x hx => hx
  | deleteSource id =>
    exact .around s.legacy _ _ fun x hx => (List.mem_filter.mp hx).1

/-! ### One person for all -/

@[simp] theorem Desk.setPhase_phase_self (s : Desk ι) (i : ι) (p : Phase) :
    (s.setPhase i p).phase i = p := Function.update_self ..

theorem Desk.setPhase_phase_of_ne (s : Desk ι) {i j : ι} (h : j ≠ i) (p : Phase) :
    (s.setPhase i p).phase j = s.phase j := Function.update_of_ne h _ _

/-- The person of a call that ended well, and that of every identity, is the self row's. -/
structure Inv (s : Desk ι) : Prop where
  found : ∀ i p seeds, s.phase i = .found p seeds → IsSelf s.persons p.id
  named : ∀ i p, s.phase i = .named p → p.isSelf = true
  own : ∀ x ∈ s.identities.rows, IsSelf s.persons x.personId

/-- A call may go on to a person that is the self row's. -/
theorem Inv.setPhase {s : Desk ι} (h : Inv s) {i : ι} {p : Phase}
    (hfound : ∀ q seeds, p = .found q seeds → IsSelf s.persons q.id)
    (hnamed : ∀ q, p = .named q → q.isSelf = true) : Inv (s.setPhase i p) where
  found j q seeds hj := by
    by_cases hji : j = i
    · subst hji
      exact hfound q seeds ((s.setPhase_phase_self j p).symm.trans hj)
    · exact h.found j q seeds ((s.setPhase_phase_of_ne hji p).symm.trans hj)
  named j q hj := by
    by_cases hji : j = i
    · subst hji
      exact hnamed q ((s.setPhase_phase_self j p).symm.trans hj)
    · exact h.named j q ((s.setPhase_phase_of_ne hji p).symm.trans hj)
  own := h.own

omit [DecidableEq ι] in
/-- The tables may change as long as the self row stays. -/
theorem Inv.keep {s : Desk ι} (h : Inv s) {persons : PersonRows}
    {legacy : List (Option Text)} {sources : List Uuid} {identities : SourceIdentityRows}
    (hself : ∀ id, IsSelf s.persons id → IsSelf persons id)
    (hown : ∀ x ∈ identities.rows, x ∈ s.identities.rows ∨ IsSelf persons x.personId) :
    Inv ⟨persons, legacy, sources, identities, s.phase⟩ where
  found i p seeds hi := hself _ (h.found i p seeds hi)
  named := h.named
  own x hx := (hown x hx).elim (fun hx => hself _ (h.own x hx)) id

theorem inv_step {s : Desk ι} (h : Inv s) (a : Action ι) : Inv (step call s a) := by
  have hdoes := does_step call s a
  generalize step call s a = t at hdoes
  cases hdoes with
  | found hself =>
    refine h.setPhase (fun q seeds hq => ?_) (by simp)
    cases hq
    exact isSelf_of_getSelf hself
  | missed | vanished => exact h.setPhase (by simp) (by simp)
  | named =>
    refine h.setPhase (by simp) fun q hq => ?_
    cases hq
    exact Call.isSelf_person _ _
  | @inserted i person persons hi hins =>
    have hself : IsSelf persons person.id := isSelf_of_insert (h.named i person hi) hins
    have hkeep : Inv ⟨persons, s.legacy, s.sources, s.identities, s.phase⟩ :=
      h.keep (fun id hid => hid.insert hins) fun x hx => Or.inl hx
    refine @Inv.setPhase _ _ _ hkeep i _ (fun q seeds hq => ?_) (by simp)
    cases hq
    exact hself
  | @clashed i person err hi hins =>
    cases hc : call i <;> exact h.setPhase (by simp [Call.onConflict]) (by simp [Call.onConflict])
  | @ensured i person x seeds identities hi hens =>
    have hself : IsSelf s.persons person.id := h.found i person _ hi
    have hkeep : Inv ⟨s.persons, s.legacy, s.sources, identities, s.phase⟩ := by
      refine h.keep (fun id hid => hid) fun y hy => (mem_ensure hens hy).imp id ?_
      rintro rfl
      exact hself
    refine @Inv.setPhase _ _ _ hkeep i _ (fun q seeds' hq => ?_) (by simp)
    cases hq
    exact hself
  | @skipped i person x seeds hi =>
    refine h.setPhase (fun q seeds' hq => ?_) (by simp)
    cases hq
    exact h.found i person _ hi
  | failed i err =>
    cases hi : s.phase i with
    | found person seeds =>
      refine h.setPhase (fun q seeds' hq => ?_) (by simp [Phase.onFail])
      cases hq
      exact h.found i person _ hi
    | start | missed | named | conflicted | failed =>
      exact h.setPhase (by simp [Phase.onFail]) (by simp [Phase.onFail])
  | renamed id displayName =>
    refine h.keep (fun id' hid => hid.rename id displayName) fun x hx => Or.inl hx
  | around legacy sources identities hsub =>
    exact h.keep (fun id hid => hid) fun x hx => Or.inl (hsub x hx)
  | nothing => exact h

/-- A tables' start: no call has begun, and the identities are the user's own. -/
structure Desk.Fresh (s : Desk ι) : Prop where
  start : ∀ i, s.phase i = .start
  own : ∀ x ∈ s.identities.rows, IsSelf s.persons x.personId

omit [DecidableEq ι] in
theorem Desk.Fresh.inv {s : Desk ι} (h : s.Fresh) : Inv s where
  found i p seeds hi := by
    rw [h.start i] at hi
    cases hi
  named i p hi := by
    rw [h.start i] at hi
    cases hi
  own := h.own

variable {call}

/-- **All calls that end well have the same person**, which is the one self row, and an actor of
a source has one identity, in whatever order the statements come and whichever of them fail. -/
theorem selves_agree {init s : Desk ι} (hfresh : init.Fresh)
    (h : (machine call init).Reach (fun _ _ => True) s) :
    (∀ i j p q ps qs, s.phase i = .found p ps → s.phase j = .found q qs → p.id = q.id) ∧
      (∀ i p ps, s.phase i = .found p ps → ∃ row, getSelf s.persons = some row ∧ row.id = p.id) ∧
      ∀ x ∈ s.identities.rows, ∀ y ∈ s.identities.rows, x.sourceId = y.sourceId →
        x.kind = y.kind → x.externalActorId = y.externalActorId → x = y := by
  have hinv : Inv s := h.invariant hfresh.inv fun s a s' _ hs _ hstep => by
    obtain rfl := Option.some.inj hstep
    exact inv_step call hs a
  refine ⟨?_, ?_, ?_⟩
  · intro i j p q ps qs hi hj
    exact (hinv.found i p ps hi).unique (hinv.found j q qs hj)
  · intro i p ps hi
    obtain ⟨row, hrow, hself, hid⟩ := hinv.found i p ps hi
    cases hget : getSelf s.persons with
    | none =>
      have hnone := List.find?_eq_none.mp hget row hrow
      exact absurd hself hnone
    | some found =>
      refine ⟨found, rfl, ?_⟩
      rw [← hid]
      exact (isSelf_of_getSelf hget).unique ⟨row, hrow, hself, rfl⟩
  · intro x hx y hy hsource hkind hactor
    have hperson : x.personId = y.personId := (hinv.own x hx).unique (hinv.own y hy)
    refine List.inj_on_of_nodup_map s.identities.distinct hx hy ?_
    simp only [hperson, hsource, hkind, hactor]

/-! ### A call that nothing fails -/

/-- No statement of the call fails, and its new id is new. -/
def Clean (i : ι) (s : Desk ι) (a : Action ι) : Prop :=
  (∀ err, a ≠ .fail i err) ∧
    (a = .insert i → ∀ p, s.phase i = .named p → p.id ∉ s.persons.rows.map (·.id))

/-- The call has not failed, and where it met a conflict there is a self row. -/
structure Settles (i : ι) (s : Desk ι) : Prop where
  alive : ∀ err, s.phase i ≠ .failed err
  someone : s.phase i = .conflicted → ∃ id, IsSelf s.persons id

theorem Settles.setPhase {i j : ι} {s : Desk ι} (h : Settles i s) {p : Phase}
    (hp : j = i → (∀ err, p ≠ .failed err) ∧ (p = .conflicted → ∃ id, IsSelf s.persons id)) :
    Settles i (s.setPhase j p) := by
  by_cases hji : j = i
  · subst hji
    obtain ⟨halive, hsomeone⟩ := hp rfl
    refine ⟨fun err => ?_, fun hc => ?_⟩
    · rw [s.setPhase_phase_self]
      exact halive err
    · rw [s.setPhase_phase_self] at hc
      exact hsomeone hc
  · have hphase : (s.setPhase j p).phase i = s.phase i :=
      s.setPhase_phase_of_ne (Ne.symm hji) p
    exact ⟨fun err => hphase ▸ h.alive err, fun hc => h.someone (hphase ▸ hc)⟩

omit [DecidableEq ι] in
theorem Settles.keep {i : ι} {s t : Desk ι} (h : Settles i s) (hphase : t.phase = s.phase)
    (hself : ∀ id, IsSelf s.persons id → IsSelf t.persons id) : Settles i t where
  alive err := hphase ▸ h.alive err
  someone hc := by
    obtain ⟨id, hid⟩ := h.someone (hphase ▸ hc)
    exact ⟨id, hself id hid⟩

theorem settles_step {i : ι} {fallback : Text} {fresh : Uuid} {seeds : List Seed}
    (hcall : call i = .bootstrapSelf fallback fresh seeds) {s : Desk ι} (h : Settles i s)
    {a : Action ι} (ha : Clean i s a) : Settles i (step call s a) := by
  have hdoes := does_step call s a
  generalize step call s a = t at hdoes
  cases hdoes with
  | found hself => exact h.setPhase fun _ => ⟨by simp, by simp⟩
  | missed | named | skipped => exact h.setPhase fun _ => ⟨by simp, by simp⟩
  | @inserted j person persons hj hins =>
    have hkeep : Settles i { s with persons := persons } :=
      h.keep rfl fun id hid => hid.insert hins
    exact @Settles.setPhase _ _ i j _ hkeep _ fun _ => ⟨by simp, by simp⟩
  | @clashed j person err hj hins =>
    refine h.setPhase fun hji => ?_
    subst hji
    refine ⟨by simp [hcall, Call.onConflict], fun _ => ?_⟩
    -- the new id is new, so it is the index that refuses it
    rcases insert_eq_error hins with hid | ⟨-, q, hq, hself⟩
    · exact absurd hid (ha.2 rfl person hj)
    · exact ⟨q.id, q, hq, hself, rfl⟩
  | @vanished j hj hnone =>
    refine h.setPhase fun hji => ?_
    subst hji
    obtain ⟨id, p, hp, hself, -⟩ := h.someone hj
    exact absurd hself (List.find?_eq_none.mp hnone p hp)
  | @ensured j person x left identities hj hens =>
    have hkeep : Settles i { s with identities := identities } := h.keep rfl fun id hid => hid
    exact @Settles.setPhase _ _ i j _ hkeep _ fun _ => ⟨by simp, by simp⟩
  | failed j err =>
    refine h.setPhase fun hji => ?_
    subst hji
    exact absurd rfl (ha.1 err)
  | renamed id displayName => exact h.keep rfl fun id' hid => hid.rename id displayName
  | around => exact h.keep rfl fun id hid => hid
  | nothing => exact h

/-- **A call of `bootstrap_self` none of whose statements fails ends well**: it never sees the
conflict of its insert, whoever is first, and `noSelfRow` is never raised. -/
theorem bootstrap_settles {i : ι} {fallback : Text} {fresh : Uuid} {seeds : List Seed}
    (hcall : call i = .bootstrapSelf fallback fresh seeds) {init s : Desk ι}
    (hstart : init.phase i = .start) (h : (machine call init).Reach (Clean i) s) :
    ∀ err, s.phase i ≠ .failed err := by
  have hinit : Settles i (machine call init).init :=
    ⟨fun err => by simp [machine, hstart], fun hc => by simp [machine, hstart] at hc⟩
  refine (h.invariant (I := Settles i) hinit fun s a s' _ hs ha hstep => ?_).alive
  obtain rfl := Option.some.inj hstep
  exact settles_step hcall hs ha

/-! ### Two calls on an empty table -/

def emptyDesk : Desk Bool :=
  ⟨⟨[], List.nodup_nil, by simp⟩, [], [4], ⟨[], List.nodup_nil, List.nodup_nil⟩, fun _ => .start⟩

theorem fresh_emptyDesk : emptyDesk.Fresh := ⟨fun _ => rfl, by simp [emptyDesk]⟩

/-- Two saves that put the same user of a source under the person. -/
def twoSaves : Bool → Call := fun b =>
  .bootstrapSelf "Me".toList (if b then 1 else 2)
    [⟨if b then 11 else 12, 4, .gitLabUserId, "7".toList⟩]

/-- Both look before either inserts. -/
def racing : List (Action Bool) :=
  [.getSelf true, .getSelf false, .readName true, .readName false, .insert false, .insert true,
    .ensure false, .reread true, .ensure true]

/-- The second insert is refused, its call takes the first one's person, and the user has one
identity. -/
theorem race_agrees :
    ∃ s, (machine twoSaves emptyDesk).exec (machine twoSaves emptyDesk).init racing = some s ∧
      s.identities.rows.length = 1 ∧
      ∀ p q ps qs, s.phase true = .found p ps → s.phase false = .found q qs → p.id = q.id := by
  have hlength : ((machine twoSaves emptyDesk).exec (machine twoSaves emptyDesk).init racing).map
      (·.identities.rows.length) = some 1 := by decide
  obtain ⟨s, hs, hone⟩ := Option.map_eq_some_iff.mp hlength
  have hreach : (machine twoSaves emptyDesk).Reach (fun _ _ => True) s :=
    Machine.reach_of_exec (Machine.allowed_true _ racing) hs
  obtain ⟨hsame, -, -⟩ := selves_agree fresh_emptyDesk hreach
  exact ⟨s, hs, hone, fun p q ps qs hp hq => hsame _ _ p q ps qs hp hq⟩

end Bootstrap
end Dayseam
