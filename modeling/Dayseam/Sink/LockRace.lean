import Dayseam.Lib.SentinelLock
import Dayseam.Sink.WriteReport
import Mathlib

/-!
# Writers that race for one note

Two calls may save to the same note at once, in one process or in two.  Each holds the
sentinel `….dayseam.lock` while it reads, composes and renames; the sweep that every new
sink makes of its directories removes a sentinel that is five minutes old, which is how
the lock of a writer that died is freed.  The writers are those of one note; the texts of
the note are what they read and put in place.

## Main definitions

* `composeSave` — the text that a save makes of the text of the note.
* `noteMachine` — the writers of a note.
* `Shows` — a state of the writers, as the files have it.

## Main results

* `writeOne_refines` — a call that nobody disturbs is a run of one writer.
* `lock_guards_iff` — **the lock keeps the writers apart just when no sweep removes the
  sentinel of a living one.**
* `saves_serial` — under the lock the note is what the saves make of it one after another.
-/

namespace Dayseam
namespace MarkdownFile

open FileSystems FileSystem Markers Markdown SentinelLock

/-- Five minutes, in nanoseconds. -/
def STALE_TMP_AGE : ℕ := 5 * 60 * 1000000000

/-- What a call saves to a note. -/
structure Save where
  newBlock : Block
  wantFrontmatter : Bool
  draft : ReportDraft

variable {Dir : Type} {ι : Type}

/-- The text of the note with the save, where it can be composed. -/
def composeSave (env : Env Dir) (existing : Option Text) (save : Save) : Option (Option Text) :=
  match composeFile env save.newBlock save.wantFrontmatter save.draft existing with
  | some (.ok bytes) => some (some bytes)
  | _ => none

theorem composeSave_eq_some {env : Env Dir} {existing out : Option Text} {save : Save} :
    composeSave env existing save = some out ↔ ∃ bytes, out = some bytes ∧
      composeFile env save.newBlock save.wantFrontmatter save.draft existing =
        some (.ok bytes) := by
  unfold composeSave
  cases composeFile env save.newBlock save.wantFrontmatter save.draft existing with
  | none => simp
  | some result =>
    cases result with
    | error err => simp
    | ok bytes => simp [eq_comm]

variable [DecidableEq ι]

/-- The writers of a note. -/
def noteMachine (env : Env Dir) (init : State ι (Option Text) Save) :
    Machine (State ι (Option Text) Save) (Action ι Save) :=
  machine (composeSave env) STALE_TMP_AGE init

/-! ### A call that nobody disturbs -/

variable [DecidableEq Dir] {env : Env Dir} {files files' : Files Dir} {faults : Faults}
  {t : Target Dir}

/-- The text of the note; bytes that are no text cannot be saved to. -/
def textAt (files : Files Dir) (t : Target Dir) : Option Text :=
  match files.node t.place with
  | some (.file ⟨_, .text text, _⟩) => some text
  | _ => none

/-- The files have the text of the note and the sentinel. -/
structure Shows (t : Target Dir) (s : State ι (Option Text) Save) (files : Files Dir) : Prop where
  content : s.content = textAt files t
  free_iff : s.sentinel = none ↔ files.node t.lock = none

omit [DecidableEq Dir] in
theorem place_ne_lock (t : Target Dir) : t.place ≠ t.lock :=
  fun h => lockName_ne t.filename (congrArg Prod.snd h).symm

omit [DecidableEq Dir] in
theorem textAt_congr (h : files'.node t.place = files.node t.place) :
    textAt files' t = textAt files t := by
  unfold textAt
  rw [h]

omit [DecidableEq Dir] in
/-- What a call reads is the text of the note, unless somebody removes the note meanwhile. -/
theorem textAt_of_readTargetIfAny {existing : Option Text} (hfault : faults.read ≠ some .notFound)
    (h : readTargetIfAny env files faults t = .ok existing) : textAt files t = existing := by
  unfold readTargetIfAny at h
  cases hstat : faults.stat with
  | some err =>
    rw [hstat] at h
    cases h
  | none =>
    rw [hstat] at h
    unfold textAt
    cases hnode : files.node t.place with
    | none =>
      rw [hnode] at h
      exact Except.ok.inj h
    | some node =>
      rw [hnode] at h
      cases node with
      | symlink => cases h
      | special => cases h
      | file f =>
        cases hread : faults.read with
        | some fault =>
          cases fault with
          | notFound => exact absurd hread hfault
          | other err => simp [hread] at h
        | none =>
          obtain ⟨inode, content, mode⟩ := f
          cases content with
          | text text => simpa [hread] using h
          | other bytes hbytes => simp [hread] at h

/-- A rename puts the bytes in place. -/
theorem textAt_writeTmp {tmp : Dir × Text} (htmp : tmp.2 ≠ t.filename) {bytes : Text} {n : ℕ}
    (h : writeTmp env files faults t tmp bytes = (files', .ok n)) :
    textAt files' t = some bytes := by
  have hne : t.place ≠ tmp := fun hplace => htmp (congrArg Prod.snd hplace).symm
  have hnew := @create_node_self _ _ _ _ files tmp (.text []) env.umask
  have hfile := fun mode : Mode => modify_node_self _
    (modify_node_self _ hnew fun _ m => (.text bytes, m)) fun c _ => (c, mode)
  unfold writeTmp at h
  dsimp only at h
  cases hw : faults.write with
  | some part => simp [hw] at h
  | none =>
    cases hs : faults.sync with
    | some err => simp [hw, hs] at h
    | none =>
      cases hp : faults.setPermissions with
      | some err => simp [hw, hs, hp] at h
      | none =>
        cases hr : faults.rename with
        | some err => simp [hw, hs, hp, hr] at h
        | none =>
          simp only [hw, hs, hp, hr, Prod.mk.injEq] at h
          obtain ⟨rfl, -⟩ := h
          unfold textAt
          rw [rename_node_dst _ hne, hfile]

theorem textAt_atomicWrite {bytes : Text} {n : ℕ}
    (h : atomicWrite env files faults t bytes = (files', .ok n)) :
    textAt files' t = some bytes := by
  have himpl : atomicWriteImpl env files faults t bytes = (files', .ok n) := by
    unfold atomicWrite at h
    cases hr : faults.restat with
    | some err => simp [hr] at h
    | none =>
      have hok : ∀ result : Files Dir × Except Text ℕ,
          (result.1, result.2.mapError (notWritable t.path "atomic write failed".toList)) =
            (files', .ok n) → result = (files', .ok n) := by
        rintro ⟨files₁, result⟩ hresult
        obtain ⟨rfl, hresult⟩ := Prod.mk.inj hresult
        cases result with
        | error err => cases hresult
        | ok m =>
          cases hresult
          rfl
      cases hnode : files.node t.place with
      | none =>
        simp only [hr, hnode] at h
        exact hok _ h
      | some node =>
        cases node with
        | symlink => simp [hr, hnode] at h
        | file f =>
          simp only [hr, hnode] at h
          exact hok _ h
        | special =>
          simp only [hr, hnode] at h
          exact hok _ h
  unfold atomicWriteImpl at himpl
  cases hc : faults.create with
  | some err => simp [hc] at himpl
  | none =>
    rw [hc] at himpl
    dsimp only at himpl
    by_cases hfree : (files.node (t.tmp faults.nanos)).isNone
    · rw [if_pos hfree] at himpl
      exact textAt_writeTmp (tmpName_ne _ _) himpl
    · rw [if_neg hfree] at himpl
      cases hrec : faults.recreate with
      | some err => simp [hrec] at himpl
      | none =>
        rw [hrec] at himpl
        dsimp only at himpl
        by_cases hretry : (files.node (t.tmp faults.retryNanos)).isNone
        · rw [if_pos hretry] at himpl
          exact textAt_writeTmp (tmpName_ne _ _) himpl
        · rw [if_neg hretry] at himpl
          cases himpl

theorem textAt_create_lock (files : Files Dir) (t : Target Dir) (c : Content) (m : Mode) :
    textAt (files.create t.lock c m) t = textAt files t :=
  textAt_congr (Function.update_of_ne (place_ne_lock t) _ _)

theorem textAt_release (files : Files Dir) (faults : Faults) (t : Target Dir) :
    textAt (release files faults t) t = textAt files t := by
  unfold release
  split_ifs
  · rfl
  · exact textAt_congr (Function.update_of_ne (place_ne_lock t) _ _)

theorem release_node_lock (hunlock : faults.unlock = none) :
    (release files faults t).node t.lock = none := by
  unfold release
  rw [hunlock]
  exact Function.update_self ..

theorem acquire_ok (h : acquire env files faults t = .ok files') :
    files.node t.lock = none ∧ files' = files.create t.lock (.text []) env.umask := by
  unfold acquire at h
  cases hl : faults.lock with
  | some err => simp [hl] at h
  | none =>
    simp only [hl] at h
    split_ifs at h with hsome
    exact ⟨by simpa using hsome, (Except.ok.inj h).symm⟩

/-- What a call that is done has read, composed and put in place. -/
theorem writeLocked_done {save : Save} {n : ℕ} (hread : faults.read ≠ some .notFound)
    (h : writeLocked env save.newBlock save.wantFrontmatter save.draft files faults t =
      (files', .done n)) :
    composeSave env (textAt files t) save = some (textAt files' t) := by
  unfold writeLocked at h
  cases hex : readTargetIfAny env files faults t with
  | error err => simp [hex] at h
  | ok existing =>
    rw [textAt_of_readTargetIfAny hread hex]
    cases hcompose : composeFile env save.newBlock save.wantFrontmatter save.draft existing with
    | none => simp [hex, hcompose] at h
    | some result =>
      cases result with
      | error err => simp [hex, hcompose] at h
      | ok bytes =>
        rcases hwrite : atomicWrite env files faults t bytes with ⟨files₂, result⟩
        cases result with
        | error err => simp [hex, hcompose, hwrite] at h
        | ok m =>
          have hfiles : files₂ = files' := by
            simp only [hex, hcompose, hwrite, Prod.mk.injEq] at h
            exact h.1
          subst hfiles
          rw [textAt_atomicWrite hwrite]
          exact composeSave_eq_some.mpr ⟨bytes, rfl, hcompose⟩

/-- The steps that a call takes. -/
def stepsOf (i : ι) (save : Save) : Written → List (Action ι Save)
  | .done _ => [.acquire i, .read i, .commit i save, .release i]
  | .failed _ | .panicked => [.acquire i, .release i]

omit [DecidableEq Dir] in
theorem exec_done (init : State ι (Option Text) Save) {i : ι} {save : Save}
    {s : State ι (Option Text) Save} {c : Option Text} (hidle : s.phase i = .idle) (hfree : s.sentinel = none)
    (hsave : composeSave env s.content save = some c) :
    ∃ s', (noteMachine env init).exec s [.acquire i, .read i, .commit i save, .release i] =
        some s' ∧ s'.content = c ∧ s'.sentinel = none ∧ s'.committed = s.committed ++ [save] := by
  refine ⟨_, rfl, ?_⟩
  simp [step, State.setPhase, hidle, hfree, hsave]

omit [DecidableEq Dir] in
theorem exec_failed (env : Env Dir) (init : State ι (Option Text) Save) {i : ι}
    {s : State ι (Option Text) Save} (hidle : s.phase i = .idle) :
    ∃ s', (noteMachine env init).exec s [.acquire i, .release i] = some s' ∧
      s'.content = s.content ∧ (s'.sentinel = none ↔ s.sentinel = none) ∧
      s'.committed = s.committed := by
  refine ⟨_, rfl, ?_⟩
  cases hx : s.sentinel with
  | none => simp [step, State.setPhase, hidle, hx]
  | some x => simp [step, hidle, hx]

/-- **A call that nobody disturbs is a run of one writer**: one that is done takes the lock,
reads, puts its save in place and releases the lock, and every other one leaves the note. -/
theorem writeOne_refines {save : Save} {written : Written} {i : ι}
    {s init : State ι (Option Text) Save} (hread : faults.read ≠ some .notFound)
    (hunlock : faults.unlock = none) (hshows : Shows t s files) (hidle : s.phase i = .idle)
    (h : writeOne env save.newBlock save.wantFrontmatter save.draft files faults t =
      (files', written)) :
    ∃ s', (noteMachine env init).exec s (stepsOf i save written) = some s' ∧
      Shows t s' files' ∧
      s'.committed = s.committed ++ if written.isDone then [save] else [] := by
  have hwrites := @writeOne_writesTo _ _ env save.newBlock save.wantFrontmatter save.draft files
    faults t
  rw [h] at hwrites
  unfold writeOne at h
  cases hacquire : acquire env files faults t with
  | error err =>
    simp only [hacquire, Prod.mk.injEq] at h
    obtain ⟨rfl, rfl⟩ := h
    obtain ⟨s', hexec, hcontent, hfree, hcommitted⟩ := exec_failed env init hidle
    exact ⟨s', hexec, ⟨hcontent.trans hshows.content, hfree.trans hshows.free_iff⟩,
      by simpa [Written.isDone] using hcommitted⟩
  | ok files₁ =>
    obtain ⟨hfree, rfl⟩ := acquire_ok hacquire
    have hnone : s.sentinel = none := hshows.free_iff.mpr hfree
    simp only [hacquire, Prod.mk.injEq] at h
    obtain ⟨rfl, hlocked⟩ := h
    have hlock : (release (writeLocked env save.newBlock save.wantFrontmatter save.draft
        (files.create t.lock (.text []) env.umask) faults t).1 faults t).node t.lock = none :=
      release_node_lock hunlock
    -- a call that is not done leaves the note, whatever it failed on
    have hkeeps : written.isDone = false → ∃ s', (noteMachine env init).exec s
        [.acquire i, .release i] = some s' ∧ Shows t s' (release (writeLocked env save.newBlock
          save.wantFrontmatter save.draft (files.create t.lock (.text []) env.umask) faults t).1
          faults t) ∧ s'.committed = s.committed := by
      intro hnot
      obtain ⟨s', hexec, hcontent, hstays, hcommitted⟩ := exec_failed env init hidle
      refine ⟨s', hexec, ⟨?_, iff_of_true (hstays.mpr hnone) hlock⟩, hcommitted⟩
      rw [hcontent, hshows.content]
      exact (textAt_congr (hwrites.kept hnot)).symm
    cases written with
    | done n =>
      have hsave : composeSave env s.content save = some (textAt (writeLocked env save.newBlock
          save.wantFrontmatter save.draft (files.create t.lock (.text []) env.umask) faults
          t).1 t) := by
        rw [hshows.content, ← textAt_create_lock files t (.text []) env.umask]
        exact writeLocked_done hread (Prod.ext rfl hlocked)
      obtain ⟨s', hexec, hcontent, hstays, hcommitted⟩ := exec_done init hidle hnone hsave
      refine ⟨s', hexec, ⟨?_, iff_of_true hstays hlock⟩, hcommitted⟩
      rw [hcontent, textAt_release]
    | failed err =>
      obtain ⟨s', hexec, hshown, hcommitted⟩ := hkeeps rfl
      exact ⟨s', hexec, hshown, by simpa [Written.isDone] using hcommitted⟩
    | panicked =>
      obtain ⟨s', hexec, hshown, hcommitted⟩ := hkeeps rfl
      exact ⟨s', hexec, hshown, by simpa [Written.isDone] using hcommitted⟩

/-! ### Calls that race -/

section

variable {s init : State ι (Option Text) Save}

omit [DecidableEq Dir] in
/-- **The lock keeps the writers apart just when no sweep removes the sentinel of a living
one**: the sentinel tells the age of the lock and not whether its writer lives. -/
theorem lock_guards_iff (hquiet : init.Quiet) {as : List (Action ι Save)} :
    (noteMachine env init).Throughout Guarded init as ↔
      (noteMachine env init).Allowed (Spares STALE_TMP_AGE) init as :=
  throughout_guarded_iff hquiet.guarded

omit [DecidableEq Dir] in
/-- **Under the lock no save is lost to another**: the note is what the saves make of it one
after another, each of the text that the one before it has left, and it has the block of
the last one. -/
theorem saves_serial (hquiet : init.Quiet) (hnone : init.committed = [])
    (h : (noteMachine env init).Reach (Spares STALE_TMP_AGE) s) :
    (∀ i j, s.Live i → s.Live j → i = j) ∧
      s.committed.foldlM (composeSave env) init.content = some s.content ∧
      ∀ earlier save, s.committed = earlier ++ [save] →
        ∃ text, s.content = some text ∧ hasBlock env.chrono save.newBlock text = true := by
  have hinv : Inv (composeSave env) init.content s := inv_of_reach hquiet hnone h
  refine ⟨fun i j hi hj => hinv.guarded.exclusive hi hj, hinv.serial, ?_⟩
  intro earlier save hlast
  have hserial := hinv.serial
  rw [hlast, List.foldlM_append] at hserial
  obtain ⟨before, -, hsave⟩ := Option.bind_eq_some_iff.mp hserial
  obtain ⟨bytes, hbytes, hcompose⟩ := composeSave_eq_some.mp (by simpa using hsave)
  exact ⟨bytes, hbytes, hasBlock_composeFile hcompose⟩

omit [DecidableEq Dir] in
/-- **A save of more than five minutes may be lost**: the sweep frees its lock, another one
comes in between, and the later rename puts back what the first of them has read. -/
theorem save_overtaken {i j : ι} {x : Sentinel ι} {existing : Option Text} {save save' : Save}
    {c d : Option Text} (hji : j ≠ i) (hx : s.sentinel = some x)
    (hstale : STALE_TMP_AGE ≤ s.clock - x.created) (hi : s.phase i = .read existing)
    (hj : s.phase j = .idle) (hsave : composeSave env s.content save = some d)
    (hsave' : composeSave env existing save' = some c) :
    ∃ s', (noteMachine env init).exec s
        [.sweep, .acquire j, .read j, .commit j save, .commit i save'] = some s' ∧
      s'.content = c ∧ s'.committed = s.committed ++ [save] ++ [save'] :=
  overtaken hji hx hstale hi hj hsave hsave'

end

/-! ### Two calls on an empty vault -/

/-- Nobody writes, and there is no note. -/
def emptyNote : State Bool (Option Text) Save := ⟨0, none, fun _ => .idle, none, []⟩

theorem quiet_emptyNote : emptyNote.Quiet := fun _ => rfl

def quietSave : Save := ⟨buildBlock ChartNumbers.quiet none quietDraft, false, quietDraft⟩

def quietTarget : Target Text := targetIn Env.plain quietDraft "/notes".toList

/-- The writer lives, and a sink that starts five minutes later frees its lock. -/
theorem swept_alive :
    ¬ (noteMachine Env.plain emptyNote).Throughout Guarded emptyNote
      [.acquire true, .clock STALE_TMP_AGE, .sweep] := by
  rw [lock_guards_iff quiet_emptyNote]
  rintro ⟨-, -, hsweep, -⟩
  refine hsweep ⟨true, 0⟩ rfl (Nat.le_refl _) ?_
  rintro ⟨⟩

/-- The call on the empty vault is the four steps of its writer. -/
theorem first_save_refines :
    ∃ s', (noteMachine Env.plain emptyNote).exec emptyNote
        (stepsOf true quietSave (writeOne Env.plain quietSave.newBlock false quietDraft emptyFiles
          Faults.none quietTarget).2) = some s' ∧
      Shows quietTarget s' (writeOne Env.plain quietSave.newBlock false quietDraft emptyFiles
        Faults.none quietTarget).1 ∧
      s'.committed = [] ++ if (writeOne Env.plain quietSave.newBlock false quietDraft emptyFiles
        Faults.none quietTarget).2.isDone then [quietSave] else [] :=
  writeOne_refines (show Faults.none.read ≠ some .notFound by decide) rfl
    ⟨rfl, iff_of_true rfl rfl⟩ rfl (Prod.mk.eta).symm

/-- One save alone. -/
theorem first_save_serial :
    ∃ s : State Bool (Option Text) Save, s.committed = [quietSave] ∧
      ∃ text, s.content = some text ∧ hasBlock Chrono.iso quietSave.newBlock text = true := by
  have hsome : (composeSave Env.plain none quietSave).isSome := by decide +kernel
  obtain ⟨c, hc⟩ := Option.isSome_iff_exists.mp hsome
  obtain ⟨s, hexec, -, -, hcommitted⟩ :=
    @exec_done Text Bool _ Env.plain emptyNote true quietSave emptyNote c rfl rfl hc
  have hreach : (noteMachine Env.plain emptyNote).Reach (Spares STALE_TMP_AGE) s :=
    Machine.reach_of_exec (by exact ⟨trivial, trivial, trivial, trivial, trivial⟩) hexec
  obtain ⟨-, -, hlast⟩ := saves_serial quiet_emptyNote rfl hreach
  exact ⟨s, hcommitted, hlast [] quietSave hcommitted⟩

end MarkdownFile
end Dayseam
