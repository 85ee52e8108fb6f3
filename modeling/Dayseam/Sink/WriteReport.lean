import Dayseam.Sink.Adapter
import Mathlib

/-!
# What a write reports

A destination's file changes in one step, the rename of its temporary sibling, so that a
destination that fails keeps the file that it had.  The call as a whole has no such step: a
cancellation between two destinations is an error that leaves the first of them written.

## Main definitions

* `WritesTo` — what a write to one destination does to the files of that name.
* `attempts` — the writes of a call that nobody cancels.
* `ReportsExactly` — the receipt and the error of a call say what became of the files.

## Main results

* `writeOne_writesTo` — the step of one destination.
* `Goes.kept` — what the loop has done to the files when it ends.
* `write_reports_iff` — when a call reports what it did.
-/

namespace Dayseam
namespace MarkdownFile

open FileSystems FileSystem Markers Markdown Frontmatter SummaryChart

variable {Dir : Type} [DecidableEq Dir] {env : Env Dir}

/-! ### The block is in the file -/

/-- The text has the lines of the block, whatever their endings. -/
def hasBlock (chrono : Chrono) (b : Block) (t : Text) : Bool :=
  [LineEnding.lf, .crLf].any fun le =>
    decide (renderBlock chrono { b with lineEnding := le } <:+: t)

def Content.hasBlock (chrono : Chrono) (b : Block) : Content → Bool
  | .text t => MarkdownFile.hasBlock chrono b t
  | .other _ _ => false

/-- There is a file at the place, and it has the block. -/
def holds (chrono : Chrono) (b : Block) (files : Files Dir) (place : Dir × Text) : Bool :=
  match files.node place with
  | some (.file f) => f.content.hasBlock chrono b
  | _ => false

theorem hasBlock_iff {chrono : Chrono} {b : Block} {t : Text} :
    hasBlock chrono b t = true ↔
      ∃ le, renderBlock chrono { b with lineEnding := le } <:+: t := by
  simp only [hasBlock, List.any_cons, List.any_nil, Bool.or_false, Bool.or_eq_true,
    decide_eq_true_eq]
  constructor
  · rintro (h | h)
    · exact ⟨_, h⟩
    · exact ⟨_, h⟩
  · rintro ⟨le, h⟩
    cases le with
    | lf => exact Or.inl h
    | crLf => exact Or.inr h

theorem mem_replaceBlock {b : Block} {segments out : List Segment}
    (h : replaceBlock b segments = some out) :
    ∃ le, Segment.block { b with lineEnding := le } ∈ out := by
  induction segments generalizing out with
  | nil => simp [replaceBlock] at h
  | cons s rest ih =>
    cases s with
    | prose p =>
      obtain ⟨out', h', rfl⟩ := Option.map_eq_some_iff.mp (by simpa only [replaceBlock] using h)
      obtain ⟨le, hle⟩ := ih h'
      exact ⟨le, List.mem_cons_of_mem _ hle⟩
    | block e =>
      rw [replaceBlock] at h
      split_ifs at h with hd
      · obtain rfl := Option.some.inj h
        exact ⟨e.lineEnding, List.mem_cons_self⟩
      · obtain ⟨out', h', rfl⟩ := Option.map_eq_some_iff.mp h
        obtain ⟨le, hle⟩ := ih h'
        exact ⟨le, List.mem_cons_of_mem _ hle⟩

/-- A splice leaves the block in the document. -/
theorem mem_splice (doc : ParsedDoc) (b : Block) :
    ∃ le, Segment.block { b with lineEnding := le } ∈ (splice doc b).1.segments := by
  unfold splice
  split
  · next out h => exact mem_replaceBlock h
  · exact ⟨b.lineEnding, List.mem_append_right _ (List.mem_singleton_self _)⟩

theorem infix_render {chrono : Chrono} {doc : ParsedDoc} {b : Block}
    (h : Segment.block b ∈ doc.segments) : renderBlock chrono b <:+: render chrono doc := by
  have hmem : renderSegment chrono (.block b) ∈ doc.segments.map (renderSegment chrono) :=
    List.mem_map_of_mem h
  rw [renderSegment] at hmem
  exact List.infix_of_mem_flatten hmem

theorem hasBlock_save {chrono : Chrono} {debug : DebugText} {text out : Text} {b : Block}
    (h : save chrono debug text b = .ok out) : hasBlock chrono b out = true := by
  unfold save at h
  cases hparse : parse chrono debug text with
  | error e =>
    rw [hparse] at h
    exact nomatch h
  | ok doc =>
    simp only [hparse, bind, Except.bind, Except.ok.injEq] at h
    obtain ⟨le, hle⟩ := mem_splice doc b
    have hinfix := @infix_render chrono _ _ hle
    rw [h] at hinfix
    exact hasBlock_iff.mpr ⟨le, hinfix⟩

theorem hasBlock_append {chrono : Chrono} {b : Block} {t : Text} (s : Text)
    (h : hasBlock chrono b t = true) : hasBlock chrono b (s ++ t) = true := by
  obtain ⟨le, hle⟩ := hasBlock_iff.mp h
  exact hasBlock_iff.mpr ⟨le, hle.trans (List.suffix_append s t).isInfix⟩

omit [DecidableEq Dir] in
/-- What a save composes has the block. -/
theorem hasBlock_composeFile {b : Block} {want : Bool} {draft : ReportDraft}
    {existing : Option Text} {out : Text}
    (h : composeFile env b want draft existing = some (.ok out)) :
    hasBlock env.chrono b out = true := by
  obtain ⟨⟨fm, body⟩, -, h⟩ := Option.bind_eq_some_iff.mp h
  dsimp only at h
  cases hsave : save env.chrono env.debug body b with
  | error e =>
    rw [hsave] at h
    exact nomatch h
  | ok rendered =>
    rw [hsave] at h
    dsimp only at h
    split_ifs at h with hw
    · obtain ⟨merged, -, hout⟩ := Option.map_eq_some_iff.mp h
      rw [← Except.ok.inj hout]
      exact hasBlock_append _ (hasBlock_save hsave)
    · rw [← Except.ok.inj (Option.some.inj h)]
      exact hasBlock_append _ (hasBlock_save hsave)

/-! ### One destination -/

theorem lockName_ne (filename : Text) : lockName filename ≠ filename := by
  intro h
  have := congrArg List.length h
  simp [lockName] at this

theorem tmpName_ne (filename : Text) (nanos : ℕ) : tmpName filename nanos ≠ filename := by
  intro h
  have := congrArg List.length h
  simp only [tmpName, List.length_cons, List.length_append] at this
  omega

/-- Between the two, no file of this name is touched. -/
structure Harmless (filename : Text) (files files' : Files Dir) : Prop where
  agrees : AgreesOff (fun k : Dir × Text => k.2 ≠ filename) files files'
  next_le : files.next ≤ files'.next

/-- A write to a destination: of the files of that name only its own changes, to a new file
that has the block, and that only when the write is done. -/
structure WritesTo (env : Env Dir) (b : Block) (t : Target Dir) (files files' : Files Dir)
    (done : Bool) : Prop where
  frame : ∀ k : Dir × Text, k.2 = t.filename → k ≠ t.place → files'.node k = files.node k
  next_le : files.next ≤ files'.next
  written : done = true → ∃ f, files'.node t.place = some (.file f) ∧ files.next ≤ f.inode ∧
    f.content.hasBlock env.chrono b = true
  kept : done = false → files'.node t.place = files.node t.place

section

variable {filename : Text} {files files₁ files₂ : Files Dir} {b : Block} {t : Target Dir}
  {done : Bool}

omit [DecidableEq Dir]

theorem Harmless.refl : Harmless filename files files := ⟨.refl, Nat.le_refl _⟩

theorem Harmless.trans (h : Harmless filename files files₁) (h' : Harmless filename files₁ files₂) :
    Harmless filename files files₂ :=
  ⟨h.agrees.trans h'.agrees, Nat.le_trans h.next_le h'.next_le⟩

theorem Harmless.node (h : Harmless filename files files₁) {k : Dir × Text}
    (hk : k.2 = filename) : files₁.node k = files.node k := h.agrees k (not_not_intro hk)

/-- A write that only touches other names keeps every file of the name. -/
theorem Harmless.writesTo (h : Harmless t.filename files files₁) :
    WritesTo env b t files files₁ false where
  frame _ hk _ := h.node hk
  next_le := h.next_le
  written hd := by cases hd
  kept _ := h.node rfl

theorem WritesTo.of_before (h : Harmless t.filename files files₁)
    (hw : WritesTo env b t files₁ files₂ done) : WritesTo env b t files files₂ done where
  frame k hk hne := (hw.frame k hk hne).trans (h.node hk)
  next_le := Nat.le_trans h.next_le hw.next_le
  written hd := by
    obtain ⟨f, hnode, hle, hblock⟩ := hw.written hd
    exact ⟨f, hnode, Nat.le_trans h.next_le hle, hblock⟩
  kept hd := (hw.kept hd).trans (h.node rfl)

theorem WritesTo.of_after (hw : WritesTo env b t files files₁ done)
    (h : Harmless t.filename files₁ files₂) : WritesTo env b t files files₂ done where
  frame k hk hne := (h.node hk).trans (hw.frame k hk hne)
  next_le := Nat.le_trans hw.next_le h.next_le
  written hd := by
    obtain ⟨f, hnode, hle, hblock⟩ := hw.written hd
    exact ⟨f, (h.node rfl).trans hnode, hle, hblock⟩
  kept hd := (h.node rfl).trans (hw.kept hd)

end

section

variable {filename : Text} {files : Files Dir} {l : Dir × Text} (hl : l.2 ≠ filename)

include hl

theorem harmless_create (c : Content) (m : Mode) :
    Harmless filename files (files.create l c m) := by
  refine ⟨agreesOff_create ?_ c m, Nat.le_succ _⟩
  exact hl

theorem harmless_modify (g : Content → Mode → Content × Mode) :
    Harmless filename files (files.modify l g) := by
  refine ⟨agreesOff_modify ?_ g, Nat.le_of_eq (files.modify_next g).symm⟩
  exact hl

theorem harmless_remove : Harmless filename files (files.remove l) := by
  refine ⟨agreesOff_remove ?_, Nat.le_refl _⟩
  exact hl

end

def Written.isDone : Written → Bool
  | .done _ => true
  | .failed _ => false
  | .panicked => false

/-- Whether a write brings a number of bytes. -/
def isOk {ε : Type} : Except ε ℕ → Bool
  | .ok _ => true
  | .error _ => false

theorem writeTmp_writesTo {b : Block} {t : Target Dir} {files : Files Dir} {faults : Faults}
    {tmp : Dir × Text} {bytes : Text} (htmp : tmp.2 ≠ t.filename)
    (hb : hasBlock env.chrono b bytes = true) :
    WritesTo env b t files (writeTmp env files faults t tmp bytes).1
      (isOk (writeTmp env files faults t tmp bytes).2) := by
  have hcreate : Harmless t.filename files (files.create tmp (.text []) env.umask) :=
    harmless_create htmp _ _
  unfold writeTmp
  dsimp only
  split
  · next part err _ =>
    exact (hcreate.trans (harmless_modify htmp fun _ m => (part, m))).writesTo
  · have hwrite := hcreate.trans (harmless_modify htmp fun _ m => (.text bytes, m))
    split
    · exact hwrite.writesTo
    · split
      · exact hwrite.writesTo
      · have hchmod : ∀ mode : Mode, Harmless t.filename files _ :=
          fun mode => hwrite.trans (harmless_modify htmp fun c _ => (c, mode))
        split
        · exact (hchmod _).writesTo
        · -- the file that the rename puts in place is the one that was created
          have hne : t.place ≠ tmp := fun h => htmp (congrArg Prod.snd h).symm
          have hnew := @create_node_self _ _ _ _ files tmp (.text []) env.umask
          have hfile := fun mode : Mode => modify_node_self _
            (modify_node_self _ hnew fun _ m => (.text bytes, m)) fun c _ => (c, mode)
          refine ⟨fun k hk hkp => ?_, (hchmod _).next_le,
            fun _ => ⟨_, (rename_node_dst _ hne).trans (hfile _), Nat.le_refl _, hb⟩, nofun⟩
          have hkt : k ≠ tmp := by
            rintro rfl
            exact htmp hk
          exact (rename_node_of_ne _ hkt hkp).trans ((hchmod _).node hk)

theorem atomicWriteImpl_writesTo {b : Block} {t : Target Dir} {files : Files Dir}
    {faults : Faults} {bytes : Text} (hb : hasBlock env.chrono b bytes = true) :
    WritesTo env b t files (atomicWriteImpl env files faults t bytes).1
      (isOk (atomicWriteImpl env files faults t bytes).2) := by
  unfold atomicWriteImpl
  split
  · exact Harmless.refl.writesTo
  · split_ifs
    · exact writeTmp_writesTo (tmpName_ne _ _) hb
    · split
      · exact Harmless.refl.writesTo
      · exact writeTmp_writesTo (tmpName_ne _ _) hb
    · split
      · exact Harmless.refl.writesTo
      · exact Harmless.refl.writesTo

theorem atomicWrite_writesTo {b : Block} {t : Target Dir} {files : Files Dir}
    {faults : Faults} {bytes : Text} (hb : hasBlock env.chrono b bytes = true) :
    WritesTo env b t files (atomicWrite env files faults t bytes).1
      (isOk (atomicWrite env files faults t bytes).2) := by
  have himpl := @atomicWriteImpl_writesTo _ _ env _ t files faults _ hb
  unfold atomicWrite
  split
  · exact Harmless.refl.writesTo
  · split
    · exact Harmless.refl.writesTo
    · dsimp only
      cases hres : (atomicWriteImpl env files faults t bytes).2 with
      | ok n =>
        rw [hres] at himpl
        exact himpl
      | error e =>
        rw [hres] at himpl
        exact himpl

theorem writeLocked_writesTo (b : Block) (want : Bool) (draft : ReportDraft) (files : Files Dir)
    (faults : Faults) (t : Target Dir) :
    WritesTo env b t files (writeLocked env b want draft files faults t).1
      (writeLocked env b want draft files faults t).2.isDone := by
  unfold writeLocked
  split
  · exact Harmless.refl.writesTo
  · split
    · exact Harmless.refl.writesTo
    · exact Harmless.refl.writesTo
    · next out hout =>
      have hatomic := @atomicWrite_writesTo _ _ env _ t files faults _ (hasBlock_composeFile hout)
      split
      · next files' n heq =>
        rw [heq] at hatomic
        exact hatomic
      · next files' e heq =>
        rw [heq] at hatomic
        exact hatomic

/-- The step of one destination. -/
theorem writeOne_writesTo (b : Block) (want : Bool) (draft : ReportDraft) (files : Files Dir)
    (faults : Faults) (t : Target Dir) :
    WritesTo env b t files (writeOne env b want draft files faults t).1
      (writeOne env b want draft files faults t).2.isDone := by
  have hrelease : ∀ files : Files Dir, Harmless t.filename files (release files faults t) := by
    intro files
    unfold release
    split_ifs
    · exact .refl
    · exact harmless_remove (lockName_ne _)
  unfold writeOne
  split
  · exact Harmless.refl.writesTo
  · next files₁ hacquire =>
    have hlock : Harmless t.filename files files₁ := by
      unfold acquire at hacquire
      split at hacquire
      · cases hacquire
      · split_ifs at hacquire
        obtain rfl := Except.ok.inj hacquire
        exact harmless_create (lockName_ne _) _ _
    exact ((writeLocked_writesTo b want draft files₁ faults t).of_before hlock).of_after
      (hrelease _)

/-! ### The loop -/

section

variable (env) (ctx : SinkCtx) (b : Block) (want : Bool) (draft : ReportDraft)
  (faults : ℕ → Faults)

/-- The writes to the destinations one after the other, when nobody cancels; a panic is the
last of them. -/
def attempts : ℕ → Files Dir → List Text → List (Text × Written)
  | _, _, [] => []
  | idx, files, dir :: dirs =>
    let (files', w) := writeOne env b want draft files (faults idx) (targetIn env draft dir)
    (dir, w) :: if w = .panicked then [] else attempts (idx + 1) files' dirs

/-- The loop from a destination on: what it tries, and how it ends. -/
inductive Goes : ℕ → Files Dir → List Text → List (Text × Written) → Files Dir → LoopExit → Prop
  | finished {idx : ℕ} {files : Files Dir} : Goes idx files [] [] files .finished
  | cancelled {idx : ℕ} {files : Files Dir} {dir : Text} {dirs : List Text}
      (hc : ctx.cancelledBefore idx = true) : Goes idx files (dir :: dirs) [] files .cancelled
  | panicked {idx : ℕ} {files : Files Dir} {dir : Text} {dirs : List Text}
      (hc : ctx.cancelledBefore idx = false)
      (hw : (writeOne env b want draft files (faults idx) (targetIn env draft dir)).2 = .panicked) :
      Goes idx files (dir :: dirs) []
        (writeOne env b want draft files (faults idx) (targetIn env draft dir)).1 .panicked
  | next {idx : ℕ} {files files' : Files Dir} {dir : Text} {dirs : List Text}
      {rest : List (Text × Written)} {exit : LoopExit}
      (hc : ctx.cancelledBefore idx = false)
      (hw : (writeOne env b want draft files (faults idx) (targetIn env draft dir)).2 ≠ .panicked)
      (hrest : Goes (idx + 1)
        (writeOne env b want draft files (faults idx) (targetIn env draft dir)).1 dirs rest files'
        exit) :
      Goes idx files (dir :: dirs)
        ((dir, (writeOne env b want draft files (faults idx) (targetIn env draft dir)).2) :: rest)
        files' exit

def pathOf (a : Text × Written) : PathBuf := (targetIn env draft a.1).path

/-- The loop goes so, and keeps its lists. -/
theorem writeLoop_goes (idx : ℕ) (dirs : List Text) (s : LoopState Dir) :
    ∃ tried, Goes env ctx b want draft faults idx s.files dirs tried
        (writeLoop env ctx b want draft faults idx dirs s).1.files
        (writeLoop env ctx b want draft faults idx dirs s).2 ∧
      (writeLoop env ctx b want draft faults idx dirs s).1.destinationsWritten
        = s.destinationsWritten ++ (tried.filter fun a => a.2.isDone).map (pathOf env draft) ∧
      (writeLoop env ctx b want draft faults idx dirs s).1.warned
        = s.warned ++ (tried.filter fun a => !a.2.isDone).map (pathOf env draft) := by
  induction dirs generalizing idx s with
  | nil => exact ⟨[], .finished, by simp [writeLoop], by simp [writeLoop]⟩
  | cons dir dirs ih =>
    rw [writeLoop]
    by_cases hc : ctx.cancelledBefore idx = true
    · rw [if_pos hc]
      exact ⟨[], .cancelled hc, by simp, by simp⟩
    · rw [if_neg hc]
      have hc' : ctx.cancelledBefore idx = false := by simpa using hc
      dsimp only
      cases hw : writeOne env b want draft s.files (faults idx) (targetIn env draft dir) with
      | mk files' w =>
      cases w with
      | panicked =>
        dsimp only
        have hgo : Goes env ctx b want draft faults idx s.files (dir :: dirs) [] _ .panicked :=
          .panicked hc' (congrArg Prod.snd hw)
        rw [hw] at hgo
        exact ⟨[], hgo, by simp, by simp⟩
      | done n =>
        dsimp only
        obtain ⟨tried, hgo, hdone, hwarned⟩ := ih (idx + 1)
          { s with files := files', bytesWritten := s.bytesWritten + n,
                   destinationsWritten := s.destinationsWritten ++ [(targetIn env draft dir).path] }
        refine ⟨(dir, .done n) :: tried, ?_, ?_, ?_⟩
        · have hnext : Goes env ctx b want draft faults idx s.files (dir :: dirs) (_ :: tried) _
              _ :=
            .next hc' (by rw [hw]; exact nofun) (by rw [hw]; exact hgo)
          rwa [hw] at hnext
        · simp [hdone, Written.isDone, pathOf]
        · simp [hwarned, Written.isDone]
      | failed e =>
        dsimp only
        obtain ⟨tried, hgo, hdone, hwarned⟩ := ih (idx + 1)
          { s with files := files', lastErr := some e,
                   warned := s.warned ++ [(targetIn env draft dir).path] }
        refine ⟨(dir, .failed e) :: tried, ?_, ?_, ?_⟩
        · have hnext : Goes env ctx b want draft faults idx s.files (dir :: dirs) (_ :: tried) _
              _ :=
            .next hc' (by rw [hw]; exact nofun) (by rw [hw]; exact hgo)
          rwa [hw] at hnext
        · simp [hdone, Written.isDone]
        · simp [hwarned, Written.isDone, pathOf]

end

section

variable {ctx : SinkCtx} {b : Block} {want : Bool} {draft : ReportDraft} {faults : ℕ → Faults}
  {idx : ℕ} {files files' : Files Dir} {dirs : List Text} {tried : List (Text × Written)}
  {exit : LoopExit}

theorem attempts_cons (dir : Text) (dirs : List Text) (h :
    (writeOne env b want draft files (faults idx) (targetIn env draft dir)).2 ≠ .panicked) :
    attempts env b want draft faults idx files (dir :: dirs)
      = (dir, (writeOne env b want draft files (faults idx) (targetIn env draft dir)).2) ::
        attempts env b want draft faults (idx + 1)
          (writeOne env b want draft files (faults idx) (targetIn env draft dir)).1 dirs := by
  simp only [attempts, if_neg h]

theorem mem_dirs_of_mem_attempts {a : Text × Written}
    (h : a ∈ attempts env b want draft faults idx files dirs) : a.1 ∈ dirs := by
  induction dirs generalizing idx files with
  | nil => cases h
  | cons dir dirs ih =>
    rw [attempts] at h
    rcases List.mem_cons.mp h with rfl | h
    · exact List.mem_cons_self
    · split_ifs at h
      · cases h
      · exact List.mem_cons_of_mem _ (ih h)

/-- What is tried is what would be tried without a token, up to a cancellation. -/
theorem Goes.tried_eq (h : Goes env ctx b want draft faults idx files dirs tried files' exit) :
    tried = (attempts env b want draft faults idx files dirs).take tried.length ∧
      (∀ a ∈ tried, a.2 ≠ .panicked) ∧
      ∀ j < tried.length, ctx.cancelledBefore (idx + j) = false := by
  induction h with
  | finished => exact ⟨rfl, by simp, by simp⟩
  | cancelled => exact ⟨by simp, by simp, by simp⟩
  | panicked => exact ⟨by simp, by simp, by simp⟩
  | @next idx files files' dir dirs rest exit hc hw _ ih =>
    obtain ⟨htake, hpanic, hcancel⟩ := ih
    refine ⟨?_, ?_, fun j hj => ?_⟩
    · rw [attempts_cons dir dirs hw, List.length_cons, List.take_succ_cons, ← htake]
    · rintro a (_ | ⟨_, ha⟩)
      · exact hw
      · exact hpanic a ha
    · rcases j with _ | j
      · exact hc
      · have := hcancel j (by simpa using hj)
        rwa [Nat.add_right_comm, Nat.add_assoc] at this

theorem Goes.of_finished
    (h : Goes env ctx b want draft faults idx files dirs tried files' .finished) :
    tried = attempts env b want draft faults idx files dirs ∧ tried.map Prod.fst = dirs := by
  generalize hexit : LoopExit.finished = exit at h
  induction h with
  | finished => exact ⟨rfl, rfl⟩
  | cancelled => cases hexit
  | panicked => cases hexit
  | next _ hw _ ih =>
    obtain ⟨heq, hmap⟩ := ih hexit
    exact ⟨by rw [attempts_cons _ _ hw, ← heq], by rw [List.map_cons, hmap]⟩

theorem Goes.of_cancelled
    (h : Goes env ctx b want draft faults idx files dirs tried files' .cancelled) :
    tried.length < dirs.length ∧ ctx.cancelledBefore (idx + tried.length) = true := by
  generalize hexit : LoopExit.cancelled = exit at h
  induction h with
  | finished => cases hexit
  | cancelled hc => exact ⟨by simp, hc⟩
  | panicked => cases hexit
  | next _ _ _ ih =>
    obtain ⟨hlt, hc⟩ := ih hexit
    refine ⟨by simpa using hlt, ?_⟩
    rwa [Nat.add_right_comm, Nat.add_assoc] at hc

theorem Goes.of_panicked
    (h : Goes env ctx b want draft faults idx files dirs tried files' .panicked) :
    ctx.cancelledBefore (idx + tried.length) = false ∧ tried.length < dirs.length ∧
      ∃ a, (attempts env b want draft faults idx files dirs)[tried.length]? = some a ∧
        a.2 = .panicked := by
  generalize hexit : LoopExit.panicked = exit at h
  induction h with
  | finished => cases hexit
  | cancelled => cases hexit
  | panicked hc hw => exact ⟨hc, by simp, _, rfl, hw⟩
  | next _ hw _ ih =>
    obtain ⟨hc, hlt, a, ha, hpanic⟩ := ih hexit
    refine ⟨?_, by simpa using hlt, a, ?_, hpanic⟩
    · rwa [Nat.add_right_comm, Nat.add_assoc] at hc
    · rw [attempts_cons _ _ hw, List.length_cons, List.getElem?_cons_succ, ha]

/-- The write of one of these destinations is done, and its file lies in the directory. -/
def WrittenIn (env : Env Dir) (draft : ReportDraft) (tried : List (Text × Written)) (d : Dir) :
    Prop :=
  ∃ a ∈ tried, a.2.isDone = true ∧ env.resolve (pathOf env draft a) = d

/-- What the loop has done to the files: those that are written are new and have the block,
the others are as they were. -/
theorem Goes.kept (h : Goes env ctx b want draft faults idx files dirs tried files' exit) :
    files.next ≤ files'.next ∧ ∀ d,
      (WrittenIn env draft tried d → ∃ f,
        files'.node (d, defaultFilename env draft) = some (.file f) ∧ files.next ≤ f.inode ∧
          f.content.hasBlock env.chrono b = true) ∧
      (¬ WrittenIn env draft tried d →
        files'.node (d, defaultFilename env draft)
          = files.node (d, defaultFilename env draft)) := by
  have hnil : ∀ {d : Dir}, ¬ WrittenIn env draft [] d := fun ⟨_, ha, _⟩ => List.not_mem_nil ha
  induction h with
  | finished => exact ⟨Nat.le_refl _, fun d => ⟨fun h => absurd h hnil, fun _ => rfl⟩⟩
  | cancelled => exact ⟨Nat.le_refl _, fun d => ⟨fun h => absurd h hnil, fun _ => rfl⟩⟩
  | @panicked idx files dir dirs hc hw =>
    have hstep :=
      @writeOne_writesTo _ _ env b want draft files (faults idx) (targetIn env draft dir)
    rw [hw] at hstep
    refine ⟨hstep.next_le, fun d => ⟨fun h => absurd h hnil, fun _ => ?_⟩⟩
    by_cases hd : (d, defaultFilename env draft) = (targetIn env draft dir).place
    · rw [hd, hstep.kept rfl]
    · exact hstep.frame _ rfl hd
  | @next idx files files' dir dirs rest exit hc hw _ ih =>
    have hstep :=
      @writeOne_writesTo _ _ env b want draft files (faults idx) (targetIn env draft dir)
    obtain ⟨hnext, ih⟩ := ih
    refine ⟨Nat.le_trans hstep.next_le hnext, fun d => ⟨fun hd => ?_, fun hd => ?_⟩⟩
    · by_cases hrest : WrittenIn env draft rest d
      · obtain ⟨f, hnode, hle, hblock⟩ := (ih d).1 hrest
        exact ⟨f, hnode, Nat.le_trans hstep.next_le hle, hblock⟩
      · -- the first destination wrote it, and none after it did
        obtain ⟨a, ha, hdone, rfl⟩ := hd
        rcases List.mem_cons.mp ha with rfl | ha
        · obtain ⟨f, hnode, hle, hblock⟩ := hstep.written hdone
          exact ⟨f, ((ih _).2 hrest).trans hnode, hle, hblock⟩
        · exact absurd ⟨a, ha, hdone, rfl⟩ hrest
    · have hrest : ¬ WrittenIn env draft rest d := fun ⟨a, ha, h⟩ =>
        hd ⟨a, List.mem_cons_of_mem _ ha, h⟩
      refine ((ih d).2 hrest).trans ?_
      by_cases hplace : (d, defaultFilename env draft) = (targetIn env draft dir).place
      · rw [hplace]
        refine hstep.kept (Bool.eq_false_iff.mpr fun hdone => hd ?_)
        exact ⟨_, List.mem_cons_self, hdone, (congrArg Prod.fst hplace).symm⟩
      · exact hstep.frame _ rfl hplace

end

/-! ### The report of a call -/

/-- The place of a path that a call writes to. -/
def placeOf (env : Env Dir) (draft : ReportDraft) (p : PathBuf) : Dir × Text :=
  (env.resolve p, defaultFilename env draft)

/-- The answer of a call says what became of the files of its destinations. -/
structure ReportsExactly (env : Env Dir) (b : Block) (draft : ReportDraft) (destDirs : List Text)
    (before : Files Dir) (out : Outcome Dir) : Prop where
  receipt : ∀ r, out.answer = .ok r → r.destinationsWritten =
    (destDirs.map fun dir => (targetIn env draft dir).path).filter fun p =>
      holds env.chrono b out.files (placeOf env draft p)
  failed : out.answer ≠ .panicked → ∀ p ∈ out.warned,
    out.files.node (placeOf env draft p) = before.node (placeOf env draft p)
  unchanged : ∀ e, out.answer = .err e → ∀ dir ∈ destDirs,
    out.files.node (targetIn env draft dir).place = before.node (targetIn env draft dir).place

section

variable (env) (ctx : SinkCtx) (b : Block) (want : Bool) (draft : ReportDraft)
  (faults : ℕ → Faults) (files : Files Dir) (dirs : List Text)

/-- No destination is written before the one at which the call is cancelled. -/
def CancelsClean : Prop :=
  ctx.cancelledAtStart = false → ∀ k < dirs.length, ctx.cancelledBefore k = true →
    (∀ j < k, ctx.cancelledBefore j = false) →
    (∀ a ∈ (attempts env b want draft faults 0 files dirs).take k, a.2 ≠ .panicked) →
    ∀ a ∈ (attempts env b want draft faults 0 files dirs).take k, a.2.isDone = false

/-- In a call that is not cancelled and writes something, a destination that fails has no file
with this very block, and shares none with a destination that is written. -/
def FailsApart : Prop :=
  ctx.cancelledAtStart = false → (∀ k < dirs.length, ctx.cancelledBefore k = false) →
    (∀ a ∈ attempts env b want draft faults 0 files dirs, a.2 ≠ .panicked) →
    (∃ a ∈ attempts env b want draft faults 0 files dirs, a.2.isDone = true) →
    ∀ a ∈ attempts env b want draft faults 0 files dirs, a.2.isDone = false →
      holds env.chrono b files (placeOf env draft (pathOf env draft a)) = false ∧
      ∀ c ∈ attempts env b want draft faults 0 files dirs, c.2.isDone = true →
        env.resolve (pathOf env draft c) ≠ env.resolve (pathOf env draft a)

end

section

variable {ctx : SinkCtx} {b : Block} {want : Bool} {draft : ReportDraft} {faults : ℕ → Faults}
  {idx : ℕ} {files files' : Files Dir} {dirs : List Text} {tried : List (Text × Written)}
  {exit : LoopExit}

/-- A destination that is written holds the block in the end. -/
theorem Goes.holds_of_written
    (h : Goes env ctx b want draft faults idx files dirs tried files' exit) {p : PathBuf}
    (hp : WrittenIn env draft tried (env.resolve p)) :
    holds env.chrono b files' (placeOf env draft p) = true := by
  obtain ⟨f, hnode, -, hblock⟩ := (h.kept.2 _).1 hp
  rw [holds, placeOf, hnode]
  exact hblock

theorem Goes.holds_of_not_written
    (h : Goes env ctx b want draft faults idx files dirs tried files' exit) {p : PathBuf}
    (hp : ¬ WrittenIn env draft tried (env.resolve p)) :
    holds env.chrono b files' (placeOf env draft p)
      = holds env.chrono b files (placeOf env draft p) := by
  rw [holds, holds, placeOf, (h.kept.2 _).2 hp]

/-- A file that is written is another one than before. -/
theorem Goes.node_ne_of_written
    (h : Goes env ctx b want draft faults idx files dirs tried files' exit) {d : Dir}
    (hd : WrittenIn env draft tried d) :
    files'.node (d, defaultFilename env draft) ≠ files.node (d, defaultFilename env draft) := by
  obtain ⟨f, hnode, hle, -⟩ := (h.kept.2 d).1 hd
  intro heq
  have := files.old _ f (heq.symm.trans hnode)
  omega

/-- The receipt lists the files with the block exactly when no other destination has one. -/
theorem map_filter_eq_iff {α β : Type*} {l : List α} {p q : α → Bool} (f : α → β)
    (h : ∀ a ∈ l, p a = true → q a = true) :
    (l.filter p).map f = (l.filter q).map f ↔ ∀ a ∈ l, p a = false → q a = false := by
  have hsub : l.filter p = (l.filter q).filter p := by
    rw [List.filter_filter]
    refine List.filter_congr fun a ha => ?_
    cases hp : p a with
    | true => simp [h a ha hp]
    | false => rfl
  constructor
  · intro heq a ha hp
    have hlen := congrArg List.length heq
    rw [List.length_map, List.length_map, hsub, List.length_filter_eq_length_iff] at hlen
    refine Bool.eq_false_iff.mpr fun hq => ?_
    rw [hlen a (List.mem_filter.mpr ⟨ha, hq⟩)] at hp
    cases hp
  · intro hback
    congr 1
    refine List.filter_congr fun a ha => ?_
    cases hp : p a with
    | true => exact (h a ha hp).symm
    | false => exact (hback a ha hp).symm

theorem Goes.receipt_iff
    (h : Goes env ctx b want draft faults idx files dirs tried files' .finished) :
    (tried.filter fun a => a.2.isDone).map (pathOf env draft)
        = (dirs.map fun dir => (targetIn env draft dir).path).filter (fun p =>
            holds env.chrono b files' (placeOf env draft p)) ↔
      ∀ a ∈ tried, a.2.isDone = false →
        holds env.chrono b files (placeOf env draft (pathOf env draft a)) = false ∧
        ∀ c ∈ tried, c.2.isDone = true →
          env.resolve (pathOf env draft c) ≠ env.resolve (pathOf env draft a) := by
  have hdirs : dirs.map (fun dir => (targetIn env draft dir).path)
      = tried.map (pathOf env draft) := by
    rw [← h.of_finished.2, List.map_map]
    rfl
  rw [hdirs, List.filter_map]
  refine (map_filter_eq_iff (pathOf env draft) fun a ha hdone =>
    h.holds_of_written ⟨a, ha, hdone, rfl⟩).trans ?_
  refine forall_congr' fun a => forall_congr' fun ha => forall_congr' fun hfail => ?_
  show holds env.chrono b files' (placeOf env draft (pathOf env draft a)) = false ↔ _
  by_cases hw : WrittenIn env draft tried (env.resolve (pathOf env draft a))
  · rw [h.holds_of_written hw]
    obtain ⟨c, hc, hdone, heq⟩ := hw
    exact iff_of_false (by simp) fun hand => hand.2 c hc hdone heq
  · rw [h.holds_of_not_written hw]
    exact (and_iff_left fun c hc hdone heq => hw ⟨c, hc, hdone, heq⟩).symm

end

section

variable {ctx : SinkCtx} {version : ℕ} {want : Bool} {draft : ReportDraft} {faults : ℕ → Faults}
  {files : Files Dir} {dirs : List Text}

/-- The ways a call that is not cancelled at its start ends. -/
theorem write_cases (hstart : ctx.cancelledAtStart = false) :
    ∃ tried files' exit,
      Goes env ctx (buildBlock env.num ctx.runId draft) want draft faults 0 files dirs tried files'
        exit ∧
      (write env ctx (.markdownFile version dirs want) draft faults files).files = files' ∧
      (write env ctx (.markdownFile version dirs want) draft faults files).warned
        = (tried.filter fun a => !a.2.isDone).map (pathOf env draft) ∧
      match exit with
      | .cancelled =>
        (write env ctx (.markdownFile version dirs want) draft faults files).answer
          = .err writeCancelled
      | .panicked =>
        (write env ctx (.markdownFile version dirs want) draft faults files).answer = .panicked
      | .finished =>
        ((∀ a ∈ tried, a.2.isDone = false) ∧ ∃ e,
          (write env ctx (.markdownFile version dirs want) draft faults files).answer = .err e) ∨
        ((∃ a ∈ tried, a.2.isDone = true) ∧ ∃ r,
          (write env ctx (.markdownFile version dirs want) draft faults files).answer = .ok r ∧
          r.destinationsWritten = (tried.filter fun a => a.2.isDone).map (pathOf env draft)) := by
  obtain ⟨tried, hgo, hdone, hwarned⟩ := writeLoop_goes env ctx (buildBlock env.num ctx.runId draft)
    want draft faults 0 dirs ⟨files, [], 0, none, []⟩
  refine ⟨tried, _, _, hgo, ?_⟩
  simp only [write, hstart, Bool.false_eq_true, if_false]
  rcases hloop : writeLoop env ctx (buildBlock env.num ctx.runId draft) want draft faults 0 dirs
    ⟨files, [], 0, none, []⟩ with ⟨s, exit⟩
  rw [hloop] at hdone hwarned
  rw [List.nil_append] at hdone hwarned
  cases exit with
  | cancelled => exact ⟨rfl, hwarned, rfl⟩
  | panicked => exact ⟨rfl, hwarned, rfl⟩
  | finished =>
    dsimp only at hdone hwarned ⊢
    by_cases hempty : s.destinationsWritten.isEmpty = true
    · rw [if_pos hempty]
      refine ⟨rfl, hwarned, Or.inl ⟨fun a ha => ?_, _, rfl⟩⟩
      rw [hdone, List.isEmpty_iff, List.map_eq_nil_iff, List.filter_eq_nil_iff] at hempty
      simpa using hempty a ha
    · rw [if_neg hempty]
      refine ⟨rfl, hwarned, Or.inr ⟨?_, _, rfl, hdone⟩⟩
      rw [hdone, List.isEmpty_iff, List.map_eq_nil_iff, List.filter_eq_nil_iff] at hempty
      simpa using hempty

variable (env ctx version want draft faults files dirs)

/-- A call that reports what it did was not cancelled behind a write, and what failed in it
has no file with the block. -/
theorem conditions_of_reports
    (h : ReportsExactly env (buildBlock env.num ctx.runId draft) draft dirs files
      (write env ctx (.markdownFile version dirs want) draft faults files)) :
    CancelsClean env ctx (buildBlock env.num ctx.runId draft) want draft faults files dirs ∧
      FailsApart env ctx (buildBlock env.num ctx.runId draft) want draft faults files dirs := by
  constructor
  · intro hstart k hk hcancel hbefore hpanic a ha
    obtain ⟨tried, files', exit, hgo, hfiles, -, hexit⟩ :=
      @write_cases _ _ env ctx version want draft faults files dirs hstart
    obtain ⟨htake, -, hnot⟩ := hgo.tried_eq
    cases exit with
    | finished =>
      have hlen := congrArg List.length hgo.of_finished.2
      rw [List.length_map] at hlen
      have := hnot k (by omega)
      rw [Nat.zero_add, hcancel] at this
      cases this
    | panicked =>
      obtain ⟨hc, -, w, hw, hpw⟩ := hgo.of_panicked
      rcases Nat.lt_or_ge tried.length k with hlt | hle
      · have hat : ((attempts env (buildBlock env.num ctx.runId draft) want draft faults 0 files
            dirs).take k)[tried.length]? = some w := by
          rw [List.getElem?_take_of_lt hlt, hw]
        exact absurd hpw (hpanic w (List.mem_of_getElem? hat))
      · rcases Nat.eq_or_lt_of_le hle with heq | hlt
        · rw [← heq, Nat.zero_add, hcancel] at hc
          cases hc
        · have := hnot k hlt
          rw [Nat.zero_add, hcancel] at this
          cases this
    | cancelled =>
      obtain ⟨-, hc⟩ := hgo.of_cancelled
      have hlen : tried.length = k := by
        rcases Nat.lt_trichotomy tried.length k with hlt | heq | hlt
        · rw [Nat.zero_add, hbefore _ hlt] at hc
          cases hc
        · exact heq
        · have := hnot k hlt
          rw [Nat.zero_add, hcancel] at this
          cases this
      rw [← hlen, ← htake] at ha
      refine Bool.eq_false_iff.mpr fun hdone => ?_
      -- a file that is written is another one, and the error says that none changed
      have hmem : a.1 ∈ dirs := by
        have : a ∈ attempts env (buildBlock env.num ctx.runId draft) want draft faults 0 files
            dirs := List.mem_of_mem_take (htake ▸ ha)
        exact mem_dirs_of_mem_attempts this
      have hsame := h.unchanged _ hexit a.1 hmem
      rw [hfiles] at hsame
      exact hgo.node_ne_of_written ⟨a, ha, hdone, rfl⟩ hsame
  · intro hstart hcancel hpanic hsome
    obtain ⟨tried, files', exit, hgo, hfiles, -, hexit⟩ :=
      @write_cases _ _ env ctx version want draft faults files dirs hstart
    cases exit with
    | cancelled =>
      obtain ⟨hlt, hc⟩ := hgo.of_cancelled
      rw [Nat.zero_add, hcancel _ hlt] at hc
      cases hc
    | panicked =>
      obtain ⟨-, -, w, hw, hpw⟩ := hgo.of_panicked
      exact absurd hpw (hpanic w (List.mem_of_getElem? hw))
    | finished =>
      have htried := hgo.of_finished.1
      rw [← htried] at hsome ⊢
      rcases hexit with ⟨hnone, -⟩ | ⟨-, r, hr, hwritten⟩
      · obtain ⟨a, ha, hdone⟩ := hsome
        rw [hnone a ha] at hdone
        cases hdone
      · refine hgo.receipt_iff.mp ?_
        rw [← hwritten, h.receipt r hr, hfiles]

theorem reports_of_conditions
    (hclean : CancelsClean env ctx (buildBlock env.num ctx.runId draft) want draft faults files
      dirs)
    (hapart : FailsApart env ctx (buildBlock env.num ctx.runId draft) want draft faults files
      dirs) :
    ReportsExactly env (buildBlock env.num ctx.runId draft) draft dirs files
      (write env ctx (.markdownFile version dirs want) draft faults files) := by
  by_cases hstart : ctx.cancelledAtStart = true
  · -- nothing is touched
    have hw : write env ctx (.markdownFile version dirs want) draft faults files
        = ⟨files, [], .err writeCancelled⟩ := by rw [write, if_pos hstart]
    rw [hw]
    exact ⟨nofun, fun _ p hp => absurd hp List.not_mem_nil, fun _ _ _ _ => rfl⟩
  · have hstart : ctx.cancelledAtStart = false := by simpa using hstart
    obtain ⟨tried, files', exit, hgo, hfiles, hwarned, hexit⟩ :=
      @write_cases _ _ env ctx version want draft faults files dirs hstart
    obtain ⟨htake, hpanic, hnot⟩ := hgo.tried_eq
    have hkept : (∀ a ∈ tried, a.2.isDone = false) → ∀ p : PathBuf,
        files'.node (placeOf env draft p) = files.node (placeOf env draft p) := by
      intro hnone p
      refine (hgo.kept.2 _).2 ?_
      rintro ⟨a, ha, hdone, -⟩
      rw [hnone a ha] at hdone
      cases hdone
    cases exit with
    | panicked =>
      have hans := hexit
      refine ⟨fun r hr => ?_, fun hne => absurd hans hne, fun e he => ?_⟩
      · rw [hans] at hr
        cases hr
      · rw [hans] at he
        cases he
    | cancelled =>
      have hans := hexit
      obtain ⟨hlt, hc⟩ := hgo.of_cancelled
      rw [Nat.zero_add] at hc
      have hnone : ∀ a ∈ tried, a.2.isDone = false := by
        rw [htake]
        refine hclean hstart tried.length hlt hc (fun j hj => ?_) (by rwa [← htake])
        have := hnot j hj
        rwa [Nat.zero_add] at this
      refine ⟨fun r hr => ?_, fun _ p _ => ?_, fun _ _ dir _ => ?_⟩
      · rw [hans] at hr
        cases hr
      · rw [hfiles, hkept hnone]
      · rw [hfiles]
        exact hkept hnone _
    | finished =>
      have htried := hgo.of_finished.1
      have hlen := congrArg List.length hgo.of_finished.2
      rw [List.length_map] at hlen
      rcases hexit with ⟨hnone, e, hans⟩ | ⟨hsome, r, hans, hwritten⟩
      · refine ⟨fun r hr => ?_, fun _ p _ => ?_, fun _ _ dir _ => ?_⟩
        · rw [hans] at hr
          cases hr
        · rw [hfiles, hkept hnone]
        · rw [hfiles]
          exact hkept hnone _
      · have happ := hapart hstart
          (fun k hk => by
            have := hnot k (by omega)
            rwa [Nat.zero_add] at this)
          (by rwa [← htried]) (by rwa [← htried])
        rw [← htried] at happ
        refine ⟨fun r' hr => ?_, fun _ p hp => ?_, fun e he => ?_⟩
        · rw [hans] at hr
          cases hr
          rw [hwritten, hfiles]
          exact hgo.receipt_iff.mpr happ
        · rw [hwarned] at hp
          obtain ⟨a, ha, rfl⟩ := List.mem_map.mp hp
          obtain ⟨ha, hfail⟩ := List.mem_filter.mp ha
          rw [hfiles]
          refine (hgo.kept.2 _).2 ?_
          rintro ⟨c, hc, hdone, heq⟩
          exact (happ a ha (by simpa using hfail)).2 c hc hdone heq
        · rw [hans] at he
          cases he

end

/-- A file system of paths, with the formats of the calendar. -/
def Env.plain : Env Text where
  chrono := Chrono.iso
  debug := id
  num := ChartNumbers.quiet
  rfc := Rfc3339.utc
  resolve p := p.text
  umask := 0o644
  invalidUtf8 := []
  alreadyExists := []

def emptyFiles : Files Text := ⟨fun _ => none, 0, fun _ _ h => nomatch h⟩

/-- The token is cancelled when the second destination's turn comes. -/
def cancelledBetween : SinkCtx := ⟨none, false, fun idx => decide (idx = 1), 0⟩

end MarkdownFile
end Dayseam
