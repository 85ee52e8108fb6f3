import Dayseam.Core.Path
import Dayseam.Core.Sink
import Dayseam.Core.Ids
import Dayseam.Lib.FileSystem
import Dayseam.Sink.Frontmatter
import Dayseam.Sink.Saving
import Mathlib

/-!
# Writing a draft to its destinations

`MarkdownFileSink::write` goes through the destinations of its configuration.  For each it
takes a lock, composes the file from what is there, writes it to a temporary sibling and
renames that into place; a destination that fails is logged and the next one is tried.  What
the file system, the clock and the token do in a call is a parameter.  The progress stream is
left out.

## Main definitions

* `Faults` — what goes wrong at one destination.
* `composeFile` — the text that a save makes of a file.
* `atomicWrite`, `writeOne` — the write to one destination.
* `write` — the call, with what it logs and its answer.
-/

namespace Dayseam
namespace MarkdownFile

open FileSystems Markers Markdown Frontmatter SummaryChart

/-! ### Files -/

/-- The bytes of a file: a text, or bytes that are none. -/
inductive Content
  | text (t : Text)
  | other (bytes : List UInt8) (h : ∀ t : Text, utf8 t ≠ bytes)

/-- The permission bits. -/
abbrev Mode := Fin 0o10000

instance neZero_mode : NeZero (0o7777 + 1 : ℕ) := inferInstance

def NEW_FILE_MODE : Mode := 0o600

variable {Dir : Type} [DecidableEq Dir]

/-- The files by directory and name. -/
abbrev Files (Dir : Type) := FileSystem (Dir × Text) Content Mode

inductive ReadFault
  | notFound
  | other (err : Text)
  deriving DecidableEq, Repr

/-- What goes wrong at a destination; each error with its text. -/
structure Faults where
  lock : Option Text
  stat : Option Text
  read : Option ReadFault
  restat : Option Text
  create : Option Text
  recreate : Option Text
  /-- What was written before the error, and the error. -/
  write : Option (Content × Text)
  sync : Option Text
  setPermissions : Option Text
  rename : Option Text
  unlock : Option Text
  /-- The clock, for the names of the temporary file. -/
  nanos : ℕ
  retryNanos : ℕ

def Faults.none : Faults :=
  ⟨.none, .none, .none, .none, .none, .none, .none, .none, .none, .none, .none, 0, 1⟩

/-- What a call finds around it. -/
structure Env (Dir : Type) where
  chrono : Chrono
  debug : DebugText
  num : ChartNumbers
  rfc : Rfc3339
  /-- The directory that the last part of a path lies in. -/
  resolve : PathBuf → Dir
  /-- The mode of a file that is opened anew. -/
  umask : Mode
  /-- The texts of `InvalidData` and `AlreadyExists`. -/
  invalidUtf8 : Text
  alreadyExists : Text

variable (env : Env Dir)

/-! ### Errors -/

def SINK_FS_NOT_WRITABLE : Text := "sink.fs.not_writable".toList
def SINK_MALFORMED_MARKER : Text := "sink.malformed_marker".toList
def SINK_FS_CONCURRENT_WRITE : Text := "sink.fs.concurrent_write".toList
def SINK_FS_REFUSED_SYMLINK : Text := "sink.fs.refused_symlink".toList
def RUN_CANCELLED_BY_USER : Text := "run.cancelled.by_user".toList

def notWritable (target : PathBuf) (message err : Text) : DayseamError :=
  .io SINK_FS_NOT_WRITABLE (some target.text) (message ++ ": ".toList ++ err)

def malformedMarkerError (target : PathBuf) (err : MarkerError) : DayseamError :=
  .internal SINK_MALFORMED_MARKER
    ("existing marker block(s) in ".toList ++ target.text ++ " are malformed: ".toList ++
      err.describe)

/-! ### One destination -/

def lockName (filename : Text) : Text := filename ++ ".dayseam.lock".toList

/-- A number in hexadecimal, padded to eight digits. -/
def hex8 (n : ℕ) : Text :=
  let digits := Nat.toDigits 16 n
  List.replicate (8 - digits.length) '0' ++ digits

def tmpName (filename : Text) (nanos : ℕ) : Text :=
  '.' :: (filename ++ '.' :: (hex8 nanos ++ ".dayseam.tmp".toList))

/-- A destination: its directory, the name of its file and their path. -/
structure Target (Dir : Type) where
  dir : Dir
  filename : Text
  path : PathBuf

def Target.place (t : Target Dir) : Dir × Text := (t.dir, t.filename)

def Target.lock (t : Target Dir) : Dir × Text := (t.dir, lockName t.filename)

def Target.tmp (t : Target Dir) (nanos : ℕ) : Dir × Text := (t.dir, tmpName t.filename nanos)

/-- `lock::acquire`. -/
def acquire (files : Files Dir) (faults : Faults) (target : Target Dir) :
    Except DayseamError (Files Dir) :=
  match faults.lock with
  | some err => .error (notWritable target.path "could not acquire lock sentinel".toList err)
  | none =>
    if (files.node target.lock).isSome then
      .error (.io SINK_FS_CONCURRENT_WRITE (some target.path.text)
        ("another write is already in flight for ".toList ++ target.path.text))
    else .ok (files.create target.lock (.text []) env.umask)

/-- The drop of the guard: an error is logged, and the sentinel stays. -/
def release (files : Files Dir) (faults : Faults) (target : Target Dir) : Files Dir :=
  if faults.unlock.isSome then files else files.remove target.lock

def readTargetIfAny (files : Files Dir) (faults : Faults) (target : Target Dir) :
    Except DayseamError (Option Text) :=
  match faults.stat with
  | some err => .error (notWritable target.path "could not stat existing target".toList err)
  | none =>
    match files.node target.place with
    | none => .ok none
    | some .symlink =>
      .error (.io SINK_FS_REFUSED_SYMLINK (some target.path.text)
        (target.path.text ++ (" is a symlink; the markdown sink refuses to follow symlinks " ++
          "(see sink.fs.refused_symlink)").toList))
    | some .special =>
      .error (.io SINK_FS_NOT_WRITABLE (some target.path.text)
        (target.path.text ++ " exists but is not a regular file".toList))
    | some (.file f) =>
      match faults.read with
      | some .notFound => .ok none
      | some (.other err) =>
        .error (notWritable target.path "could not read existing target".toList err)
      | none =>
        match f.content with
        | .text t => .ok (some t)
        | .other _ _ =>
          .error (notWritable target.path "could not read existing target".toList env.invalidUtf8)

/-- The frontmatter of the file and its body; a file that is not there has none. -/
def splitExisting : Option Text → Option (Option Text × Text)
  | some text => split text
  | none => some (none, [])

/-- The text of the file with the block; `none` where a slice of the frontmatter panics. -/
def composeFile (newBlock : Block) (wantFrontmatter : Bool) (draft : ReportDraft)
    (existing : Option Text) : Option (Except MarkerError Text) := do
  let (existingFrontmatter, existingBody) ← splitExisting existing
  match save env.chrono env.debug existingBody newBlock with
  | .error err => some (.error err)
  | .ok renderedBody =>
    if wantFrontmatter then
      (merge env.chrono env.rfc existingFrontmatter
        ⟨draft.date, draft.templateId, draft.templateVersion, draft.generatedAt⟩).map
        fun fm => .ok (fm ++ renderedBody)
    else
      -- a frontmatter that the user wrote by hand is kept
      some (.ok (existingFrontmatter.getD [] ++ renderedBody))

/-- The temporary file from its creation on. -/
def writeTmp (files : Files Dir) (faults : Faults) (target : Target Dir) (tmp : Dir × Text)
    (bytes : Text) : Files Dir × Except Text ℕ :=
  let mode := match files.node target.place with
    | some (.file f) => f.mode
    | _ => NEW_FILE_MODE
  let files := files.create tmp (.text []) env.umask
  match faults.write with
  | some (part, err) => (files.modify tmp fun _ m => (part, m), .error err)
  | none =>
    let files := files.modify tmp fun _ m => (.text bytes, m)
    match faults.sync with
    | some err => (files, .error err)
    | none =>
      match faults.setPermissions with
      | some err => (files, .error err)
      | none =>
        let files := files.modify tmp fun c _ => (c, mode)
        match faults.rename with
        | some err => (files, .error err)
        | none => (files.rename tmp target.place, .ok bytes.byteLen)

/-- `atomic_write_impl`: a name that is taken is tried again once. -/
def atomicWriteImpl (files : Files Dir) (faults : Faults) (target : Target Dir) (bytes : Text) :
    Files Dir × Except Text ℕ :=
  match faults.create with
  | some err => (files, .error err)
  | none =>
    if (files.node (target.tmp faults.nanos)).isNone then
      writeTmp env files faults target (target.tmp faults.nanos) bytes
    else
      match faults.recreate with
      | some err => (files, .error err)
      | none =>
        if (files.node (target.tmp faults.retryNanos)).isNone then
          writeTmp env files faults target (target.tmp faults.retryNanos) bytes
        else (files, .error env.alreadyExists)

def atomicWrite (files : Files Dir) (faults : Faults) (target : Target Dir) (bytes : Text) :
    Files Dir × Except DayseamError ℕ :=
  match faults.restat with
  | some err =>
    (files, .error (notWritable target.path "could not stat target before rename".toList err))
  | none =>
    match files.node target.place with
    | some .symlink =>
      (files, .error (.io SINK_FS_REFUSED_SYMLINK (some target.path.text)
        (target.path.text ++ (" is a symlink; refusing to rename over it " ++
          "(see sink.fs.refused_symlink)").toList)))
    | _ =>
      let (files, result) := atomicWriteImpl env files faults target bytes
      (files, result.mapError (notWritable target.path "atomic write failed".toList))

/-- How the write to a destination ends. -/
inductive Written
  | done (bytes : ℕ)
  | failed (err : DayseamError)
  | panicked
  deriving DecidableEq

/-- `write_one` under the lock. -/
def writeLocked (newBlock : Block) (wantFrontmatter : Bool) (draft : ReportDraft)
    (files : Files Dir) (faults : Faults) (target : Target Dir) : Files Dir × Written :=
  match readTargetIfAny env files faults target with
  | .error err => (files, .failed err)
  | .ok existing =>
    match composeFile env newBlock wantFrontmatter draft existing with
    | none => (files, .panicked)
    | some (.error err) => (files, .failed (malformedMarkerError target.path err))
    | some (.ok finalBytes) =>
      match atomicWrite env files faults target finalBytes with
      | (files, .ok n) => (files, .done n)
      | (files, .error err) => (files, .failed err)

/-- `write_one`; the guard is dropped on every way out, a panic among them. -/
def writeOne (newBlock : Block) (wantFrontmatter : Bool) (draft : ReportDraft)
    (files : Files Dir) (faults : Faults) (target : Target Dir) : Files Dir × Written :=
  match acquire env files faults target with
  | .error err => (files, .failed err)
  | .ok files =>
    let (files, written) := writeLocked env newBlock wantFrontmatter draft files faults target
    (release files faults target, written)

/-! ### The call -/

/-- `default_filename`. -/
def defaultFilename (draft : ReportDraft) : Text :=
  "Dayseam ".toList ++ env.chrono.display draft.date ++ ".md".toList

def targetIn (draft : ReportDraft) (dir : Text) : Target Dir :=
  let path := PathBuf.join ⟨dir⟩ (defaultFilename env draft)
  { dir := env.resolve path, filename := defaultFilename env draft, path := path }

structure SinkCtx where
  runId : Option Uuid
  cancelledAtStart : Bool
  /-- Whether the token is cancelled when a destination's turn comes. -/
  cancelledBefore : ℕ → Bool
  now : ℤ

structure WriteReceipt where
  runId : Option Uuid
  sinkKind : SinkKind
  destinationsWritten : List PathBuf
  externalRefs : List Text
  bytesWritten : ℕ
  writtenAt : ℤ
  deriving DecidableEq, Repr

def writeCancelled : DayseamError := .cancelled RUN_CANCELLED_BY_USER "write cancelled".toList

/-- The variables of the loop, and the destinations that it warns of. -/
structure LoopState (Dir : Type) where
  files : Files Dir
  destinationsWritten : List PathBuf
  bytesWritten : ℕ
  lastErr : Option DayseamError
  warned : List PathBuf

/-- How the loop ends. -/
inductive LoopExit
  | finished
  | cancelled
  | panicked
  deriving DecidableEq, Repr

section

variable (ctx : SinkCtx) (newBlock : Block) (wantFrontmatter : Bool) (draft : ReportDraft)
  (faults : ℕ → Faults)

/-- The loop over the destinations, from the one with this index on. -/
def writeLoop : ℕ → List Text → LoopState Dir → LoopState Dir × LoopExit
  | _, [], s => (s, .finished)
  | idx, dir :: dirs, s =>
    if ctx.cancelledBefore idx then (s, .cancelled)
    else
      let target := targetIn env draft dir
      match writeOne env newBlock wantFrontmatter draft s.files (faults idx) target with
      | (files, .done n) =>
        writeLoop (idx + 1) dirs
          { s with files := files, bytesWritten := s.bytesWritten + n,
                   destinationsWritten := s.destinationsWritten ++ [target.path] }
      | (files, .failed err) =>
        writeLoop (idx + 1) dirs
          { s with files := files, lastErr := some err, warned := s.warned ++ [target.path] }
      | (files, .panicked) => ({ s with files := files }, .panicked)

end

/-- The answer of a call. -/
inductive Answer
  | ok (receipt : WriteReceipt)
  | err (e : DayseamError)
  | panicked
  deriving DecidableEq

/-- What a call leaves behind: the files, the destinations it warned of, and its answer. -/
structure Outcome (Dir : Type) where
  files : Files Dir
  warned : List PathBuf
  answer : Answer

/-- `MarkdownFileSink::write`. -/
def write (ctx : SinkCtx) (cfg : SinkConfig) (draft : ReportDraft) (faults : ℕ → Faults)
    (files : Files Dir) : Outcome Dir :=
  match cfg with
  | .markdownFile _ destDirs wantFrontmatter =>
    if ctx.cancelledAtStart then ⟨files, [], .err writeCancelled⟩
    else
      let newBlock := buildBlock env.num ctx.runId draft
      match writeLoop env ctx newBlock wantFrontmatter draft faults 0 destDirs
          ⟨files, [], 0, none, []⟩ with
      | (s, .cancelled) => ⟨s.files, s.warned, .err writeCancelled⟩
      | (s, .panicked) => ⟨s.files, s.warned, .panicked⟩
      | (s, .finished) =>
        if s.destinationsWritten.isEmpty then
          ⟨s.files, s.warned, .err (s.lastErr.getD
            (.internal SINK_FS_NOT_WRITABLE "no destinations were writable".toList))⟩
        else
          ⟨s.files, s.warned, .ok
            { runId := ctx.runId, sinkKind := .markdownFile,
              destinationsWritten := s.destinationsWritten, externalRefs := [],
              bytesWritten := s.bytesWritten, writtenAt := ctx.now }⟩

end MarkdownFile
end Dayseam
