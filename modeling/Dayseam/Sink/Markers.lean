import Dayseam.Core.Types
import Mathlib

/-!
# Marker-block parser and splicer

The markdown sink keeps one block per day in a file that the user also edits.
A block stands between a begin and an end marker line; everything else is the
user's prose.  This module is the parser, the splicer and the renderer of that
format, as the sink runs them.

## Main definitions

* `FenceSentinel` — an open code fence; marker lines inside it are inert.
* `parseBeginAttrs` — the attributes of a begin marker line.
* `parse`, `splice`, `render` — reading a file, setting one day, writing it back.
-/

namespace Dayseam
namespace Markers

/-! ### The marker lines -/

def beginPrefix : Text := "<!-- dayseam:begin ".toList
def beginSuffix : Text := " -->".toList
def endMarker : Text := "<!-- dayseam:end -->".toList

/-- The terminator observed on a block's begin line. -/
inductive LineEnding
  | lf
  | crLf
  deriving DecidableEq, Repr

def LineEnding.observe (rawLine : Text) : LineEnding :=
  if ['\r', '\n'].isSuffixOf rawLine then .crLf else .lf

/-- What `push_into` writes. -/
def LineEnding.text : LineEnding → Text
  | .lf => ['\n']
  | .crLf => ['\r', '\n']

def LineEnding.isCrlf : LineEnding → Bool
  | .lf => false
  | .crLf => true

structure MarkerAttrs where
  date : NaiveDate
  runId : Text
  template : Text
  version : Text
  deriving DecidableEq, Repr

structure Block where
  attrs : MarkerAttrs
  body : Text
  lineEnding : LineEnding
  deriving DecidableEq, Repr

inductive Segment
  | prose (p : Text)
  | block (b : Block)
  deriving DecidableEq, Repr

structure ParsedDoc where
  segments : List Segment
  deriving DecidableEq, Repr

inductive MarkerError
  | nestedBegin (line : ℕ)
  | unclosedBegin (line : ℕ)
  | danglingEnd (line : ℕ)
  | malformedBegin (line : ℕ) (detail : Text)
  deriving DecidableEq, Repr

def MarkerError.describe : MarkerError → Text
  | .nestedBegin line => "nested dayseam:begin at line ".toList ++ Nat.toDigits 10 line ++
      " (another block is still open)".toList
  | .unclosedBegin line => "unclosed dayseam:begin starting at line ".toList ++
      Nat.toDigits 10 line
  | .danglingEnd line => "dangling dayseam:end at line ".toList ++ Nat.toDigits 10 line ++
      " (no matching begin)".toList
  | .malformedBegin line detail => "malformed dayseam:begin at line ".toList ++
      Nat.toDigits 10 line ++ ": ".toList ++ detail

def isBeginMarker (trimmed : Text) : Bool :=
  beginPrefix.isPrefixOf trimmed && beginSuffix.isSuffixOf trimmed

def isEndMarker (trimmed : Text) : Bool := trimmed == endMarker

/-! ### Code fences -/

/-- The run of delimiters that opened a code fence. -/
structure FenceSentinel where
  delim : Char
  len : ℕ
  deriving DecidableEq, Repr

def FenceSentinel.detectOpen (trimmed : Text) : Option FenceSentinel :=
  ['`', '~'].findSome? fun delim =>
    let count := (trimmed.takeWhile (· == delim)).length
    if 3 ≤ count then some ⟨delim, count⟩ else none

def FenceSentinel.lineCloses (f : FenceSentinel) (trimmed : Text) : Bool :=
  if trimmed.isEmpty then false
  else
    let count := (trimmed.takeWhile (· == f.delim)).length
    decide (f.len ≤ count) && trimmed.byteLen == count

/-! ### Attributes of a begin marker -/

/-- Debug formatting of a string, with its quotes and escapes. -/
abbrev DebugText := Text → Text

/-- The loop of `iter_attrs`: each round consumes at least one character, so a
fuel of the length of `rest` is enough (`iterAttrsLoop_eq`). -/
def iterAttrsLoop (debug : DebugText) : ℕ → Text → Except Text (List (Text × Text))
  | 0, _ => .ok []
  | fuel + 1, rest =>
    if rest.isEmpty then .ok []
    else match rest.splitFirst '=' with
      | none => .error ("expected 'key=\"value\"' near: ".toList ++ debug rest)
      | some (beforeEq, afterEq) =>
        let key := beforeEq.trim
        if key.isEmpty || key.any Text.isWhitespace then
          .error ("malformed attribute key near: ".toList ++ debug rest)
        else match afterEq.trimStart with
          | '"' :: afterQuote =>
            match Text.splitFirst '"' afterQuote with
            | none => .error ("unterminated quoted value for `".toList ++ key ++ "`".toList)
            | some (value, tail) => do
              let out ← iterAttrsLoop debug fuel tail.trimStart
              .ok ((key, value) :: out)
          | other => .error ("value for `".toList ++ key ++
              "` must be double-quoted (got: ".toList ++ debug other ++ ")".toList)

def iterAttrs (debug : DebugText) (s : Text) : Except Text (List (Text × Text)) :=
  iterAttrsLoop debug (s.trim.length + 1) s.trim

/-- The attributes seen so far. -/
structure AttrSlots where
  date : Option NaiveDate
  runId : Option Text
  template : Option Text
  version : Option Text
  deriving DecidableEq, Repr

def AttrSlots.empty : AttrSlots := ⟨none, none, none, none⟩

/-- One attribute; unknown keys are ignored, a repeated key takes the last value. -/
def AttrSlots.set (chrono : Chrono) (lineNo : ℕ) (s : AttrSlots) (attr : Text × Text) :
    Except MarkerError AttrSlots :=
  if attr.1 = "date".toList then
    match chrono.parseFromStr attr.2 with
    | .ok d => .ok { s with date := some d }
    | .error e => .error (.malformedBegin lineNo ("date=\"".toList ++ attr.2 ++
        "\" is not YYYY-MM-DD (".toList ++ e ++ ")".toList))
  else if attr.1 = "run_id".toList then .ok { s with runId := some attr.2 }
  else if attr.1 = "template".toList then .ok { s with template := some attr.2 }
  else if attr.1 = "version".toList then .ok { s with version := some attr.2 }
  else .ok s

def AttrSlots.require {α : Type} (lineNo : ℕ) (name : Text) : Option α → Except MarkerError α
  | some a => .ok a
  | none => .error (.malformedBegin lineNo
      ("missing required attribute `".toList ++ name ++ "`".toList))

def AttrSlots.finish (lineNo : ℕ) (s : AttrSlots) : Except MarkerError MarkerAttrs := do
  let date ← AttrSlots.require lineNo "date".toList s.date
  let runId ← AttrSlots.require lineNo "run_id".toList s.runId
  let template ← AttrSlots.require lineNo "template".toList s.template
  let version ← AttrSlots.require lineNo "version".toList s.version
  .ok ⟨date, runId, template, version⟩

/-- The attribute region of a begin marker.  The two delimiters may not overlap,
which `isBeginMarker` does not rule out. -/
def stripMarker (trimmed : Text) : Option Text :=
  (beginPrefix.isPrefixOf? trimmed).bind fun s => beginSuffix.isSuffixOf? s

def parseBeginAttrs (chrono : Chrono) (debug : DebugText) (trimmed : Text) (lineNo : ℕ) :
    Except MarkerError MarkerAttrs :=
  match stripMarker trimmed with
  | none => .error (.malformedBegin lineNo
      "does not match '<!-- dayseam:begin … -->'".toList)
  | some inner =>
    match iterAttrs debug inner.trim with
    | .error detail => .error (.malformedBegin lineNo detail)
    | .ok pairs => do
      let slots ← pairs.foldlM (AttrSlots.set chrono lineNo) AttrSlots.empty
      slots.finish lineNo

/-! ### The line scanner -/

/-- A block whose end marker has not been seen. -/
structure OpenBlock where
  attrs : MarkerAttrs
  body : Text
  startLine : ℕ
  lineEnding : LineEnding
  deriving DecidableEq, Repr

/-- The scanner's state between two lines. -/
structure Scan where
  segments : List Segment
  proseBuf : Text
  opened : Option OpenBlock
  fence : Option FenceSentinel
  deriving DecidableEq, Repr

def Scan.init : Scan := ⟨[], [], none, none⟩

/-- Appends a line to the open block's body, or to the prose. -/
def Scan.push (s : Scan) (line : Text) : Scan :=
  match s.opened with
  | some o => { s with opened := some { o with body := o.body ++ line } }
  | none => { s with proseBuf := s.proseBuf ++ line }

/-- The segments with the pending prose. -/
def Scan.flushed (s : Scan) : List Segment :=
  if s.proseBuf.isEmpty then s.segments else s.segments ++ [.prose s.proseBuf]

/-- The form of a line that the scanner looks at. -/
def trimmedLine (line : Text) : Text :=
  (line.trimEndMatches fun c => c == '\r' || c == '\n').trim

def scanLine (chrono : Chrono) (debug : DebugText) (s : Scan) (lineNo : ℕ) (line : Text) :
    Except MarkerError Scan :=
  let trimmed := trimmedLine line
  match s.fence with
  | some active =>
    -- inside a fence only its closing line matters
    .ok { s.push line with fence := if active.lineCloses trimmed then none else some active }
  | none =>
    match FenceSentinel.detectOpen trimmed with
    | some opened => .ok { s.push line with fence := some opened }
    | none =>
      match s.opened with
      | some o =>
        if isEndMarker trimmed then
          .ok { s with
            segments := s.segments ++ [.block ⟨o.attrs, o.body, o.lineEnding⟩]
            opened := none }
        else if isBeginMarker trimmed then .error (.nestedBegin lineNo)
        else .ok (s.push line)
      | none =>
        if isEndMarker trimmed then .error (.danglingEnd lineNo)
        else if isBeginMarker trimmed then do
          let attrs ← parseBeginAttrs chrono debug trimmed lineNo
          .ok { s with
            segments := s.flushed
            proseBuf := []
            opened := some ⟨attrs, [], lineNo, LineEnding.observe line⟩ }
        else .ok (s.push line)

/-- The scanner over the lines of a file; `lineNo` numbers the first of them. -/
def scanLines (chrono : Chrono) (debug : DebugText) :
    ℕ → Scan → List Text → Except MarkerError Scan
  | _, s, [] => .ok s
  | lineNo, s, line :: lines => do
    let s ← scanLine chrono debug s lineNo line
    scanLines chrono debug (lineNo + 1) s lines

/-- `split_lines_preserving_newlines`: `Text.splitLines_eq_next` is its iterator's
step. -/
def splitLinesPreservingNewlines (text : Text) : List Text := text.splitLines

def parse (chrono : Chrono) (debug : DebugText) (text : Text) : Except MarkerError ParsedDoc := do
  let s ← scanLines chrono debug 1 Scan.init (splitLinesPreservingNewlines text)
  match s.opened with
  | some o => .error (.unclosedBegin o.startLine)
  | none => .ok ⟨s.flushed⟩

/-! ### Splicing and rendering -/

/-- The replacement loop of `splice`: the first block of the date gives way, and
its line ending is kept. -/
def replaceBlock (newBlock : Block) : List Segment → Option (List Segment)
  | [] => none
  | .prose p :: rest => (replaceBlock newBlock rest).map (.prose p :: ·)
  | .block existing :: rest =>
    if existing.attrs.date = newBlock.attrs.date then
      some (.block { newBlock with lineEnding := existing.lineEnding } :: rest)
    else (replaceBlock newBlock rest).map (.block existing :: ·)

/-- A newline for a text that does not end in one. -/
def withNewline (p : Text) : Text := if ['\n'].isSuffixOf p then p else p ++ ['\n']

def ensureTrailingNewline : List Segment → List Segment
  | [] => []
  | [.prose p] => [.prose (withNewline p)]
  | s :: rest => s :: ensureTrailingNewline rest

def splice (doc : ParsedDoc) (newBlock : Block) : ParsedDoc × Bool :=
  match replaceBlock newBlock doc.segments with
  | some segments => (⟨segments⟩, true)
  | none => (⟨ensureTrailingNewline doc.segments ++ [.block newBlock]⟩, false)

def endsWithCompatibleNewline (body : Text) (le : LineEnding) : Bool :=
  if le.isCrlf then ['\r', '\n'].isSuffixOf body else ['\n'].isSuffixOf body

/-- The begin marker line without its terminator. -/
def beginLine (chrono : Chrono) (a : MarkerAttrs) : Text :=
  beginPrefix ++ "date=\"".toList ++ chrono.display a.date ++ "\"".toList ++
    " run_id=\"".toList ++ a.runId ++ "\"".toList ++
    " template=\"".toList ++ a.template ++ "\"".toList ++
    " version=\"".toList ++ a.version ++ "\"".toList ++ beginSuffix

def renderBlock (chrono : Chrono) (b : Block) : Text :=
  beginLine chrono b.attrs ++ b.lineEnding.text ++ b.body ++
    (if !b.body.isEmpty && !endsWithCompatibleNewline b.body b.lineEnding then b.lineEnding.text
      else []) ++
    endMarker ++ b.lineEnding.text

def renderSegment (chrono : Chrono) : Segment → Text
  | .prose p => p
  | .block b => renderBlock chrono b

def render (chrono : Chrono) (doc : ParsedDoc) : Text :=
  (doc.segments.map (renderSegment chrono)).flatten

end Markers
end Dayseam
