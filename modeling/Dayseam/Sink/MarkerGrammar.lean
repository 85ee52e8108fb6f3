import Dayseam.Sink.Markers
import Mathlib

/-!
# The grammar of the marker format

The scanner decides a line by the open fence and the open block.  The fence
depends on the lines alone, so the lines of a file can be classified first, and
the accepted files are the sequences of spans: runs of text, and blocks of a
begin line, a run of text that leaves no fence open, and an end line.

## Main definitions

* `lineKind`, `fenceStep` — what a line is, and what it does to the fence.
* `Span`, `WellFormed` — the spans of an accepted file.

## Main results

* `parse_of_wellFormed` — well-formed spans are parsed to their segments.
* `exists_spans_of_parse` — every accepted text is cut into well-formed spans.
-/

namespace Dayseam
namespace Markers

variable {chrono : Chrono} {debug : DebugText}

/-! ### Kinds of lines -/

inductive LineKind
  | text
  | beginMark
  | endMark
  deriving DecidableEq, Repr

/-- What the scanner takes a line for when `fence` is open. -/
def lineKind (fence : Option FenceSentinel) (line : Text) : LineKind :=
  match fence with
  | some _ => .text
  | none =>
    if (FenceSentinel.detectOpen (trimmedLine line)).isSome then .text
    else if isEndMarker (trimmedLine line) then .endMark
    else if isBeginMarker (trimmedLine line) then .beginMark
    else .text

/-- The fence that is open after a line. -/
def fenceStep (fence : Option FenceSentinel) (line : Text) : Option FenceSentinel :=
  match fence with
  | some active => if active.lineCloses (trimmedLine line) then none else some active
  | none => FenceSentinel.detectOpen (trimmedLine line)

/-- The fence that is open after some lines. -/
def fenceAfter (fence : Option FenceSentinel) (lines : List Text) : Option FenceSentinel :=
  lines.foldl fenceStep fence

/-- No line of the run is a marker. -/
def AllText : Option FenceSentinel → List Text → Prop
  | _, [] => True
  | fence, line :: lines => lineKind fence line = .text ∧ AllText (fenceStep fence line) lines

@[simp] theorem lineKind_some (f : FenceSentinel) (line : Text) :
    lineKind (some f) line = .text := rfl

@[simp] theorem fenceAfter_nil (fence : Option FenceSentinel) : fenceAfter fence [] = fence := rfl

@[simp] theorem fenceAfter_cons (fence : Option FenceSentinel) (l : Text) (ls : List Text) :
    fenceAfter fence (l :: ls) = fenceAfter (fenceStep fence l) ls := rfl

@[simp] theorem fenceAfter_append (fence : Option FenceSentinel) (as bs : List Text) :
    fenceAfter fence (as ++ bs) = fenceAfter (fenceAfter fence as) bs :=
  List.foldl_append

theorem allText_append {fence : Option FenceSentinel} {as bs : List Text} :
    AllText fence (as ++ bs) ↔ AllText fence as ∧ AllText (fenceAfter fence as) bs := by
  induction as generalizing fence with
  | nil => simp [AllText]
  | cons l as ih => simp [AllText, ih, and_assoc]

theorem AllText.concat {fence : Option FenceSentinel} {ls : List Text} {l : Text}
    (h : AllText fence ls) (hl : lineKind (fenceAfter fence ls) l = .text) :
    AllText fence (ls ++ [l]) :=
  allText_append.mpr ⟨h, hl, trivial⟩

/-- A marker line stands outside every fence, and opens none. -/
theorem fence_of_lineKind {fence : Option FenceSentinel} {line : Text}
    (h : lineKind fence line ≠ .text) :
    fence = none ∧ FenceSentinel.detectOpen (trimmedLine line) = none := by
  cases fence with
  | some f => exact absurd rfl h
  | none =>
    refine ⟨rfl, ?_⟩
    cases hd : FenceSentinel.detectOpen (trimmedLine line) with
    | none => rfl
    | some f => exact absurd (by simp [lineKind, hd]) h

theorem isEndMarker_of_lineKind {fence : Option FenceSentinel} {line : Text}
    (h : lineKind fence line = .endMark) : isEndMarker (trimmedLine line) = true := by
  have hne : lineKind fence line ≠ .text := by simp [h]
  obtain ⟨rfl, hd⟩ := fence_of_lineKind hne
  by_contra hn
  simp only [lineKind, hd, Option.isSome_none, Bool.false_eq_true, if_false] at h
  rw [if_neg hn] at h
  split at h <;> cases h

theorem isBeginMarker_of_lineKind {fence : Option FenceSentinel} {line : Text}
    (h : lineKind fence line = .beginMark) :
    isEndMarker (trimmedLine line) = false ∧ isBeginMarker (trimmedLine line) = true := by
  have hne : lineKind fence line ≠ .text := by simp [h]
  obtain ⟨rfl, hd⟩ := fence_of_lineKind hne
  simp only [lineKind, hd, Option.isSome_none, Bool.false_eq_true, if_false] at h
  split at h
  · cases h
  · next he =>
    split at h
    · next hb => exact ⟨by simpa using he, hb⟩
    · cases h

/-! ### One line of the scanner -/

/-- A text line joins the open body or the prose. -/
theorem scanLine_text {s : Scan} {line : Text} (h : lineKind s.fence line = .text) (n : ℕ) :
    scanLine chrono debug s n line =
      .ok { s.push line with fence := fenceStep s.fence line } := by
  unfold scanLine
  cases hf : s.fence with
  | some f => rfl
  | none =>
    cases hd : FenceSentinel.detectOpen (trimmedLine line) with
    | some f => simp [fenceStep, hd]
    | none =>
      rw [hf] at h
      have hpush : { s.push line with fence := none } = s.push line := by
        unfold Scan.push
        split <;> simp [hf]
      simp only [lineKind, hd, Option.isSome_none, Bool.false_eq_true, if_false] at h
      split at h
      · cases h
      · next he =>
        split at h
        · cases h
        · next hb =>
          simp only [fenceStep, hd, hpush]
          cases s.opened <;> simp [he, hb]

/-- An end marker closes the open block. -/
theorem scanLine_end {s : Scan} {line : Text} (h : lineKind s.fence line = .endMark) (n : ℕ) :
    scanLine chrono debug s n line = match s.opened with
      | some o => .ok { s with
          segments := s.segments ++ [.block ⟨o.attrs, o.body, o.lineEnding⟩], opened := none }
      | none => .error (.danglingEnd n) := by
  have hne : lineKind s.fence line ≠ .text := by simp [h]
  obtain ⟨hf, hd⟩ := fence_of_lineKind hne
  have he := isEndMarker_of_lineKind h
  unfold scanLine
  cases s.opened <;> simp only [hf, hd, he, if_true]

/-- A begin marker flushes the prose and opens a block. -/
theorem scanLine_begin {s : Scan} {line : Text} (h : lineKind s.fence line = .beginMark) (n : ℕ) :
    scanLine chrono debug s n line = match s.opened with
      | some _ => .error (.nestedBegin n)
      | none => (parseBeginAttrs chrono debug (trimmedLine line) n).bind fun attrs =>
          .ok { s with
            segments := s.flushed, proseBuf := [],
            opened := some ⟨attrs, [], n, LineEnding.observe line⟩ } := by
  have hne : lineKind s.fence line ≠ .text := by simp [h]
  obtain ⟨hf, hd⟩ := fence_of_lineKind hne
  obtain ⟨he, hb⟩ := isBeginMarker_of_lineKind h
  unfold scanLine
  simp only [hf, hd, he, hb, if_true, Bool.false_eq_true, if_false]
  cases s.opened <;> rfl

/-! ### Line numbers

The number of a line is only used in errors. -/

theorem set_lineNo {n : ℕ} (m : ℕ) {s s' : AttrSlots} {attr : Text × Text}
    (h : AttrSlots.set chrono n s attr = .ok s') : AttrSlots.set chrono m s attr = .ok s' := by
  unfold AttrSlots.set at h ⊢
  by_cases hk : attr.1 = "date".toList
  · rw [if_pos hk] at h ⊢
    cases hp : chrono.parseFromStr attr.2 with
    | ok d => rw [hp] at h; exact h
    | error e => rw [hp] at h; cases h
  · rw [if_neg hk] at h ⊢
    exact h

theorem foldlM_set_lineNo {n : ℕ} (m : ℕ) {pairs : List (Text × Text)} {s s' : AttrSlots}
    (h : pairs.foldlM (AttrSlots.set chrono n) s = .ok s') :
    pairs.foldlM (AttrSlots.set chrono m) s = .ok s' := by
  induction pairs generalizing s with
  | nil => exact h
  | cons kv pairs ih =>
    rw [List.foldlM_cons] at h ⊢
    cases h1 : AttrSlots.set chrono n s kv with
    | error e => rw [h1] at h; cases h
    | ok s1 =>
      rw [h1] at h
      rw [set_lineNo m h1]
      exact ih h

theorem require_lineNo {α : Type} {n : ℕ} (m : ℕ) {name : Text} {o : Option α} {a : α}
    (h : AttrSlots.require n name o = .ok a) : AttrSlots.require m name o = .ok a := by
  cases o with
  | none => cases h
  | some b => exact h

/-- The four attributes that `finish` found. -/
theorem finish_eq_ok_iff {n : ℕ} {s : AttrSlots} {a : MarkerAttrs} :
    s.finish n = .ok a ↔
      s = ⟨some a.date, some a.runId, some a.template, some a.version⟩ := by
  obtain ⟨date, runId, template, version⟩ := s
  constructor
  · intro h
    cases date <;> cases runId <;> cases template <;> cases version <;>
      simp [AttrSlots.finish, AttrSlots.require, bind, Except.bind] at h ⊢
    subst h
    simp
  · intro h
    obtain ⟨rfl, rfl, rfl, rfl⟩ := AttrSlots.mk.inj h
    rfl

theorem parseBeginAttrs_lineNo {n : ℕ} (m : ℕ) {trimmed : Text} {a : MarkerAttrs}
    (h : parseBeginAttrs chrono debug trimmed n = .ok a) :
    parseBeginAttrs chrono debug trimmed m = .ok a := by
  unfold parseBeginAttrs at h ⊢
  cases hs : stripMarker trimmed with
  | none => rw [hs] at h; cases h
  | some inner =>
    rw [hs] at h
    simp only at h ⊢
    cases hi : iterAttrs debug inner.trim with
    | error e => rw [hi] at h; cases h
    | ok pairs =>
      rw [hi] at h
      simp only at h ⊢
      cases hp : pairs.foldlM (AttrSlots.set chrono n) AttrSlots.empty with
      | error e => rw [hp] at h; cases h
      | ok slots =>
        rw [hp] at h
        rw [foldlM_set_lineNo m hp]
        exact finish_eq_ok_iff.mpr (finish_eq_ok_iff.mp h)

/-! ### Spans -/

/-- The lines of a block, with the attributes of its begin line. -/
structure BlockLines where
  attrs : MarkerAttrs
  opening : Text
  body : List Text
  closing : Text

/-- The lines are those of one block. -/
structure BlockLines.Valid (chrono : Chrono) (debug : DebugText) (b : BlockLines) : Prop where
  opens : lineKind none b.opening = .beginMark
  attrs_eq : ∀ n, parseBeginAttrs chrono debug (trimmedLine b.opening) n = .ok b.attrs
  body_text : AllText none b.body
  body_closed : fenceAfter none b.body = none
  closes : lineKind none b.closing = .endMark

def BlockLines.block (b : BlockLines) : Block :=
  ⟨b.attrs, b.body.flatten, LineEnding.observe b.opening⟩

inductive Span
  | prose (lines : List Text)
  | block (b : BlockLines)

def Span.lines : Span → List Text
  | .prose ls => ls
  | .block b => b.opening :: (b.body ++ [b.closing])

def Span.segment : Span → Segment
  | .prose ls => .prose ls.flatten
  | .block b => .block b.block

/-- The lines of some spans. -/
def linesOf (spans : List Span) : List Text := spans.flatMap Span.lines

@[simp] theorem linesOf_nil : linesOf [] = [] := rfl

@[simp] theorem linesOf_cons (s : Span) (rest : List Span) :
    linesOf (s :: rest) = s.lines ++ linesOf rest := rfl

/-- Runs of text and blocks: two runs are never adjacent, and a run that is
followed by a block leaves no fence open. -/
inductive WellFormed (chrono : Chrono) (debug : DebugText) : List Span → Prop
  | nil : WellFormed chrono debug []
  | prose {ls : List Text} : ls ≠ [] → AllText none ls → WellFormed chrono debug [.prose ls]
  | proseBlock {ls : List Text} {b : BlockLines} {rest : List Span} :
      ls ≠ [] → AllText none ls → fenceAfter none ls = none →
      WellFormed chrono debug (.block b :: rest) →
      WellFormed chrono debug (.prose ls :: .block b :: rest)
  | block {b : BlockLines} {rest : List Span} :
      b.Valid chrono debug → WellFormed chrono debug rest →
      WellFormed chrono debug (.block b :: rest)

/-! ### Well-formed spans are parsed -/

/-- A run of text outside a block becomes prose. -/
theorem scanLines_prose {fence : Option FenceSentinel} {ls : List Text}
    (h : AllText fence ls) (n : ℕ) (segs : List Segment) (p : Text) (rest : List Text) :
    scanLines chrono debug n ⟨segs, p, none, fence⟩ (ls ++ rest) =
      scanLines chrono debug (n + ls.length) ⟨segs, p ++ ls.flatten, none, fenceAfter fence ls⟩
        rest := by
  induction ls generalizing fence n p with
  | nil => simp
  | cons l ls ih =>
    rw [List.cons_append, scanLines, scanLine_text (by exact h.1)]
    simp only [Scan.push, bind, Except.bind]
    rw [ih h.2]
    simp [Nat.add_assoc, Nat.add_comm 1, List.append_assoc]

/-- A run of text inside a block becomes body. -/
theorem scanLines_body {fence : Option FenceSentinel} {ls : List Text}
    (h : AllText fence ls) (n : ℕ) (segs : List Segment) (p : Text) (o : OpenBlock)
    (rest : List Text) :
    scanLines chrono debug n ⟨segs, p, some o, fence⟩ (ls ++ rest) =
      scanLines chrono debug (n + ls.length)
        ⟨segs, p, some { o with body := o.body ++ ls.flatten }, fenceAfter fence ls⟩ rest := by
  induction ls generalizing fence n o with
  | nil => simp
  | cons l ls ih =>
    rw [List.cons_append, scanLines, scanLine_text (by exact h.1)]
    simp only [Scan.push, bind, Except.bind]
    rw [ih h.2]
    simp [Nat.add_assoc, Nat.add_comm 1, List.append_assoc]

/-- The lines of a block become its segment. -/
theorem scanLines_block {b : BlockLines} (h : b.Valid chrono debug) (n : ℕ)
    (segs : List Segment) (p : Text) (rest : List Text) :
    ∃ m, scanLines chrono debug n ⟨segs, p, none, none⟩ ((Span.block b).lines ++ rest) =
      scanLines chrono debug m
        ⟨(Scan.flushed ⟨segs, p, none, none⟩) ++ [.block b.block], [], none, none⟩ rest := by
  refine ⟨n + 1 + b.body.length + 1, ?_⟩
  have hopen := @scanLine_begin chrono debug ⟨segs, p, none, none⟩ _ h.opens n
  simp only [h.attrs_eq n, Except.bind] at hopen
  simp only [Span.lines, List.cons_append, List.append_assoc, List.nil_append]
  rw [scanLines, hopen]
  simp only [bind, Except.bind]
  rw [scanLines_body h.body_text, h.body_closed, scanLines, scanLine_end h.closes]
  rfl

theorem flushed_of_lines {ls : List Text} (h0 : ls ≠ []) (hne : ∀ l ∈ ls, l ≠ [])
    (segs : List Segment) (opened : Option OpenBlock) (fence : Option FenceSentinel) :
    Scan.flushed ⟨segs, ls.flatten, opened, fence⟩ = segs ++ [.prose ls.flatten] := by
  have h : ls.flatten ≠ [] := by
    obtain ⟨l, ls, rfl⟩ := List.exists_cons_of_ne_nil h0
    simp [hne l (by simp)]
  simp [Scan.flushed, h]

/-- The scanner over well-formed spans.  A run of text stays pending until the
begin marker after it, so the prose `p` before a block is part of the statement. -/
theorem scanLines_of_wellFormed {spans : List Span} (h : WellFormed chrono debug spans) (n : ℕ)
    (segs : List Segment) (p : Text) (hp : p = [] ∨ ∀ ls rest, spans ≠ .prose ls :: rest)
    (hne : ∀ l ∈ linesOf spans, l ≠ []) :
    ∃ s, scanLines chrono debug n ⟨segs, p, none, none⟩ (linesOf spans) = .ok s ∧
      s.opened = none ∧
      s.flushed = Scan.flushed ⟨segs, p, none, none⟩ ++ spans.map Span.segment := by
  induction h generalizing n segs p with
  | nil => exact ⟨_, rfl, rfl, by simp⟩
  | @prose ls h0 ht =>
    obtain rfl : p = [] := hp.resolve_right fun h => h ls [] rfl
    have hscan := @scanLines_prose chrono debug _ _ ht n segs [] []
    simp only [linesOf_cons, linesOf_nil, List.append_nil, Span.lines, List.nil_append]
      at hscan hne ⊢
    refine ⟨_, hscan, rfl, ?_⟩
    rw [flushed_of_lines h0 hne]
    simp [Scan.flushed, Span.segment]
  | @proseBlock ls b rest h0 ht hf hb ih =>
    obtain rfl : p = [] := hp.resolve_right fun h => h ls _ rfl
    have hls : ∀ l ∈ ls, l ≠ [] := fun l hl => hne l (by simp [Span.lines, hl])
    obtain ⟨s, hs, ho, hfl⟩ := ih (n + ls.length) segs ls.flatten (Or.inr (by simp))
      (fun l hl => hne l (by rw [linesOf_cons]; exact List.mem_append_right _ hl))
    refine ⟨s, ?_, ho, ?_⟩
    · rw [linesOf_cons, Span.lines, scanLines_prose ht, hf]
      exact hs
    · rw [hfl, flushed_of_lines h0 hls]
      simp [Scan.flushed, Span.segment]
  | @block b rest hv hr ih =>
    obtain ⟨m, hm⟩ := scanLines_block hv n segs p (linesOf rest)
    obtain ⟨s, hs, ho, hfl⟩ := ih m (Scan.flushed ⟨segs, p, none, none⟩ ++ [.block b.block]) []
      (Or.inl rfl) (fun l hl => hne l (by rw [linesOf_cons]; exact List.mem_append_right _ hl))
    refine ⟨s, ?_, ho, ?_⟩
    · rw [linesOf_cons, hm]; exact hs
    · rw [hfl]; simp [Scan.flushed, Span.segment]

/-- **Well-formed spans are parsed to their segments.** -/
theorem parse_of_wellFormed {spans : List Span} (h : WellFormed chrono debug spans) {text : Text}
    (hl : text.splitLines = linesOf spans) :
    parse chrono debug text = .ok ⟨spans.map Span.segment⟩ := by
  have hne : ∀ l ∈ linesOf spans, l ≠ [] := hl ▸ (Text.isLines_splitLines text).ne_nil
  obtain ⟨s, hs, ho, hfl⟩ := scanLines_of_wellFormed h 1 [] [] (Or.inl rfl) hne
  simp only [parse, splitLinesPreservingNewlines, hl, Scan.init, hs, bind, Except.bind, ho, hfl]
  rfl

/-! ### Accepted texts are well-formed -/

/-- What the scanner has read since the last segment it finished: a run of text,
or the begin line of a block and a run of text. -/
inductive Pending (chrono : Chrono) (debug : DebugText) : Scan → List Text → Prop
  | prose {segs : List Segment} {ls : List Text} : AllText none ls →
      Pending chrono debug ⟨segs, ls.flatten, none, fenceAfter none ls⟩ ls
  | block {segs : List Segment} {a : MarkerAttrs} {n : ℕ} {line : Text} {ls : List Text} :
      lineKind none line = .beginMark →
      (∀ m, parseBeginAttrs chrono debug (trimmedLine line) m = .ok a) → AllText none ls →
      Pending chrono debug
        ⟨segs, [], some ⟨a, ls.flatten, n, LineEnding.observe line⟩, fenceAfter none ls⟩
        (line :: ls)

/-- Spans that can follow a run of text. -/
def StartsWithBlock (spans : List Span) : Prop := ∃ b rest, spans = .block b :: rest

theorem WellFormed.cons_prose {ls : List Text} {spans : List Span}
    (h : WellFormed chrono debug spans) (hs : StartsWithBlock spans) (h0 : ls ≠ [])
    (ht : AllText none ls) (hf : fenceAfter none ls = none) :
    WellFormed chrono debug (.prose ls :: spans) := by
  obtain ⟨b, rest, rfl⟩ := hs
  exact .proseBlock h0 ht hf h

/-- The lines that are pending and the lines to come are cut into well-formed
spans.  The induction is on the lines to come. -/
theorem exists_spans_of_scanLines {lines : List Text} {n : ℕ} {s s' : Scan} {pending : List Text}
    (hp : Pending chrono debug s pending) (hne : ∀ l ∈ pending ++ lines, l ≠ [])
    (h : scanLines chrono debug n s lines = .ok s') (hclosed : s'.opened = none) :
    ∃ spans, WellFormed chrono debug spans ∧ linesOf spans = pending ++ lines ∧
      s'.flushed = s.segments ++ spans.map Span.segment ∧
      (s.opened.isSome → StartsWithBlock spans) := by
  induction lines generalizing n s pending with
  | nil =>
    cases h
    cases hp with
    | @prose segs _ ht =>
      by_cases h0 : pending = []
      · subst h0
        exact ⟨[], .nil, rfl, by simp [Scan.flushed], by simp⟩
      · refine ⟨[.prose pending], .prose h0 ht, by simp [Span.lines], ?_, by simp⟩
        rw [flushed_of_lines h0 (by simpa using hne)]
        rfl
    | block => cases hclosed
  | cons line lines ih =>
    rw [scanLines] at h
    cases hk : lineKind s.fence line with
    | text =>
      rw [scanLine_text hk] at h
      have hne' : ∀ l ∈ pending ++ [line] ++ lines, l ≠ [] := by simpa using hne
      cases hp with
      | @prose segs _ ht =>
        have hp' : Pending chrono debug
            { Scan.push ⟨segs, pending.flatten, none, fenceAfter none pending⟩ line with
              fence := fenceStep (fenceAfter none pending) line } (pending ++ [line]) := by
          have := @Pending.prose chrono debug segs _ (ht.concat hk)
          simpa [Scan.push] using this
        obtain ⟨spans, hw, hl, hfl, -⟩ := ih hp' hne' h
        exact ⟨spans, hw, by simpa using hl, hfl, by simp⟩
      | @block segs a m bline ls hb ha ht =>
        have hp' : Pending chrono debug
            { Scan.push ⟨segs, [], some ⟨a, ls.flatten, m, LineEnding.observe bline⟩,
                fenceAfter none ls⟩ line with
              fence := fenceStep (fenceAfter none ls) line } (bline :: (ls ++ [line])) := by
          have := @Pending.block chrono debug segs a m _ _ hb ha (ht.concat hk)
          simpa [Scan.push] using this
        obtain ⟨spans, hw, hl, hfl, hst⟩ := ih hp' hne' h
        exact ⟨spans, hw, by simpa using hl, hfl, fun _ => hst rfl⟩
    | endMark =>
      rw [scanLine_end hk] at h
      cases hp with
      | prose => cases h
      | @block segs a m bline ls hb ha ht =>
        have hmark : lineKind (fenceAfter none ls) line ≠ .text := by rw [hk]; decide
        obtain ⟨hf, -⟩ := fence_of_lineKind hmark
        simp only [hf] at h hk
        have hp' : Pending chrono debug
            ⟨segs ++ [.block ⟨a, ls.flatten, LineEnding.observe bline⟩], [], none, none⟩ [] :=
          @Pending.prose _ _ _ [] trivial
        obtain ⟨spans, hw, hl, hfl, -⟩ := ih hp' (fun l hl => hne l (by simp_all)) h
        refine ⟨.block ⟨a, bline, ls, line⟩ :: spans, .block ⟨hb, ha, ht, hf, hk⟩ hw, ?_, ?_,
          fun _ => ⟨_, _, rfl⟩⟩
        · simp [Span.lines, hl]
        · rw [hfl]; simp [Span.segment, BlockLines.block]
    | beginMark =>
      rw [scanLine_begin hk] at h
      cases hp with
      | block => cases h
      | @prose segs _ ht =>
        have hmark : lineKind (fenceAfter none pending) line ≠ .text := by rw [hk]; decide
        obtain ⟨hf, -⟩ := fence_of_lineKind hmark
        simp only [hf] at h hk
        cases ha : parseBeginAttrs chrono debug (trimmedLine line) n with
        | error e => rw [ha] at h; cases h
        | ok a =>
          rw [ha] at h
          have hp' : Pending chrono debug
              ⟨Scan.flushed ⟨segs, pending.flatten, none, none⟩, [],
                some ⟨a, [], n, LineEnding.observe line⟩, none⟩ [line] :=
            @Pending.block _ _ _ _ _ _ [] hk (fun m => parseBeginAttrs_lineNo m ha) trivial
          obtain ⟨spans, hw, hl, hfl, hst⟩ := ih hp' (fun l hl => hne l (by simp_all)) h
          by_cases h0 : pending = []
          · subst h0
            exact ⟨spans, hw, by simpa using hl, by simpa [Scan.flushed] using hfl, by simp⟩
          · refine ⟨.prose pending :: spans, hw.cons_prose (hst rfl) h0 ht hf, ?_, ?_, by simp⟩
            · simp [Span.lines, hl]
            · rw [hfl, flushed_of_lines h0 (fun l hl => hne l (by simp [hl]))]
              simp [Span.segment]

/-- **Every accepted text is cut into well-formed spans.** -/
theorem exists_spans_of_parse {text : Text} {doc : ParsedDoc}
    (h : parse chrono debug text = .ok doc) :
    ∃ spans, WellFormed chrono debug spans ∧ text.splitLines = linesOf spans ∧
      doc.segments = spans.map Span.segment := by
  unfold parse splitLinesPreservingNewlines at h
  cases hs : scanLines chrono debug 1 Scan.init text.splitLines with
  | error e => rw [hs] at h; cases h
  | ok s =>
    rw [hs] at h
    simp only [bind, Except.bind] at h
    cases ho : s.opened with
    | some o => rw [ho] at h; cases h
    | none =>
      rw [ho] at h
      cases h
      have hp : Pending chrono debug Scan.init [] := @Pending.prose _ _ _ [] trivial
      obtain ⟨spans, hw, hl, hfl, -⟩ := exists_spans_of_scanLines hp
        (by simpa using (Text.isLines_splitLines text).ne_nil) hs ho
      exact ⟨spans, hw, by simpa using hl.symm, by simpa [Scan.init] using hfl⟩

end Markers
end Dayseam
