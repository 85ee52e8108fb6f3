import Dayseam.Sink.Markdown
import Mathlib

/-!
# Saving a day

A save parses the file, splices in the block of the day and writes the result
back.  When it finds a block of its day, or when the file leaves no code fence
open at its end, the result is a file with one slot for the day: every later
save of that day fills the slot again and changes nothing else.

## Main definitions

* `save`, `saveAll` — one save, and a run of saves.
* `beginCount` — the begin marker lines of a date, fenced ones included.
* `fileWith` — a file with a slot for the day.

## Main results

* `saveAll_fileWith` — a run of saves of one day only fills its slot.
* `save_never_duplicates_iff` — when a save leaves a block that the next save finds.
-/

namespace Dayseam
namespace Markers

variable {chrono : Chrono} {debug : DebugText}

/-- The file after a save. -/
def save (chrono : Chrono) (debug : DebugText) (text : Text) (b : Block) :
    Except MarkerError Text := do
  let doc ← parse chrono debug text
  .ok (render chrono (splice doc b).1)

/-- The file after some saves. -/
def saveAll (chrono : Chrono) (debug : DebugText) (text : Text) (bs : List Block) :
    Except MarkerError Text :=
  bs.foldlM (save chrono debug) text

/-- The line is a begin marker of the date, be it in a fence or not. -/
def isBeginOf (chrono : Chrono) (debug : DebugText) (d : NaiveDate) (line : Text) : Bool :=
  isBeginMarker (trimmedLine line) &&
    match parseBeginAttrs chrono debug (trimmedLine line) 0 with
    | .ok a => a.date = d
    | .error _ => false

def beginCount (chrono : Chrono) (debug : DebugText) (d : NaiveDate) (text : Text) : ℕ :=
  text.splitLines.countP (isBeginOf chrono debug d)

/-- No block of the segments has the date. -/
def NoBlockOf (d : NaiveDate) (segments : List Segment) : Prop :=
  ∀ e, Segment.block e ∈ segments → e.attrs.date ≠ d

/-! ### Finding the block to replace -/

theorem replaceBlock_append {b e : Block} {pre post : List Segment}
    (hpre : NoBlockOf b.attrs.date pre) (he : e.attrs.date = b.attrs.date) :
    replaceBlock b (pre ++ .block e :: post) =
      some (pre ++ .block { b with lineEnding := e.lineEnding } :: post) := by
  induction pre with
  | nil => simp [replaceBlock, he]
  | cons s pre ih =>
    have ih' := ih fun x hx => hpre x (by simp [hx])
    cases s with
    | prose p => simp [replaceBlock, ih']
    | block x =>
      have hx : x.attrs.date ≠ b.attrs.date := hpre x (by simp)
      simp [replaceBlock, hx, ih']

theorem replaceBlock_eq_none {b : Block} {segments : List Segment}
    (h : NoBlockOf b.attrs.date segments) : replaceBlock b segments = none := by
  induction segments with
  | nil => rfl
  | cons s rest ih =>
    have ih' := ih fun x hx => h x (by simp [hx])
    cases s with
    | prose p => simp [replaceBlock, ih']
    | block x =>
      have hx : x.attrs.date ≠ b.attrs.date := h x (by simp)
      simp [replaceBlock, hx, ih']

/-- The first block of the date cuts the segments in two. -/
theorem exists_first_block {d : NaiveDate} {segments : List Segment} {e : Block}
    (he : Segment.block e ∈ segments) (hd : e.attrs.date = d) :
    ∃ pre e' post, segments = pre ++ .block e' :: post ∧ NoBlockOf d pre ∧ e'.attrs.date = d := by
  induction segments with
  | nil => simp at he
  | cons s rest ih =>
    by_cases hs : ∃ x, s = .block x ∧ x.attrs.date = d
    · obtain ⟨x, rfl, hx⟩ := hs
      exact ⟨[], x, rest, rfl, fun y hy => by simp at hy, hx⟩
    · have hrest : Segment.block e ∈ rest := by
        rcases List.mem_cons.mp he with h | h
        · exact absurd ⟨e, h.symm, hd⟩ hs
        · exact h
      obtain ⟨pre, e', post, rfl, hpre, he'⟩ := ih hrest
      refine ⟨s :: pre, e', post, rfl, fun y hy => ?_, he'⟩
      rcases List.mem_cons.mp hy with h | h
      · exact fun hyd => hs ⟨y, h.symm, hyd⟩
      · exact hpre y h

theorem splice_append {b e : Block} {pre post : List Segment}
    (hpre : NoBlockOf b.attrs.date pre) (he : e.attrs.date = b.attrs.date) :
    splice ⟨pre ++ .block e :: post⟩ b =
      (⟨pre ++ .block { b with lineEnding := e.lineEnding } :: post⟩, true) := by
  simp [splice, replaceBlock_append hpre he]

theorem splice_of_noBlock {b : Block} {segments : List Segment}
    (h : NoBlockOf b.attrs.date segments) :
    splice ⟨segments⟩ b = (⟨ensureTrailingNewline segments ++ [.block b]⟩, false) := by
  simp [splice, replaceBlock_eq_none h]

/-! ### Settled segments -/

theorem NoBlockOf.settled {d : NaiveDate} {segments : List Segment} (h : NoBlockOf d segments) :
    NoBlockOf d (segments.map Segment.settled) := by
  intro e he
  obtain ⟨s, hs, hse⟩ := List.mem_map.mp he
  cases s with
  | prose p => cases hse
  | block x =>
    cases hse
    exact h x hs

theorem renderSegment_settled (s : Segment) :
    renderSegment chrono s.settled = renderSegment chrono s := by
  cases s with
  | prose p => rfl
  | block b => exact renderBlock_settled b

theorem map_renderSegment_settled (segments : List Segment) :
    (segments.map Segment.settled).map (renderSegment chrono) =
      segments.map (renderSegment chrono) := by
  rw [List.map_map]
  exact List.map_congr_left fun s _ => renderSegment_settled s

/-! ### Sound blocks in a slot -/

theorem Block.Sound.withLineEnding {b : Block} (h : b.Sound) (le : LineEnding) :
    ({ b with lineEnding := le } : Block).Sound :=
  ⟨h.clean, h.ends, h.text, h.closed⟩

/-- A slot of a sound document takes any sound block. -/
theorem SoundDoc.replace {b e : Block} {pre post : List Segment}
    (h : SoundDoc (pre ++ .block e :: post)) (hb : b.Sound) :
    SoundDoc (pre ++ .block b :: post) := by
  induction pre with
  | nil =>
    cases h with
    | block _ hr => exact .block hb hr
  | cons s pre ih =>
    rcases pre with _ | ⟨s', pre⟩
    · cases h with
      | proseBlock h0 he ht hf hr => exact .proseBlock h0 he ht hf (ih hr)
      | block hs hr => exact .block hs (ih hr)
    · cases h with
      | proseBlock h0 he ht hf hr => exact .proseBlock h0 he ht hf (ih hr)
      | block hs hr => exact .block hs (ih hr)

/-! ### A file with a slot for the day -/

/-- The file whose slot between `pre` and `post` holds `b`. -/
def fileWith (chrono : Chrono) (pre post : List Segment) (le : LineEnding) (b : Block) : Text :=
  render chrono ⟨pre ++ .block { b with lineEnding := le } :: post⟩

/-- The document that is read from a file with a slot. -/
def docWith (pre post : List Segment) (le : LineEnding) (b : Block) : ParsedDoc :=
  ⟨(pre ++ .block { b with lineEnding := le } :: post).map Segment.settled⟩

theorem parse_fileWith {pre post : List Segment} {le : LineEnding} {e b : Block}
    (h : SoundDoc (pre ++ .block e :: post)) (hb : b.Sound) :
    parse chrono debug (fileWith chrono pre post le b) = .ok (docWith pre post le b) :=
  parse_render (h.replace (hb.withLineEnding le))

/-- Splicing a block of the day into the file fills the slot. -/
theorem splice_docWith {pre post : List Segment} {le : LineEnding} {b c : Block}
    (hpre : NoBlockOf c.attrs.date pre) (hd : b.attrs.date = c.attrs.date) :
    (splice (docWith pre post le b) c).2 = true ∧
      render chrono (splice (docWith pre post le b) c).1 = fileWith chrono pre post le c := by
  have hdoc : docWith pre post le b =
      ⟨pre.map Segment.settled ++ .block ({ b with lineEnding := le } : Block).settled ::
        post.map Segment.settled⟩ := by
    simp [docWith, Segment.settled]
  rw [hdoc, splice_append hpre.settled (by exact hd)]
  refine ⟨rfl, ?_⟩
  simp only [render, fileWith, List.map_append, List.map_cons, List.flatten_append,
    List.flatten_cons, map_renderSegment_settled]
  rfl

/-- **A save of the day fills the slot.** -/
theorem save_fileWith {pre post : List Segment} {le : LineEnding} {e b c : Block}
    (h : SoundDoc (pre ++ .block e :: post)) (hb : b.Sound)
    (hpre : NoBlockOf c.attrs.date pre) (hd : b.attrs.date = c.attrs.date) :
    save chrono debug (fileWith chrono pre post le b) c = .ok (fileWith chrono pre post le c) := by
  simp only [save, parse_fileWith h hb, bind, Except.bind]
  rw [(splice_docWith hpre hd).2]

/-- **A run of saves of one day only fills its slot**: the induction is on the run. -/
theorem saveAll_fileWith {pre post : List Segment} {le : LineEnding} {e b : Block} {d : NaiveDate}
    (h : SoundDoc (pre ++ .block e :: post)) (hpre : NoBlockOf d pre) (hb : b.Sound)
    (hd : b.attrs.date = d) {cs : List Block} (hcs : ∀ c ∈ cs, c.Sound ∧ c.attrs.date = d) :
    saveAll chrono debug (fileWith chrono pre post le b) cs =
      .ok (fileWith chrono pre post le (cs.getLastD b)) := by
  induction cs generalizing b with
  | nil => rfl
  | cons c cs ih =>
    obtain ⟨hc, hcd⟩ := hcs c (by simp)
    have hstep : save chrono debug (fileWith chrono pre post le b) c =
        .ok (fileWith chrono pre post le c) :=
      save_fileWith h hb (hcd ▸ hpre) (hd.trans hcd.symm)
    have hrest := ih hc hcd fun x hx => hcs x (by simp [hx])
    simp only [saveAll, List.foldlM_cons, hstep] at hrest ⊢
    rw [List.getLastD_cons]
    exact hrest

/-! ### Counting begin lines -/

theorem isBeginOf_plainLine {l : Text} (h : PlainLine l) (d : NaiveDate) :
    isBeginOf chrono debug d l = false := by
  simp [isBeginOf, trimmedLine_eq_trim, h.not_begin]

theorem plainLine_lineEnding (le : LineEnding) : PlainLine le.text := by
  cases le <;> exact ⟨rfl, rfl, rfl⟩

/-- The lines of a block with a plain body have one begin line, that of its date. -/
theorem countP_rendered {b : Block} (hc : b.attrs.Clean) (hb : PlainText b.body) (d : NaiveDate) :
    (Span.block (b.rendered chrono)).lines.countP (isBeginOf chrono debug d) =
      if b.attrs.date = d then 1 else 0 := by
  have hopen : isBeginOf chrono debug d (b.rendered chrono).opening = decide (b.attrs.date = d) := by
    simp [isBeginOf, Block.rendered, trimmedLine_eq_trim, trim_append_lineEnding, trim_beginLine,
      isBeginMarker_beginLine, parseBeginAttrs_beginLine hc]
  have hbody : (b.rendered chrono).body.countP (isBeginOf chrono debug d) = 0 := by
    rw [List.countP_eq_zero]
    intro l hl
    have hplain : PlainLine l := by
      rcases List.mem_append.mp hl with hl | hl
      · exact hb.lines l hl
      · rcases padding_eq b with hp | hp
        · simp [hp] at hl
        · rw [hp, List.mem_singleton] at hl
          exact hl ▸ plainLine_lineEnding b.lineEnding
    simp [isBeginOf_plainLine hplain]
  have hclose : isBeginOf chrono debug d (b.rendered chrono).closing = false := by
    have hn : isBeginMarker endMarker = false := by
      rw [isBeginMarker, endMarker_eq, beginPrefix_eq]
      rfl
    simp [isBeginOf, Block.rendered, trimmedLine_eq_trim, trim_append_lineEnding, trim_endMarker,
      hn]
  simp only [Span.lines, List.countP_cons, List.countP_append, List.countP_nil, hopen, hbody,
    hclose]
  split <;> simp_all

/-- The count does not depend on what the slot holds. -/
theorem beginCount_fileWith {pre post : List Segment} {le : LineEnding} {e b c : Block}
    {d : NaiveDate} (h : SoundDoc (pre ++ .block e :: post)) (hb : b.attrs.Clean)
    (hbp : PlainText b.body) (hbd : b.attrs.date = d) (hc : c.attrs.Clean)
    (hcp : PlainText c.body) (hcd : c.attrs.date = d) :
    beginCount chrono debug d (fileWith chrono pre post le b) =
      beginCount chrono debug d (fileWith chrono pre post le c) := by
  have hcount : ∀ x : Block, x.attrs.Clean → PlainText x.body → x.attrs.date = d →
      beginCount chrono debug d (fileWith chrono pre post le x) =
        (linesOf (pre.map (Segment.span chrono))).countP (isBeginOf chrono debug d) + 1 +
          (linesOf (post.map (Segment.span chrono))).countP (isBeginOf chrono debug d) := by
    intro x hx hxp hxd
    have hs : SoundDoc (pre ++ .block { x with lineEnding := le } :: post) :=
      h.replace ((hxp.sound hx).withLineEnding le)
    have hone := @countP_rendered chrono debug { x with lineEnding := le } hx hxp d
    rw [if_pos (by exact hxd)] at hone
    rw [beginCount, fileWith, splitLines_render hs]
    simp only [linesOf, List.map_append, List.map_cons, List.flatMap_append, List.flatMap_cons,
      List.countP_append, Segment.span] at hone ⊢
    omega
  rw [hcount b hb hbp hbd, hcount c hc hcp hcd]

/-! ### The fence at the end of a file -/

/-- The fence that the last segment leaves open. -/
def endFence : List Segment → Option FenceSentinel
  | [] => none
  | [.prose p] => fenceAfter none p.splitLines
  | _ :: rest => endFence rest

theorem endFence_cons_of_ne_nil {s : Segment} {rest : List Segment} (h : rest ≠ []) :
    endFence (s :: rest) = endFence rest := by
  obtain ⟨s', rest', rfl⟩ := List.exists_cons_of_ne_nil h
  cases s <;> rfl

theorem fenceStep_of_lineKind {l : Text} (h : lineKind none l ≠ .text) : fenceStep none l = none :=
  (fence_of_lineKind h).2

theorem BlockLines.Valid.fenceAfter {b : BlockLines} (h : b.Valid chrono debug) :
    Markers.fenceAfter none (Span.block b).lines = none := by
  rw [Span.lines, fenceAfter_cons, fenceStep_of_lineKind (by rw [h.opens]; decide),
    fenceAfter_append, h.body_closed, fenceAfter_cons,
    fenceStep_of_lineKind (by rw [h.closes]; decide), fenceAfter_nil]

theorem WellFormed.fenceAfter {spans : List Span} (h : WellFormed chrono debug spans)
    (hl : Text.IsLines (linesOf spans)) :
    Markers.fenceAfter none (linesOf spans) = endFence (spans.map Span.segment) := by
  induction h with
  | nil => rfl
  | @prose ls h0 ht =>
    have hls : Text.IsLines ls := by simpa [Span.lines] using hl
    simp [Span.lines, Span.segment, endFence, hls.splitLines_flatten]
  | @proseBlock ls b rest h0 ht hf hb ih =>
    rw [linesOf_cons] at hl
    rw [linesOf_cons, fenceAfter_append, Span.lines, hf, ih hl.right]
    rfl
  | @block b rest hv hr ih =>
    rw [linesOf_cons] at hl
    rw [linesOf_cons, fenceAfter_append, hv.fenceAfter, ih hl.right]
    rcases rest with _ | ⟨s, rest⟩
    · rfl
    · exact (@endFence_cons_of_ne_nil (Span.block b).segment ((s :: rest).map Span.segment)
        (by simp)).symm

theorem fenceAfter_of_parse {text : Text} {doc : ParsedDoc}
    (h : parse chrono debug text = .ok doc) :
    fenceAfter none text.splitLines = endFence doc.segments := by
  obtain ⟨spans, hw, hl, hs⟩ := exists_spans_of_parse h
  rw [hs, hl]
  exact hw.fenceAfter (hl ▸ Text.isLines_splitLines text)

/-! ### Appending a block -/

/-- The lines of a text that got its newline are lines of the same kinds. -/
theorem withNewline_lines {p : Text} (ht : AllText none p.splitLines) :
    (withNewline p).EndsLine ∧ AllText none (withNewline p).splitLines ∧
      fenceAfter none (withNewline p).splitLines = fenceAfter none p.splitLines := by
  unfold withNewline
  split
  · next h =>
    obtain ⟨s, rfl⟩ := List.isSuffixOf_iff_suffix.mp h
    exact ⟨Or.inr ⟨s, rfl⟩, ht, rfl⟩
  · next h =>
    obtain ⟨ls, r, hls, hr, rfl⟩ := Text.exists_lines_and_tail p
    refine ⟨Or.inr ⟨_, rfl⟩, ?_⟩
    by_cases hr0 : r = []
    · -- the text is empty: it has no last line to terminate
      subst hr0
      rcases List.eq_nil_or_concat ls with rfl | ⟨ls, l, rfl⟩
      · exact ⟨⟨rfl, trivial⟩, rfl⟩
      · obtain ⟨s, -, rfl⟩ := hls l (by simp)
        exact absurd (List.isSuffixOf_iff_suffix.mpr ⟨ls.flatten ++ s, by simp⟩) h
    · have h1 : Text.splitLines (ls.flatten ++ r) = ls ++ [r] := by
        rw [Text.splitLines_flatten_append hls, Text.splitLines_of_notMem hr0 hr]
      have h2 : Text.splitLines (ls.flatten ++ r ++ ['\n']) = ls ++ [r ++ ['\n']] := by
        rw [List.append_assoc, Text.splitLines_flatten_append hls,
          Text.splitLines_append_newline hr]
        rfl
      have htrim : trimmedLine (r ++ ['\n']) = trimmedLine r := by
        rw [trimmedLine_eq_trim, trimmedLine_eq_trim, Text.trim_append_newline]
      have hkind : ∀ f, lineKind f (r ++ ['\n']) = lineKind f r := by
        intro f; simp only [lineKind, htrim]
      have hstep : ∀ f, fenceStep f (r ++ ['\n']) = fenceStep f r := by
        intro f; simp only [fenceStep, htrim]
      rw [h1] at ht ⊢
      rw [h2]
      rw [allText_append] at ht ⊢
      simp only [AllText, hkind, fenceAfter_append, fenceAfter_cons, hstep, fenceAfter_nil] at ht ⊢
      exact ⟨ht, trivial⟩

theorem withNewline_ne_nil (p : Text) : withNewline p ≠ [] := by
  unfold withNewline
  split
  · next h =>
    obtain ⟨s, rfl⟩ := List.isSuffixOf_iff_suffix.mp h
    simp
  · simp

/-- Without an open fence a sound block can be appended. -/
theorem SoundDoc.append_block {segments : List Segment} (h : SoundDoc segments)
    (hf : endFence segments = none) {b : Block} (hb : b.Sound) :
    SoundDoc (ensureTrailingNewline segments ++ [.block b]) := by
  induction h with
  | nil => exact .block hb .nil
  | @prose p h0 ht =>
    obtain ⟨h1, h2, h3⟩ := withNewline_lines ht
    exact .proseBlock (withNewline_ne_nil p) h1 h2 (h3.trans hf) (.block hb .nil)
  | @proseBlock p e rest h0 he ht hfe _ ih => exact .proseBlock h0 he ht hfe (ih hf)
  | @block e rest he hr ih =>
    rcases rest with _ | ⟨s, rest⟩
    · exact .block he (.block hb .nil)
    · exact .block he (ih (by rwa [endFence_cons_of_ne_nil (by simp)] at hf))

theorem NoBlockOf.ensureTrailingNewline {d : NaiveDate} {segments : List Segment}
    (h : NoBlockOf d segments) : NoBlockOf d (ensureTrailingNewline segments) := by
  fun_induction Markers.ensureTrailingNewline segments with
  | case1 => exact h
  | case2 p => intro e he; simp at he
  | case3 s rest hs ih =>
    intro e he
    rcases List.mem_cons.mp he with he | he
    · exact h e (by simp [he])
    · exact ih (fun x hx => h x (by simp [hx])) e he

/-- A file that leaves a fence open ends in prose. -/
theorem exists_open_prose {segments : List Segment} {f : FenceSentinel}
    (h : endFence segments = some f) :
    ∃ init p, segments = init ++ [.prose p] ∧ fenceAfter none p.splitLines = some f := by
  fun_induction endFence segments with
  | case1 => cases h
  | case2 p => exact ⟨[], p, rfl, h⟩
  | case3 s rest hs ih =>
    obtain ⟨init, p, rfl, hp⟩ := ih h
    exact ⟨s :: init, p, rfl, hp⟩

theorem ensureTrailingNewline_append_prose (init : List Segment) (p : Text) :
    ensureTrailingNewline (init ++ [.prose p]) = init ++ [.prose (withNewline p)] := by
  induction init with
  | nil => rfl
  | cons s init ih =>
    rw [List.cons_append, List.cons_append, ← ih]
    cases s with
    | block e => rfl
    | prose q => cases init <;> rfl

/-- The last run of prose is a run of text, and any other can take its place. -/
theorem SoundDoc.replace_last {init : List Segment} {p : Text}
    (h : SoundDoc (init ++ [.prose p])) :
    AllText none p.splitLines ∧
      ∀ q : Text, q ≠ [] → AllText none q.splitLines → SoundDoc (init ++ [.prose q]) := by
  induction init with
  | nil =>
    cases h with
    | prose _ ht => exact ⟨ht, fun q h0 hq => .prose h0 hq⟩
  | cons s init ih =>
    rcases init with _ | ⟨s', init⟩
    · cases h with
      | block hs hr => exact ⟨(ih hr).1, fun q h0 hq => .block hs ((ih hr).2 q h0 hq)⟩
    · cases h with
      | block hs hr => exact ⟨(ih hr).1, fun q h0 hq => .block hs ((ih hr).2 q h0 hq)⟩
      | proseBlock h0 he ht hf hr =>
        exact ⟨(ih hr).1, fun q h0' hq => .proseBlock h0 he ht hf ((ih hr).2 q h0' hq)⟩

/-- No line of a block closes a fence. -/
theorem detectOpen_rendered {b : Block} (hb : b.attrs.Clean) (hp : PlainText b.body) :
    ∀ l ∈ (Span.block (b.rendered chrono)).lines, FenceSentinel.detectOpen l.trim = none := by
  intro l hl
  have hv := @Block.Sound.valid chrono id _ (hp.sound hb)
  have hmark : ∀ m, lineKind none m ≠ .text → FenceSentinel.detectOpen m.trim = none := by
    intro m hm
    rw [← trimmedLine_eq_trim]
    exact (fence_of_lineKind hm).2
  simp only [Span.lines, List.mem_cons, List.mem_append, List.not_mem_nil, or_false] at hl
  rcases hl with rfl | hl | rfl
  · exact hmark _ (by rw [hv.opens]; decide)
  · rcases List.mem_append.mp hl with hl | hl
    · exact (hp.lines l hl).opens_none
    · rcases padding_eq b with hpad | hpad
      · simp [hpad] at hl
      · rw [hpad, List.mem_singleton] at hl
        exact hl ▸ (plainLine_lineEnding b.lineEnding).opens_none
  · exact hmark _ (by rw [hv.closes]; decide)

/-- **Behind an open fence the appended block is prose**: the file is parsed, and
has the blocks that it had. -/
theorem parse_append_in_fence {segments : List Segment} (h : SoundDoc segments)
    {f : FenceSentinel} (hf : endFence segments = some f) {b : Block} (hb : b.attrs.Clean)
    (hp : PlainText b.body) {d : NaiveDate} (hd : NoBlockOf d segments) :
    ∃ segments', parse chrono debug
        (render chrono ⟨ensureTrailingNewline segments ++ [.block b]⟩) = .ok ⟨segments'⟩ ∧
      NoBlockOf d segments' := by
  obtain ⟨init, p, rfl, hfp⟩ := exists_open_prose hf
  obtain ⟨ht, hrep⟩ := h.replace_last
  obtain ⟨h1, h2, h3⟩ := withNewline_lines ht
  have hopened : f.Opened := opened_of_fenceAfter (by simp) hfp
  have htext : AllText none (Text.splitLines (withNewline p ++ renderBlock chrono b)) := by
    rw [h1.splitLines_append, allText_append, h3, hfp, renderBlock_eq,
      (Text.isLines_of_forall (hp.sound hb).isLine).splitLines_flatten]
    exact ⟨h2, (allText_in_fence hopened (detectOpen_rendered hb hp)).1⟩
  have hsound := hrep (withNewline p ++ renderBlock chrono b) (by simp [withNewline_ne_nil]) htext
  have hrender : render chrono ⟨ensureTrailingNewline (init ++ [.prose p]) ++ [.block b]⟩ =
      render chrono ⟨init ++ [.prose (withNewline p ++ renderBlock chrono b)]⟩ := by
    rw [ensureTrailingNewline_append_prose]
    simp [render, renderSegment]
  rw [hrender]
  refine ⟨_, parse_render hsound, NoBlockOf.settled fun e he => ?_⟩
  exact hd e (by simpa using he)

/-! ### Saving never duplicates a day -/

section Duplicates

open Markdown SummaryChart

variable {num : ChartNumbers}

/-- What the user expects of the file after the block `b` was saved into `doc`:
it is accepted, it has a block with `b`'s attributes, every later save of the day
replaces a block, and no run of such saves changes the number of the day's begin
lines. -/
def NeverDuplicates (chrono : Chrono) (debug : DebugText) (num : ChartNumbers)
    (doc : ParsedDoc) (b : Block) : Prop :=
  ∃ doc₁, parse chrono debug (render chrono (splice doc b).1) = .ok doc₁ ∧
    (∃ e, Segment.block e ∈ doc₁.segments ∧ e.attrs = b.attrs) ∧
    (∀ runId draft, Printable draft → draft.date = b.attrs.date →
      (splice doc₁ (buildBlock num runId draft)).2 = true) ∧
    ∀ drafts : List (Option Uuid × ReportDraft),
      (∀ x ∈ drafts, Printable x.2 ∧ x.2.date = b.attrs.date) →
      ∃ text, saveAll chrono debug (render chrono (splice doc b).1)
          (drafts.map fun x => buildBlock num x.1 x.2) = .ok text ∧
        beginCount chrono debug b.attrs.date text =
          beginCount chrono debug b.attrs.date (render chrono (splice doc b).1)

/-- A save that leaves a file with a slot never duplicates the day. -/
theorem neverDuplicates_of_slot {doc : ParsedDoc} {b e : Block} {pre post : List Segment}
    {le : LineEnding} (hs : SoundDoc (pre ++ .block e :: post)) (hb : b.attrs.Clean)
    (hp : PlainText b.body) (hpre : NoBlockOf b.attrs.date pre)
    (hr : render chrono (splice doc b).1 = fileWith chrono pre post le b) :
    NeverDuplicates chrono debug num doc b := by
  have hsound := hp.sound hb
  rw [NeverDuplicates, hr]
  refine ⟨_, parse_fileWith hs hsound, ?_, ?_, ?_⟩
  · exact ⟨({ b with lineEnding := le } : Block).settled, by simp [docWith, Segment.settled], rfl⟩
  · intro runId draft _ hd
    have hd' : (buildBlock num runId draft).attrs.date = b.attrs.date := hd
    exact (@splice_docWith chrono _ _ _ _ _ (hd' ▸ hpre) hd'.symm).1
  · intro drafts hdrafts
    have hblocks : ∀ c ∈ drafts.map fun x => buildBlock num x.1 x.2,
        (c.attrs.Clean ∧ PlainText c.body) ∧ c.attrs.date = b.attrs.date := by
      intro c hc
      obtain ⟨x, hx, rfl⟩ := List.mem_map.mp hc
      obtain ⟨hpx, hdx⟩ := hdrafts x hx
      exact ⟨⟨buildBlock_clean hpx, plainText_renderBody hpx⟩, hdx⟩
    refine ⟨_, saveAll_fileWith hs hpre hsound rfl fun c hc =>
      ⟨(hblocks c hc).1.2.sound (hblocks c hc).1.1, (hblocks c hc).2⟩, ?_⟩
    generalize drafts.map (fun x => buildBlock num x.1 x.2) = cs at hblocks ⊢
    rcases List.eq_nil_or_concat cs with rfl | ⟨cs, c, rfl⟩
    · rfl
    · obtain ⟨⟨hc, hcp⟩, hcd⟩ := hblocks c (by simp)
      rw [List.concat_eq_append, List.getLastD_concat]
      exact beginCount_fileWith hs hc hcp hcd hb hp rfl

/-- Behind an open fence the saved block is not found again. -/
theorem not_neverDuplicates_of_fence {segments : List Segment} {b : Block} {f : FenceSentinel}
    (hs : SoundDoc segments) (hb : b.attrs.Clean) (hp : PlainText b.body)
    (hno : NoBlockOf b.attrs.date segments) (hf : endFence segments = some f) :
    ¬ NeverDuplicates chrono debug num ⟨segments⟩ b := by
  rintro ⟨doc₁, hparse, ⟨e, he, hea⟩, -⟩
  obtain ⟨segments', hp', hno'⟩ := @parse_append_in_fence chrono debug _ hs f hf _ hb hp _ hno
  rw [splice_of_noBlock hno, hp'] at hparse
  cases hparse
  exact hno' e he (by rw [hea])

/-- **Saving never duplicates a day, exactly when** the file has a block of the
day already, or leaves no code fence open at its end. -/
theorem save_never_duplicates_iff {text : Text} {doc : ParsedDoc}
    (h : parse chrono debug text = .ok doc) (runId : Option Uuid) {draft : ReportDraft}
    (hp : Printable draft) :
    NeverDuplicates chrono debug num doc (buildBlock num runId draft) ↔
      (∃ e, Segment.block e ∈ doc.segments ∧ e.attrs.date = draft.date) ∨
        fenceAfter none text.splitLines = none := by
  obtain ⟨segments⟩ := doc
  have hs : SoundDoc segments := soundDoc_of_parse h
  have hc := @buildBlock_clean num runId draft hp
  have hpt := @plainText_renderBody num draft hp
  rw [fenceAfter_of_parse h]
  by_cases hex : ∃ e, Segment.block e ∈ segments ∧ e.attrs.date = draft.date
  · obtain ⟨e, he, hed⟩ := hex
    obtain ⟨pre, e', post, rfl, hpre, he'⟩ := exists_first_block he hed
    refine iff_of_true ?_ (Or.inl ⟨e, he, hed⟩)
    refine @neverDuplicates_of_slot _ _ _ _ _ _ _ _ e'.lineEnding hs hc hpt hpre ?_
    rw [splice_append (by exact hpre) (by exact he')]
    rfl
  · have hno : NoBlockOf draft.date segments := fun e he hed => hex ⟨e, he, hed⟩
    cases hf : endFence segments with
    | none =>
      refine iff_of_true ?_ (Or.inr rfl)
      have happend := hs.append_block hf (@buildBlock_sound num runId draft hp)
      refine @neverDuplicates_of_slot _ _ _ _ _ _ _ [] .lf happend hc hpt
        hno.ensureTrailingNewline ?_
      rw [splice_of_noBlock (by exact hno)]
      rfl
    | some f =>
      exact iff_of_false (not_neverDuplicates_of_fence hs hc hpt hno hf) (by simp [hex])

/-- The chart of a day without bullets, where no number is asked for. -/
def ChartNumbers.quiet : ChartNumbers where
  wholePercent n total := if total = 0 then 0 else (200 * n + total) / (2 * total)
  formatPercentLegend _ _ := "0%".toList
  donutPaths _ := []
  legend_noNewline _ _ := .literal (by decide)
  paths_noNewline _ _ h := by cases h

/-- The draft of 2026-04-18 with no section. -/
def quietDraft : ReportDraft where
  id := 1
  date := ⟨20561⟩
  templateId := "dayseam.dev_eod".toList
  templateVersion := "2026-04-24".toList
  sections := []
  evidence := []
  verboseMode := false
  generatedAt := 0

theorem printable_quietDraft : Printable quietDraft where
  titles := by intro s hs; cases hs
  template := ⟨by decide +kernel, by decide +kernel⟩
  version := ⟨by decide +kernel, by decide +kernel⟩

/-- Prose without a fence is the common case: the day is never duplicated. -/
theorem prose_never_duplicates :
    NeverDuplicates Chrono.iso id ChartNumbers.quiet ⟨[.prose "notes".toList]⟩
      (buildBlock ChartNumbers.quiet none quietDraft) :=
  (@save_never_duplicates_iff Chrono.iso id ChartNumbers.quiet "notes".toList _
    (by decide +kernel) none _ printable_quietDraft).mpr (Or.inr (by decide +kernel))

/-- **An open fence duplicates the day**: behind "```" the saved block is prose, and
the second save of the day writes a second begin line. -/
theorem open_fence_duplicates :
    parse Chrono.iso id "```\n".toList = .ok ⟨[.prose "```\n".toList]⟩ ∧
      ¬ NeverDuplicates Chrono.iso id ChartNumbers.quiet ⟨[.prose "```\n".toList]⟩
        (buildBlock ChartNumbers.quiet none quietDraft) ∧
      (saveAll Chrono.iso id "```\n".toList
        [buildBlock ChartNumbers.quiet none quietDraft]).toOption.map
          (beginCount Chrono.iso id ⟨20561⟩) = some 1 ∧
      (saveAll Chrono.iso id "```\n".toList
        [buildBlock ChartNumbers.quiet none quietDraft,
          buildBlock ChartNumbers.quiet none quietDraft]).toOption.map
          (beginCount Chrono.iso id ⟨20561⟩) = some 2 := by
  have hparse : parse Chrono.iso id "```\n".toList = .ok ⟨[.prose "```\n".toList]⟩ := by rfl
  refine ⟨hparse, ?_, by decide +kernel, by decide +kernel⟩
  refine not_neverDuplicates_of_fence (f := ⟨'`', 3⟩) (soundDoc_of_parse hparse)
    (buildBlock_clean printable_quietDraft) (plainText_renderBody printable_quietDraft) ?_ ?_
  · intro e he
    simp at he
  · rfl

end Duplicates

end Markers
end Dayseam
