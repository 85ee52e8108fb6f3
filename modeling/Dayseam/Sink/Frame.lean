import Dayseam.Sink.Saving
import Mathlib

/-!
# What a save leaves alone

The parser accepts more than the renderer writes: other attribute orders,
blanks, unknown attributes, indentation, mixed terminators, a missing newline at
the end.  Every block of the document is rendered again by every save, so the
other days come through byte for byte exactly when their source is in the form
that the renderer writes.

## Main definitions

* `CanonicalBlock` — the one form in which a block is written.
* `Kept` — a piece of the file that rendering leaves alone.

## Main results

* `lines_cancel` — two renderings agree exactly when they agree piece by piece.
* `save_frame_iff` — what a save does to the rest of the file.
-/

namespace Dayseam
namespace Markers

variable {chrono : Chrono} {debug : DebugText}

/-- The form in which the renderer writes a block: one blank between the four
attributes in their order, the date as it is displayed, one terminator on both
marker lines, and a body that ends with it. -/
def CanonicalBlock (chrono : Chrono) (source : Text) : Prop :=
  ∃ (a : MarkerAttrs) (le : LineEnding) (body : Text), a.Clean ∧
    source = beginLine chrono a ++ le.text ++ body ++ endMarker ++ le.text ∧
    (body = [] ∨ le.text <:+ body)

/-- The source text of a span. -/
def Span.source (s : Span) : Text := s.lines.flatten

/-- A span as the renderer writes its segment. -/
def Span.rendered (chrono : Chrono) (s : Span) : Span := s.segment.span chrono

/-- What is known of the spans of an accepted file, one by one. -/
def Span.Ok (chrono : Chrono) (debug : DebugText) : Span → Prop
  | .prose ls => ls ≠ [] ∧ Text.IsLines ls
  | .block b => b.Valid chrono debug ∧ Text.IsLines (Span.block b).lines

/-- A piece of the file that rendering leaves alone. -/
def Kept (chrono : Chrono) (piece : Text) : Segment → Prop
  | .prose _ => True
  | .block _ => CanonicalBlock chrono piece

/-! ### Piece by piece -/

theorem WellFormed.ok {spans : List Span} (h : WellFormed chrono debug spans)
    (hl : Text.IsLines (linesOf spans)) : ∀ s ∈ spans, s.Ok chrono debug := by
  have hleft : ∀ {s : Span} {rest : List Span}, Text.IsLines (s.lines ++ linesOf rest) →
      Text.IsLines s.lines := by
    intro s rest h
    by_cases hr : linesOf rest = []
    · simpa [hr] using h
    · exact Text.isLines_of_forall (h.isLine_left hr)
  induction h with
  | nil => simp
  | @prose ls h0 _ =>
    intro s hs
    rw [List.mem_singleton.mp hs]
    exact ⟨h0, by simpa [Span.lines] using hl⟩
  | @proseBlock ls b rest h0 _ _ _ ih =>
    rw [linesOf_cons] at hl
    intro s hs
    rcases List.mem_cons.mp hs with rfl | hs
    · exact ⟨h0, hleft hl⟩
    · exact ih hl.right s hs
  | @block b rest hv _ ih =>
    rw [linesOf_cons] at hl
    intro s hs
    rcases List.mem_cons.mp hs with rfl | hs
    · exact ⟨hv, hleft hl⟩
    · exact ih hl.right s hs

theorem Span.Ok.splitLines_body {b : BlockLines} (h : (Span.block b).Ok chrono debug) :
    b.block.body.splitLines = b.body ∧ ∀ l ∈ b.opening :: b.body, Text.IsLine l := by
  have hl := h.2
  rw [Span.lines, ← List.cons_append] at hl
  have hlines := hl.isLine_left (by simp)
  exact ⟨(Text.isLines_of_forall fun l hm => hlines l (by simp [hm])).splitLines_flatten, hlines⟩

/-- The lines that a block is rendered to keep its body. -/
theorem rendered_block_lines {b : BlockLines} (h : (Span.block b).Ok chrono debug) :
    ((Span.block b).rendered chrono).lines =
      (beginLine chrono b.attrs ++ (LineEnding.observe b.opening).text) ::
        (b.body ++ (padding b.block ++ [endMarker ++ (LineEnding.observe b.opening).text])) := by
  have hbody := h.splitLines_body.1
  simp only [Span.rendered, Span.segment, Segment.span, Span.lines, Block.rendered, hbody,
    List.append_assoc]
  rfl

/-- A rendered span starts with the lines it starts with in the source only if it
is that span. -/
theorem span_cancel {s : Span} (h : s.Ok chrono debug) {xs ys : List Text}
    (heq : s.lines ++ xs = (s.rendered chrono).lines ++ ys) :
    s.lines = (s.rendered chrono).lines ∧ xs = ys := by
  cases s with
  | prose ls =>
    have hls : (Span.prose ls).rendered chrono = .prose ls := by
      simp [Span.rendered, Span.segment, Segment.span, h.2.splitLines_flatten]
    rw [hls] at heq ⊢
    exact ⟨rfl, List.append_cancel_left heq⟩
  | block b =>
    rw [rendered_block_lines h] at heq ⊢
    simp only [Span.lines, List.cons_append, List.append_assoc, List.cons.injEq,
      List.append_cancel_left_eq, List.nil_append] at heq ⊢
    obtain ⟨hopen, hrest⟩ := heq
    rcases padding_eq b.block with hp | hp
    · rw [hp] at hrest ⊢
      simp only [List.nil_append, List.cons.injEq] at hrest ⊢
      exact ⟨⟨hopen, hrest.1, trivial⟩, hrest.2⟩
    · -- the terminator line that the renderer adds is no end marker
      rw [hp] at hrest
      simp only [List.cons_append, List.nil_append, List.cons.injEq] at hrest
      have hk := h.1.closes
      rw [hrest.1, (plainLine_lineEnding _).lineKind] at hk
      cases hk

/-- **Two renderings agree exactly when they agree piece by piece**: the induction
is on the pieces. -/
theorem lines_cancel {spans : List Span} (h : ∀ s ∈ spans, s.Ok chrono debug) {xs ys : List Text} :
    linesOf spans ++ xs = linesOf (spans.map (Span.rendered chrono)) ++ ys ↔
      (∀ s ∈ spans, s.lines = (s.rendered chrono).lines) ∧ xs = ys := by
  induction spans with
  | nil => simp
  | cons s rest ih =>
    have ih' := ih fun x hx => h x (by simp [hx])
    rw [List.map_cons, linesOf_cons, linesOf_cons, List.append_assoc, List.append_assoc]
    constructor
    · intro heq
      obtain ⟨h1, h2⟩ := span_cancel (h s (by simp)) heq
      obtain ⟨h3, h4⟩ := ih'.mp h2
      exact ⟨by simpa using ⟨h1, h3⟩, h4⟩
    · rintro ⟨h1, h2⟩
      rw [← h1 s (by simp), ih'.mpr ⟨fun x hx => h1 x (by simp [hx]), h2⟩]

/-! ### The canonical form -/

theorem endsWithCompatibleNewline_iff {body : Text} {le : LineEnding} :
    endsWithCompatibleNewline body le = true ↔ le.text <:+ body := by
  cases le <;> simp [endsWithCompatibleNewline, LineEnding.isCrlf, LineEnding.text]

/-- A block needs no padding exactly when its body is empty or ends as its marker
lines do. -/
theorem padding_eq_nil_iff {b : Block} :
    padding b = [] ↔ b.body = [] ∨ b.lineEnding.text <:+ b.body := by
  unfold padding
  rw [← endsWithCompatibleNewline_iff]
  by_cases h0 : b.body = []
  · simp [h0]
  · cases h : endsWithCompatibleNewline b.body b.lineEnding <;> simp [h0]

theorem Span.Ok.clean {b : BlockLines} (h : (Span.block b).Ok chrono debug) : b.attrs.Clean :=
  (h.1.sound h.splitLines_body.2).clean

/-- A block is rendered to itself exactly when its source is canonical. -/
theorem rendered_eq_iff_canonical {b : BlockLines} (h : (Span.block b).Ok chrono debug) :
    (Span.block b).lines = ((Span.block b).rendered chrono).lines ↔
      CanonicalBlock chrono (Span.block b).source := by
  have hclean := h.clean
  obtain ⟨hbody, hlines⟩ := h.splitLines_body
  constructor
  · intro heq
    refine ⟨b.attrs, LineEnding.observe b.opening, b.block.settled.body, hclean, ?_, ?_⟩
    · rw [Span.source, heq, rendered_block_lines h]
      simp [Block.settled, BlockLines.block, List.append_assoc]
    · exact padding_eq_nil_iff.mp (padding_settled b.block)
  · rintro ⟨a, le, body, ha, hsrc, hend⟩
    have hends : Text.EndsLine body := by
      rcases hend with rfl | ⟨s, rfl⟩
      · exact Or.inl rfl
      · cases le
        · exact Or.inr ⟨s, rfl⟩
        · exact Or.inr ⟨s ++ ['\r'], by simp [LineEnding.text]⟩
    -- cut both forms of the source into lines
    have hsplit : (Span.block b).lines =
        (beginLine chrono a ++ le.text) :: (body.splitLines ++ [endMarker ++ le.text]) := by
      have h1 : Text.splitLines (Span.block b).source = (Span.block b).lines :=
        h.2.splitLines_flatten
      rw [← h1, hsrc, List.append_assoc, List.append_assoc,
        (isLine_beginLine ha le).splitLines_append, hends.splitLines_append]
      have h2 := (isLine_endMarker le).splitLines_append []
      simp only [List.append_nil, Text.splitLines_nil] at h2
      rw [h2]
    simp only [Span.lines, List.cons.injEq] at hsplit
    obtain ⟨hopen, hrest⟩ := hsplit
    obtain ⟨hb, hclose⟩ := List.append_inj' hrest rfl
    have hattrs : b.attrs = a := by
      have h1 := h.1.attrs_eq 0
      rw [hopen, trimmedLine_eq_trim, trim_append_lineEnding, trim_beginLine,
        parseBeginAttrs_beginLine ha] at h1
      cases h1
      rfl
    have hobs : LineEnding.observe b.opening = le := by rw [hopen, observe_beginLine]
    have hpad : padding b.block = [] := by
      have hbb : b.block.body = body := by
        rw [BlockLines.block, hb, Text.flatten_splitLines]
      have hle : b.block.lineEnding = le := hobs
      rw [padding_eq_nil_iff, hbb, hle]
      exact hend
    rw [rendered_block_lines h, hpad, hobs, hattrs]
    simp only [Span.lines, hopen, hclose, List.nil_append]

theorem rendered_eq_iff_kept {s : Span} (h : s.Ok chrono debug) :
    s.lines = (s.rendered chrono).lines ↔ Kept chrono s.source s.segment := by
  cases s with
  | prose ls =>
    simp [Span.rendered, Span.segment, Segment.span, Span.lines, Kept, h.2.splitLines_flatten]
  | block b => exact rendered_eq_iff_canonical h

/-! ### The terminated file -/

/-- A span whose last line got the newline it lacked. -/
def Span.terminated : Span → Span
  | .prose ls => .prose (withNewline ls.flatten).splitLines
  | .block b => .block { b with closing := withNewline b.closing }

theorem withNewline_eq_self {t : Text} (h : ['\n'] <:+ t) : withNewline t = t := by
  simp [withNewline, h]

/-- The terminator that a text lacks. -/
theorem withNewline_eq (t : Text) :
    withNewline t = t ++ (if ['\n'].isSuffixOf t then [] else ['\n']) := by
  unfold withNewline
  split <;> simp

/-- Only the last line of a concatenation may lack its newline. -/
theorem withNewline_append {s t : Text} (h : t ≠ []) : withNewline (s ++ t) = s ++ withNewline t := by
  rcases List.eq_nil_or_concat t with rfl | ⟨u, c, rfl⟩
  · exact absurd rfl h
  · simp only [withNewline, List.concat_eq_append, List.isSuffixOf_iff_suffix]
    rw [← List.append_assoc]
    simp only [Text.singleton_isSuffix_concat]
    split <;> simp

theorem Span.Ok.source_ne_nil {s : Span} (h : s.Ok chrono debug) : s.source ≠ [] := by
  cases s with
  | prose ls =>
    obtain ⟨l, ls, rfl⟩ := List.exists_cons_of_ne_nil h.1
    have hl : l ≠ [] := h.2.ne_nil l (by simp)
    simp [Span.source, Span.lines, hl]
  | block b =>
    have hl : b.opening ≠ [] := h.2.ne_nil b.opening (by simp [Span.lines])
    simp [Span.source, Span.lines, hl]

theorem lineKind_withNewline (f : Option FenceSentinel) (l : Text) :
    lineKind f (withNewline l) = lineKind f l := by
  have h : trimmedLine (withNewline l) = trimmedLine l := by
    unfold withNewline
    split
    · rfl
    · rw [trimmedLine_eq_trim, trimmedLine_eq_trim, Text.trim_append_newline]
  simp only [lineKind, h]

theorem Span.Ok.terminated {s : Span} (h : s.Ok chrono debug) :
    s.terminated.Ok chrono debug ∧ s.terminated.source = withNewline s.source ∧
      ∀ l ∈ s.terminated.lines, Text.IsLine l := by
  have hends : ∀ t : Text, Text.EndsLine (withNewline t) := by
    intro t
    unfold withNewline
    split
    · next hs =>
      obtain ⟨u, rfl⟩ := List.isSuffixOf_iff_suffix.mp hs
      exact Or.inr ⟨u, rfl⟩
    · exact Or.inr ⟨t, rfl⟩
  cases s with
  | prose ls =>
    have hlines := (hends ls.flatten).isLine
    refine ⟨⟨Text.splitLines_ne_nil (withNewline_ne_nil _), Text.isLines_of_forall hlines⟩, ?_,
      hlines⟩
    simp [Span.terminated, Span.source, Span.lines]
  | block b =>
    have hl := h.2
    have hcut : (Span.block b).lines = (b.opening :: b.body) ++ [b.closing] := by simp [Span.lines]
    rw [hcut] at hl
    have hlast : b.closing ≠ [] := hl.ne_nil b.closing (by simp)
    have hclosing : Text.IsLine (withNewline b.closing) := by
      have h1 := hl.right
      generalize hcs : [b.closing] = cs at h1
      cases h1 with
      | nil => cases hcs
      | last h0 hn =>
        cases hcs
        have hns : ¬ ['\n'] <:+ b.closing := by
          rintro ⟨u, hu⟩
          exact hn (by rw [← hu]; simp)
        exact ⟨b.closing, hn, by simp [withNewline, hns]⟩
      | cons hc _ =>
        cases hcs
        rw [withNewline_eq_self (Text.IsLine.newline_isSuffix hc)]
        exact hc
    have hlines : ∀ l ∈ Span.terminated (.block b) |>.lines, Text.IsLine l := by
      intro l hm
      simp only [Span.terminated, Span.lines, List.mem_cons, List.mem_append, List.not_mem_nil,
        or_false] at hm
      rcases hm with rfl | hm | rfl
      · exact hl.isLine_left (by simp) _ (by simp)
      · exact hl.isLine_left (by simp) _ (by simp [hm])
      · exact hclosing
    refine ⟨⟨⟨h.1.opens, h.1.attrs_eq, h.1.body_text, h.1.body_closed, ?_⟩,
      Text.isLines_of_forall hlines⟩, ?_, hlines⟩
    · rw [lineKind_withNewline]
      exact h.1.closes
    · rw [Span.source, Span.source, hcut, List.flatten_append,
        withNewline_append (by simpa using hlast)]
      simp [Span.terminated, Span.lines]

/-- The pieces of the terminated file, put together. -/
theorem flatten_terminated {spans : List Span} (h : ∀ s ∈ spans, s.Ok chrono debug)
    (hl : Text.IsLines (linesOf spans)) (h0 : spans ≠ []) :
    (linesOf (spans.map Span.terminated)).flatten = withNewline (linesOf spans).flatten := by
  induction spans with
  | nil => exact absurd rfl h0
  | cons s rest ih =>
    have hs : s.terminated.lines.flatten = withNewline s.lines.flatten :=
      (h s (by simp)).terminated.2.1
    rw [List.map_cons, linesOf_cons, linesOf_cons, List.flatten_append, List.flatten_append, hs]
    rcases rest with _ | ⟨s', rest⟩
    · simp
    · -- a piece that another one follows is terminated already
      have hne : (linesOf (s' :: rest)).flatten ≠ [] := by
        have h1 : s'.lines.flatten ≠ [] := (h s' (by simp)).source_ne_nil
        rw [linesOf_cons, List.flatten_append]
        simp only [ne_eq, List.append_eq_nil_iff, not_and]
        exact fun hc => absurd hc h1
      have hlast : ['\n'] <:+ s.lines.flatten := by
        rw [linesOf_cons] at hl
        have hlines := hl.isLine_left (by rintro hc; rw [hc] at hne; exact hne rfl)
        rcases Text.endsLine_of_forall_isLine hlines with he | ⟨u, hu⟩
        · exact absurd he (h s (by simp)).source_ne_nil
        · exact ⟨u, hu.symm⟩
      rw [ih (fun x hx => h x (by simp [hx])) (by rw [linesOf_cons] at hl; exact hl.right) (by simp),
        withNewline_eq_self hlast, withNewline_append hne]

/-- Appending to a document terminates its prose, and its blocks are rendered
with a terminator anyway. -/
theorem render_ensureTrailingNewline {spans : List Span} (h : WellFormed chrono debug spans)
    (hl : Text.IsLines (linesOf spans)) :
    render chrono ⟨ensureTrailingNewline (spans.map Span.segment)⟩ =
      (linesOf ((spans.map Span.terminated).map (Span.rendered chrono))).flatten := by
  have hok := h.ok hl
  induction h with
  | nil => rfl
  | @prose ls h0 _ =>
    simp [ensureTrailingNewline, render, renderSegment, Span.segment, Span.terminated,
      Span.rendered, Segment.span, Span.lines]
  | @proseBlock ls b rest h0 _ _ _ ih =>
    rw [linesOf_cons] at hl
    have hlast : ['\n'] <:+ ls.flatten := by
      have hlines := hl.isLine_left (by simp [Span.lines])
      rcases Text.endsLine_of_forall_isLine hlines with he | ⟨u, hu⟩
      · exact absurd he (hok (.prose ls) (by simp)).source_ne_nil
      · exact ⟨u, hu.symm⟩
    have hrest := ih hl.right fun s hs => hok s (by simp [hs])
    simp only [render, List.map_cons, ensureTrailingNewline, Span.segment, linesOf_cons,
      List.flatten_cons, List.flatten_append] at hrest ⊢
    rw [hrest]
    simp [renderSegment, Span.terminated, Span.rendered, Span.segment, Segment.span, Span.lines,
      withNewline_eq_self hlast]
  | @block b rest hv _ ih =>
    rw [linesOf_cons] at hl
    have hrest := ih hl.right fun s hs => hok s (by simp [hs])
    have hens : ensureTrailingNewline ((Span.block b :: rest).map Span.segment) =
        (Span.block b).segment :: ensureTrailingNewline (rest.map Span.segment) := rfl
    rw [hens]
    simp only [render, List.map_cons, linesOf_cons, List.flatten_cons, List.flatten_append] at hrest ⊢
    rw [hrest, renderSegment_eq]
    rfl

/-! ### What a save leaves alone -/

/-- A file cut into pieces, each of which is parsed on its own to one segment of
the document. -/
structure Cut (chrono : Chrono) (debug : DebugText) (text : Text) (doc : ParsedDoc)
    (pieces : List (Text × Segment)) : Prop where
  text_eq : (pieces.map Prod.fst).flatten = text
  doc_eq : pieces.map Prod.snd = doc.segments
  parsed : ∀ p ∈ pieces, parse chrono debug p.1 = .ok ⟨[p.2]⟩

theorem Span.Ok.parse_source {s : Span} (h : s.Ok chrono debug)
    (hw : WellFormed chrono debug [s]) : parse chrono debug s.source = .ok ⟨[s.segment]⟩ := by
  refine parse_of_wellFormed hw ?_
  have hl : Text.IsLines s.lines := by
    cases s with
    | prose ls => exact h.2
    | block b => exact h.2
  rw [Span.source, hl.splitLines_flatten]
  simp

theorem WellFormed.singleton {spans : List Span} (h : WellFormed chrono debug spans) :
    ∀ s ∈ spans, WellFormed chrono debug [s] := by
  induction h with
  | nil => simp
  | prose h0 ht =>
    intro s hs
    rw [List.mem_singleton.mp hs]
    exact .prose h0 ht
  | proseBlock h0 ht _ _ ih =>
    intro s hs
    rcases List.mem_cons.mp hs with rfl | hs
    · exact .prose h0 ht
    · exact ih s hs
  | block hv _ ih =>
    intro s hs
    rcases List.mem_cons.mp hs with rfl | hs
    · exact .block hv .nil
    · exact ih s hs

/-- The piece that a span is. -/
def Span.piece (s : Span) : Text × Segment := (s.source, s.segment)

theorem cut_of_spans {text : Text} {doc : ParsedDoc} {spans : List Span}
    (hw : WellFormed chrono debug spans) (hl : text.splitLines = linesOf spans)
    (hs : doc.segments = spans.map Span.segment) :
    Cut chrono debug text doc (spans.map Span.piece) where
  text_eq := by
    rw [← Text.flatten_splitLines text, hl, List.map_map, linesOf, List.flatMap_def,
      List.flatten_flatten, List.map_map]
    rfl
  doc_eq := by
    rw [hs, List.map_map]
    rfl
  parsed := by
    intro p hp
    obtain ⟨s, hms, rfl⟩ := List.mem_map.mp hp
    exact (hw.ok (hl ▸ Text.isLines_splitLines text) s hms).parse_source (hw.singleton s hms)

theorem kept_iff_lines {spans : List Span} (h : ∀ s ∈ spans, s.Ok chrono debug) :
    (∀ s ∈ spans, s.lines = (s.rendered chrono).lines) ↔
      ∀ s ∈ spans, Kept chrono s.source s.segment :=
  forall₂_congr fun s hs => rendered_eq_iff_kept (h s hs)

/-- The lines of a rendered span: those of a block are all terminated. -/
theorem Span.Ok.rendered {s : Span} (h : s.Ok chrono debug) :
    ((s.rendered chrono).lines = s.lines ∨ ∀ l ∈ (s.rendered chrono).lines, Text.IsLine l) ∧
      ((∀ l ∈ s.lines, Text.IsLine l) → ∀ l ∈ (s.rendered chrono).lines, Text.IsLine l) := by
  cases s with
  | prose ls =>
    have hls : (Span.prose ls).rendered chrono = .prose ls := by
      simp [Span.rendered, Span.segment, Segment.span, h.2.splitLines_flatten]
    rw [hls]
    exact ⟨Or.inl rfl, id⟩
  | block b =>
    have hsound := @Block.Sound.isLine chrono _ (h.1.sound h.splitLines_body.2)
    exact ⟨Or.inr hsound, fun _ => hsound⟩

theorem isLines_rendered {spans : List Span} (h : ∀ s ∈ spans, s.Ok chrono debug)
    (hl : Text.IsLines (linesOf spans)) :
    Text.IsLines (linesOf (spans.map (Span.rendered chrono))) := by
  induction spans with
  | nil => exact .nil
  | cons s rest ih =>
    rw [linesOf_cons] at hl
    have ih' := ih (fun x hx => h x (by simp [hx])) hl.right
    rw [List.map_cons, linesOf_cons]
    obtain ⟨hself, hall⟩ := (h s (by simp)).rendered
    by_cases hr : linesOf rest = []
    · -- nothing follows the span
      have hr' : linesOf (rest.map (Span.rendered chrono)) = [] := by
        rcases rest with _ | ⟨s', rest⟩
        · rfl
        · have h1 : s'.lines ≠ [] := by
            intro hc
            exact (h s' (by simp)).source_ne_nil (by simp [Span.source, hc])
          rw [linesOf_cons] at hr
          exact absurd (List.append_eq_nil_iff.mp hr).1 h1
      rw [hr', List.append_nil]
      rw [hr, List.append_nil] at hl
      rcases hself with he | he
      · rw [he]; exact hl
      · exact Text.isLines_of_forall he
    · exact .append (hall (hl.isLine_left hr)) ih'

/-- Rendering gives the source back exactly when every piece is kept. -/
theorem flatten_rendered_iff {spans : List Span} (h : ∀ s ∈ spans, s.Ok chrono debug)
    (hl : Text.IsLines (linesOf spans)) :
    (linesOf (spans.map (Span.rendered chrono))).flatten = (linesOf spans).flatten ↔
      ∀ s ∈ spans, Kept chrono s.source s.segment := by
  have hcancel := @lines_cancel chrono debug spans h [] []
  simp only [List.append_nil, and_true] at hcancel
  rw [← kept_iff_lines h, ← hcancel]
  constructor
  · intro heq
    rw [← hl.splitLines_flatten, ← (isLines_rendered h hl).splitLines_flatten, heq]
  · intro heq
    rw [← heq]

/-- The same for terminated pieces in front of other text. -/
theorem flatten_rendered_append_iff {spans : List Span} (h : ∀ s ∈ spans, s.Ok chrono debug)
    (hl : ∀ l ∈ linesOf spans, Text.IsLine l) {x y : Text} :
    (linesOf (spans.map (Span.rendered chrono))).flatten ++ x = (linesOf spans).flatten ++ y ↔
      (∀ s ∈ spans, Kept chrono s.source s.segment) ∧ x = y := by
  have hrl : ∀ l ∈ linesOf (spans.map (Span.rendered chrono)), Text.IsLine l := by
    intro l hm
    obtain ⟨s', hs', hm⟩ := List.mem_flatMap.mp hm
    obtain ⟨s, hs, rfl⟩ := List.mem_map.mp hs'
    exact (h s hs).rendered.2 (fun m hm' => hl m (List.mem_flatMap.mpr ⟨s, hs, hm'⟩)) l hm
  rw [← kept_iff_lines h]
  constructor
  · intro heq
    have hlines := congrArg Text.splitLines heq
    rw [Text.splitLines_flatten_append hrl, Text.splitLines_flatten_append hl] at hlines
    obtain ⟨h1, h2⟩ := (lines_cancel h).mp hlines.symm
    exact ⟨h1, (Text.splitLines_injective h2).symm⟩
  · rintro ⟨h1, rfl⟩
    have hlines := (@lines_cancel chrono debug spans h [] []).mpr ⟨h1, rfl⟩
    rw [List.append_nil, List.append_nil] at hlines
    rw [hlines]

theorem render_segments (spans : List Span) :
    render chrono ⟨spans.map Span.segment⟩ =
      (linesOf (spans.map (Span.rendered chrono))).flatten := by
  rw [render_eq, List.map_map]
  rfl

/-- A file whose one block has a second blank before its first attribute. -/
def spacedFile : Text :=
  "<!-- dayseam:begin  date=\"2026-04-17\" run_id=\"r\" template=\"t\" version=\"v\" -->\n".toList ++
    "<!-- dayseam:end -->\n".toList

/-- The document that is read from it. -/
def spacedDoc : ParsedDoc :=
  ⟨[.block ⟨⟨⟨20560⟩, ['r'], ['t'], ['v']⟩, [], .lf⟩]⟩

end Markers
end Dayseam
