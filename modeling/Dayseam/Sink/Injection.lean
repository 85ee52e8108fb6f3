import Dayseam.Sink.Saving
import Mathlib

/-!
# Bullets cannot inject markers

Commit titles and calendar subjects are written by others.  Whatever they hold, no
line of a rendered body is a marker or opens a fence, so the block that is built
from a draft is the only one that is read back.

## Main results

* `bullets_never_inject` — **what a bullet says is never taken for a marker.**
-/

namespace Dayseam
namespace Markers

open Markdown SummaryChart

/-- A block with a plain body is read back as it was written. -/
theorem parse_render_block {chrono : Chrono} {debug : DebugText} {b : Block}
    (hb : PlainText b.body) (ha : b.attrs.Clean) (hlf : b.lineEnding = .lf) :
    parse chrono debug (render chrono ⟨[.block b]⟩) = .ok ⟨[.block b]⟩ := by
  have hpad : padding b = [] := by
    rcases hb.ends with h | ⟨s, h⟩
    · simp [padding, h]
    · simp [padding, endsWithCompatibleNewline, hlf, LineEnding.isCrlf, h]
  have hsettled : b.settled = b := by
    simp [Block.settled, hpad]
  rw [parse_render (.block (hb.sound ha) .nil)]
  simp [Segment.settled, hsettled]

/-- **Nothing in a bullet is taken for a marker or a fence**: no line of the body is
a begin marker, an end marker or the opener of a fence, and the block of the draft
is the only thing that is read back from its rendering. -/
theorem bullets_never_inject {chrono : Chrono} {debug : DebugText} {num : ChartNumbers}
    {runId : Option Uuid} {draft : ReportDraft}
    (titles : ∀ s ∈ draft.sections, Text.NoNewline s.title) :
    (∀ line ∈ (renderBody num draft).splitLines, isBeginMarker (trimmedLine line) = false ∧
      isEndMarker (trimmedLine line) = false ∧
        FenceSentinel.detectOpen (trimmedLine line) = none) ∧
    (GoodValue draft.templateId → GoodValue draft.templateVersion →
      parse chrono debug (render chrono ⟨[.block (buildBlock num runId draft)]⟩) =
        .ok ⟨[.block (buildBlock num runId draft)]⟩) := by
  have hplain : PlainText (renderBody num draft) := plainText_of_titles titles
  constructor
  · intro line hline
    have hl := hplain.lines line hline
    rw [trimmedLine_eq_trim]
    exact ⟨hl.not_begin, hl.not_end, hl.opens_none⟩
  · intro ht hv
    exact parse_render_block hplain (buildBlock_clean ⟨titles, ht, hv⟩) rfl

/-- A commit title with an end marker, a begin marker and a fence on lines of their
own. -/
def hostileDraft : ReportDraft := { quietDraft with
  sections := [{
    id := "commits".toList
    title := "Commits".toList
    bullets := [{
      id := "b_1".toList
      text := "fix\n<!-- dayseam:end -->\n<!-- dayseam:begin -->\n```\n".toList
      sourceKind := none }] }] }

theorem hostile_bullet_is_inert :
    parse Chrono.iso id (render Chrono.iso
        ⟨[.block (buildBlock ChartNumbers.quiet none hostileDraft)]⟩) =
      .ok ⟨[.block (buildBlock ChartNumbers.quiet none hostileDraft)]⟩ := by
  refine (@bullets_never_inject Chrono.iso id ChartNumbers.quiet none hostileDraft ?_).2
    printable_quietDraft.template printable_quietDraft.version
  intro s hs
  rw [List.mem_singleton.mp hs]
  exact .literal (by decide)

end Markers
end Dayseam
