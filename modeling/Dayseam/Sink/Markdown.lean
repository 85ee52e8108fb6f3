import Dayseam.Sink.SummaryChart
import Mathlib

/-!
# From a draft to the body of a block

The sink assembles the markdown of a draft itself: the day-summary block, then
one heading per section, one subheading per source kind and one line per bullet.
Bullet texts come from upstream, so line breaks and comment openers in them are
neutralised.

## Main definitions

* `sanitiseBulletText`, `groupBulletsByKind`, `renderSections`, `renderBody`.
* `ReportDraft.Printable` — what the report engine promises of its drafts.
* `buildBlock` — the block that `write` splices in.

## Main results

* `plainText_renderBody` — the body of a printable draft is plain text.
* `buildBlock_sound` — the block of a printable draft is sound.
-/

namespace Dayseam
namespace Markdown

open Markers SummaryChart

def markerToken : Text := "<!--".toList
def markerTokenNeutralised : Text := "&lt;!--".toList

def sanitiseBulletText (text : Text) : Text :=
  Text.replaceAll markerToken markerTokenNeutralised
    (text.map fun c => if c = '\r' ∨ c = '\n' then ' ' else c)

/-- The bullets of a section by kind in render order, and last those without one. -/
def groupBulletsByKind (bullets : List RenderedBullet) :
    List (Option SourceKind × List RenderedBullet) :=
  let groups := SourceKind.renderOrder.map fun k =>
    (some k, bullets.filter fun b => b.sourceKind = some k)
  let unattributed := bullets.filter fun b => b.sourceKind = none
  (groups.filter fun g => !g.2.isEmpty) ++
    (if unattributed.isEmpty then [] else [(none, unattributed)])

def renderBullet (b : RenderedBullet) : Text :=
  "- ".toList ++ sanitiseBulletText b.text ++ ['\n']

def renderGroup (g : Option SourceKind × List RenderedBullet) : Text :=
  (match g.1 with
    | some kind => "### ".toList ++ kind.displayWithEmoji ++ ['\n'] ++ ['\n']
    | none => []) ++
    (g.2.map renderBullet).flatten

def renderSection (s : RenderedSection) : Text :=
  "## ".toList ++ s.title ++ ['\n'] ++ ['\n'] ++
    List.intercalate ['\n'] ((groupBulletsByKind s.bullets).map renderGroup)

def renderSections (draft : ReportDraft) : Text :=
  withNewline (List.intercalate ['\n'] (draft.sections.map renderSection))

def renderBody (num : ChartNumbers) (draft : ReportDraft) : Text :=
  SummaryChart.renderBlock num draft ++ renderSections draft

/-- The block that the sink's `write` builds: the run id falls back to the draft's. -/
def buildBlock (num : ChartNumbers) (runId : Option Uuid) (draft : ReportDraft) : Block where
  attrs :=
    { date := draft.date
      runId := (runId.getD draft.id).display
      template := draft.templateId
      version := draft.templateVersion }
  body := renderBody num draft
  lineEnding := .lf

/-! ### The body is plain text -/

theorem noNewline_sanitise (text : Text) : (sanitiseBulletText text).NoNewline := by
  refine .replaceAll (.literal (by decide)) ?_
  simp only [Text.NoNewline, List.mem_map, not_exists, not_and]
  intro c _ hc
  split at hc
  · exact absurd hc (by decide)
  · next h => exact h (Or.inr hc)

theorem plainText_renderBullet (b : RenderedBullet) : PlainText (renderBullet b) :=
  .start (plainStart_literal (by decide)) (.literal (by decide)) (noNewline_sanitise b.text)

theorem noNewline_displayWithEmoji (k : SourceKind) : Text.NoNewline k.displayWithEmoji := by
  refine .append ?_ (.cons (by decide) (noNewline_displayLabel k))
  cases k <;> exact .literal (by decide)

theorem plainText_renderGroup (g : Option SourceKind × List RenderedBullet) :
    PlainText (renderGroup g) := by
  refine .append ?_ (.flatten ?_)
  · split
    · exact .append (.start (plainStart_literal (by decide)) (.literal (by decide))
        (noNewline_displayWithEmoji _)) .newline
    · exact .nil
  · intro t ht
    obtain ⟨b, -, rfl⟩ := List.mem_map.mp ht
    exact plainText_renderBullet b

theorem plainText_intercalate {ts : List Text} (h : ∀ t ∈ ts, PlainText t) :
    PlainText (List.intercalate ['\n'] ts) := by
  induction ts with
  | nil => exact .nil
  | cons a ts ih =>
    have iht := ih fun u hu => h u (by simp [hu])
    rcases ts with _ | ⟨b, ts⟩
    · simpa [List.intercalate] using h a (by simp)
    · have hcons : List.intercalate ['\n'] (a :: b :: ts) =
          a ++ ['\n'] ++ List.intercalate ['\n'] (b :: ts) := by
        simp [List.intercalate, List.append_assoc]
      rw [hcons]
      exact .append (.append (h a (by simp)) .newline) iht

theorem plainText_renderSection {s : RenderedSection} (h : Text.NoNewline s.title) :
    PlainText (renderSection s) := by
  refine .append (.append (.start (plainStart_literal (by decide)) (.literal (by decide)) h)
    .newline) (plainText_intercalate ?_)
  intro t ht
  obtain ⟨g, -, rfl⟩ := List.mem_map.mp ht
  exact plainText_renderGroup g

/-- What the report engine promises of its drafts: titles from its own table, and
the template's fixed identifier and version. -/
structure Printable (draft : ReportDraft) : Prop where
  titles : ∀ s ∈ draft.sections, Text.NoNewline s.title
  template : GoodValue draft.templateId
  version : GoodValue draft.templateVersion

theorem plainText_withNewline {t : Text} (h : PlainText t) : PlainText (withNewline t) := by
  unfold withNewline
  split
  · exact h
  · exact h.append .newline

theorem plainText_renderSections {draft : ReportDraft}
    (h : ∀ s ∈ draft.sections, Text.NoNewline s.title) : PlainText (renderSections draft) := by
  refine plainText_withNewline (plainText_intercalate ?_)
  intro t ht
  obtain ⟨s, hs, rfl⟩ := List.mem_map.mp ht
  exact plainText_renderSection (h s hs)

/-- The body of a draft is plain text, whatever its bullets say. -/
theorem plainText_of_titles {num : ChartNumbers} {draft : ReportDraft}
    (h : ∀ s ∈ draft.sections, Text.NoNewline s.title) : PlainText (renderBody num draft) :=
  (plainText_renderBlock draft).append (plainText_renderSections h)

/-- **The body of a printable draft is plain text.** -/
theorem plainText_renderBody {num : ChartNumbers} {draft : ReportDraft} (h : Printable draft) :
    PlainText (renderBody num draft) := plainText_of_titles h.titles

theorem goodValue_display (u : Uuid) : GoodValue u.display := by
  constructor <;> intro hc <;> exact absurd (isUuidChar_of_mem_display hc) (by decide)

theorem buildBlock_clean {num : ChartNumbers} {runId : Option Uuid} {draft : ReportDraft}
    (h : Printable draft) : (buildBlock num runId draft).attrs.Clean :=
  ⟨goodValue_display _, h.template, h.version⟩

/-- **The block of a printable draft is sound.** -/
theorem buildBlock_sound {num : ChartNumbers} {runId : Option Uuid} {draft : ReportDraft}
    (h : Printable draft) : (buildBlock num runId draft).Sound :=
  (plainText_renderBody h).sound (buildBlock_clean h)

end Markdown
end Dayseam
