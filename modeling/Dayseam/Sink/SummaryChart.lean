import Dayseam.Sink.PlainText
import Mathlib

/-!
# The day-summary block

The headline and the inline donut chart that the sink puts in front of the
sections of a day.  The arithmetic on floating-point numbers (slice angles and
percentages) is a parameter; the texts around it are the source's.

## Main definitions

* `aggregateByKind` — bullets per source kind, largest first.
* `renderHeadline`, `svgLines`, `renderBlock` — the block.

## Main results

* `plainText_renderBlock` — the block is plain text.
-/

namespace Dayseam
namespace SummaryChart

open Markers (PlainText PlainLine plainStart plainStart_literal plainLine_of_start
  plainLine_literal)

/-- The floating-point functions of the chart.  They write no line breaks. -/
structure ChartNumbers where
  wholePercent : ℕ → ℕ → ℕ
  formatPercentLegend : ℕ → ℕ → Text
  donutPaths : List ℕ → List Text
  legend_noNewline : ∀ n total, (formatPercentLegend n total).NoNewline
  paths_noNewline : ∀ segments, ∀ p ∈ donutPaths segments, p.NoNewline

/-! ### Counts -/

/-- `saturating_add(1)` on a `u32`. -/
def saturatingSucc (n : ℕ) : ℕ := min (n + 1) (2 ^ 32 - 1)

/-- One more bullet of kind `k`. -/
def countBullet (counts : List (SourceKind × ℕ)) (k : SourceKind) : List (SourceKind × ℕ) :=
  counts.map fun slot => if slot.1 = k then (slot.1, saturatingSucc slot.2) else slot

/-- Bullets per kind, by count descending and then by render order: the sort is
stable. -/
def aggregateByKind (draft : ReportDraft) : List (SourceKind × ℕ) :=
  let kinds := (draft.sections.flatMap (·.bullets)).filterMap (·.sourceKind)
  let counts := kinds.foldl countBullet (SourceKind.renderOrder.map fun k => (k, 0))
  (counts.filter fun slot => 0 < slot.2).insertionSort fun a b => b.2 ≤ a.2

/-! ### The headline -/

def clearLeaderPercent : ℕ := 40

def pluralS (n : ℕ) : Text := if n = 1 then [] else ['s']

def oxfordJoin : List Text → Text
  | [] => []
  | [a] => a
  | [a, b] => a ++ " and ".toList ++ b
  | parts => List.intercalate ", ".toList parts.dropLast ++ ", and ".toList ++ parts.getLastD []

def boldLabel (k : SourceKind) : Text := "**".toList ++ k.displayLabel ++ "**".toList

def joinBoldLabels (kinds : List SourceKind) : Text := oxfordJoin (kinds.map boldLabel)

/-- The one-sentence summary; `counts` is not empty. -/
def renderHeadline (num : ChartNumbers) (counts : List (SourceKind × ℕ)) (total : ℕ) : Text :=
  match counts with
  | [] => []
  | (kind, n) :: rest =>
    let leaders := (counts.takeWhile fun slot => slot.2 == n).map (·.1)
    let pct := num.wholePercent n total
    if rest.isEmpty then
      "Today was all **".toList ++ (kind.displayLabel ++ "** — ".toList ++ Nat.toDigits 10 n ++
        " item".toList ++ pluralS n ++ ".".toList)
    else if 2 ≤ leaders.length ∧ 2 ≤ n then
      joinBoldLabels leaders ++ (" led the day, ".toList ++ Nat.toDigits 10 n ++ " item".toList ++
        pluralS n ++ " each.".toList)
    else if clearLeaderPercent ≤ pct then
      "Most of the day was **".toList ++ (kind.displayLabel ++ "** work — ".toList ++
        Nat.toDigits 10 n ++ " item".toList ++ pluralS n ++ ", ".toList ++ Nat.toDigits 10 pct ++
        "% of today.".toList)
    else
      "Spread across ".toList ++ (oxfordJoin (counts.map fun slot =>
        boldLabel slot.1 ++ " (".toList ++ Nat.toDigits 10 slot.2 ++ ")".toList) ++ ".".toList)

/-! ### The chart -/

def connectorAccentLight : SourceKind → Text
  | .gitHub => "#24292F".toList
  | .gitLab => "#FC6D26".toList
  | .jira => "#0052CC".toList
  | .confluence => "#172B4D".toList
  | .localGit => "#F05032".toList
  | .outlook => "#0078D4".toList

def connectorAccentDark : SourceKind → Text
  | .gitHub => "#F0F6FC".toList
  | .gitLab => "#FC6D26".toList
  | .jira => "#4C9AFF".toList
  | .confluence => "#2684FF".toList
  | .localGit => "#F05032".toList
  | .outlook => "#0078D4".toList

def kindCssClass : SourceKind → Text
  | .gitHub => "github".toList
  | .gitLab => "gitlab".toList
  | .jira => "jira".toList
  | .confluence => "confluence".toList
  | .localGit => "localgit".toList
  | .outlook => "outlook".toList

def escapeXmlText (t : Text) : Text :=
  Text.replaceAll ['>'] "&gt;".toList
    (Text.replaceAll ['<'] "&lt;".toList (Text.replaceAll ['&'] "&amp;".toList t))

def escapeXmlAttr (t : Text) : Text :=
  Text.replaceAll ['"'] "&quot;".toList (escapeXmlText t)

def buildAriaLabel (counts : List (SourceKind × ℕ)) : Text :=
  "Day summary: ".toList ++ List.intercalate ", ".toList
    (counts.map fun slot => slot.1.displayLabel ++ ' ' :: Nat.toDigits 10 slot.2) ++ ".".toList

/-- The vertical centre of a legend row: 14 units a row around the centre 50. -/
def legendRowBaselineY (rowIndex rowCount : ℕ) : ℕ :=
  if rowCount = 0 then 50 else (50 - (rowCount - 1) * 14 / 2) + rowIndex * 14

/-- The tooltip of a slice and the caption of its legend row. -/
def sliceCaption (kind : SourceKind) (count : ℕ) (pct : Text) : Text :=
  kind.displayLabel ++ ' ' :: (Nat.toDigits 10 count ++ " · ".toList ++ pct)

/-- A slice whose accent differs in the dark scheme overrides its fill. -/
def darkFillLines (counts : List (SourceKind × ℕ)) : List Text :=
  (counts.filter fun slot => connectorAccentDark slot.1 ≠ connectorAccentLight slot.1).map
    fun slot => "      .ds-".toList ++ (kindCssClass slot.1 ++ " \x7b fill: ".toList ++
      connectorAccentDark slot.1 ++ "; \x7d".toList)

def pathLine (kind : SourceKind) (count : ℕ) (d pct : Text) : Text :=
  "  <path class=\"ds-".toList ++ (kindCssClass kind ++ "\" d=\"".toList ++ d ++
    "\" fill=\"".toList ++ connectorAccentLight kind ++ "\"><title>".toList ++
    escapeXmlText (sliceCaption kind count pct) ++ "</title></path>".toList)

def rectLine (kind : SourceKind) (rectTop : ℕ) : Text :=
  "    <rect class=\"ds-".toList ++ (kindCssClass kind ++ "\" x=\"110\" y=\"".toList ++
    Nat.toDigits 10 rectTop ++ "\" width=\"8\" height=\"8\" rx=\"2\" fill=\"".toList ++
    connectorAccentLight kind ++ "\"/>".toList)

def legendLine (kind : SourceKind) (count lineY : ℕ) (pct : Text) : Text :=
  "    <text class=\"ds-legend-text\" x=\"120\" y=\"".toList ++ (Nat.toDigits 10 lineY ++
    "\" fill=\"currentColor\" dominant-baseline=\"central\"".toList ++
    " font-family=\"-apple-system, BlinkMacSystemFont, 'Segoe UI', sans-serif\"".toList ++
    " font-size=\"7\">".toList ++ escapeXmlText (sliceCaption kind count pct) ++ "</text>".toList)

/-- The two lines of legend row `i`. -/
def legendRow (num : ChartNumbers) (total rowCount i : ℕ) (slot : SourceKind × ℕ) : List Text :=
  let lineY := legendRowBaselineY i rowCount
  [rectLine slot.1 (lineY - 3),
    legendLine slot.1 slot.2 lineY (num.formatPercentLegend slot.2 total)]

def svgOpenLine (aria : Text) : Text :=
  "<svg xmlns=\"http://www.w3.org/2000/svg\" viewBox=\"0 0 210 100\" width=\"151\"".toList ++
    (" height=\"72\" overflow=\"visible\" role=\"img\" aria-label=\"".toList ++
    escapeXmlAttr aria ++ "\" style=\"color: var(--text-normal,".toList ++
    " light-dark(#1f2937, #e5e7eb));\">".toList)

def centreLine (total : ℕ) : Text :=
  "  <text class=\"ds-centre-label\" x=\"50\" y=\"50\" fill=\"currentColor\"".toList ++
    (" text-anchor=\"middle\" dominant-baseline=\"central\"".toList ++
    " font-family=\"-apple-system, BlinkMacSystemFont, 'Segoe UI', sans-serif\"".toList ++
    " font-size=\"20\" font-weight=\"600\">".toList ++ Nat.toDigits 10 total ++ "</text>".toList)

def styleHeadLines : List Text :=
  ["  <style>".toList, "    .ds-centre-label,".toList, "    .ds-legend-text \x7b".toList,
    "      fill: currentColor;".toList, "    \x7d".toList,
    "    @media (prefers-color-scheme: dark) \x7b".toList]

def styleTailLines : List Text := ["    \x7d".toList, "  </style>".toList]

/-- The lines of the chart: the slices zip the counts with their paths, so an
empty path list draws no slice. -/
def svgLines (num : ChartNumbers) (counts : List (SourceKind × ℕ)) (total : ℕ) : List Text :=
  [svgOpenLine (buildAriaLabel counts)] ++ styleHeadLines ++ darkFillLines counts ++
    styleTailLines ++
    ((counts.zip (num.donutPaths (counts.map (·.2)))).map fun p =>
      pathLine p.1.1 p.1.2 p.2 (num.formatPercentLegend p.1.2 total)) ++
    [centreLine total, "  <g class=\"ds-legend\" aria-hidden=\"true\">".toList] ++
    (counts.zipIdx.flatMap fun p => legendRow num total counts.length p.2 p.1) ++
    ["  </g>".toList, "</svg>".toList]

def chartBegin : Text :=
  "<!-- dayseam:chart-begin (delete this block to drop the summary chart) -->".toList

def chartEnd : Text := "<!-- dayseam:chart-end -->".toList

/-- The whole block: nothing for a day without a chart-eligible bullet. -/
def renderBlock (num : ChartNumbers) (draft : ReportDraft) : Text :=
  let counts := aggregateByKind draft
  let total := (counts.map (·.2)).sum
  if total = 0 then []
  else
    renderHeadline num counts total ++ ['\n'] ++ ['\n'] ++
      (chartBegin ++ ['\n']) ++
      ((svgLines num counts total).map (· ++ ['\n'])).flatten ++
      (chartEnd ++ ['\n']) ++ ['\n']

/-! ### The block is plain text -/

section Plain

variable {num : ChartNumbers}

theorem noNewline_displayLabel (k : SourceKind) : k.displayLabel.NoNewline := by
  cases k <;> exact .literal (by decide)

theorem noNewline_accents (k : SourceKind) :
    (connectorAccentLight k).NoNewline ∧ (connectorAccentDark k).NoNewline ∧
      (kindCssClass k).NoNewline := by
  cases k <;> exact ⟨.literal (by decide), .literal (by decide), .literal (by decide)⟩

theorem noNewline_pluralS (n : ℕ) : (pluralS n).NoNewline := by
  unfold pluralS
  split <;> simp [Text.NoNewline]

theorem noNewline_oxfordJoin {parts : List Text} (h : ∀ p ∈ parts, p.NoNewline) :
    (oxfordJoin parts).NoNewline := by
  unfold oxfordJoin
  split
  · exact .nil
  · exact h _ (by simp)
  · exact .append (.append (h _ (by simp)) (.literal (by decide))) (h _ (by simp))
  · next hne1 _ =>
    refine .append (.append (.intercalate (.literal (by decide)) ?_) (.literal (by decide))) ?_
    · exact fun p hp => h p (List.dropLast_subset _ hp)
    · rw [List.getLastD_eq_getLast?]
      cases hl : parts.getLast? with
      | none => exact .nil
      | some p => exact h p (List.mem_of_getLast? hl)

theorem noNewline_boldLabel (k : SourceKind) : (boldLabel k).NoNewline :=
  .append (.append (.literal (by decide)) (noNewline_displayLabel k)) (.literal (by decide))

/-- A bold list of at least two labels starts with its first label. -/
theorem oxfordJoin_cons (a : Text) (b : Text) (rest : List Text) :
    ∃ t, oxfordJoin (a :: b :: rest) = a ++ t := by
  rcases rest with _ | ⟨c, rest⟩
  · exact ⟨" and ".toList ++ b, by simp only [oxfordJoin, List.append_assoc]⟩
  · refine ⟨(List.intercalate ", ".toList (a :: b :: c :: rest).dropLast).drop a.length ++
      ", and ".toList ++ (a :: b :: c :: rest).getLastD [], ?_⟩
    simp only [oxfordJoin]
    simp [List.intercalate, List.append_assoc]

theorem plainText_headline {counts : List (SourceKind × ℕ)} (h : counts ≠ []) (total : ℕ) :
    PlainText (renderHeadline num counts total ++ ['\n']) := by
  obtain ⟨⟨kind, n⟩, rest, rfl⟩ := List.exists_cons_of_ne_nil h
  have hk := noNewline_displayLabel kind
  have hd := Text.noNewline_toDigits
  have hs := noNewline_pluralS n
  simp only [renderHeadline]
  split
  · exact .start (plainStart_literal (by decide)) (.literal (by decide))
      (.append (.append (.append (.append (.append hk (.literal (by decide))) (hd n))
        (.literal (by decide))) hs) (.literal (by decide)))
  · split
    · next hlead =>
      have htail : Text.NoNewline (" led the day, ".toList ++ Nat.toDigits 10 n ++
          " item".toList ++ pluralS n ++ " each.".toList) :=
        .append (.append (.append (.append (.literal (by decide)) (hd n))
          (.literal (by decide))) hs) (.literal (by decide))
      generalize hl : (((kind, n) :: rest).takeWhile fun slot => slot.2 == n).map (·.1) = leaders
        at hlead ⊢
      rcases leaders with _ | ⟨a, _ | ⟨b, leaders⟩⟩
      · simp at hlead
      · simp at hlead
      · obtain ⟨t, ht⟩ := oxfordJoin_cons (boldLabel a) (boldLabel b) (leaders.map boldLabel)
        have hjoin : joinBoldLabels (a :: b :: leaders) = boldLabel a ++ t := ht
        have hnn : (joinBoldLabels (a :: b :: leaders)).NoNewline :=
          noNewline_oxfordJoin fun p hp => by
            obtain ⟨k, -, rfl⟩ := List.mem_map.mp hp
            exact noNewline_boldLabel k
        refine .line (hnn.append htail) ?_
        rw [hjoin, boldLabel, List.append_assoc, List.append_assoc, List.append_assoc]
        exact plainLine_of_start (plainStart_literal (by decide)) _
    · split
      · exact .start (plainStart_literal (by decide)) (.literal (by decide))
          (.append (.append (.append (.append (.append (.append (.append hk (.literal (by decide)))
            (hd n)) (.literal (by decide))) hs) (.literal (by decide))) (hd _))
            (.literal (by decide)))
      · refine .start (plainStart_literal (by decide)) (.literal (by decide))
          (.append (noNewline_oxfordJoin ?_) (.literal (by decide)))
        intro p hp
        obtain ⟨slot, -, rfl⟩ := List.mem_map.mp hp
        exact .append (.append (.append (noNewline_boldLabel _) (.literal (by decide))) (hd _))
          (.literal (by decide))

theorem noNewline_escapeXmlText {t : Text} (h : t.NoNewline) : (escapeXmlText t).NoNewline :=
  .replaceAll (.literal (by decide)) (.replaceAll (.literal (by decide))
    (.replaceAll (.literal (by decide)) h))

theorem noNewline_sliceCaption {pct : Text} (h : pct.NoNewline) (kind : SourceKind) (n : ℕ) :
    (sliceCaption kind n pct).NoNewline :=
  .append (noNewline_displayLabel kind) (.cons (by decide)
    (.append (.append (Text.noNewline_toDigits n) (.literal (by decide))) h))

theorem noNewline_buildAriaLabel (counts : List (SourceKind × ℕ)) :
    (buildAriaLabel counts).NoNewline := by
  refine .append (.append (.literal (by decide)) (.intercalate (.literal (by decide)) ?_))
    (.literal (by decide))
  intro t ht
  obtain ⟨slot, -, rfl⟩ := List.mem_map.mp ht
  exact .append (noNewline_displayLabel _) (.cons (by decide) (Text.noNewline_toDigits _))

theorem plainText_svgOpenLine {aria : Text} (h : aria.NoNewline) :
    PlainText (svgOpenLine aria ++ ['\n']) :=
  .start (plainStart_literal (by decide)) (.literal (by decide))
    (.append (.append (.append (.literal (by decide))
      (.replaceAll (.literal (by decide)) (noNewline_escapeXmlText h))) (.literal (by decide)))
      (.literal (by decide)))

/-- A fixed line of the chart. -/
theorem plainText_literal {l : List Char} (h : plainStart l = true) (hn : l.elem '\n' = false) :
    PlainText ((String.ofList l).toList ++ ['\n']) := by
  have := PlainText.start (t := []) (plainStart_literal h) (.literal hn) .nil
  simpa using this

theorem plainText_styleLines :
    ∀ l ∈ styleHeadLines ++ styleTailLines, PlainText (l ++ ['\n']) := by
  intro l hl
  simp only [styleHeadLines, styleTailLines, List.mem_append, List.mem_cons, List.not_mem_nil,
    or_false] at hl
  rcases hl with (rfl | rfl | rfl | rfl | rfl | rfl) | rfl | rfl <;>
    exact plainText_literal (by decide) (by decide)

theorem plainText_darkFillLines (counts : List (SourceKind × ℕ)) :
    ∀ l ∈ darkFillLines counts, PlainText (l ++ ['\n']) := by
  intro l hl
  obtain ⟨slot, -, rfl⟩ := List.mem_map.mp hl
  obtain ⟨-, hdark, hcls⟩ := noNewline_accents slot.1
  exact .start (plainStart_literal (by decide)) (.literal (by decide))
    (.append (.append (.append hcls (.literal (by decide))) hdark) (.literal (by decide)))

theorem plainText_pathLine {d pct : Text} (hd : d.NoNewline) (hp : pct.NoNewline)
    (kind : SourceKind) (n : ℕ) : PlainText (pathLine kind n d pct ++ ['\n']) := by
  obtain ⟨hlight, -, hcls⟩ := noNewline_accents kind
  exact .start (plainStart_literal (by decide)) (.literal (by decide))
    (.append (.append (.append (.append (.append (.append (.append hcls (.literal (by decide))) hd)
      (.literal (by decide))) hlight) (.literal (by decide)))
      (noNewline_escapeXmlText (noNewline_sliceCaption hp kind n))) (.literal (by decide)))

theorem plainText_legendRow (total rowCount i : ℕ) (slot : SourceKind × ℕ) :
    ∀ l ∈ legendRow num total rowCount i slot, PlainText (l ++ ['\n']) := by
  obtain ⟨hlight, -, hcls⟩ := noNewline_accents slot.1
  have hd := Text.noNewline_toDigits
  have hcap := noNewline_sliceCaption (num.legend_noNewline slot.2 total) slot.1 slot.2
  intro l hl
  simp only [legendRow, List.mem_cons, List.not_mem_nil, or_false] at hl
  rcases hl with rfl | rfl
  · exact .start (plainStart_literal (by decide)) (.literal (by decide))
      (.append (.append (.append (.append (.append hcls (.literal (by decide))) (hd _))
        (.literal (by decide))) hlight) (.literal (by decide)))
  · exact .start (plainStart_literal (by decide)) (.literal (by decide))
      (.append (.append (.append (.append (.append (hd _) (.literal (by decide)))
        (.literal (by decide))) (.literal (by decide))) (noNewline_escapeXmlText hcap))
        (.literal (by decide)))

theorem plainText_centreLine (total : ℕ) : PlainText (centreLine total ++ ['\n']) :=
  .start (plainStart_literal (by decide)) (.literal (by decide))
    (.append (.append (.append (.append (.literal (by decide)) (.literal (by decide)))
      (.literal (by decide))) (Text.noNewline_toDigits total)) (.literal (by decide)))

/-- Every line of the chart is plain. -/
theorem plainText_svgLines (counts : List (SourceKind × ℕ)) (total : ℕ) :
    ∀ l ∈ svgLines num counts total, PlainText (l ++ ['\n']) := by
  intro l hl
  simp only [svgLines, List.mem_append, List.mem_cons, List.not_mem_nil, or_false] at hl
  rcases hl with ((((((rfl | hl) | hl) | hl) | hl) | (rfl | rfl)) | hl) | rfl | rfl
  · exact plainText_svgOpenLine (noNewline_buildAriaLabel counts)
  · exact plainText_styleLines l (List.mem_append_left _ hl)
  · exact plainText_darkFillLines counts l hl
  · exact plainText_styleLines l (List.mem_append_right _ hl)
  · obtain ⟨⟨slot, d⟩, hmem, rfl⟩ := List.mem_map.mp hl
    exact plainText_pathLine (num.paths_noNewline _ d (List.of_mem_zip hmem).2)
      (num.legend_noNewline _ _) _ _
  · exact plainText_centreLine total
  · exact plainText_literal (by decide) (by decide)
  · obtain ⟨p, -, hl⟩ := List.mem_flatMap.mp hl
    exact plainText_legendRow total _ _ _ l hl
  · exact plainText_literal (by decide) (by decide)
  · exact plainText_literal (by decide) (by decide)

theorem plainText_chartMarks : PlainText (chartBegin ++ ['\n']) ∧ PlainText (chartEnd ++ ['\n']) := by
  refine ⟨.line (.literal (by decide)) (plainLine_literal ?_),
    .line (.literal (by decide)) (plainLine_literal ?_)⟩
  · exact ⟨by decide +kernel, by decide +kernel, by decide +kernel⟩
  · exact ⟨by decide +kernel, by decide +kernel, by decide +kernel⟩

/-- **The day-summary block is plain text.** -/
theorem plainText_renderBlock (draft : ReportDraft) : PlainText (renderBlock num draft) := by
  simp only [renderBlock]
  split
  · exact .nil
  · next h =>
    have h0 : aggregateByKind draft ≠ [] := by
      intro h0
      rw [h0] at h
      exact h rfl
    refine .append (.append (.append (.append (.append (plainText_headline h0 _) .newline)
      plainText_chartMarks.1) (.flatten ?_)) plainText_chartMarks.2) .newline
    intro t ht
    obtain ⟨l, hl, rfl⟩ := List.mem_map.mp ht
    exact plainText_svgLines _ _ l hl

end Plain

end SummaryChart
end Dayseam
