import Dayseam.Sink.MarkerRoundTrip
import Mathlib

/-!
# Plain text

A line is plain when the scanner takes it for text wherever it stands: it is no
marker, and it opens no fence, so it closes none either.  A text of plain lines
can be the body of a block whatever its author wrote into it.

## Main results

* `plainLine_of_start` — the first characters of a line can make it plain.
* `PlainText.sound` — a block with a plain body is sound.
-/

namespace Dayseam
namespace Markers

/-! ### Plain lines -/

/-- The scanner takes the line for text wherever it stands. -/
structure PlainLine (line : Text) : Prop where
  opens_none : FenceSentinel.detectOpen line.trim = none
  not_end : isEndMarker line.trim = false
  not_begin : isBeginMarker line.trim = false

/-- A text of plain lines, all terminated. -/
structure PlainText (t : Text) : Prop where
  ends : t.EndsLine
  lines : ∀ l ∈ t.splitLines, PlainLine l

theorem PlainLine.lineKind {line : Text} (h : PlainLine line) (fence : Option FenceSentinel) :
    lineKind fence line = .text := by
  cases fence with
  | some f => rfl
  | none =>
    simp [Markers.lineKind, trimmedLine_eq_trim, h.opens_none, h.not_end, h.not_begin]

theorem PlainLine.fenceStep {line : Text} (h : PlainLine line) : fenceStep none line = none := by
  simp [Markers.fenceStep, trimmedLine_eq_trim, h.opens_none]

/-- A fence that some line opened. -/
def FenceSentinel.Opened (f : FenceSentinel) : Prop := (f.delim = '`' ∨ f.delim = '~') ∧ 3 ≤ f.len

theorem opened_of_detectOpen {t : Text} {f : FenceSentinel}
    (h : FenceSentinel.detectOpen t = some f) : f.Opened := by
  obtain ⟨delim, hd, hf⟩ := List.exists_of_findSome?_eq_some h
  simp only at hf
  split at hf
  · next hc =>
    cases hf
    exact ⟨by simpa using hd, hc⟩
  · cases hf

theorem opened_of_fenceAfter {ls : List Text} {fence : Option FenceSentinel} {f : FenceSentinel}
    (h0 : ∀ g, fence = some g → g.Opened) (h : fenceAfter fence ls = some f) : f.Opened := by
  induction ls generalizing fence with
  | nil => exact h0 f h
  | cons l ls ih =>
    refine ih (fun g hg => ?_) h
    cases fence with
    | none => exact opened_of_detectOpen hg
    | some e =>
      simp only [fenceStep] at hg
      split at hg
      · cases hg
      · exact h0 g hg

/-- A run of delimiters that is long enough to close a fence would open one. -/
theorem lineCloses_of_detectOpen_eq_none {t : Text} (h : FenceSentinel.detectOpen t = none)
    {f : FenceSentinel} (hf : f.Opened) : f.lineCloses t = false := by
  unfold FenceSentinel.lineCloses
  split
  · rfl
  · have hlt : ¬ 3 ≤ (t.takeWhile (· == f.delim)).length := by
      have hall := List.findSome?_eq_none_iff.mp h f.delim (by simpa using hf.1)
      intro hc
      rw [if_pos hc] at hall
      cases hall
    have hf2 := hf.2
    simp only [Bool.and_eq_false_iff, decide_eq_false_iff_not]
    exact Or.inl (by omega)

/-- Lines that open no fence leave an open one open, and are all text in it. -/
theorem allText_in_fence {ls : List Text} {f : FenceSentinel} (hf : f.Opened)
    (h : ∀ l ∈ ls, FenceSentinel.detectOpen l.trim = none) :
    AllText (some f) ls ∧ fenceAfter (some f) ls = some f := by
  induction ls with
  | nil => exact ⟨trivial, rfl⟩
  | cons l ls ih =>
    have hstep : fenceStep (some f) l = some f := by
      simp [fenceStep, trimmedLine_eq_trim,
        lineCloses_of_detectOpen_eq_none (h l (by simp)) hf]
    obtain ⟨h1, h2⟩ := ih fun m hm => h m (by simp [hm])
    rw [fenceAfter_cons, hstep]
    exact ⟨⟨rfl, by rw [hstep]; exact h1⟩, h2⟩

theorem allText_of_plainLine {ls : List Text} (h : ∀ l ∈ ls, PlainLine l) :
    AllText none ls ∧ fenceAfter none ls = none := by
  induction ls with
  | nil => exact ⟨trivial, rfl⟩
  | cons l ls ih =>
    obtain ⟨h1, h2⟩ := ih fun m hm => h m (by simp [hm])
    have hl := h l (by simp)
    rw [fenceAfter_cons, hl.fenceStep]
    exact ⟨⟨hl.lineKind none, by rw [hl.fenceStep]; exact h1⟩, h2⟩

/-- The first characters of a line after its indentation are enough for the line
to be plain: no fence delimiter, and not the `<!` of a comment. -/
def plainStart (t : Text) : Bool :=
  match t.trimStart with
  | [] => false
  | '<' :: d :: _ => d != '!'
  | ['<'] => false
  | c :: _ => c != '`' && c != '~'

theorem plainStart_cases {s : Text} (h : plainStart s = true) :
    ∃ c r, s.trimStart = c :: r ∧ c ≠ '`' ∧ c ≠ '~' ∧
      (c = '<' → ∃ d u, r = d :: u ∧ d ≠ '!') := by
  unfold plainStart at h
  split at h
  · cases h
  · next d u hs => exact ⟨'<', d :: u, hs, by decide, by decide, fun _ => ⟨d, u, rfl, by simpa using h⟩⟩
  · cases h
  · next c r hne hlt hs =>
    simp only [Bool.and_eq_true, bne_iff_ne] at h
    refine ⟨c, r, hs, h.1, h.2, ?_⟩
    rintro rfl
    rcases r with _ | ⟨d, u⟩
    · exact (hlt rfl rfl).elim
    · exact (hne d u rfl rfl).elim

/-- **The first characters of a line can make it plain**, whatever follows. -/
theorem plainLine_of_start {s : Text} (h : plainStart s = true) (t : Text) :
    PlainLine (s ++ t) := by
  obtain ⟨c, r, hs, h1, h2, h3⟩ := plainStart_cases h
  have hx : (s ++ t).trimStart = c :: (r ++ t) := by
    rw [Text.trimStart_append_of_ne_nil (by simp [hs]), hs]
    rfl
  have hp : (s ++ t).trim <+: c :: (r ++ t) := hx ▸ Text.trim_isPrefix (s ++ t)
  -- both markers start a comment, which the line does not
  have hcomment : ∀ m : Text, ('<' :: '!' :: m) <+: c :: (r ++ t) → False := by
    rintro m ⟨u, hu⟩
    simp only [List.cons_append, List.cons.injEq] at hu
    obtain ⟨d, v, rfl, hd⟩ := h3 hu.1.symm
    simp only [List.cons_append, List.cons.injEq] at hu
    exact hd hu.2.1.symm
  refine ⟨?_, ?_, ?_⟩
  · rcases hl : (s ++ t).trim with _ | ⟨d, u⟩
    · rfl
    · rw [hl] at hp
      obtain ⟨v, hv⟩ := hp
      simp only [List.cons_append, List.cons.injEq] at hv
      rw [hv.1]
      exact detectOpen_cons h1 h2 u
  · by_contra he
    rw [Bool.not_eq_false, isEndMarker, beq_iff_eq] at he
    rw [he, endMarker_eq] at hp
    exact hcomment _ hp
  · by_contra hb
    rw [Bool.not_eq_false, isBeginMarker, Bool.and_eq_true, List.isPrefixOf_iff_prefix,
      beginPrefix_eq] at hb
    exact hcomment _ (hb.1.trans hp)

theorem plainStart_literal {l : List Char} (h : plainStart l = true) :
    plainStart (String.ofList l).toList = true := by
  rw [String.toList_ofList]
  exact h

theorem plainLine_literal {l : List Char} (h : PlainLine l) :
    PlainLine (String.ofList l).toList := by
  rw [String.toList_ofList]
  exact h

theorem plainLine_nil : PlainLine [] := ⟨rfl, rfl, rfl⟩

/-! ### Plain texts -/

theorem PlainText.nil : PlainText [] := ⟨Or.inl rfl, by simp⟩

theorem PlainText.append {s t : Text} (hs : PlainText s) (ht : PlainText t) :
    PlainText (s ++ t) := by
  refine ⟨hs.ends.append ht.ends, fun l hl => ?_⟩
  rw [hs.ends.splitLines_append] at hl
  rcases List.mem_append.mp hl with hl | hl
  · exact hs.lines l hl
  · exact ht.lines l hl

theorem PlainText.flatten {ts : List Text} (h : ∀ t ∈ ts, PlainText t) : PlainText ts.flatten := by
  induction ts with
  | nil => exact .nil
  | cons t ts ih =>
    rw [List.flatten_cons]
    exact (h t (by simp)).append (ih fun u hu => h u (by simp [hu]))

/-- One plain line. -/
theorem PlainText.line {s : Text} (hn : s.NoNewline) (hp : PlainLine s) :
    PlainText (s ++ ['\n']) := by
  refine ⟨Or.inr ⟨s, rfl⟩, fun l hl => ?_⟩
  have hsplit := Text.splitLines_append_newline hn []
  simp only [Text.splitLines_nil] at hsplit
  rw [hsplit, List.mem_singleton] at hl
  subst hl
  exact ⟨by rw [Text.trim_append_newline]; exact hp.opens_none,
    by rw [Text.trim_append_newline]; exact hp.not_end,
    by rw [Text.trim_append_newline]; exact hp.not_begin⟩

theorem PlainText.newline : PlainText ['\n'] := PlainText.line .nil plainLine_nil

/-- One line with a plain start. -/
theorem PlainText.start {s t : Text} (hs : plainStart s = true) (hn : s.NoNewline)
    (ht : t.NoNewline) : PlainText (s ++ t ++ ['\n']) :=
  .line (hn.append ht) (plainLine_of_start hs t)

/-- **A block with a plain body is sound.** -/
theorem PlainText.sound {b : Block} (hb : PlainText b.body) (ha : b.attrs.Clean) : b.Sound :=
  ⟨ha, hb.ends, (allText_of_plainLine hb.lines).1, (allText_of_plainLine hb.lines).2⟩

end Markers
end Dayseam
