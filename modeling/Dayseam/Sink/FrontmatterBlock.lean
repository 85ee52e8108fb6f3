import Dayseam.Sink.Frontmatter
import Mathlib

/-!
# The pieces of a file with frontmatter

A file that `split` recognises is an opening delimiter with its terminator,
lines that are no delimiter, a closing delimiter line, and a body.  `split` cuts
three bytes into the closing line, so the block ends with the delimiter only
when that line has no blank before it.

## Main definitions

* `Delimited` — the pieces of such a file.
* `interior` — the lines between its delimiters.

## Main results

* `split_spec` — every recognised file has these pieces.
* `parseFlat_closed`, `parseFlat_cut`, `parseFlat_crlf` — what the merge reads
  of its block.
-/

namespace Dayseam
namespace Frontmatter

/-! ### Delimiter lines -/

theorem isDelimLine_iff {l : Text} : isDelimLine l = true ↔ l.trim = delim := by
  rw [isDelimLine, Text.trim_content, beq_iff_eq]

theorem findDelimFrom_eq_none {ls : List Text} (h : ∀ l ∈ ls, isDelimLine l = false) (o : ℕ) :
    findDelimFrom o ls = none := by
  induction ls generalizing o with
  | nil => rfl
  | cons l ls ih =>
    rw [findDelimFrom, h l (by simp)]
    exact ih (fun l hl => h l (by simp [hl])) _

theorem findDelimFrom_append {ls : List Text} (h : ∀ l ∈ ls, isDelimLine l = false)
    {close : Text} (hc : isDelimLine close = true) (post : List Text) (o : ℕ) :
    findDelimFrom o (ls ++ close :: post) = some (o + Text.byteLen ls.flatten) := by
  induction ls generalizing o with
  | nil => simp [findDelimFrom, hc]
  | cons l ls ih =>
    rw [List.cons_append, findDelimFrom, h l (by simp)]
    simp only [Bool.false_eq_true, if_false]
    rw [ih (fun l hl => h l (by simp [hl])), List.flatten_cons, Text.byteLen_append]
    congr 1
    omega

/-- The first delimiter line cuts the lines in two. -/
theorem exists_of_findDelimFrom {ls : List Text} {o k : ℕ} (h : findDelimFrom o ls = some k) :
    ∃ pre close post, ls = pre ++ close :: post ∧ (∀ l ∈ pre, isDelimLine l = false) ∧
      isDelimLine close = true ∧ k = o + Text.byteLen pre.flatten := by
  induction ls generalizing o with
  | nil => cases h
  | cons l ls ih =>
    rw [findDelimFrom] at h
    cases hl : isDelimLine l with
    | true =>
      rw [hl] at h
      cases h
      exact ⟨[], l, ls, rfl, by simp, hl, by simp⟩
    | false =>
      rw [hl] at h
      obtain ⟨pre, close, post, rfl, hpre, hclose, rfl⟩ := ih h
      refine ⟨l :: pre, close, post, rfl, List.forall_mem_cons.mpr ⟨hl, hpre⟩, hclose, ?_⟩
      rw [List.flatten_cons, Text.byteLen_append]
      omega

theorem delim_byteLen : delim.byteLen = 3 := by decide

theorem dash_not_whitespace : Text.isWhitespace '-' = false := by decide

/-! ### The pieces of a file -/

/-- The text is an opening delimiter, lines, a closing delimiter line and a body. -/
structure Delimited (t eol : Text) (ls : List Text) (close : Text) (post : List Text) : Prop where
  eol_cases : eol = ['\n'] ∨ eol = ['\r', '\n']
  text : t = delim ++ (eol ++ (ls ++ close :: post).flatten)
  cut : Text.IsLines (ls ++ close :: post)
  inside : ∀ l ∈ ls, isDelimLine l = false
  closing : isDelimLine close = true

/-- The lines between the delimiters, without their terminators. -/
def interior (t : Text) : List Text :=
  ((t.splitLines.drop 1).takeWhile fun l => !isDelimLine l).map Text.content

/-- The closing delimiter line. -/
def closingLine (t : Text) : Text :=
  ((t.splitLines.drop 1).dropWhile fun l => !isDelimLine l).headD []

section
variable {t eol : Text} {ls : List Text} {close : Text} {post : List Text}

theorem Delimited.splitLines (h : Delimited t eol ls close post) :
    t.splitLines = (delim ++ eol) :: (ls ++ close :: post) := by
  have hline : Text.IsLine (delim ++ eol) := by
    rcases h.eol_cases with rfl | rfl
    · exact ⟨delim, by decide, rfl⟩
    · exact ⟨delim ++ ['\r'], by decide, rfl⟩
  rw [h.text, ← List.append_assoc, hline.splitLines_append, h.cut.splitLines_flatten]

theorem Delimited.takeWhile (h : Delimited t eol ls close post) :
    (ls ++ close :: post).takeWhile (fun l => !isDelimLine l) = ls ∧
      (ls ++ close :: post).dropWhile (fun l => !isDelimLine l) = close :: post := by
  have hall : ∀ l ∈ ls, (!isDelimLine l) = true := fun l hl => by simp [h.inside l hl]
  constructor
  · rw [List.takeWhile_append_of_pos hall]
    simp [h.closing]
  · rw [List.dropWhile_append_of_pos hall]
    simp [h.closing]

theorem Delimited.interior_eq (h : Delimited t eol ls close post) :
    interior t = ls.map Text.content := by
  rw [interior, h.splitLines, List.drop_one, List.tail_cons, h.takeWhile.1]

theorem Delimited.closingLine_eq (h : Delimited t eol ls close post) : closingLine t = close := by
  rw [closingLine, h.splitLines, List.drop_one, List.tail_cons, h.takeWhile.2]
  rfl

theorem Delimited.isLine (h : Delimited t eol ls close post) : ∀ l ∈ ls, Text.IsLine l :=
  h.cut.isLine_left (by simp)

end

/-! ### The end of a block -/

/-- What the end of a block is: the delimiter with at most a terminator, or a
piece of an indented closing line that holds less than a delimiter. -/
inductive BlockEnd (close : Text) : Text → Prop
  | closed {eol : Text} : delim <+: close → eol = [] ∨ eol = ['\n'] ∨ eol = ['\r', '\n'] →
      BlockEnd close (delim ++ eol)
  | cut {c : Text} : ¬ delim <+: close → c ≠ [] → '\n' ∉ c → ':' ∉ c → c.trim ≠ delim →
      BlockEnd close c

theorem leadingEol_eq_some {t eol : Text} (h : leadingEol t = some eol) :
    (eol = ['\n'] ∨ eol = ['\r', '\n']) ∧ eol <+: t := by
  unfold leadingEol at h
  split at h
  · next hp =>
    cases h
    exact ⟨Or.inr rfl, List.isPrefixOf_iff_prefix.mp hp⟩
  · split at h
    · next hp =>
      cases h
      exact ⟨Or.inl rfl, List.isPrefixOf_iff_prefix.mp hp⟩
    · cases h

/-- A delimiter line is blanks, the delimiter, and blanks. -/
theorem exists_of_isDelimLine {l : Text} (h : isDelimLine l = true) :
    ∃ a b, (∀ c ∈ a, Text.isWhitespace c = true) ∧ (∀ c ∈ b, Text.isWhitespace c = true) ∧
      l = a ++ (delim ++ b) := by
  obtain ⟨a, b, ha, hb, hl⟩ := Text.exists_trim l
  rw [isDelimLine_iff.mp h] at hl
  exact ⟨a, b, ha, hb, hl⟩

/-- The three bytes cut off an indented closing line: its first blanks and at
most two dashes. -/
theorem exists_cut_of_indented {a rest cut tail : Text} (ha0 : a ≠ [])
    (h : (a ++ (delim ++ rest)).splitAtByte delim.byteLen = some (cut, tail)) :
    ∃ u, a ++ ['-', '-'] = cut ++ u ∧ tail = u ++ '-' :: rest := by
  obtain ⟨hlen, htext⟩ := Text.splitAtByte_eq_some_iff.mp h
  have hsplit : a ++ (delim ++ rest) = (a ++ ['-', '-']) ++ '-' :: rest := by simp [delim]
  rw [hsplit] at htext
  rcases List.append_eq_append_iff.mp htext with ⟨u, hu, htail⟩ | ⟨u, hu, htail⟩
  · -- the cut would hold a blank and two dashes: all of its three bytes
    have hb := congrArg Text.byteLen hu
    have h2 : Text.byteLen ['-', '-'] = 2 := by decide
    have ha1 : 1 ≤ a.byteLen := le_trans (List.length_pos_iff.mpr ha0) a.length_le_byteLen
    rw [hlen, delim_byteLen, Text.byteLen_append, Text.byteLen_append, h2] at hb
    have hu0 : u = [] := by
      have := Text.length_le_byteLen u
      exact List.length_eq_zero_iff.mp (by omega)
    subst hu0
    exact ⟨[], by simpa using hu.symm, by simpa using htail.symm⟩
  · exact ⟨u, hu, htail⟩

theorem leadingEol_eq_none {u rest : Text} (hu : '\n' ∉ u) :
    leadingEol (u ++ '-' :: rest) = none := by
  unfold leadingEol
  have h1 : ['\n'].isPrefixOf (u ++ '-' :: rest) = false := by
    rw [Bool.eq_false_iff, ne_eq, List.isPrefixOf_iff_prefix]
    rintro ⟨w, hw⟩
    cases u with
    | nil => exact absurd (List.cons.inj hw).1 (by decide)
    | cons c u => exact hu (List.mem_cons.mpr (Or.inl (List.cons.inj hw).1))
  have h2 : ['\r', '\n'].isPrefixOf (u ++ '-' :: rest) = false := by
    rw [Bool.eq_false_iff, ne_eq, List.isPrefixOf_iff_prefix]
    rintro ⟨w, hw⟩
    cases u with
    | nil => exact absurd (List.cons.inj hw).1 (by decide)
    | cons c u =>
      cases u with
      | nil => exact absurd (List.cons.inj (List.cons.inj hw).2).1 (by decide)
      | cons d u =>
        refine hu (List.mem_cons_of_mem c (List.mem_cons.mpr (Or.inl ?_)))
        exact (List.cons.inj (List.cons.inj hw).2).1
  rw [h1, h2]
  rfl

/-- An indented delimiter line has no newline before its delimiter. -/
theorem notMem_of_isLines {a rest : Text} {post : List Text}
    (h : Text.IsLines ((a ++ (delim ++ rest)) :: post)) : '\n' ∉ a := by
  have key : ∀ {s : Text}, '\n' ∉ s → a ++ (delim ++ rest) = s ++ ['\n'] → '\n' ∉ a := by
    intro s hs heq
    have hpre : a <+: s := by
      refine List.prefix_of_prefix_length_le ⟨_, heq⟩ (List.prefix_append s ['\n']) ?_
      have := congrArg List.length heq
      simp only [List.length_append, delim, List.length_cons, List.length_nil] at this
      omega
    exact fun hm => hs (hpre.subset hm)
  cases h with
  | last _ hn => exact fun hm => hn (List.mem_append_left _ hm)
  | cons hl _ =>
    obtain ⟨s, hs, heq⟩ := hl
    exact key hs heq

/-- The end of a block, cut off its closing line. -/
theorem blockEnd_of_splitAtByte {close : Text} {post : List Text}
    (hclose : isDelimLine close = true) (hl : Text.IsLines (close :: post))
    {cut rest cut' body : Text}
    (hcutat : (close ++ post.flatten).splitAtByte delim.byteLen = some (cut, rest))
    (hcutat' : (close ++ post.flatten).splitAtByte
      (delim.byteLen + Text.byteLen ((leadingEol rest).getD [])) = some (cut', body)) :
    BlockEnd close cut' := by
  obtain ⟨a, b, ha, -, rfl⟩ := exists_of_isDelimLine hclose
  by_cases ha0 : a = []
  · -- the closing line starts with the delimiter
    subst ha0
    rw [List.nil_append, List.append_assoc, Text.splitAtByte_append] at hcutat
    cases hcutat
    rw [List.nil_append, List.append_assoc, Text.splitAtByte_add, Option.map_eq_some_iff] at hcutat'
    obtain ⟨⟨e, _⟩, he, hcut'⟩ := hcutat'
    cases hcut'
    refine .closed ⟨b, by simp⟩ ?_
    cases hlead : leadingEol (b ++ post.flatten) with
    | none =>
      rw [hlead, Option.getD_none, Text.byteLen_nil, Text.splitAtByte] at he
      cases he
      exact Or.inl rfl
    | some w =>
      obtain ⟨hw, z, hz⟩ := leadingEol_eq_some hlead
      rw [hlead, Option.getD_some, ← hz, Text.splitAtByte_append] at he
      cases he
      exact Or.inr hw
  · -- the closing line is indented: the cut ends before its last dash
    obtain ⟨u, hu, rfl⟩ := @exists_cut_of_indented _ (b ++ post.flatten) _ _ ha0
      (by simpa using hcutat)
    have hna : '\n' ∉ a ++ ['-', '-'] := by
      have := notMem_of_isLines hl
      simp [this]
    have hnu : '\n' ∉ u := fun hm => hna (by rw [hu]; exact List.mem_append_right _ hm)
    rw [leadingEol_eq_none hnu] at hcutat'
    simp only [Option.getD_none, Text.byteLen_nil, Nat.add_zero] at hcutat'
    rw [hcutat] at hcutat'
    cases hcutat'
    have hsub : ∀ c ∈ cut, Text.isWhitespace c = true ∨ c = '-' := by
      intro c hc
      have hm : c ∈ a ++ ['-', '-'] := by rw [hu]; exact List.mem_append_left _ hc
      simp only [List.mem_append, List.mem_cons, List.not_mem_nil, or_false, or_self] at hm
      exact hm.imp_left (ha c)
    obtain ⟨hlen, -⟩ := Text.splitAtByte_eq_some_iff.mp hcutat
    refine .cut ?_ ?_ ?_ ?_ ?_
    · rintro ⟨w, hw⟩
      cases a with
      | nil => exact ha0 rfl
      | cons c a =>
        have hc : c = '-' := (List.cons.inj hw).1.symm
        have := ha c (by simp)
        rw [hc, dash_not_whitespace] at this
        cases this
    · rintro rfl
      rw [delim_byteLen] at hlen
      cases hlen
    · exact fun hm => hna (by rw [hu]; exact List.mem_append_left _ hm)
    · intro hm
      rcases hsub _ hm with h | h <;> revert h <;> decide
    · intro htrim
      have h3 : 3 ≤ cut.count '-' := by
        have := (Text.trim_sublist cut).count_le '-'
        rw [htrim] at this
        exact le_trans (by decide) this
      have h2 : (a ++ ['-', '-']).count '-' = 2 := by
        have ha' : a.count '-' = 0 := by
          rw [List.count_eq_zero]
          intro hm
          have := ha _ hm
          rw [dash_not_whitespace] at this
          cases this
        rw [List.count_append, ha']
        decide
      rw [hu, List.count_append] at h2
      omega

/-- **Every recognised file is delimited**, and its block ends inside the
closing line. -/
theorem split_spec {t block body : Text} (h : split t = some (some block, body)) :
    ∃ eol ls close post tail, Delimited t eol ls close post ∧ BlockEnd close tail ∧
      block = delim ++ (eol ++ (ls.flatten ++ tail)) := by
  unfold split at h
  split at h
  case isFalse => simp at h
  case isTrue hpre =>
  obtain ⟨r, rfl⟩ := List.isPrefixOf_iff_prefix.mp hpre
  rw [List.drop_left' rfl] at h
  split at h
  · simp at h
  next eol heol =>
  -- the terminator after the opening delimiter
  obtain ⟨hcases, r, rfl⟩ := leadingEol_eq_some heol
  rw [← List.append_assoc, List.drop_left' (by simp)] at h
  split at h
  · simp at h
  next k hk =>
  obtain ⟨ls, close, post, hlines, hin, hclose, rfl⟩ := exists_of_findDelimFrom hk
  have hr : r = (ls ++ close :: post).flatten := by rw [← hlines, Text.flatten_splitLines]
  have hcut : Text.IsLines (ls ++ close :: post) := hlines ▸ Text.isLines_splitLines r
  have hdel : Delimited ((delim ++ eol) ++ r) eol ls close post :=
    ⟨hcases, by rw [hr, List.append_assoc], hcut, hin, hclose⟩
  -- the text up to the closing line, and the bytes cut off that line
  have htext : (delim ++ eol) ++ r = (delim ++ (eol ++ ls.flatten)) ++ (close ++ post.flatten) := by
    rw [hr]
    simp
  have hoff : delim.byteLen + eol.byteLen + (0 + Text.byteLen ls.flatten) =
      Text.byteLen (delim ++ (eol ++ ls.flatten)) := by
    rw [Text.byteLen_append, Text.byteLen_append]
    omega
  simp only [htext, hoff, Text.splitAtByte_add, Nat.add_assoc, Option.bind_eq_bind,
    Option.bind_eq_some_iff, Option.map_eq_some_iff, Prod.exists, Prod.mk.injEq] at h
  obtain ⟨_, rest, ⟨cut, _, hcutat, rfl, rfl⟩, _, _, ⟨cut', _, hcutat', rfl, rfl⟩, h⟩ := h
  simp only [Option.some.injEq, Prod.mk.injEq] at h
  obtain ⟨rfl, rfl⟩ := h
  exact ⟨eol, ls, close, post, cut', htext ▸ hdel,
    blockEnd_of_splitAtByte hclose hcut.right hcutat hcutat', by simp⟩

/-! ### What the merge reads -/

/-- The entries of the text between the opening delimiter and the first
delimiter line after it. -/
theorem parseFlat_lf (inner : Text) :
    parseFlat (delim ++ (['\n'] ++ inner)) = (match findDelimLine inner with
      | some close => (inner.splitAtByte close).map Prod.fst
      | none => some inner).map fun body : Text => body.lines.map parseLine := by
  have hpre : delim.isPrefixOf (delim ++ (['\n'] ++ inner)) = true := by
    rw [List.isPrefixOf_iff_prefix]
    exact List.prefix_append ..
  have hnl : ['\n'].isPrefixOf (List.drop delim.length (delim ++ (['\n'] ++ inner))) = true := by
    rw [List.drop_left' rfl, List.isPrefixOf_iff_prefix]
    exact List.prefix_append ..
  have hdrop : List.drop (delim.length + 1) (delim ++ (['\n'] ++ inner)) = inner := rfl
  unfold parseFlat
  rw [if_pos ⟨hpre, hnl⟩, hdrop]
  dsimp only
  cases findDelimLine inner with
  | none => rfl
  | some close => cases h : inner.splitAtByte close <;> simp [h]

section
variable {ls : List Text} (hl : ∀ l ∈ ls, Text.IsLine l) (hin : ∀ l ∈ ls, isDelimLine l = false)
include hl hin

/-- A closed block is read line by line. -/
theorem parseFlat_closed {eol : Text} (he : eol = [] ∨ eol = ['\n'] ∨ eol = ['\r', '\n']) :
    parseFlat (delim ++ (['\n'] ++ (ls.flatten ++ (delim ++ eol)))) =
      some ((ls.map Text.stripTerminator).map parseLine) := by
  have hsplit : Text.splitLines (delim ++ eol) = [delim ++ eol] := by
    rcases he with rfl | rfl | rfl <;> decide
  have hd : isDelimLine (delim ++ eol) = true := by
    rcases he with rfl | rfl | rfl <;> decide
  have hfind : findDelimLine (ls.flatten ++ (delim ++ eol)) = some (Text.byteLen ls.flatten) := by
    rw [findDelimLine, Text.splitLines_flatten_append hl, hsplit, findDelimFrom_append hin hd,
      Nat.zero_add]
  rw [parseFlat_lf, hfind]
  simp only [Text.splitAtByte_append, Option.map_some, Text.lines, Text.splitLines_flatten hl]

/-- A block that ends in a piece of its closing line is read with that piece. -/
theorem parseFlat_cut {cut : Text} (h0 : cut ≠ []) (hn : '\n' ∉ cut) (ht : cut.trim ≠ delim) :
    parseFlat (delim ++ (['\n'] ++ (ls.flatten ++ cut))) =
      some (((ls ++ [cut]).map Text.stripTerminator).map parseLine) := by
  have hd : isDelimLine cut = false := by
    rw [Bool.eq_false_iff]
    exact fun h => ht (isDelimLine_iff.mp h)
  have hsplit : Text.splitLines (ls.flatten ++ cut) = ls ++ [cut] := by
    rw [Text.splitLines_flatten_append hl, Text.splitLines_of_notMem h0 hn]
  have hfind : findDelimLine (ls.flatten ++ cut) = none := by
    rw [findDelimLine, hsplit]
    refine findDelimFrom_eq_none ?_ 0
    intro l hm
    rcases List.mem_append.mp hm with hm | hm
    · exact hin l hm
    · rw [List.mem_singleton.mp hm]
      exact hd
  rw [parseFlat_lf, hfind]
  simp only [Option.map_some, Text.lines, hsplit]

end

/-- After `---\r\n` nothing of the block is read: the search for the closing
delimiter finds the opening one. -/
theorem parseFlat_crlf (r : Text) : parseFlat (delim ++ (['\r', '\n'] ++ r)) = some [] := by
  have hline : Text.IsLine (delim ++ ['\r', '\n']) := ⟨delim ++ ['\r'], by decide, rfl⟩
  have hd : isDelimLine (delim ++ ['\r', '\n']) = true := by decide
  have hfind : findDelimLine (delim ++ (['\r', '\n'] ++ r)) = some 0 := by
    rw [findDelimLine, ← List.append_assoc, hline.splitLines_append, findDelimFrom, if_pos hd]
  unfold parseFlat
  rw [if_neg (by simp)]
  simp only [hfind]
  rfl

end Frontmatter
end Dayseam
