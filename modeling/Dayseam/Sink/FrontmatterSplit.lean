import Dayseam.Sink.FrontmatterMerge
import Mathlib

/-!
# Where a frontmatter block ends

`split` looks for the closing line with its blanks trimmed, and cuts three bytes behind
the place where the line starts.  The cut is at the end of the line only when the line is
the bare delimiter.  A block that a merge writes is split off again, unless a value
brings a delimiter line of its own.

## Main definitions

* `Flush` — a closing line without blanks.
* `SplitsSafely` — a file is cut behind its closing line, before and after a save.
* `Separable` — the condition.

## Main results

* `split_of_delimited` — what `split` cuts off a file with a block.
* `split_written_iff` — a written block is split off again when no entry holds a
  delimiter line.
* `splitsSafely_iff` — **exactly when splitting is safe.**
-/

namespace Dayseam
namespace Frontmatter

/-- The line is the delimiter and its terminator. -/
def Flush (close : Text) : Prop :=
  close = delim ∨ close = delim ++ ['\n'] ∨ close = delim ++ ['\r', '\n']

/-- The text starts with a delimiter line. -/
def Opens (t : Text) : Prop := delim ++ ['\n'] <+: t ∨ delim ++ ['\r', '\n'] <+: t

/-- What stands behind the closing line. -/
def afterClosing (t : Text) : Text :=
  (((t.splitLines.drop 1).dropWhile fun l => !isDelimLine l).drop 1).flatten

variable {t eol : Text} {ls : List Text} {close : Text} {post : List Text}

/-! ### What is cut off -/

theorem forall_of_findDelimFrom_eq_none {ls : List Text} {o : ℕ} (h : findDelimFrom o ls = none) :
    ∀ l ∈ ls, isDelimLine l = false := by
  induction ls generalizing o with
  | nil => exact fun _ hm => absurd hm List.not_mem_nil
  | cons m ls ih =>
    rw [findDelimFrom] at h
    cases hm : isDelimLine m with
    | true =>
      rw [hm] at h
      cases h
    | false =>
      rw [hm] at h
      exact List.forall_mem_cons.mpr ⟨hm, ih h⟩

theorem isLine_opening (hcases : eol = ['\n'] ∨ eol = ['\r', '\n']) :
    Text.IsLine (delim ++ eol) := by
  rcases hcases with rfl | rfl
  · exact ⟨delim, by decide, rfl⟩
  · exact ⟨delim ++ ['\r'], by decide, rfl⟩

theorem leadingEol_append (hcases : eol = ['\n'] ∨ eol = ['\r', '\n']) (r : Text) :
    leadingEol (eol ++ r) = some eol := by
  rcases hcases with rfl | rfl
  · rfl
  · rfl

theorem opens_iff {r : Text} : Opens (delim ++ r) ↔ leadingEol r ≠ none := by
  unfold Opens leadingEol
  rw [List.prefix_append_right_inj, List.prefix_append_right_inj, ← List.isPrefixOf_iff_prefix,
    ← List.isPrefixOf_iff_prefix]
  cases ['\r', '\n'].isPrefixOf r <;> cases ['\n'].isPrefixOf r <;> simp

/-- A text has the pieces of a file with a block, or `split` leaves it alone. -/
theorem split_none_or_delimited (t : Text) :
    (split t = some (none, t) ∧ (Opens t → closingLine t = [])) ∨
      ∃ eol ls close post, Delimited t eol ls close post := by
  by_cases hpre : delim.isPrefixOf t = true
  swap
  · -- no delimiter at the start
    refine Or.inl ⟨?_, fun hopen => absurd ?_ hpre⟩
    · unfold split
      rw [if_neg hpre]
    · rw [List.isPrefixOf_iff_prefix]
      rcases hopen with h | h
      · exact (List.prefix_append _ _).trans h
      · exact (List.prefix_append _ _).trans h
  obtain ⟨r, rfl⟩ := List.isPrefixOf_iff_prefix.mp hpre
  have hdrop : (delim ++ r).drop delim.length = r := List.drop_left' rfl
  cases heol : leadingEol r with
  | none =>
    refine Or.inl ⟨?_, fun hopen => absurd heol (opens_iff.mp hopen)⟩
    unfold split
    rw [if_pos hpre, hdrop, heol]
  | some eol =>
    obtain ⟨hcases, r, rfl⟩ := leadingEol_eq_some heol
    cases hfind : findDelimLine r with
    | none =>
      have hdrop' : (delim ++ (eol ++ r)).drop (delim.length + eol.length) = r := by
        rw [← List.append_assoc]
        exact List.drop_left' (by simp)
      refine Or.inl ⟨?_, fun _ => ?_⟩
      · unfold split
        rw [if_pos hpre, hdrop, heol]
        dsimp only
        rw [hdrop', hfind]
      · have hall : ∀ l ∈ Text.splitLines r, (!isDelimLine l) = true := fun l hl => by
          rw [forall_of_findDelimFrom_eq_none hfind l hl]
          rfl
        rw [closingLine, ← List.append_assoc, (isLine_opening hcases).splitLines_append,
          List.drop_one, List.tail_cons, List.dropWhile_eq_nil_iff.mpr hall]
        rfl
    | some k =>
      obtain ⟨ls, close, post, hlines, hin, hclose, -⟩ := exists_of_findDelimFrom hfind
      have hr : r = (ls ++ close :: post).flatten := by rw [← hlines, Text.flatten_splitLines]
      exact Or.inr ⟨eol, ls, close, post, hcases, by rw [← hr],
        hlines ▸ Text.isLines_splitLines r, hin, hclose⟩

/-- **What `split` cuts off a file with a block**: the first three bytes of the closing
line, and a terminator where one follows. -/
theorem split_of_delimited (h : Delimited t eol ls close post) :
    split t = ((close ++ post.flatten).splitAtByte delim.byteLen).bind fun first =>
      ((close ++ post.flatten).splitAtByte
        (delim.byteLen + ((leadingEol first.2).getD []).byteLen)).map fun cut =>
          (some (delim ++ (eol ++ (ls.flatten ++ cut.1))), cut.2) := by
  obtain ⟨hcases, htext, hcut, hin, hclose⟩ := h
  have hflat : (ls ++ close :: post).flatten = ls.flatten ++ (close ++ post.flatten) := by simp
  have hfind : findDelimLine (ls ++ close :: post).flatten = some (Text.byteLen ls.flatten) := by
    rw [findDelimLine, hcut.splitLines_flatten, findDelimFrom_append hin hclose, Nat.zero_add]
  have hpre : delim.isPrefixOf t = true := by
    rw [List.isPrefixOf_iff_prefix, htext]
    exact List.prefix_append _ _
  have hdrop : t.drop delim.length = eol ++ (ls ++ close :: post).flatten := by
    rw [htext]
    exact List.drop_left' rfl
  have hdrop' : t.drop (delim.length + eol.length) = (ls ++ close :: post).flatten := by
    rw [htext, ← List.append_assoc]
    exact List.drop_left' (by simp)
  have htext' : t = (delim ++ (eol ++ ls.flatten)) ++ (close ++ post.flatten) := by
    rw [htext, hflat]
    simp
  have hoff : delim.byteLen + eol.byteLen + Text.byteLen ls.flatten =
      Text.byteLen (delim ++ (eol ++ ls.flatten)) := by
    rw [Text.byteLen_append, Text.byteLen_append]
    omega
  unfold split
  rw [if_pos hpre, hdrop, leadingEol_append hcases]
  dsimp only
  rw [hdrop', hfind]
  dsimp only
  simp only [htext', hoff, Text.splitAtByte_add, Nat.add_assoc]
  cases (close ++ post.flatten).splitAtByte delim.byteLen with
  | none => rfl
  | some first =>
    simp only [Option.bind_eq_bind, Option.map_some, Option.bind_some]
    cases (close ++ post.flatten).splitAtByte
        (delim.byteLen + ((leadingEol first.2).getD []).byteLen) with
    | none => rfl
    | some cut => simp

/-- A bare closing line is cut off whole. -/
theorem split_of_flush (h : Delimited t eol ls close post) (hf : Flush close) :
    split t = some (some (delim ++ (eol ++ (ls.flatten ++ close))), post.flatten) := by
  have hpost : close = delim → post = [] := by
    rintro rfl
    cases h.cut.right with
    | last => rfl
    | cons hl _ => exact absurd hl.newline_isSuffix (by decide)
  have hcut : ∀ e r : Text, (close ++ post.flatten) = delim ++ (e ++ r) →
      (leadingEol (e ++ r)).getD [] = e → close = delim ++ e → r = post.flatten →
      split t = some (some (delim ++ (eol ++ (ls.flatten ++ close))), post.flatten) := by
    intro e r htext hlead hclose hr
    rw [split_of_delimited h, htext, Text.splitAtByte_append, Option.bind_some]
    dsimp only
    rw [hlead, ← Text.byteLen_append, ← List.append_assoc, Text.splitAtByte_append, Option.map_some,
      hclose, hr]
  rcases hf with rfl | rfl | rfl
  · rw [hpost rfl] at hcut ⊢
    exact hcut [] [] rfl rfl rfl rfl
  · exact hcut _ post.flatten (by simp) rfl rfl rfl
  · exact hcut _ post.flatten (by simp) rfl rfl rfl

theorem Delimited.afterClosing_eq (h : Delimited t eol ls close post) :
    afterClosing t = post.flatten := by
  rw [afterClosing, h.splitLines]
  show ((List.dropWhile _ (ls ++ close :: post)).drop 1).flatten = post.flatten
  rw [h.takeWhile.2]
  rfl

/-- A text has one opening line, one list of inner lines and one closing line. -/
theorem Delimited.unique {eol' : Text} {ls' : List Text} {close' : Text} {post' : List Text}
    (h : Delimited t eol ls close post) (h' : Delimited t eol' ls' close' post') :
    eol' = eol ∧ ls' = ls ∧ close' = close := by
  have hlines := h'.splitLines.symm.trans h.splitLines
  obtain ⟨hopen, hrest⟩ := List.cons.inj hlines
  refine ⟨List.append_cancel_left hopen, ?_, ?_⟩
  · rw [← h'.takeWhile.1, hrest, h.takeWhile.1]
  · rw [← h'.closingLine_eq, h.closingLine_eq]

/-- A file with a block is never left alone. -/
theorem Delimited.split_ne (h : Delimited t eol ls close post) (body : Text) :
    split t ≠ some (none, body) := by
  intro heq
  simp only [split_of_delimited h, Option.bind_eq_some_iff, Option.map_eq_some_iff,
    Prod.mk.injEq, reduceCtorEq, false_and, and_false, exists_false] at heq

/-- Only a bare closing line is cut off whole. -/
theorem flush_of_split (h : Delimited t eol ls close post) {block body : Text}
    (hs : split t = some (some block, body)) (htext : block ++ body = t)
    (hbody : body = afterClosing t) : Flush close := by
  obtain ⟨eol', ls', close', post', tail, hd, hend, rfl⟩ := split_spec hs
  obtain ⟨rfl, rfl, rfl⟩ := h.unique hd
  -- what is cut off the closing line is all of it
  have htail : tail = close' := by
    rw [hbody, hd.afterClosing_eq] at htext
    have hflat : (ls' ++ close' :: post').flatten = ls'.flatten ++ (close' ++ post'.flatten) := by
      simp
    have heq := htext.trans hd.text
    rw [hflat] at heq
    simp only [List.append_assoc, List.append_cancel_left_eq] at heq
    exact List.append_cancel_right heq
  subst htail
  cases hend with
  | closed _ he =>
    rcases he with rfl | rfl | rfl
    · exact Or.inl (List.append_nil _)
    · exact Or.inr (Or.inl rfl)
    · exact Or.inr (Or.inr rfl)
  | cut _ _ _ _ htrim => exact absurd (isDelimLine_iff.mp hd.closing) htrim

/-! ### What a merge writes -/

/-- None of the lines that the entry is written as is a delimiter line. -/
def Written (e : Entry) : Prop := ∀ l ∈ e.text.splitLines, isDelimLine l = false

/-- No line of the value but the first is a delimiter line. -/
def NoDelimInside (v : Text) : Prop := ∀ l ∈ v.splitLines.drop 1, isDelimLine l = false

theorem endsLine_text (e : Entry) : Text.EndsLine e.text := by
  cases e with
  | pair k v => exact Or.inr ⟨k ++ ':' :: ' ' :: v, by simp [Entry.text]⟩
  | other raw =>
    rw [Entry.text]
    split_ifs with h
    · obtain ⟨s, hs⟩ := List.isSuffixOf_iff_suffix.mp h
      exact Or.inr ⟨s, hs.symm⟩
    · exact Or.inr ⟨raw, rfl⟩

theorem splitLines_texts (es : List Entry) :
    Text.splitLines (es.map Entry.text).flatten = es.flatMap fun e => e.text.splitLines := by
  induction es with
  | nil => rfl
  | cons e es ih =>
    rw [List.map_cons, List.flatten_cons, (endsLine_text e).splitLines_append, ih,
      List.flatMap_cons]

theorem endsLine_texts (es : List Entry) : Text.EndsLine (es.map Entry.text).flatten := by
  induction es with
  | nil => exact Or.inl rfl
  | cons e es ih =>
    rw [List.map_cons, List.flatten_cons]
    exact (endsLine_text e).append ih

/-- The block that is written for a list of entries. -/
def blockOf (es : List Entry) : Text :=
  delim ++ '\n' :: ((es.map Entry.text).flatten ++ delim ++ ['\n'])

theorem inside_texts_iff {P : Text → Prop} (es : List Entry) :
    (∀ l ∈ Text.splitLines (es.map Entry.text).flatten, P l) ↔
      ∀ e ∈ es, ∀ l ∈ e.text.splitLines, P l := by
  rw [splitLines_texts]
  simp only [List.mem_flatMap, forall_exists_index, and_imp]
  exact ⟨fun h e he l hl => h l e he hl, fun h l e he hl => h e he l hl⟩

/-- The closing line of a block that ends with a bare delimiter line is that line. -/
theorem tail_of_bare_end {inner lines close tail : Text} (hend : BlockEnd close tail)
    (h : inner ++ (delim ++ ['\n']) = lines ++ tail) : tail = delim ++ ['\n'] := by
  cases hend with
  | closed _ he =>
    rcases he with rfl | rfl | rfl
    · -- the block would end with a dash
      rw [← List.append_assoc, List.append_nil] at h
      exact absurd (congrArg List.getLast? h) (by simp [delim])
    · rfl
    · -- the character before the newline would be a carriage return
      have h : (inner ++ ['-', '-']) ++ ['-', '\n'] = (lines ++ delim) ++ ['\r', '\n'] := by
        simpa [delim] using h
      exact absurd (List.append_inj' h rfl).2 (by decide)
  | cut _ h0 hn _ _ =>
    -- what is cut off a longer line does not reach its newline
    obtain ⟨u, c, rfl⟩ := (List.eq_nil_or_concat tail).resolve_left h0
    rw [List.concat_eq_append, ← List.append_assoc, ← List.append_assoc] at h
    have hc := (List.append_inj' h rfl).2
    exact absurd (by simp [← (List.cons.inj hc).1]) hn

/-- **A written block is split off again** when none of its entries holds a delimiter
line. -/
theorem split_written_iff (es : List Entry) (body : Text) :
    split (blockOf es ++ body) = some (some (blockOf es), body) ↔ ∀ e ∈ es, Written e := by
  constructor
  · intro h
    obtain ⟨eol, ls, close, post, tail, hd, hend, hblock⟩ := split_spec h
    refine (inside_texts_iff es).mp ?_
    -- the block starts with a newline and ends with a bare delimiter
    have heol : eol = ['\n'] := by
      rcases hd.eol_cases with rfl | rfl
      · rfl
      · exact absurd (List.append_cancel_left hblock) (by simp)
    subst heol
    have hinner : (es.map Entry.text).flatten ++ (delim ++ ['\n']) = ls.flatten ++ tail := by
      have hrest := List.append_cancel_left hblock
      rw [List.append_assoc] at hrest
      exact (List.cons.inj hrest).2
    rw [tail_of_bare_end hend hinner] at hinner
    rw [List.append_cancel_right hinner, Text.splitLines_flatten hd.isLine]
    exact hd.inside
  · intro h
    have hd : Delimited (blockOf es ++ body) ['\n']
        (Text.splitLines (es.map Entry.text).flatten) (delim ++ ['\n']) body.splitLines := by
      refine ⟨Or.inl rfl, ?_, ?_, (inside_texts_iff es).mpr h, by decide⟩
      · rw [List.flatten_append, Text.flatten_splitLines, List.flatten_cons,
          Text.flatten_splitLines, blockOf]
        simp
      · exact .append (endsLine_texts es).isLine
          (.cons ⟨delim, by decide, rfl⟩ (Text.isLines_splitLines body))
    rw [split_of_flush hd (Or.inr (Or.inl rfl)), Text.flatten_splitLines, Text.flatten_splitLines,
      blockOf]
    simp

/-! ### Which entries hold no delimiter line -/

theorem isDelimLine_newline (l : Text) : isDelimLine (l ++ ['\n']) = isDelimLine l := by
  rw [isDelimLine, Text.content_append_newline, isDelimLine]

/-- A text before a text belongs to its first line. -/
theorem splitLines_append_of_notMem {p v : Text} (hp : '\n' ∉ p) {l : Text} {rest : List Text}
    (h : Text.splitLines v = l :: rest) : Text.splitLines (p ++ v) = (p ++ l) :: rest := by
  induction p with
  | nil => exact h
  | cons c p ih =>
    have hc : c ≠ '\n' := fun e => hp (by simp [e])
    have ih := ih fun hm => hp (List.mem_cons_of_mem c hm)
    rw [List.cons_append, Text.splitLines, if_neg hc, ih]
    rfl

/-- A line with a colon is no delimiter line. -/
theorem isDelimLine_of_colon {l : Text} (h : ':' ∈ l) : isDelimLine l = false := by
  rw [Bool.eq_false_iff]
  intro hd
  obtain ⟨a, b, ha, hb, rfl⟩ := exists_of_isDelimLine hd
  rcases List.mem_append.mp h with h | h
  · exact absurd (ha _ h) (by decide)
  · rcases List.mem_append.mp h with h | h
    · exact absurd h (by decide)
    · exact absurd (hb _ h) (by decide)

theorem noDelimInside_of_noNewline {v : Text} (h : Text.NoNewline v) : NoDelimInside v := by
  intro l hl
  by_cases hv : v = []
  · subst hv
    exact absurd hl List.not_mem_nil
  · rw [Text.splitLines_of_notMem hv h] at hl
    exact absurd hl List.not_mem_nil

/-- A newline at the end adds no delimiter line. -/
theorem noDelimInside_append_newline (v : Text) :
    NoDelimInside (v ++ ['\n']) ↔ NoDelimInside v := by
  obtain ⟨ls, r, hls, hr, rfl⟩ := Text.exists_lines_and_tail v
  have hlast : Text.splitLines (r ++ ['\n']) = [r ++ ['\n']] :=
    Text.splitLines_append_newline hr []
  have htail : (∀ l ∈ [r ++ ['\n']], isDelimLine l = false) ↔
      ∀ l ∈ Text.splitLines r, isDelimLine l = false := by
    rw [List.forall_mem_singleton, isDelimLine_newline]
    by_cases h0 : r = []
    · subst h0
      exact iff_of_true (by decide) fun l hl => absurd hl List.not_mem_nil
    · rw [Text.splitLines_of_notMem h0 hr, List.forall_mem_singleton]
  unfold NoDelimInside
  rw [List.append_assoc, Text.splitLines_flatten_append hls, Text.splitLines_flatten_append hls,
    hlast]
  cases ls with
  | nil =>
    refine iff_of_true (fun l hl => absurd hl List.not_mem_nil) fun l hl => ?_
    by_cases h0 : r = []
    · subst h0
      exact absurd hl List.not_mem_nil
    · rw [List.nil_append, Text.splitLines_of_notMem h0 hr] at hl
      exact absurd hl List.not_mem_nil
  | cons l ls =>
    show (∀ m ∈ ls ++ [r ++ ['\n']], _) ↔ ∀ m ∈ ls ++ Text.splitLines r, _
    rw [List.forall_mem_append, List.forall_mem_append, htail]

/-- A pair holds a delimiter line when its value does behind its first line. -/
theorem written_pair_iff {k : Text} (hk : '\n' ∉ k) (v : Text) :
    Written (.pair k v) ↔ NoDelimInside v := by
  have hp : '\n' ∉ k ++ [':', ' '] := by simp [hk]
  have htext : Entry.text (.pair k v) = (k ++ [':', ' ']) ++ (v ++ ['\n']) := by simp [Entry.text]
  rw [← noDelimInside_append_newline]
  obtain ⟨l, rest, hl⟩ := List.exists_cons_of_ne_nil
    (Text.splitLines_ne_nil (List.append_ne_nil_of_right_ne_nil v (List.cons_ne_nil '\n' [])))
  unfold Written NoDelimInside
  rw [htext, splitLines_append_of_notMem hp hl, hl, List.drop_one, List.tail_cons,
    List.forall_mem_cons]
  exact and_iff_right (isDelimLine_of_colon (by simp))

/-- A line of a block is written without a delimiter line. -/
theorem written_parseLine {l : Text} (hn : Text.NoNewline l) (hd : isDelimLine l = false) :
    Written (parseLine l) := by
  have hw := writes_parseLine hn hd
  intro m hm
  have hone : Text.splitLines (parseLine l).text = [(parseLine l).text] := by
    have hline := hw.isLine.splitLines_append []
    rwa [List.append_nil] at hline
  rw [hone, List.mem_singleton] at hm
  rw [hm]
  exact hw.inside

theorem mem_upsert {k v : Text} {es : List Entry} {e : Entry} (h : e ∈ upsert k v es) :
    e = .pair k v ∨ e ∈ es := by
  induction es with
  | nil => exact Or.inl (List.mem_singleton.mp h)
  | cons d es ih =>
    cases d with
    | pair k' v' =>
      rw [upsert] at h
      split_ifs at h with hk
      · subst hk
        exact (List.mem_cons.mp h).imp_right (List.mem_cons_of_mem _)
      · rcases List.mem_cons.mp h with rfl | h
        · exact Or.inr List.mem_cons_self
        · exact (ih h).imp_right (List.mem_cons_of_mem _)
    | other raw =>
      rcases List.mem_cons.mp h with rfl | h
      · exact Or.inr List.mem_cons_self
      · exact (ih h).imp_right (List.mem_cons_of_mem _)

theorem mem_upsertAll {kvs : List (Text × Text)} {es : List Entry} {e : Entry}
    (h : e ∈ upsertAll kvs es) : (∃ kv ∈ kvs, e = .pair kv.1 kv.2) ∨ e ∈ es := by
  induction kvs generalizing es with
  | nil => exact Or.inr h
  | cons kv kvs ih =>
    rcases ih h with ⟨kv', hkv', rfl⟩ | h
    · exact Or.inl ⟨kv', List.mem_cons_of_mem _ hkv', rfl⟩
    · exact (mem_upsert h).imp_left fun he => ⟨kv, List.mem_cons_self, he⟩

/-- Behind lines that are no delimiter, only the pairs that are set can be one. -/
theorem written_upsertAll_iff {kvs : List (Text × Text)} (hnd : (kvs.map Prod.fst).Nodup)
    {es : List Entry} (hes : ∀ e ∈ es, Written e) :
    (∀ e ∈ upsertAll kvs es, Written e) ↔ ∀ kv ∈ kvs, Written (.pair kv.1 kv.2) := by
  constructor
  · intro h kv hkv
    refine h _ (List.mem_of_mem_filter (p := fun e => decide (e.key? = some kv.1)) ?_)
    show _ ∈ withKey (some kv.1) (upsertAll kvs es)
    rw [withKey_upsertAll_of_mem hnd hkv]
    exact List.mem_cons_self
  · intro h e he
    rcases mem_upsertAll he with ⟨kv, hkv, rfl⟩ | he
    · exact h kv hkv
    · exact hes e he

section
variable (chrono : Chrono) (rfc : Rfc3339) (f : FrontmatterFields)

/-- The date and the stamp are texts of one line. -/
theorem written_owned_iff :
    (∀ kv ∈ f.owned chrono rfc, Written (.pair kv.1 kv.2)) ↔
      NoDelimInside f.template ∧ NoDelimInside f.templateVersion := by
  have hdate := noDelimInside_of_noNewline (plainValue_display chrono f.date).2
  have hstamp : NoDelimInside (rfc.toRfc3339 f.generatedAt) :=
    noDelimInside_of_noNewline fun hm => absurd (rfc.oneLine _ _ hm) (by decide)
  simp only [FrontmatterFields.owned, List.forall_mem_cons, List.not_mem_nil, false_implies,
    implies_true, and_true]
  rw [written_pair_iff (by decide), written_pair_iff (by decide), written_pair_iff (by decide),
    written_pair_iff (by decide)]
  exact ⟨fun h => ⟨h.2.1, h.2.2.1⟩, fun h => ⟨hdate, h.1, h.2, hstamp⟩⟩

/-! ### Splitting before and after a save -/

/-- The file is cut in two behind its closing line, if it has a block, and the block that
a save writes is cut off again before the same body. -/
def SplitsSafely (t : Text) : Prop :=
  ∃ fm body, split t = some (fm, body) ∧ fm.getD [] ++ body = t ∧
    (fm ≠ none → body = afterClosing t) ∧
    ∃ merged, merge chrono rfc fm f = some merged ∧
      split (merged ++ body) = some (some merged, body)

/-- The closing line is a bare delimiter, and the values of the save bring no delimiter
line. -/
structure Separable (f : FrontmatterFields) (t : Text) : Prop where
  closing : Opens t → closingLine t = [] ∨ Flush (closingLine t)
  template : NoDelimInside f.template
  templateVersion : NoDelimInside f.templateVersion

/-- What a merge writes is split off again just when the values bring no delimiter line. -/
theorem split_merge_iff {fm : Option Text} {raw : List Text} (body : Text)
    (hread : fm.elim (some []) parseFlat = some (raw.map parseLine))
    (hraw : ∀ l ∈ raw, Text.NoNewline l ∧ isDelimLine l = false) :
    (∃ merged, merge chrono rfc fm f = some merged ∧
      split (merged ++ body) = some (some merged, body)) ↔
        NoDelimInside f.template ∧ NoDelimInside f.templateVersion := by
  have hmerge : merge chrono rfc fm f =
      some (blockOf (upsertAll (f.owned chrono rfc) (raw.map parseLine))) := by
    cases fm with
    | none =>
      rw [← Option.some.inj hread]
      rfl
    | some block =>
      have hread : parseFlat block = some (raw.map parseLine) := hread
      simp only [merge, hread, Option.bind_eq_bind, Option.bind_some]
      rfl
  have hnodup : ((f.owned chrono rfc).map Prod.fst).Nodup := by
    show ownedKeys.Nodup
    decide
  have hwritten : ∀ e ∈ raw.map parseLine, Written e := by
    intro e he
    obtain ⟨l, hl, rfl⟩ := List.mem_map.mp he
    exact written_parseLine (hraw l hl).1 (hraw l hl).2
  rw [hmerge, ← written_owned_iff chrono rfc f, ← written_upsertAll_iff hnodup hwritten,
    ← split_written_iff _ body]
  simp

/-- The block of a file whose closing line is bare is read back, and written anew. -/
theorem split_merge_of_flush (hd : Delimited t eol ls close post) (hf : Flush close)
    (body : Text) :
    (∃ merged, merge chrono rfc (some (delim ++ (eol ++ (ls.flatten ++ close)))) f = some merged ∧
      split (merged ++ body) = some (some merged, body)) ↔
        NoDelimInside f.template ∧ NoDelimInside f.templateVersion := by
  rcases hd.eol_cases with rfl | rfl
  · refine split_merge_iff chrono rfc f body ?_ hd.stripped
    rcases hf with rfl | rfl | rfl
    · exact parseFlat_closed hd.isLine hd.inside (Or.inl rfl)
    · exact parseFlat_closed hd.isLine hd.inside (Or.inr (Or.inl rfl))
    · exact parseFlat_closed hd.isLine hd.inside (Or.inr (Or.inr rfl))
  · -- of a block that opens with CRLF nothing is read
    exact @split_merge_iff chrono rfc f _ [] body (parseFlat_crlf _)
      fun _ h => absurd h List.not_mem_nil

/-- **Exactly when splitting is safe.** -/
theorem splitsSafely_iff (t : Text) : SplitsSafely chrono rfc f t ↔ Separable f t := by
  rcases split_none_or_delimited t with ⟨hnone, hclosing⟩ | ⟨eol, ls, close, post, hd⟩
  · -- the file has no block
    have hmerged := @split_merge_iff chrono rfc f none [] t rfl
      fun _ h => absurd h List.not_mem_nil
    constructor
    · rintro ⟨fm, body, hs, -, -, hm⟩
      cases hnone.symm.trans hs
      exact ⟨fun ho => Or.inl (hclosing ho), (hmerged.mp hm).1, (hmerged.mp hm).2⟩
    · intro h
      exact ⟨none, t, hnone, rfl, fun hne => absurd rfl hne,
        hmerged.mpr ⟨h.template, h.templateVersion⟩⟩
  · have hopens : Opens t := by
      rcases hd.eol_cases with rfl | rfl
      · exact Or.inl (hd.lf_iff.1.mpr rfl)
      · exact Or.inr (hd.lf_iff.2.mpr rfl)
    have hne : closingLine t ≠ [] := by
      rw [hd.closingLine_eq]
      rintro rfl
      exact absurd hd.closing (by decide)
    constructor
    · rintro ⟨fm, body, hs, htext, hbody, hm⟩
      cases fm with
      | none => exact absurd hs (hd.split_ne body)
      | some block =>
        have hf := flush_of_split hd hs htext (hbody (Option.some_ne_none _))
        cases (split_of_flush hd hf).symm.trans hs
        have hvalues := (split_merge_of_flush chrono rfc f hd hf _).mp hm
        exact ⟨fun _ => Or.inr (hd.closingLine_eq ▸ hf), hvalues.1, hvalues.2⟩
    · intro h
      have hf : Flush close := hd.closingLine_eq ▸ (h.closing hopens).resolve_left hne
      refine ⟨_, _, split_of_flush hd hf, ?_, fun _ => hd.afterClosing_eq.symm,
        (split_merge_of_flush chrono rfc f hd hf _).mpr ⟨h.template, h.templateVersion⟩⟩
      rw [hd.text]
      simp

end

/-! ### A closing line with blanks -/

/-- A file whose closing line ends with a blank. -/
def paddedFile : Text := "---\ntags: x\n--- \nbody\n".toList

/-- A file whose closing line starts with two blanks of two bytes each. -/
def indentedFile : Text := "---\ntags: x\n\u00a0\u00a0---\nbody\n".toList

/-- **A blank behind the closing delimiter** is moved into the body, and blanks before it
can cut a character in two. -/
theorem padded_closing_line :
    split paddedFile = some (some "---\ntags: x\n---".toList, " \nbody\n".toList) ∧
      afterClosing paddedFile = "body\n".toList ∧ split indentedFile = none ∧
      ¬SplitsSafely Chrono.iso Rfc3339.utc sampleFields paddedFile ∧
      ¬SplitsSafely Chrono.iso Rfc3339.utc sampleFields indentedFile := by
  have hpadded : split paddedFile =
      some (some "---\ntags: x\n---".toList, " \nbody\n".toList) := by decide +kernel
  have hafter : afterClosing paddedFile = "body\n".toList := by decide +kernel
  have hindented : split indentedFile = none := by decide +kernel
  refine ⟨hpadded, hafter, hindented, ?_, ?_⟩
  · rintro ⟨fm, body, hs, -, hbody, -⟩
    cases hpadded.symm.trans hs
    exact absurd ((hbody (Option.some_ne_none _)).trans hafter) (by decide +kernel)
  · rintro ⟨fm, body, hs, -⟩
    exact nomatch hindented.symm.trans hs

end Frontmatter
end Dayseam
