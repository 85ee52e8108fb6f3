import Dayseam.Sink.Saving
import Mathlib

/-!
# The note as a map from days to blocks

The block of a day is the first one that has its date.  A save puts its block in the place
of that one, or behind everything else; every other day keeps its block, whatever the prose
between them is.  Only a code fence that the file leaves open takes no new day.

## Main definitions

* `blockFor` — the block of a day.
* `Takes` — the file has a place for the day.

## Main results

* `blockFor_splice` — a splice is the update of the map at the block's day.
* `save_blockFor` — **a save is read back as the update.**
* `saveAll_blockFor` — what a run of saves leaves of each of them.
-/

namespace Dayseam
namespace Markers

open Markdown SummaryChart

variable {chrono : Chrono} {debug : DebugText}

/-- The first block of the day. -/
def blockFor (d : NaiveDate) : List Segment → Option Block
  | [] => none
  | .prose _ :: rest => blockFor d rest
  | .block e :: rest => if e.attrs.date = d then some e else blockFor d rest

/-- A block of the day can be put into the file: it has one, or it leaves no fence open. -/
def Takes (d : NaiveDate) (segments : List Segment) : Prop :=
  endFence segments = none ∨ (blockFor d segments).isSome

/-- The block as a save puts it into the file: it takes over the terminator of the block that
it replaces. -/
def placed (segments : List Segment) (b : Block) : Block :=
  { b with
    lineEnding := ((blockFor b.attrs.date segments).map Block.lineEnding).getD b.lineEnding }

/-! ### The block of a day -/

theorem blockFor_append (d : NaiveDate) (xs ys : List Segment) :
    blockFor d (xs ++ ys) = (blockFor d xs).or (blockFor d ys) := by
  induction xs with
  | nil => rfl
  | cons s xs ih =>
    cases s with
    | prose p => exact ih
    | block e =>
      by_cases he : e.attrs.date = d
      · simp [blockFor, he]
      · simp [blockFor, he, ih]

theorem blockFor_eq_none_iff {d : NaiveDate} {segments : List Segment} :
    blockFor d segments = none ↔ NoBlockOf d segments := by
  induction segments with
  | nil => simp [blockFor, NoBlockOf]
  | cons s rest ih =>
    cases s with
    | prose p => simpa [blockFor, NoBlockOf] using ih
    | block e =>
      by_cases he : e.attrs.date = d
      · simp only [blockFor, if_pos he, reduceCtorEq, false_iff]
        exact fun h => h e List.mem_cons_self he
      · simp only [blockFor, if_neg he, ih]
        constructor
        · intro h x hx
          rcases List.mem_cons.mp hx with hx | hx
          · cases hx
            exact he
          · exact h x hx
        · exact fun h x hx => h x (List.mem_cons_of_mem _ hx)

/-- The block of a day cuts the file in two. -/
theorem exists_cut {d : NaiveDate} {segments : List Segment} {e : Block}
    (h : blockFor d segments = some e) :
    ∃ pre post, segments = pre ++ .block e :: post ∧ NoBlockOf d pre ∧ e.attrs.date = d := by
  have hnot : ¬NoBlockOf d segments := by
    rw [← blockFor_eq_none_iff, h]
    exact Option.some_ne_none e
  simp only [NoBlockOf, not_forall, not_not] at hnot
  obtain ⟨x, hx, hd⟩ := hnot
  obtain ⟨pre, e', post, rfl, hpre, he⟩ := exists_first_block hx hd
  rw [blockFor_append, blockFor_eq_none_iff.mpr hpre] at h
  obtain rfl : e' = e := by simpa [blockFor, he] using h
  exact ⟨pre, post, rfl, hpre, he⟩

/-- A block is read back with the terminator that its body needs. -/
theorem blockFor_settled (d : NaiveDate) (segments : List Segment) :
    blockFor d (segments.map Segment.settled) = (blockFor d segments).map Block.settled := by
  induction segments with
  | nil => rfl
  | cons s rest ih =>
    cases s with
    | prose p => exact ih
    | block e =>
      have hdate : e.settled.attrs.date = e.attrs.date := rfl
      by_cases he : e.attrs.date = d
      · simp [blockFor, Segment.settled, hdate, he]
      · simp [blockFor, Segment.settled, hdate, he, ih]

theorem blockFor_ensureTrailingNewline (d : NaiveDate) (segments : List Segment) :
    blockFor d (ensureTrailingNewline segments) = blockFor d segments := by
  fun_induction ensureTrailingNewline segments with
  | case1 => rfl
  | case2 p => rfl
  | case3 s rest hs ih =>
    cases s with
    | prose p => exact ih
    | block e => simp only [blockFor, ih]

/-! ### The open fence -/

theorem endFence_block (b : Block) (rest : List Segment) :
    endFence (.block b :: rest) = endFence rest := by
  cases rest with
  | nil => rfl
  | cons s rest => exact endFence_cons_of_ne_nil (by simp)

/-- The fence at the end is that of the last segment. -/
theorem endFence_append {xs ys : List Segment} (h : ys ≠ []) :
    endFence (xs ++ ys) = endFence ys := by
  induction xs with
  | nil => rfl
  | cons s xs ih =>
    rw [List.cons_append, endFence_cons_of_ne_nil (by simp [h]), ih]

theorem endFence_settled (segments : List Segment) :
    endFence (segments.map Segment.settled) = endFence segments := by
  induction segments with
  | nil => rfl
  | cons s rest ih =>
    cases rest with
    | nil => cases s <;> rfl
    | cons s' rest =>
      rw [endFence_cons_of_ne_nil (List.cons_ne_nil s' rest), ← ih, List.map_cons,
        endFence_cons_of_ne_nil (by simp)]

/-! ### The update -/

section

variable {segments : List Segment} {b : Block}

/-- A splice, by whether the day has a block. -/
theorem splice_segments (segments : List Segment) (b : Block) :
    (∃ pre e post, segments = pre ++ .block e :: post ∧ NoBlockOf b.attrs.date pre ∧
      e.attrs.date = b.attrs.date ∧ blockFor b.attrs.date segments = some e ∧
      (splice ⟨segments⟩ b).1.segments = pre ++ .block (placed segments b) :: post) ∨
    (blockFor b.attrs.date segments = none ∧ placed segments b = b ∧
      (splice ⟨segments⟩ b).1.segments = ensureTrailingNewline segments ++ [.block b]) := by
  cases hfor : blockFor b.attrs.date segments with
  | some e =>
    obtain ⟨pre, post, rfl, hpre, he⟩ := exists_cut hfor
    refine Or.inl ⟨pre, e, post, rfl, hpre, he, rfl, ?_⟩
    rw [splice_append hpre he]
    simp [placed, hfor]
  | none =>
    refine Or.inr ⟨rfl, ?_, ?_⟩
    · simp [placed, hfor]
    · rw [splice_of_noBlock (blockFor_eq_none_iff.mp hfor)]

/-- **A splice is the update of the map at the block's day.** -/
theorem blockFor_splice (d : NaiveDate) :
    blockFor d (splice ⟨segments⟩ b).1.segments =
      if d = b.attrs.date then some (placed segments b) else blockFor d segments := by
  rcases splice_segments segments b with
    ⟨pre, e, post, hsegments, hpre, he, hfor, hsplice⟩ | ⟨hfor, hplaced, hsplice⟩
  · have hdate : (placed segments b).attrs.date = b.attrs.date := rfl
    rw [hsplice, blockFor_append]
    by_cases hd : d = b.attrs.date
    · subst hd
      simp [blockFor_eq_none_iff.mpr hpre, blockFor, hdate]
    · -- neither the old block nor the new one is of this day
      rw [if_neg hd]
      conv_rhs => rw [hsegments, blockFor_append]
      simp [blockFor, hdate, he, Ne.symm hd]
  · rw [hsplice, blockFor_append, blockFor_ensureTrailingNewline]
    by_cases hd : d = b.attrs.date
    · subst hd
      simp [hfor, blockFor, hplaced]
    · simp [blockFor, hd, Ne.symm hd]

theorem SoundDoc.splice (h : SoundDoc segments) (hb : b.Sound) (ht : Takes b.attrs.date segments) :
    SoundDoc (splice ⟨segments⟩ b).1.segments := by
  rcases splice_segments segments b with
    ⟨pre, e, post, rfl, hpre, he, hfor, hsplice⟩ | ⟨hfor, -, hsplice⟩
  · rw [hsplice]
    exact h.replace (hb.withLineEnding _)
  · rw [hsplice]
    refine h.append_block (ht.resolve_right ?_) hb
    simp [hfor]

/-- A save takes no day's place away. -/
theorem Takes.splice {d : NaiveDate} (h : Takes d segments) :
    Takes d (splice ⟨segments⟩ b).1.segments := by
  rcases h with hfence | hsome
  · left
    rcases splice_segments segments b with
      ⟨pre, e, post, rfl, -, -, -, hsplice⟩ | ⟨-, -, hsplice⟩
    · rw [hsplice, endFence_append (by simp), endFence_block, ← hfence,
        endFence_append (by simp), endFence_block]
    · rw [hsplice, endFence_append (by simp)]
      rfl
  · right
    rw [blockFor_splice]
    split_ifs
    · rfl
    · exact hsome

theorem Takes.settled {d : NaiveDate} (h : Takes d segments) :
    Takes d (segments.map Segment.settled) := by
  unfold Takes
  rw [endFence_settled, blockFor_settled, Option.isSome_map]
  exact h

end

/-! ### Saves -/

/-- **A save is read back as the update at its day**: the day has the block that was saved, and
every other day has the block that it had. -/
theorem save_blockFor {text : Text} {doc : ParsedDoc} {b : Block}
    (h : parse chrono debug text = .ok doc) (hb : b.Sound)
    (ht : Takes b.attrs.date doc.segments) :
    ∃ out doc', save chrono debug text b = .ok out ∧ parse chrono debug out = .ok doc' ∧
      (∀ d, Takes d doc.segments → Takes d doc'.segments) ∧
      ∀ d, blockFor d doc'.segments = if d = b.attrs.date
        then some (placed doc.segments b).settled
        else (blockFor d doc.segments).map Block.settled := by
  obtain ⟨segments⟩ := doc
  have hsound : SoundDoc (splice ⟨segments⟩ b).1.segments := (soundDoc_of_parse h).splice hb ht
  refine ⟨_, _, ?_, @parse_render chrono debug _ hsound, fun d hd => hd.splice.settled, ?_⟩
  · simp only [save, h, bind, Except.bind]
  · intro d
    rw [blockFor_settled, blockFor_splice]
    split_ifs
    · rfl
    · rfl

theorem settled_settled (b : Block) : b.settled.settled = b.settled := by
  have hpad := padding_settled b
  unfold Block.settled at hpad ⊢
  simp [hpad]

/-- **A run of saves**: each save is read back unless a later one of its day replaced it, and a
day without a save keeps its block.  The induction is on the run. -/
theorem saveAll_blockFor {text : Text} {doc : ParsedDoc} {bs : List Block}
    (h : parse chrono debug text = .ok doc)
    (hbs : ∀ b ∈ bs, b.Sound ∧ Takes b.attrs.date doc.segments) :
    ∃ out doc', saveAll chrono debug text bs = .ok out ∧ parse chrono debug out = .ok doc' ∧
      (∀ earlier b later, bs = earlier ++ b :: later →
        (∀ c ∈ later, c.attrs.date ≠ b.attrs.date) → ∃ le, blockFor b.attrs.date doc'.segments =
          some ({ b with lineEnding := le } : Block).settled) ∧
      ∀ d, (∀ c ∈ bs, c.attrs.date ≠ d) →
        blockFor d doc'.segments = blockFor d doc.segments ∨
          blockFor d doc'.segments = (blockFor d doc.segments).map Block.settled := by
  induction bs generalizing text doc with
  | nil => exact ⟨text, doc, rfl, h, fun earlier b later hnil => by simp at hnil,
      fun d _ => Or.inl rfl⟩
  | cons b bs ih =>
    obtain ⟨hb, ht⟩ := hbs b List.mem_cons_self
    obtain ⟨text₁, doc₁, hsave, hparse, htakes, hfor⟩ := save_blockFor h hb ht
    obtain ⟨out, doc', hall, hparse', hsaved, hkept⟩ := ih hparse fun c hc => by
      obtain ⟨hsound, htake⟩ := hbs c (List.mem_cons_of_mem b hc)
      exact ⟨hsound, htakes _ htake⟩
    refine ⟨out, doc', ?_, hparse', ?_, ?_⟩
    · simp only [saveAll, List.foldlM_cons, hsave] at hall ⊢
      exact hall
    · intro earlier c later hsplit hlater
      rcases List.cons_eq_append_iff.mp hsplit with ⟨rfl, hcons⟩ | ⟨earlier', rfl, rfl⟩
      · obtain ⟨rfl, rfl⟩ := List.cons.inj hcons
        -- nothing later is of this day, so the rest of the run keeps the block
        refine ⟨(placed doc.segments c).lineEnding, ?_⟩
        have hplaced := hfor c.attrs.date
        rw [if_pos rfl] at hplaced
        rcases hkept c.attrs.date hlater with hsame | hsame
        · rw [hsame, hplaced]
          rfl
        · rw [hsame, hplaced, Option.map_some, settled_settled]
          rfl
      · exact hsaved earlier' c later rfl hlater
    · intro d hd
      have hne : d ≠ b.attrs.date := (hd b List.mem_cons_self).symm
      have hstep := hfor d
      rw [if_neg hne] at hstep
      rcases hkept d fun c hc => hd c (List.mem_cons_of_mem b hc) with hsame | hsame
      · exact Or.inr (hsame.trans hstep)
      · right
        rw [hsame, hstep, Option.map_map]
        congr 1
        funext e
        exact settled_settled e

/-- A day that is saved behind the user's notes, and saved again. -/
theorem notes_saved_twice :
    ∃ out doc', saveAll Chrono.iso id "notes".toList
        [buildBlock ChartNumbers.quiet none quietDraft, buildBlock ChartNumbers.quiet (some 7)
          quietDraft] = .ok out ∧
      parse Chrono.iso id out = .ok doc' ∧ ∃ le, blockFor quietDraft.date doc'.segments =
        some ({ buildBlock ChartNumbers.quiet (some 7) quietDraft with
          lineEnding := le } : Block).settled := by
  have hparse : parse Chrono.iso id "notes".toList = .ok ⟨[.prose "notes".toList]⟩ := by
    decide +kernel
  have hbs : ∀ b ∈ [buildBlock ChartNumbers.quiet none quietDraft,
      buildBlock ChartNumbers.quiet (some 7) quietDraft],
      b.Sound ∧ Takes b.attrs.date [.prose "notes".toList] := by
    intro b hb
    refine ⟨?_, Or.inl (by decide +kernel)⟩
    rcases List.mem_pair.mp hb with rfl | rfl
    · exact buildBlock_sound printable_quietDraft
    · exact buildBlock_sound printable_quietDraft
  obtain ⟨out, doc', hall, hparse', hsaved, -⟩ := saveAll_blockFor hparse hbs
  exact ⟨out, doc', hall, hparse', hsaved [_] _ [] rfl (by simp)⟩

end Markers
end Dayseam
