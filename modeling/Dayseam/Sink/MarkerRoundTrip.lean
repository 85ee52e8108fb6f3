import Dayseam.Sink.MarkerGrammar
import Mathlib

/-!
# What the renderer writes is read back

The begin line that the renderer writes is read back to the attributes it was
written for, as long as these have no quote and no newline, and the attributes
of an accepted begin line never have either.  From this a document whose blocks
are sound is parsed from its own rendering.

## Main definitions

* `Block.Sound`, `SoundDoc` — the blocks and documents that survive rendering.
* `Block.settled` — a block as it is read back.

## Main results

* `parseBeginAttrs_beginLine` — the begin line is read back.
* `soundDoc_of_parse` — every accepted document is sound.
* `parse_render` — a sound document is read back from its rendering.
-/

namespace Dayseam
namespace Markers

variable {chrono : Chrono} {debug : DebugText}

theorem trimmedLine_eq_trim (line : Text) : trimmedLine line = line.trim :=
  Text.trim_trimEndMatches (fun c hc => by
    rcases Bool.or_eq_true_iff.mp hc with h | h
    · rw [eq_of_beq h]; decide
    · rw [eq_of_beq h]; decide) line

/-! ### Attribute values -/

/-- A value that the marker grammar can carry. -/
def GoodValue (v : Text) : Prop := '"' ∉ v ∧ '\n' ∉ v

structure MarkerAttrs.Clean (a : MarkerAttrs) : Prop where
  runId : GoodValue a.runId
  template : GoodValue a.template
  version : GoodValue a.version

/-- More fuel than the text is long changes nothing. -/
theorem iterAttrsLoop_eq {fuel : ℕ} {rest : Text} (h : rest.length ≤ fuel) :
    iterAttrsLoop debug fuel rest = iterAttrsLoop debug rest.length rest := by
  induction hn : rest.length using Nat.strong_induction_on generalizing fuel rest with
  | _ n ih =>
    cases rest with
    | nil => cases fuel <;> (subst hn; rfl)
    | cons c cs =>
      obtain ⟨fuel, rfl⟩ : ∃ k, fuel = k + 1 := ⟨fuel - 1, by simp at h; omega⟩
      rw [← hn, List.length_cons]
      unfold iterAttrsLoop
      simp only [List.isEmpty_cons, Bool.false_eq_true, if_false]
      split
      · rfl
      · next beforeEq afterEq hsplit =>
        obtain ⟨-, hcs⟩ := Text.splitFirst_eq_some_iff.mp hsplit
        split
        · rfl
        · split
          · next afterQuote hq =>
            split
            · rfl
            · next value tail hv =>
              obtain ⟨-, hval⟩ := Text.splitFirst_eq_some_iff.mp hv
              -- the rest of the loop reads a shorter text
              have h1 : afterEq.trimStart.length ≤ afterEq.length := List.length_dropWhile_le _ _
              have h2 : tail.trimStart.length ≤ tail.length := List.length_dropWhile_le _ _
              have h3 := congrArg List.length hcs
              have h4 := congrArg List.length hval
              have h5 := congrArg List.length hq
              simp only [List.length_cons, List.length_append] at h h3 h4 h5 hn
              have hfuel : ∀ k, cs.length ≤ k → iterAttrsLoop debug k tail.trimStart =
                  iterAttrsLoop debug tail.trimStart.length tail.trimStart :=
                fun k hk => ih _ (by omega) (by omega) rfl
              rw [hfuel fuel (by omega), hfuel cs.length le_rfl]
          · rfl

/-- One `key="value"` pair at the head of the text is read off. -/
theorem iterAttrsLoop_pair {key value tail : Text} {out : List (Text × Text)} {fuel : ℕ}
    (hk0 : key ≠ []) (hkeq : '=' ∉ key) (hkws : ∀ c ∈ key, Text.isWhitespace c = false)
    (hv : '"' ∉ value) (htail : iterAttrsLoop debug fuel tail.trimStart = .ok out) :
    iterAttrsLoop debug (fuel + 1) (key ++ '=' :: '"' :: (value ++ '"' :: tail)) =
      .ok ((key, value) :: out) := by
  have hne : (key ++ '=' :: '"' :: (value ++ '"' :: tail)).isEmpty = false := by simp
  have hany : (key.isEmpty || key.any Text.isWhitespace) = false := by
    simpa [hk0] using hkws
  have hquote : Text.trimStart ('"' :: (value ++ '"' :: tail)) = '"' :: (value ++ '"' :: tail) :=
    Text.trimStart_cons_of_not (by decide) _
  rw [iterAttrsLoop, if_neg (by simp), Text.splitFirst_append hkeq]
  simp only [Text.trim_of_forall_not hkws, hany, Bool.false_eq_true, if_false, hquote,
    Text.splitFirst_append hv, htail]
  rfl

/-- The values that the loop reads are cut out of its text, without quotes. -/
theorem values_of_iterAttrsLoop {fuel : ℕ} {rest : Text} {pairs : List (Text × Text)}
    (h : iterAttrsLoop debug fuel rest = .ok pairs) :
    ∀ kv ∈ pairs, '"' ∉ kv.2 ∧ ∀ c ∈ kv.2, c ∈ rest := by
  induction fuel generalizing rest pairs with
  | zero => cases h; simp
  | succ fuel ih =>
    unfold iterAttrsLoop at h
    split at h
    · cases h; simp
    · split at h
      · cases h
      · next beforeEq afterEq hsplit =>
        obtain ⟨-, rfl⟩ := Text.splitFirst_eq_some_iff.mp hsplit
        simp only at h
        split at h
        · cases h
        · split at h
          · next afterQuote hq =>
            split at h
            · cases h
            · next value tail hv =>
              obtain ⟨hnv, rfl⟩ := Text.splitFirst_eq_some_iff.mp hv
              -- every character after the equals sign is one of the text's
              have hsub : ∀ c ∈ '"' :: (value ++ '"' :: tail), c ∈ beforeEq ++ '=' :: afterEq := by
                intro c hc
                rw [← hq] at hc
                have := (List.dropWhile_sublist _).subset hc
                simp [this]
              cases hout : iterAttrsLoop debug fuel tail.trimStart with
              | error e => rw [hout] at h; cases h
              | ok out =>
                rw [hout] at h
                cases h
                intro kv hkv
                rcases List.mem_cons.mp hkv with rfl | hkv
                · exact ⟨hnv, fun c hc => hsub c (by simp [hc])⟩
                · obtain ⟨h1, h2⟩ := ih hout kv hkv
                  refine ⟨h1, fun c hc => hsub c ?_⟩
                  have := (List.dropWhile_sublist _).subset (h2 c hc)
                  simp [this]
          · cases h

/-- The values read so far are good. -/
def AttrSlots.Good (s : AttrSlots) : Prop :=
  (∀ v, s.runId = some v → GoodValue v) ∧ (∀ v, s.template = some v → GoodValue v) ∧
    ∀ v, s.version = some v → GoodValue v

theorem AttrSlots.Good.set {n : ℕ} {s s' : AttrSlots} {attr : Text × Text} (hs : s.Good)
    (hv : GoodValue attr.2) (h : AttrSlots.set chrono n s attr = .ok s') : s'.Good := by
  obtain ⟨h1, h2, h3⟩ := hs
  have hsome : ∀ v, some attr.2 = some v → GoodValue v := by
    rintro v h
    cases h
    exact hv
  unfold AttrSlots.set at h
  split at h
  · split at h
    · cases h; exact ⟨h1, h2, h3⟩
    · cases h
  · split at h
    · cases h; exact ⟨hsome, h2, h3⟩
    · split at h
      · cases h; exact ⟨h1, hsome, h3⟩
      · split at h
        · cases h; exact ⟨h1, h2, hsome⟩
        · cases h; exact ⟨h1, h2, h3⟩

theorem AttrSlots.Good.foldlM {n : ℕ} {pairs : List (Text × Text)} {s s' : AttrSlots}
    (hs : s.Good) (hv : ∀ kv ∈ pairs, GoodValue kv.2)
    (h : pairs.foldlM (AttrSlots.set chrono n) s = .ok s') : s'.Good := by
  induction pairs generalizing s with
  | nil => cases h; exact hs
  | cons kv pairs ih =>
    rw [List.foldlM_cons] at h
    cases h1 : AttrSlots.set chrono n s kv with
    | error e => rw [h1] at h; cases h
    | ok s1 =>
      rw [h1] at h
      exact ih (hs.set (hv kv (by simp)) h1) (fun kv' hkv' => hv kv' (by simp [hkv'])) h

/-- **The attributes of an accepted begin line have no quote and no newline.** -/
theorem clean_of_parseBeginAttrs {trimmed : Text} {n : ℕ} {a : MarkerAttrs}
    (hnl : '\n' ∉ trimmed) (h : parseBeginAttrs chrono debug trimmed n = .ok a) : a.Clean := by
  unfold parseBeginAttrs at h
  cases hs : stripMarker trimmed with
  | none => rw [hs] at h; cases h
  | some inner =>
    rw [hs] at h
    have hinner : ∀ c ∈ inner, c ∈ trimmed := by
      simp only [stripMarker, Option.bind_eq_some_iff, List.isPrefixOf?_eq_some_iff_append_eq,
        List.isSuffixOf?_eq_some_iff_append_eq] at hs
      obtain ⟨s, rfl, rfl⟩ := hs
      intro c hc
      simp [hc]
    simp only at h
    cases hi : iterAttrs debug inner.trim with
    | error e => rw [hi] at h; cases h
    | ok pairs =>
      rw [hi] at h
      simp only at h
      have hgood : ∀ kv ∈ pairs, GoodValue kv.2 := by
        intro kv hkv
        obtain ⟨h1, h2⟩ := values_of_iterAttrsLoop hi kv hkv
        refine ⟨h1, fun hc => hnl (hinner _ ?_)⟩
        exact Text.mem_of_mem_trim (Text.mem_of_mem_trim (h2 _ hc))
      cases hp : pairs.foldlM (AttrSlots.set chrono n) AttrSlots.empty with
      | error e => rw [hp] at h; cases h
      | ok slots =>
        rw [hp] at h
        obtain rfl := finish_eq_ok_iff.mp h
        obtain ⟨h1, h2, h3⟩ := AttrSlots.Good.foldlM
          (by simp [AttrSlots.Good, AttrSlots.empty]) hgood hp
        exact ⟨h1 _ rfl, h2 _ rfl, h3 _ rfl⟩

/-! ### The begin line -/

/-- The attribute region that the renderer writes. -/
def attrText (chrono : Chrono) (a : MarkerAttrs) : Text :=
  "date=\"".toList ++ chrono.display a.date ++ "\"".toList ++
    " run_id=\"".toList ++ a.runId ++ "\"".toList ++
    " template=\"".toList ++ a.template ++ "\"".toList ++
    " version=\"".toList ++ a.version ++ "\"".toList

theorem beginLine_eq (a : MarkerAttrs) :
    beginLine chrono a = beginPrefix ++ (attrText chrono a ++ beginSuffix) := by
  unfold beginLine attrText
  simp only [String.reduceToList]
  simp only [List.append_assoc, List.cons_append, List.nil_append]

/-- The keys as lists of characters. -/
theorem keys_eq : "date".toList = ['d', 'a', 't', 'e'] ∧
    "run_id".toList = ['r', 'u', 'n', '_', 'i', 'd'] ∧
    "template".toList = ['t', 'e', 'm', 'p', 'l', 'a', 't', 'e'] ∧
    "version".toList = ['v', 'e', 'r', 's', 'i', 'o', 'n'] :=
  ⟨String.toList_ofList, String.toList_ofList, String.toList_ofList, String.toList_ofList⟩

theorem attrText_eq (a : MarkerAttrs) :
    attrText chrono a =
      ['d', 'a', 't', 'e'] ++ '=' :: '"' :: (chrono.display a.date ++ '"' :: (' ' ::
        (['r', 'u', 'n', '_', 'i', 'd'] ++ '=' :: '"' :: (a.runId ++ '"' :: (' ' ::
          (['t', 'e', 'm', 'p', 'l', 'a', 't', 'e'] ++ '=' :: '"' :: (a.template ++ '"' :: (' ' ::
            (['v', 'e', 'r', 's', 'i', 'o', 'n'] ++ '=' :: '"' ::
              (a.version ++ '"' :: []))))))))))  := by
  unfold attrText
  simp only [String.reduceToList]
  simp only [List.append_assoc, List.cons_append, List.nil_append]

theorem trim_attrText (a : MarkerAttrs) : (attrText chrono a).trim = attrText chrono a := by
  obtain ⟨m, hm⟩ : ∃ m, attrText chrono a = 'd' :: (m ++ ['"']) := by
    rw [attrText_eq]
    refine ⟨['a', 't', 'e'] ++ '=' :: '"' :: (chrono.display a.date ++ '"' :: (' ' ::
        (['r', 'u', 'n', '_', 'i', 'd'] ++ '=' :: '"' :: (a.runId ++ '"' :: (' ' ::
          (['t', 'e', 'm', 'p', 'l', 'a', 't', 'e'] ++ '=' :: '"' :: (a.template ++ '"' :: (' ' ::
            (['v', 'e', 'r', 's', 'i', 'o', 'n'] ++ '=' :: '"' :: a.version))))))))), ?_⟩
    simp
  rw [hm]
  exact Text.trim_eq_self (by decide) (by decide) m

/-- The one blank before a key is skipped. -/
theorem trimStart_blank {c : Char} (hc : Text.isWhitespace c = false) (t : Text) :
    Text.trimStart (' ' :: c :: t) = c :: t :=
  (Text.trimStart_append_of_all (w := [' ']) (List.all_eq_true.1 (by decide)) (c :: t)).trans
    (Text.trimStart_cons_of_not hc t)

theorem iterAttrs_attrText {a : MarkerAttrs} (h : a.Clean) :
    iterAttrs debug (attrText chrono a) =
      .ok [(['d', 'a', 't', 'e'], chrono.display a.date),
        (['r', 'u', 'n', '_', 'i', 'd'], a.runId),
        (['t', 'e', 'm', 'p', 'l', 'a', 't', 'e'], a.template),
        (['v', 'e', 'r', 's', 'i', 'o', 'n'], a.version)] := by
  have hdate : '"' ∉ chrono.display a.date := chrono.notMem_display a.date (by decide)
  rw [iterAttrs, trim_attrText]
  -- four rounds and the final test need a fuel of five
  obtain ⟨k, hk⟩ : ∃ k, (attrText chrono a).length + 1 = k + 1 + 1 + 1 + 1 + 1 := by
    refine ⟨(attrText chrono a).length - 4, ?_⟩
    rw [attrText_eq]
    simp only [List.length_append, List.length_cons]
    omega
  rw [hk, attrText_eq]
  refine iterAttrsLoop_pair (by decide) (by decide) (Text.bareword (by decide)) hdate ?_
  rw [List.cons_append, trimStart_blank (by decide)]
  refine @iterAttrsLoop_pair _ ['r', 'u', 'n', '_', 'i', 'd'] _ _ _ _ (by decide) (by decide)
    (Text.bareword (by decide)) h.runId.1 ?_
  rw [List.cons_append, trimStart_blank (by decide)]
  refine @iterAttrsLoop_pair _ ['t', 'e', 'm', 'p', 'l', 'a', 't', 'e'] _ _ _ _ (by decide)
    (by decide) (Text.bareword (by decide)) h.template.1 ?_
  rw [List.cons_append, trimStart_blank (by decide)]
  exact @iterAttrsLoop_pair _ ['v', 'e', 'r', 's', 'i', 'o', 'n'] _ _ _ _ (by decide) (by decide)
    (Text.bareword (by decide)) h.version.1 rfl

/-- The four known keys set their own slots. -/
theorem foldlM_set_attrText (a : MarkerAttrs) (n : ℕ) :
    [(['d', 'a', 't', 'e'], chrono.display a.date),
      (['r', 'u', 'n', '_', 'i', 'd'], a.runId),
      (['t', 'e', 'm', 'p', 'l', 'a', 't', 'e'], a.template),
      (['v', 'e', 'r', 's', 'i', 'o', 'n'], a.version)].foldlM (AttrSlots.set chrono n)
      AttrSlots.empty = .ok ⟨some a.date, some a.runId, some a.template, some a.version⟩ := by
  obtain ⟨k1, k2, k3, k4⟩ := keys_eq
  simp [AttrSlots.set, AttrSlots.empty, k1, k2, k3, k4, chrono.parse_display, bind, Except.bind,
    pure, Except.pure]

/-- **The begin line is read back.** -/
theorem parseBeginAttrs_beginLine {a : MarkerAttrs} (h : a.Clean) (n : ℕ) :
    parseBeginAttrs chrono debug (beginLine chrono a) n = .ok a := by
  have hstrip : stripMarker (beginLine chrono a) = some (attrText chrono a) := by
    simp only [stripMarker, Option.bind_eq_some_iff, List.isPrefixOf?_eq_some_iff_append_eq,
      List.isSuffixOf?_eq_some_iff_append_eq]
    exact ⟨_, (beginLine_eq a).symm, rfl⟩
  rw [parseBeginAttrs, hstrip]
  simp only [trim_attrText, iterAttrs_attrText h, foldlM_set_attrText, bind, Except.bind]
  exact finish_eq_ok_iff.mpr rfl

/-! ### The marker lines the renderer writes -/

theorem beginPrefix_eq : beginPrefix =
    ['<', '!', '-', '-', ' ', 'd', 'a', 'y', 's', 'e', 'a', 'm', ':', 'b', 'e', 'g', 'i', 'n',
      ' '] := String.toList_ofList

theorem beginSuffix_eq : beginSuffix = [' ', '-', '-', '>'] := String.toList_ofList

theorem endMarker_eq : endMarker =
    ['<', '!', '-', '-', ' ', 'd', 'a', 'y', 's', 'e', 'a', 'm', ':', 'e', 'n', 'd', ' ', '-', '-',
      '>'] := String.toList_ofList

/-- A line that starts with no fence delimiter opens no fence. -/
theorem detectOpen_cons {c : Char} (h1 : c ≠ '`') (h2 : c ≠ '~') (t : Text) :
    FenceSentinel.detectOpen (c :: t) = none := by
  simp [FenceSentinel.detectOpen, List.takeWhile_cons, h1, h2]

@[simp] theorem detectOpen_nil : FenceSentinel.detectOpen [] = none := rfl

theorem trim_append_lineEnding (t : Text) (le : LineEnding) :
    Text.trim (t ++ le.text) = t.trim := by
  cases le
  · exact Text.trim_append_newline t
  · exact Text.trim_append_crlf t

theorem isLine_append_lineEnding {t : Text} (h : '\n' ∉ t) (le : LineEnding) :
    Text.IsLine (t ++ le.text) := by
  cases le
  · exact ⟨t, h, rfl⟩
  · exact ⟨t ++ ['\r'], by simp [h], by simp [LineEnding.text]⟩

theorem observe_append_lineEnding {t : Text} (h : t.getLast? ≠ some '\r') (le : LineEnding) :
    LineEnding.observe (t ++ le.text) = le := by
  cases le
  · have hn : ¬ ['\r', '\n'] <:+ t ++ ['\n'] := by
      rintro ⟨u, hu⟩
      rw [show (['\r', '\n'] : Text) = ['\r'] ++ ['\n'] from rfl, ← List.append_assoc] at hu
      have := List.append_cancel_right hu
      rw [← this] at h
      simp at h
    simp [LineEnding.observe, LineEnding.text, hn]
  · simp [LineEnding.observe, LineEnding.text]

theorem exists_beginLine_eq (a : MarkerAttrs) :
    ∃ m, beginLine chrono a =
      '<' :: ('!' :: '-' :: '-' :: ' ' :: 'd' :: 'a' :: 'y' :: 's' :: 'e' :: 'a' :: 'm' :: ':' ::
        'b' :: (m ++ ['>'])) := by
  refine ⟨['e', 'g', 'i', 'n', ' '] ++ attrText chrono a ++ [' ', '-', '-'], ?_⟩
  rw [beginLine_eq, beginPrefix_eq, beginSuffix_eq]
  simp only [List.append_assoc, List.cons_append, List.nil_append]

theorem trim_beginLine (a : MarkerAttrs) : (beginLine chrono a).trim = beginLine chrono a := by
  obtain ⟨m, hm⟩ := @exists_beginLine_eq chrono a
  rw [hm]
  exact Text.trim_eq_self (by decide) (by decide)
    ('!' :: '-' :: '-' :: ' ' :: 'd' :: 'a' :: 'y' :: 's' :: 'e' :: 'a' :: 'm' :: ':' :: 'b' :: m)

theorem trim_endMarker : endMarker.trim = endMarker := by
  rw [endMarker_eq]
  decide

theorem isBeginMarker_beginLine (a : MarkerAttrs) : isBeginMarker (beginLine chrono a) = true := by
  rw [isBeginMarker, Bool.and_eq_true, List.isPrefixOf_iff_prefix, List.isSuffixOf_iff_suffix,
    beginLine_eq]
  exact ⟨⟨_, rfl⟩, ⟨beginPrefix ++ attrText chrono a, by simp⟩⟩

/-- The begin line that the renderer writes is a begin marker. -/
theorem lineKind_beginLine (a : MarkerAttrs) (le : LineEnding) :
    lineKind none (beginLine chrono a ++ le.text) = .beginMark := by
  obtain ⟨m, hm⟩ := @exists_beginLine_eq chrono a
  have hend : isEndMarker (beginLine chrono a) = false := by
    rw [hm, isEndMarker, endMarker_eq]
    simp
  have hopen : FenceSentinel.detectOpen (beginLine chrono a) = none := by
    rw [hm]; exact detectOpen_cons (by decide) (by decide) _
  simp [lineKind, trimmedLine_eq_trim, trim_append_lineEnding, trim_beginLine, hopen, hend,
    isBeginMarker_beginLine]

/-- The end line that the renderer writes is an end marker. -/
theorem lineKind_endMarker (le : LineEnding) : lineKind none (endMarker ++ le.text) = .endMark := by
  have hopen : FenceSentinel.detectOpen endMarker = none := by
    rw [endMarker_eq]; exact detectOpen_cons (by decide) (by decide) _
  simp [lineKind, trimmedLine_eq_trim, trim_append_lineEnding, trim_endMarker, hopen, isEndMarker]

theorem isLine_beginLine {a : MarkerAttrs} (h : a.Clean) (le : LineEnding) :
    Text.IsLine (beginLine chrono a ++ le.text) := by
  refine isLine_append_lineEnding ?_ le
  have hdate : '\n' ∉ chrono.display a.date := chrono.notMem_display a.date (by decide)
  rw [beginLine_eq, attrText_eq, beginPrefix_eq, beginSuffix_eq]
  simp [hdate, h.runId.2, h.template.2, h.version.2]

theorem isLine_endMarker (le : LineEnding) : Text.IsLine (endMarker ++ le.text) :=
  isLine_append_lineEnding (by rw [endMarker_eq]; decide) le

theorem observe_beginLine (a : MarkerAttrs) (le : LineEnding) :
    LineEnding.observe (beginLine chrono a ++ le.text) = le := by
  refine observe_append_lineEnding ?_ le
  obtain ⟨m, hm⟩ := @exists_beginLine_eq chrono a
  simp [hm, List.getLast?_cons]

/-! ### Blocks -/

/-- The terminator that the renderer puts after a body that needs one. -/
def padding (b : Block) : List Text :=
  if !b.body.isEmpty && !endsWithCompatibleNewline b.body b.lineEnding then [b.lineEnding.text]
  else []

/-- The lines that the renderer writes for a block. -/
def Block.rendered (chrono : Chrono) (b : Block) : BlockLines where
  attrs := b.attrs
  opening := beginLine chrono b.attrs ++ b.lineEnding.text
  body := b.body.splitLines ++ padding b
  closing := endMarker ++ b.lineEnding.text

/-- A block as it is read back: its body has the terminator it needed. -/
def Block.settled (b : Block) : Block := { b with body := b.body ++ (padding b).flatten }

/-- A block that survives being written. -/
structure Block.Sound (b : Block) : Prop where
  clean : b.attrs.Clean
  ends : b.body.EndsLine
  text : AllText none b.body.splitLines
  closed : fenceAfter none b.body.splitLines = none

theorem padding_eq (b : Block) : padding b = [] ∨ padding b = [b.lineEnding.text] := by
  unfold padding
  split
  · exact Or.inr rfl
  · exact Or.inl rfl

theorem renderBlock_eq (b : Block) :
    renderBlock chrono b = (Span.block (b.rendered chrono)).lines.flatten := by
  have hpad : (if !b.body.isEmpty && !endsWithCompatibleNewline b.body b.lineEnding
      then b.lineEnding.text else []) = (padding b).flatten := by
    unfold padding
    split <;> simp
  rw [renderBlock, hpad]
  simp [Span.lines, Block.rendered, List.append_assoc]

theorem lineKind_lineEnding (le : LineEnding) :
    lineKind none le.text = .text ∧ fenceStep none le.text = none := by
  cases le <;> exact ⟨rfl, rfl⟩

theorem Block.Sound.allText {b : Block} (h : b.Sound) :
    AllText none (b.rendered chrono).body ∧ fenceAfter none (b.rendered chrono).body = none := by
  simp only [Block.rendered]
  obtain ⟨hk, hs⟩ := lineKind_lineEnding b.lineEnding
  rcases padding_eq b with hp | hp
  · rw [hp, List.append_nil]
    exact ⟨h.text, h.closed⟩
  · rw [hp, allText_append, fenceAfter_append, h.closed]
    exact ⟨⟨h.text, hk, trivial⟩, hs⟩

/-- A sound block is rendered to the lines of a block. -/
theorem Block.Sound.valid {b : Block} (h : b.Sound) : (b.rendered chrono).Valid chrono debug where
  opens := lineKind_beginLine b.attrs b.lineEnding
  attrs_eq n := by
    simp only [Block.rendered, trimmedLine_eq_trim, trim_append_lineEnding, trim_beginLine]
    exact parseBeginAttrs_beginLine h.clean n
  body_text := h.allText.1
  body_closed := h.allText.2
  closes := lineKind_endMarker b.lineEnding

theorem Block.rendered_block (b : Block) : (b.rendered chrono).block = b.settled := by
  simp [BlockLines.block, Block.rendered, Block.settled, observe_beginLine]

theorem Block.Sound.isLine {b : Block} (h : b.Sound) :
    ∀ l ∈ (Span.block (b.rendered chrono)).lines, Text.IsLine l := by
  intro l hl
  simp only [Span.lines, Block.rendered, List.mem_cons, List.mem_append,
    List.not_mem_nil, or_false] at hl
  rcases hl with rfl | (hl | hl) | rfl
  · exact isLine_beginLine h.clean b.lineEnding
  · exact h.ends.isLine l hl
  · rcases padding_eq b with hp | hp
    · simp [hp] at hl
    · rw [hp, List.mem_singleton] at hl
      subst hl
      exact isLine_append_lineEnding (t := []) (by simp) b.lineEnding
  · exact isLine_endMarker b.lineEnding

/-- A settled body needs no terminator. -/
theorem padding_settled (b : Block) : padding b.settled = [] := by
  rcases padding_eq b with hp | hp
  · have h : b.settled = b := by simp [Block.settled, hp]
    rw [h, hp]
  · unfold padding
    have hsuf : endsWithCompatibleNewline b.settled.body b.settled.lineEnding = true := by
      simp only [Block.settled, hp]
      cases b.lineEnding <;>
        simp [endsWithCompatibleNewline, LineEnding.isCrlf, LineEnding.text]
    simp [hsuf]

/-- Settling a block does not change what is written for it. -/
theorem renderBlock_settled (b : Block) : renderBlock chrono b.settled = renderBlock chrono b := by
  have h1 := padding_settled b
  simp only [renderBlock_eq, Span.lines, Block.rendered, h1]
  simp [Block.settled, List.append_assoc]

/-! ### Documents -/

/-- The span that the renderer writes for a segment. -/
def Segment.span (chrono : Chrono) : Segment → Span
  | .prose p => .prose p.splitLines
  | .block b => .block (b.rendered chrono)

/-- A segment as it is read back. -/
def Segment.settled : Segment → Segment
  | .prose p => .prose p
  | .block b => .block b.settled

/-- A document that survives being written. -/
inductive SoundDoc : List Segment → Prop
  | nil : SoundDoc []
  | prose {p : Text} : p ≠ [] → AllText none p.splitLines → SoundDoc [.prose p]
  | proseBlock {p : Text} {b : Block} {rest : List Segment} :
      p ≠ [] → p.EndsLine → AllText none p.splitLines → fenceAfter none p.splitLines = none →
      SoundDoc (.block b :: rest) → SoundDoc (.prose p :: .block b :: rest)
  | block {b : Block} {rest : List Segment} :
      b.Sound → SoundDoc rest → SoundDoc (.block b :: rest)

@[simp] theorem span_segment (s : Segment) : (s.span chrono).segment = s.settled := by
  cases s with
  | prose p => simp [Segment.span, Span.segment, Segment.settled]
  | block b => simp [Segment.span, Span.segment, Segment.settled, Block.rendered_block]

theorem renderSegment_eq (s : Segment) :
    renderSegment chrono s = (s.span chrono).lines.flatten := by
  cases s with
  | prose p => simp [renderSegment, Segment.span, Span.lines]
  | block b => exact renderBlock_eq b

theorem render_eq (segments : List Segment) :
    render chrono ⟨segments⟩ = (linesOf (segments.map (Segment.span chrono))).flatten := by
  induction segments with
  | nil => rfl
  | cons s rest ih =>
    simp only [render, List.map_cons, List.flatten_cons, linesOf_cons, List.flatten_append] at ih ⊢
    rw [ih, renderSegment_eq]

/-- The spans of a sound document are well formed, and their lines are lines. -/
theorem SoundDoc.wellFormed {segments : List Segment} (h : SoundDoc segments) :
    WellFormed chrono debug (segments.map (Segment.span chrono)) ∧
      Text.IsLines (linesOf (segments.map (Segment.span chrono))) := by
  induction h with
  | nil => exact ⟨.nil, .nil⟩
  | @prose p h0 ht =>
    refine ⟨.prose (Text.splitLines_ne_nil h0) ht, ?_⟩
    simpa [Segment.span, Span.lines] using Text.isLines_splitLines p
  | @proseBlock p b rest h0 he ht hf _ ih =>
    refine ⟨.proseBlock (Text.splitLines_ne_nil h0) ht hf ih.1, ?_⟩
    rw [List.map_cons, linesOf_cons]
    exact .append he.isLine ih.2
  | @block b rest hb _ ih =>
    refine ⟨.block hb.valid ih.1, ?_⟩
    rw [List.map_cons, linesOf_cons]
    exact .append hb.isLine ih.2

/-- The lines of the rendering of a sound document. -/
theorem splitLines_render {segments : List Segment} (h : SoundDoc segments) :
    (render chrono ⟨segments⟩).splitLines = linesOf (segments.map (Segment.span chrono)) := by
  rw [render_eq]
  exact (@SoundDoc.wellFormed chrono id _ h).2.splitLines_flatten

/-- **A sound document is read back from its rendering.** -/
theorem parse_render {segments : List Segment} (h : SoundDoc segments) :
    parse chrono debug (render chrono ⟨segments⟩) = .ok ⟨segments.map Segment.settled⟩ := by
  rw [parse_of_wellFormed h.wellFormed.1 (splitLines_render h), List.map_map]
  congr 2
  exact List.map_congr_left fun s _ => span_segment s

/-! ### Accepted documents -/

theorem BlockLines.Valid.sound {b : BlockLines} (h : b.Valid chrono debug)
    (hl : ∀ l ∈ b.opening :: b.body, Text.IsLine l) : b.block.Sound := by
  have hbody : ∀ l ∈ b.body, Text.IsLine l := fun l hm => hl l (by simp [hm])
  have hsplit : b.block.body.splitLines = b.body :=
    (Text.isLines_of_forall hbody).splitLines_flatten
  refine ⟨?_, Text.endsLine_of_forall_isLine hbody, ?_, ?_⟩
  · refine clean_of_parseBeginAttrs ?_ (h.attrs_eq 0)
    obtain ⟨s, hs, ho⟩ := hl b.opening (by simp)
    rw [trimmedLine_eq_trim, ho, Text.trim_append_newline]
    exact fun hc => hs (Text.mem_of_mem_trim hc)
  · rw [hsplit]; exact h.body_text
  · rw [hsplit]; exact h.body_closed

theorem WellFormed.soundDoc {spans : List Span} (h : WellFormed chrono debug spans)
    (hl : Text.IsLines (linesOf spans)) : SoundDoc (spans.map Span.segment) := by
  have hne : ∀ {ls : List Text}, ls ≠ [] → (∀ l ∈ ls, l ≠ []) → ls.flatten ≠ [] := by
    intro ls h0 hls
    obtain ⟨l, ls, rfl⟩ := List.exists_cons_of_ne_nil h0
    simp [hls l (by simp)]
  induction h with
  | nil => exact .nil
  | @prose ls h0 ht =>
    have hls : Text.IsLines ls := by simpa [Span.lines] using hl
    refine .prose (hne h0 hls.ne_nil) ?_
    rw [hls.splitLines_flatten]
    exact ht
  | @proseBlock ls b rest h0 ht hf hb ih =>
    rw [linesOf_cons] at hl
    have hls : ∀ l ∈ ls, Text.IsLine l := hl.isLine_left (by simp [Span.lines])
    have hsplit := (Text.isLines_of_forall hls).splitLines_flatten
    refine .proseBlock (hne h0 fun l hm => (hls l hm).ne_nil)
      (Text.endsLine_of_forall_isLine hls) ?_ ?_ (ih hl.right)
    · rw [hsplit]; exact ht
    · rw [hsplit]; exact hf
  | @block b rest hv _ ih =>
    rw [linesOf_cons] at hl
    refine .block (hv.sound ?_) (ih hl.right)
    have hsplit : (Span.block b).lines ++ linesOf rest =
        (b.opening :: b.body) ++ (b.closing :: linesOf rest) := by simp [Span.lines]
    rw [hsplit] at hl
    exact hl.isLine_left (by simp)

/-- **Every accepted document is sound.** -/
theorem soundDoc_of_parse {text : Text} {doc : ParsedDoc}
    (h : parse chrono debug text = .ok doc) : SoundDoc doc.segments := by
  obtain ⟨spans, hw, hl, hs⟩ := exists_spans_of_parse h
  rw [hs]
  exact hw.soundDoc (hl ▸ Text.isLines_splitLines text)

end Markers
end Dayseam
