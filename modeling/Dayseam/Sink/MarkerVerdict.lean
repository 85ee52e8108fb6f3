import Dayseam.Sink.MarkerRoundTrip
import Mathlib

/-!
# What the marker parser accepts, and where it stops

The lines outside the code fences are numbered, and among them the markers have to
come in pairs of a begin line and an end line.  The parser stops at the first marker
after which the file can no longer be read so.

## Main definitions

* `AttrList`, `IsBeginLine` — the attributes of a begin line.
* `Outside` — the lines outside the fences.  A fence that is not closed goes on to the
  end of the file.
* `Alternates`, `FirstViolation` — the accepted files, and where the others break.

## Main results

* `iterAttrs_eq_ok_iff`, `parseBeginAttrs_eq_ok_iff` — the lexer of the attributes.
* `parse_grammar` — **the parser accepts its grammar, and reports the first violation.**
-/

namespace Dayseam
namespace Markers

open Text (isWhitespace trimStart trimEnd)

variable {chrono : Chrono} {debug : DebugText}

/-! ### Lists of attributes -/

/-- Nothing but white space. -/
def Blank (w : Text) : Prop := ∀ c ∈ w, isWhitespace c = true

/-- Attributes `key="value"` with white space between all parts. -/
inductive AttrList : Text → List (Text × Text) → Prop
  | nil {w : Text} : Blank w → AttrList w []
  | cons {before key after gap value rest : Text} {pairs : List (Text × Text)} :
      Blank before → Blank after → Blank gap →
      key ≠ [] → (∀ c ∈ key, isWhitespace c = false) → '=' ∉ key → '"' ∉ value →
      AttrList rest pairs →
      AttrList (before ++ (key ++ (after ++ '=' :: (gap ++ '"' :: (value ++ '"' :: rest)))))
        ((key, value) :: pairs)

theorem Blank.append {v w : Text} (hv : Blank v) (hw : Blank w) : Blank (v ++ w) :=
  fun c hc => (List.mem_append.mp hc).elim (hv c) (hw c)

/-- White space before the list changes nothing. -/
theorem AttrList.blank_append {w s : Text} {pairs : List (Text × Text)} (hw : Blank w)
    (h : AttrList s pairs) : AttrList (w ++ s) pairs := by
  cases h with
  | nil hs => exact .nil (hw.append hs)
  | cons hb ha hg hk hkw hke hv hr =>
    rw [← List.append_assoc]
    exact .cons (hw.append hb) ha hg hk hkw hke hv hr

/-- White space behind the list changes nothing. -/
theorem AttrList.append_blank {w s : Text} {pairs : List (Text × Text)} (hw : Blank w)
    (h : AttrList s pairs) : AttrList (s ++ w) pairs := by
  induction h with
  | nil hs => exact .nil (hs.append hw)
  | cons hb ha hg hk hkw hke hv _ ih =>
    simp only [List.append_assoc, List.cons_append]
    exact .cons hb ha hg hk hkw hke hv ih

theorem trimStart_of_blank {w : Text} (hw : Blank w) : trimStart w = [] := by
  simpa using Text.trimStart_append_of_all hw []

theorem trimEnd_of_blank {w : Text} (hw : Blank w) : trimEnd w = [] := by
  simpa using Text.trimEnd_append_of_all hw []

theorem trimStart_key {w key : Text} (hw : Blank w) (hk : key ≠ [])
    (hkw : ∀ c ∈ key, isWhitespace c = false) (t : Text) :
    trimStart (w ++ (key ++ t)) = key ++ t := by
  obtain ⟨c, key, rfl⟩ := List.exists_cons_of_ne_nil hk
  rw [Text.trimStart_append_of_all hw, List.cons_append,
    Text.trimStart_cons_of_not (hkw c List.mem_cons_self)]

theorem AttrList.trimStart {s : Text} {pairs : List (Text × Text)} (h : AttrList s pairs) :
    AttrList (trimStart s) pairs := by
  cases h with
  | nil hs =>
    rw [trimStart_of_blank hs]
    exact .nil (by simp [Blank])
  | cons hb ha hg hk hkw hke hv hr =>
    rw [trimStart_key hb hk hkw]
    exact @AttrList.cons [] _ _ _ _ _ _ (by simp [Blank]) ha hg hk hkw hke hv hr

theorem AttrList.trimEnd {s : Text} {pairs : List (Text × Text)} (h : AttrList s pairs) :
    AttrList (trimEnd s) pairs := by
  induction h with
  | nil hs =>
    rw [trimEnd_of_blank hs]
    exact .nil (by simp [Blank])
  | @cons before key after gap value rest pairs hb ha hg hk hkw hke hv _ ih =>
    have hquote : isWhitespace '"' = false := by decide
    have hsplit (t : Text) :
        before ++ (key ++ (after ++ '=' :: (gap ++ '"' :: (value ++ '"' :: t)))) =
          (before ++ (key ++ (after ++ '=' :: (gap ++ '"' :: value)))) ++ '"' :: t := by
      simp
    rw [hsplit, Text.trimEnd_append_cons hquote, ← hsplit]
    exact .cons hb ha hg hk hkw hke hv ih

/-- What the lexer reads is a list of attributes. -/
theorem attrList_of_loop {fuel : ℕ} {rest : Text} {pairs : List (Text × Text)}
    (hfuel : rest.length ≤ fuel) (h : iterAttrsLoop debug fuel rest = .ok pairs) :
    AttrList rest pairs := by
  induction fuel generalizing rest pairs with
  | zero =>
    obtain rfl : rest = [] := List.length_eq_zero_iff.mp (by omega)
    cases h
    exact .nil (by simp [Blank])
  | succ fuel ih =>
    unfold iterAttrsLoop at h
    split at h
    · next hempty =>
      cases h
      rw [List.isEmpty_iff.mp hempty]
      exact .nil (by simp [Blank])
    · split at h
      · cases h
      · next beforeEq afterEq hsplit =>
        obtain ⟨hne, rfl⟩ := Text.splitFirst_eq_some_iff.mp hsplit
        dsimp only at h
        split at h
        · cases h
        · next hkey =>
          rw [Bool.or_eq_true, not_or] at hkey
          split at h
          · next afterQuote hquote =>
            split at h
            · cases h
            · next value tail hclose =>
              obtain ⟨hv, rfl⟩ := Text.splitFirst_eq_some_iff.mp hclose
              cases hout : iterAttrsLoop debug fuel (Text.trimStart tail) with
              | error e =>
                rw [hout] at h
                cases h
              | ok out =>
                rw [hout] at h
                cases h
                -- the parts of the attribute, with the white space around them
                obtain ⟨a, b, ha, hb, hbefore⟩ := Text.exists_trim beforeEq
                have hafter : afterEq =
                    afterEq.takeWhile isWhitespace ++ '"' :: (value ++ '"' :: tail) := by
                  rw [← hquote]
                  exact (List.takeWhile_append_dropWhile).symm
                have htail : tail = tail.takeWhile isWhitespace ++ Text.trimStart tail :=
                  (List.takeWhile_append_dropWhile).symm
                have hshort : (Text.trimStart tail).length ≤ fuel := by
                  have h1 := congrArg List.length hafter
                  have h2 := congrArg List.length htail
                  simp only [List.length_append, List.length_cons] at h1 h2 hfuel
                  omega
                have hrest : AttrList tail out := by
                  rw [htail]
                  exact (ih hshort hout).blank_append fun c hc => List.mem_takeWhile_imp hc
                have hlist := @AttrList.cons a beforeEq.trim b (afterEq.takeWhile isWhitespace) value
                  tail out ha hb (fun c hc => List.mem_takeWhile_imp hc) (by simpa using hkey.1)
                  (Text.bareword (by simpa using hkey.2))
                  (fun hmem => hne (Text.mem_of_mem_trim hmem)) hv hrest
                rw [← hafter] at hlist
                have hjoin : beforeEq ++ '=' :: afterEq =
                    a ++ (beforeEq.trim ++ (b ++ '=' :: afterEq)) := by
                  conv_lhs => rw [hbefore]
                  simp
                rw [hjoin]
                exact hlist
          · cases h

/-- A list of attributes is read by the lexer. -/
theorem loop_of_attrList {rest : Text} {pairs : List (Text × Text)} (h : AttrList rest pairs)
    {fuel : ℕ} (hfuel : (Text.trimStart rest).length ≤ fuel) :
    iterAttrsLoop debug fuel (Text.trimStart rest) = .ok pairs := by
  induction h generalizing fuel with
  | nil hw =>
    rw [trimStart_of_blank hw]
    cases fuel <;> rfl
  | @cons before key after gap value rest pairs hb ha hg hk hkw hke hv _ ih =>
    rw [trimStart_key hb hk hkw] at hfuel ⊢
    obtain ⟨c, key', rfl⟩ := List.exists_cons_of_ne_nil hk
    have hlen : (Text.trimStart rest).length ≤ rest.length := (List.dropWhile_sublist _).length_le
    simp only [List.length_append, List.length_cons] at hfuel
    obtain ⟨fuel, rfl⟩ : ∃ k, fuel = k + 1 := ⟨fuel - 1, by omega⟩
    have hne : '=' ∉ (c :: key') ++ after := by
      intro hmem
      rcases List.mem_append.mp hmem with hmem | hmem
      · exact hke hmem
      · exact absurd (ha _ hmem) (by decide)
    have htrim : Text.trim (c :: key' ++ after) = c :: key' := by
      rw [Text.trim_append_of_all ha, Text.trim_of_forall_not hkw]
    have hword : (c :: key').any isWhitespace = false := by
      rw [List.any_eq_false]
      exact fun d hd => by simp [hkw d hd]
    have hgap : Text.trimStart (gap ++ '"' :: (value ++ '"' :: rest)) =
        '"' :: (value ++ '"' :: rest) := by
      rw [Text.trimStart_append_of_all hg, Text.trimStart_cons_of_not (by decide)]
    have hout := @ih fuel (by omega)
    rw [← List.append_assoc, iterAttrsLoop, if_neg (by simp), Text.splitFirst_append hne]
    simp only [htrim, hword, List.isEmpty_cons, Bool.or_self, Bool.false_eq_true, if_false, hgap,
      Text.splitFirst_append hv, hout, bind, Except.bind]

/-- **The lexer reads the lists of attributes.** -/
theorem iterAttrs_eq_ok_iff {s : Text} {pairs : List (Text × Text)} :
    iterAttrs debug s = .ok pairs ↔ AttrList s pairs := by
  unfold iterAttrs
  constructor
  · intro h
    obtain ⟨a, b, ha, hb, hs⟩ := Text.exists_trim s
    have hlist := ((attrList_of_loop (by omega) h).append_blank hb).blank_append ha
    rw [← hs] at hlist
    exact hlist
  · intro h
    have hlist : AttrList s.trim pairs := h.trimStart.trimEnd
    have hstart : Text.trimStart s.trim = s.trim := Text.trimStart_of_isPrefix (Text.trim_isPrefix s)
    have hloop := @loop_of_attrList debug _ _ hlist (s.trim.length + 1) (by rw [hstart]; omega)
    rw [hstart] at hloop
    exact hloop

/-! ### Begin lines -/

/-- The value of the last attribute with the key. -/
def lastValue (pairs : List (Text × Text)) (key : Text) : Option Text :=
  (pairs.filter fun p => decide (p.1 = key)).getLast?.map (·.2)

/-- The line is a begin marker with the given attributes: every date that it gives is
one, and of a repeated attribute the last value counts. -/
structure IsBeginLine (chrono : Chrono) (trimmed : Text) (a : MarkerAttrs) : Prop where
  shape : ∃ inner pairs, trimmed = beginPrefix ++ (inner ++ beginSuffix) ∧ AttrList inner pairs ∧
    (∀ p ∈ pairs, p.1 = "date".toList → ∃ d, chrono.parseFromStr p.2 = .ok d) ∧
    (∃ v, lastValue pairs "date".toList = some v ∧ chrono.parseFromStr v = .ok a.date) ∧
    lastValue pairs "run_id".toList = some a.runId ∧
    lastValue pairs "template".toList = some a.template ∧
    lastValue pairs "version".toList = some a.version

/-- The slots after some attributes. -/
def slotsOf (chrono : Chrono) (pairs : List (Text × Text)) : AttrSlots where
  date := (lastValue pairs "date".toList).bind fun v => (chrono.parseFromStr v).toOption
  runId := lastValue pairs "run_id".toList
  template := lastValue pairs "template".toList
  version := lastValue pairs "version".toList

theorem lastValue_concat (pairs : List (Text × Text)) (p : Text × Text) (key : Text) :
    lastValue (pairs ++ [p]) key = if p.1 = key then some p.2 else lastValue pairs key := by
  unfold lastValue
  rw [List.filter_append]
  split_ifs with h
  · rw [List.filter_cons_of_pos (by simpa using h)]
    simp
  · rw [List.filter_cons_of_neg (by simpa using h), List.filter_nil, List.append_nil]

/-- One more attribute. -/
theorem set_eq_ok_iff {n : ℕ} {pairs : List (Text × Text)} {p : Text × Text} {s : AttrSlots} :
    AttrSlots.set chrono n (slotsOf chrono pairs) p = .ok s ↔
      (p.1 = "date".toList → ∃ d, chrono.parseFromStr p.2 = .ok d) ∧
        s = slotsOf chrono (pairs ++ [p]) := by
  have hkeys : "run_id".toList ≠ "date".toList ∧ "template".toList ≠ "date".toList ∧
      "version".toList ≠ "date".toList ∧ "template".toList ≠ "run_id".toList ∧
      "version".toList ≠ "run_id".toList ∧ "version".toList ≠ "template".toList := by decide
  obtain ⟨hrd, htd, hvd, htr, hvr, hvt⟩ := hkeys
  unfold AttrSlots.set slotsOf
  simp only [lastValue_concat]
  generalize "date".toList = date at *
  generalize "run_id".toList = runId at *
  generalize "template".toList = template at *
  generalize "version".toList = version at *
  by_cases hd : p.1 = date
  · subst hd
    cases hp : chrono.parseFromStr p.2 with
    | ok d =>
      simp only [if_true, if_neg (Ne.symm hrd), if_neg (Ne.symm htd), if_neg (Ne.symm hvd),
        Option.bind_some, hp, Except.toOption, Except.ok.injEq, exists_eq', implies_true, true_and]
      exact eq_comm
    | error e => simp
  · rw [if_neg hd]
    simp only [hd, false_implies, true_and, if_false]
    by_cases hr : p.1 = runId
    · subst hr
      simp only [if_true, if_neg (Ne.symm htr), if_neg (Ne.symm hvr), Except.ok.injEq]
      exact eq_comm
    · rw [if_neg hr]
      by_cases ht : p.1 = template
      · subst ht
        simp only [if_true, if_neg hr, if_neg (Ne.symm hvt), Except.ok.injEq]
        exact eq_comm
      · rw [if_neg ht]
        by_cases hv : p.1 = version
        · subst hv
          simp only [if_true, if_neg hr, if_neg ht, Except.ok.injEq]
          exact eq_comm
        · simp only [if_neg hr, if_neg ht, if_neg hv, Except.ok.injEq]
          exact eq_comm

/-- The attributes are taken when every date among them is one. -/
theorem foldlM_set_eq_ok_iff {n : ℕ} {pairs : List (Text × Text)} {s : AttrSlots} :
    pairs.foldlM (AttrSlots.set chrono n) AttrSlots.empty = .ok s ↔
      (∀ p ∈ pairs, p.1 = "date".toList → ∃ d, chrono.parseFromStr p.2 = .ok d) ∧
        s = slotsOf chrono pairs := by
  induction pairs using List.reverseRecOn generalizing s with
  | nil =>
    constructor
    · intro h
      cases h
      exact ⟨by simp, rfl⟩
    · rintro ⟨-, rfl⟩
      rfl
  | append_singleton pairs p ih =>
    have hall : (∀ q ∈ pairs ++ [p], q.1 = "date".toList →
          ∃ d, chrono.parseFromStr q.2 = .ok d) ↔
        (∀ q ∈ pairs, q.1 = "date".toList → ∃ d, chrono.parseFromStr q.2 = .ok d) ∧
          (p.1 = "date".toList → ∃ d, chrono.parseFromStr p.2 = .ok d) := by
      simp only [List.forall_mem_append, List.forall_mem_singleton]
    rw [List.foldlM_append, hall, and_assoc]
    by_cases hpairs : ∀ q ∈ pairs, q.1 = "date".toList → ∃ d, chrono.parseFromStr q.2 = .ok d
    · rw [ih.mpr ⟨hpairs, rfl⟩, ← set_eq_ok_iff (n := n)]
      simp only [List.foldlM_cons, List.foldlM_nil, bind_pure]
      exact (and_iff_right hpairs).symm
    · -- the attributes before it fail already
      refine iff_of_false (fun h => ?_) fun h => hpairs h.1
      cases hs : pairs.foldlM (AttrSlots.set chrono n) AttrSlots.empty with
      | error e =>
        rw [hs] at h
        cases h
      | ok s => exact hpairs (ih.mp hs).1

theorem stripMarker_eq_some_iff {trimmed inner : Text} :
    stripMarker trimmed = some inner ↔ trimmed = beginPrefix ++ (inner ++ beginSuffix) := by
  simp only [stripMarker, Option.bind_eq_some_iff, List.isPrefixOf?_eq_some_iff_append_eq,
    List.isSuffixOf?_eq_some_iff_append_eq]
  constructor
  · rintro ⟨s, rfl, rfl⟩
    rfl
  · rintro rfl
    exact ⟨_, rfl, rfl⟩

theorem attrList_trim_iff {s : Text} {pairs : List (Text × Text)} :
    AttrList s.trim pairs ↔ AttrList s pairs := by
  constructor
  · intro h
    obtain ⟨a, b, ha, hb, hs⟩ := Text.exists_trim s
    rw [hs]
    exact (h.append_blank hb).blank_append ha
  · intro h
    exact h.trimStart.trimEnd

/-- The four attributes of a begin line. -/
theorem slotsOf_eq_iff {pairs : List (Text × Text)} {a : MarkerAttrs} :
    slotsOf chrono pairs = ⟨some a.date, some a.runId, some a.template, some a.version⟩ ↔
      (∃ v, lastValue pairs "date".toList = some v ∧ chrono.parseFromStr v = .ok a.date) ∧
        lastValue pairs "run_id".toList = some a.runId ∧
        lastValue pairs "template".toList = some a.template ∧
        lastValue pairs "version".toList = some a.version := by
  have hdate (v : Text) : (chrono.parseFromStr v).toOption = some a.date ↔
      chrono.parseFromStr v = .ok a.date := by
    cases chrono.parseFromStr v <;> simp [Except.toOption]
  unfold slotsOf
  rw [AttrSlots.mk.injEq, Option.bind_eq_some_iff]
  simp only [hdate]

/-- **The parser of begin lines** reads the begin lines. -/
theorem parseBeginAttrs_eq_ok_iff {trimmed : Text} {n : ℕ} {a : MarkerAttrs} :
    parseBeginAttrs chrono debug trimmed n = .ok a ↔ IsBeginLine chrono trimmed a := by
  unfold parseBeginAttrs
  constructor
  · intro h
    cases hs : stripMarker trimmed with
    | none =>
      rw [hs] at h
      cases h
    | some inner =>
      rw [hs] at h
      dsimp only at h
      cases hi : iterAttrs debug inner.trim with
      | error e =>
        rw [hi] at h
        cases h
      | ok pairs =>
        rw [hi] at h
        dsimp only at h
        cases hp : pairs.foldlM (AttrSlots.set chrono n) AttrSlots.empty with
        | error e =>
          rw [hp] at h
          cases h
        | ok slots =>
          rw [hp] at h
          have hslots := finish_eq_ok_iff.mp (show slots.finish n = .ok a from h)
          obtain ⟨hdates, rfl⟩ := foldlM_set_eq_ok_iff.mp hp
          exact ⟨inner, pairs, stripMarker_eq_some_iff.mp hs,
            attrList_trim_iff.mp (iterAttrs_eq_ok_iff.mp hi), hdates, slotsOf_eq_iff.mp hslots⟩
  · rintro ⟨inner, pairs, htrimmed, hlist, hdates, hslots⟩
    have hslots : (slotsOf chrono pairs).finish n = .ok a :=
      finish_eq_ok_iff.mpr (slotsOf_eq_iff.mpr hslots)
    rw [stripMarker_eq_some_iff.mpr htrimmed]
    dsimp only
    rw [iterAttrs_eq_ok_iff.mpr (attrList_trim_iff.mpr hlist)]
    dsimp only
    rw [foldlM_set_eq_ok_iff.mpr ⟨hdates, rfl⟩]
    exact hslots

/-! ### The lines outside the fences -/

/-- The lines outside the fenced regions, with their numbers.  A region goes from the
line that opens it to the first line that closes it, or else to the end. -/
inductive Outside : ℕ → List Text → List (ℕ × Text) → Prop
  | nil {n : ℕ} : Outside n [] []
  | line {n : ℕ} {l : Text} {rest : List Text} {out : List (ℕ × Text)} :
      FenceSentinel.detectOpen (trimmedLine l) = none → Outside (n + 1) rest out →
      Outside n (l :: rest) ((n, l) :: out)
  | fenced {n : ℕ} {opener closer : Text} {f : FenceSentinel} {inner rest : List Text}
      {out : List (ℕ × Text)} :
      FenceSentinel.detectOpen (trimmedLine opener) = some f →
      (∀ l ∈ inner, f.lineCloses (trimmedLine l) = false) →
      f.lineCloses (trimmedLine closer) = true → Outside (n + (inner.length + 2)) rest out →
      Outside n (opener :: (inner ++ closer :: rest)) out
  | unclosed {n : ℕ} {opener : Text} {f : FenceSentinel} {inner : List Text} :
      FenceSentinel.detectOpen (trimmedLine opener) = some f →
      (∀ l ∈ inner, f.lineCloses (trimmedLine l) = false) → Outside n (opener :: inner) []

theorem exists_outside (n : ℕ) (lines : List Text) : ∃ out, Outside n lines out := by
  induction hlen : lines.length using Nat.strong_induction_on generalizing n lines with
  | _ k ih =>
    cases lines with
    | nil => exact ⟨_, .nil⟩
    | cons l lines =>
      cases hd : FenceSentinel.detectOpen (trimmedLine l) with
      | none =>
        obtain ⟨out, hout⟩ := ih lines.length (by simp at hlen; omega) (n + 1) lines rfl
        exact ⟨_, .line hd hout⟩
      | some f =>
        -- the region ends with the first line that closes it
        cases hclose : lines.find? fun c => f.lineCloses (trimmedLine c) with
        | some closer =>
          obtain ⟨hc, inner, rest, rfl, hinner⟩ := List.find?_eq_some_iff_append.mp hclose
          obtain ⟨out, hout⟩ := ih rest.length (by simp at hlen; omega)
            (n + (inner.length + 2)) rest rfl
          exact ⟨out, .fenced hd (fun l hl => by simpa using hinner l hl) hc hout⟩
        | none =>
          exact ⟨[], .unclosed hd fun c hc => by simpa using List.find?_eq_none.mp hclose c hc⟩

/-! ### The first violation -/

/-- What is reported of an error besides its text. -/
inductive Violation
  | nestedBegin (line : ℕ)
  | unclosedBegin (line : ℕ)
  | danglingEnd (line : ℕ)
  | malformedBegin (line : ℕ)
  deriving DecidableEq, Repr

def MarkerError.violation : MarkerError → Violation
  | .nestedBegin line => .nestedBegin line
  | .unclosedBegin line => .unclosedBegin line
  | .danglingEnd line => .danglingEnd line
  | .malformedBegin line _ => .malformedBegin line

def isMarker (line : Text) : Bool :=
  isEndMarker (trimmedLine line) || isBeginMarker (trimmedLine line)

/-- The markers among numbered lines. -/
def markersOf (lines : List (ℕ × Text)) : List (ℕ × Text) := lines.filter fun p => isMarker p.2

/-- Begin lines and end lines in turn, from a begin line to an end line. -/
inductive Alternates (chrono : Chrono) : List (ℕ × Text) → Prop
  | nil : Alternates chrono []
  | block {b e : ℕ × Text} {rest : List (ℕ × Text)} {a : MarkerAttrs} :
      IsBeginLine chrono (trimmedLine b.2) a → isEndMarker (trimmedLine e.2) = true →
      Alternates chrono rest → Alternates chrono (b :: e :: rest)

/-- Where the markers have to start with a block and do not. -/
inductive Breaks (chrono : Chrono) : List (ℕ × Text) → Violation → Prop
  | danglingEnd {e : ℕ × Text} {rest : List (ℕ × Text)} :
      isEndMarker (trimmedLine e.2) = true → Breaks chrono (e :: rest) (.danglingEnd e.1)
  | malformedBegin {b : ℕ × Text} {rest : List (ℕ × Text)} :
      isBeginMarker (trimmedLine b.2) = true → (∀ a, ¬IsBeginLine chrono (trimmedLine b.2) a) →
      Breaks chrono (b :: rest) (.malformedBegin b.1)
  | unclosedBegin {b : ℕ × Text} {a : MarkerAttrs} :
      IsBeginLine chrono (trimmedLine b.2) a → Breaks chrono [b] (.unclosedBegin b.1)
  | nestedBegin {b b' : ℕ × Text} {rest : List (ℕ × Text)} {a : MarkerAttrs} :
      IsBeginLine chrono (trimmedLine b.2) a → isBeginMarker (trimmedLine b'.2) = true →
      Breaks chrono (b :: b' :: rest) (.nestedBegin b'.1)

/-- Blocks, and then the violation. -/
def FirstViolation (chrono : Chrono) (markers : List (ℕ × Text)) (v : Violation) : Prop :=
  ∃ blocks rest, markers = blocks ++ rest ∧ Alternates chrono blocks ∧ Breaks chrono rest v

/-- The violation that a reader of the markers finds; `opened` is the line of a block
that is open. -/
def violationIn (chrono : Chrono) (debug : DebugText) : Option ℕ → List (ℕ × Text) →
    Option Violation
  | none, [] => none
  | some start, [] => some (.unclosedBegin start)
  | none, (n, l) :: rest =>
    if isEndMarker (trimmedLine l) then some (.danglingEnd n)
    else match parseBeginAttrs chrono debug (trimmedLine l) n with
      | .ok _ => violationIn chrono debug (some n) rest
      | .error _ => some (.malformedBegin n)
  | some _, (n, l) :: rest =>
    if isEndMarker (trimmedLine l) then violationIn chrono debug none rest
    else some (.nestedBegin n)

theorem IsBeginLine.isBeginMarker {trimmed : Text} {a : MarkerAttrs}
    (h : IsBeginLine chrono trimmed a) : isBeginMarker trimmed = true := by
  obtain ⟨inner, pairs, rfl, -⟩ := h
  rw [Markers.isBeginMarker, Bool.and_eq_true, List.isPrefixOf_iff_prefix,
    List.isSuffixOf_iff_suffix, ← List.append_assoc]
  refine ⟨?_, List.suffix_append _ _⟩
  rw [List.append_assoc]
  exact List.prefix_append _ _

/-- No line is a begin marker and an end marker. -/
theorem isEndMarker_of_isBeginMarker {trimmed : Text} (h : isBeginMarker trimmed = true) :
    isEndMarker trimmed = false := by
  by_contra hne
  have heq : trimmed = endMarker := eq_of_beq (by simpa [isEndMarker] using hne)
  subst heq
  exact absurd h (by decide)

/-- Behind some blocks the reader is where it started. -/
theorem violationIn_append {blocks : List (ℕ × Text)} (h : Alternates chrono blocks)
    (rest : List (ℕ × Text)) :
    violationIn chrono debug none (blocks ++ rest) = violationIn chrono debug none rest := by
  induction h with
  | nil => rfl
  | @block b e _ a hb he _ ih =>
    have hattrs : parseBeginAttrs chrono debug (trimmedLine b.2) b.1 = .ok a :=
      parseBeginAttrs_eq_ok_iff.mpr hb
    have hbegin := isEndMarker_of_isBeginMarker hb.isBeginMarker
    rw [List.cons_append, List.cons_append, violationIn, if_neg (by simp [hbegin]), hattrs]
    dsimp only
    rw [violationIn, if_pos he, ih]

theorem violationIn_breaks {rest : List (ℕ × Text)} {v : Violation} (h : Breaks chrono rest v) :
    violationIn chrono debug none rest = some v := by
  have hopen {b : ℕ × Text} {a : MarkerAttrs} (hb : IsBeginLine chrono (trimmedLine b.2) a)
      (tail : List (ℕ × Text)) : violationIn chrono debug none (b :: tail) =
        violationIn chrono debug (some b.1) tail := by
    have hattrs : parseBeginAttrs chrono debug (trimmedLine b.2) b.1 = .ok a :=
      parseBeginAttrs_eq_ok_iff.mpr hb
    rw [violationIn, if_neg (by simp [isEndMarker_of_isBeginMarker hb.isBeginMarker]), hattrs]
  cases h with
  | danglingEnd he => rw [violationIn, if_pos he]
  | @malformedBegin b _ hb hnone =>
    rw [violationIn, if_neg (by simp [isEndMarker_of_isBeginMarker hb])]
    cases hp : parseBeginAttrs chrono debug (trimmedLine b.2) b.1 with
    | ok a => exact absurd (parseBeginAttrs_eq_ok_iff.mp hp) (hnone a)
    | error e => rfl
  | unclosedBegin hb => rw [hopen hb, violationIn]
  | nestedBegin hb hb' =>
    rw [hopen hb, violationIn, if_neg (by simp [isEndMarker_of_isBeginMarker hb'])]

/-- Markers come in blocks, or there is a first violation. -/
theorem alternates_or_firstViolation (markers : List (ℕ × Text))
    (hm : ∀ p ∈ markers, isMarker p.2 = true) :
    Alternates chrono markers ∨ ∃ v, FirstViolation chrono markers v := by
  induction hlen : markers.length using Nat.strong_induction_on generalizing markers with
  | _ k ih =>
    have hbreak {v : Violation} (h : Breaks chrono markers v) :
        Alternates chrono markers ∨ ∃ v, FirstViolation chrono markers v :=
      Or.inr ⟨v, [], markers, rfl, .nil, h⟩
    match markers with
    | [] => exact Or.inl .nil
    | b :: tail =>
      by_cases he : isEndMarker (trimmedLine b.2) = true
      · exact hbreak (.danglingEnd he)
      have hb : isBeginMarker (trimmedLine b.2) = true := by
        have h := hm b List.mem_cons_self
        rw [isMarker, Bool.or_eq_true] at h
        exact h.resolve_left he
      by_cases ha : ∃ a, IsBeginLine chrono (trimmedLine b.2) a
      · obtain ⟨a, ha⟩ := ha
        match tail with
        | [] => exact hbreak (.unclosedBegin ha)
        | e :: rest =>
          by_cases hend : isEndMarker (trimmedLine e.2) = true
          · -- a block, and what is behind it
            have hrest : ∀ p ∈ rest, isMarker p.2 = true := fun p hp => hm p (by simp [hp])
            rcases ih rest.length (by simp at hlen; omega) rest hrest rfl with
              h | ⟨v, bs, r, rfl, h, hv⟩
            · exact Or.inl (.block ha hend h)
            · exact Or.inr ⟨v, b :: e :: bs, r, rfl, .block ha hend h, hv⟩
          · have h := hm e (by simp)
            rw [isMarker, Bool.or_eq_true] at h
            exact hbreak (.nestedBegin ha (h.resolve_left hend))
      · exact hbreak (.malformedBegin hb fun a h => ha ⟨a, h⟩)

/-! ### The scanner finds it -/

/-- What the end of a scan says. -/
def scanViolation : Except MarkerError Scan → Option Violation
  | .error e => some e.violation
  | .ok s => s.opened.map fun o => .unclosedBegin o.startLine

theorem foldlM_set_violation {n : ℕ} {pairs : List (Text × Text)} {s : AttrSlots} {e : MarkerError}
    (h : pairs.foldlM (AttrSlots.set chrono n) s = .error e) : e.violation = .malformedBegin n := by
  induction pairs generalizing s with
  | nil => cases h
  | cons p pairs ih =>
    rw [List.foldlM_cons] at h
    cases hs : AttrSlots.set chrono n s p with
    | ok s' =>
      rw [hs] at h
      exact ih h
    | error e' =>
      rw [hs] at h
      cases h
      unfold AttrSlots.set at hs
      split_ifs at hs
      · split at hs
        · cases hs
        · cases hs
          rfl

theorem finish_violation {n : ℕ} {s : AttrSlots} {e : MarkerError} (h : s.finish n = .error e) :
    e.violation = .malformedBegin n := by
  obtain ⟨date, runId, template, version⟩ := s
  cases date <;> cases runId <;> cases template <;> cases version <;>
    first
      | cases h; rfl
      | cases h

/-- A begin line that cannot be read is reported as malformed. -/
theorem parseBeginAttrs_violation {trimmed : Text} {n : ℕ} {e : MarkerError}
    (h : parseBeginAttrs chrono debug trimmed n = .error e) : e.violation = .malformedBegin n := by
  unfold parseBeginAttrs at h
  split at h
  · cases h
    rfl
  · split at h
    · cases h
      rfl
    · next pairs _ =>
      cases hp : pairs.foldlM (AttrSlots.set chrono n) AttrSlots.empty with
      | error e' =>
        rw [hp] at h
        cases h
        exact foldlM_set_violation hp
      | ok slots =>
        rw [hp] at h
        exact finish_violation h

/-- A run of text leaves the open block as it is. -/
theorem scanLines_run {ls : List Text} (s : Scan) (h : AllText s.fence ls) (n : ℕ)
    (rest : List Text) : ∃ s', scanLines chrono debug n s (ls ++ rest) =
        scanLines chrono debug (n + ls.length) s' rest ∧ s'.fence = fenceAfter s.fence ls ∧
      s'.opened.map (·.startLine) = s.opened.map (·.startLine) := by
  induction ls generalizing s n with
  | nil => exact ⟨s, rfl, rfl, rfl⟩
  | cons l ls ih =>
    obtain ⟨s', hscan, hfence, hopened⟩ :=
      ih { s.push l with fence := fenceStep s.fence l } h.2 (n + 1)
    refine ⟨s', ?_, hfence, hopened.trans ?_⟩
    · rw [List.cons_append, scanLines, scanLine_text h.1]
      simp only [bind, Except.bind]
      rw [hscan, List.length_cons, Nat.add_assoc, Nat.add_comm 1]
    · unfold Scan.push
      cases s.opened <;> rfl

/-- The lines of a fenced region are text. -/
theorem allText_region {f : FenceSentinel} {opener : Text} {inner : List Text}
    (ho : FenceSentinel.detectOpen (trimmedLine opener) = some f)
    (hi : ∀ l ∈ inner, f.lineCloses (trimmedLine l) = false) :
    AllText none (opener :: inner) ∧ fenceAfter none (opener :: inner) = some f := by
  have hstep : fenceStep none opener = some f := ho
  have hinner : AllText (some f) inner ∧ fenceAfter (some f) inner = some f := by
    induction inner with
    | nil => exact ⟨trivial, rfl⟩
    | cons l inner ih =>
      have hl : fenceStep (some f) l = some f := by simp [fenceStep, hi l List.mem_cons_self]
      obtain ⟨h1, h2⟩ := ih fun c hc => hi c (List.mem_cons_of_mem _ hc)
      exact ⟨⟨rfl, hl.symm ▸ h1⟩, by rw [fenceAfter_cons, hl, h2]⟩
  refine ⟨⟨?_, hstep.symm ▸ hinner.1⟩, ?_⟩
  · simp [lineKind, ho]
  · rw [fenceAfter_cons, hstep, hinner.2]

/-- A line outside the fences is what its markers say. -/
theorem lineKind_outside {l : Text} (h : FenceSentinel.detectOpen (trimmedLine l) = none) :
    lineKind none l = if isEndMarker (trimmedLine l) then .endMark
      else if isBeginMarker (trimmedLine l) then .beginMark else .text := by
  simp [lineKind, h]

/-- **The scan finds the violation** that is in the markers outside the fences. -/
theorem scanViolation_eq {n : ℕ} {lines : List Text} {out : List (ℕ × Text)}
    (h : Outside n lines out) (s : Scan) (hs : s.fence = none) :
    scanViolation (scanLines chrono debug n s lines) =
      violationIn chrono debug (s.opened.map (·.startLine)) (markersOf out) := by
  induction h generalizing s with
  | nil =>
    show (s.opened.map fun o => Violation.unclosedBegin o.startLine) = _
    cases s.opened <;> rfl
  | @line n l rest out hd _ ih =>
    have hkind := lineKind_outside hd
    rw [← hs] at hkind
    by_cases he : isEndMarker (trimmedLine l) = true
    · have hm : markersOf ((n, l) :: out) = (n, l) :: markersOf out :=
        List.filter_cons_of_pos (by simp [isMarker, he])
      rw [if_pos he] at hkind
      rw [scanLines, scanLine_end hkind, hm]
      cases ho : s.opened with
      | none =>
        rw [Option.map_none, violationIn, if_pos he]
        rfl
      | some o =>
        rw [Option.map_some, violationIn, if_pos he]
        exact ih _ hs
    · rw [if_neg he] at hkind
      by_cases hb : isBeginMarker (trimmedLine l) = true
      · have hm : markersOf ((n, l) :: out) = (n, l) :: markersOf out :=
          List.filter_cons_of_pos (by simp [isMarker, hb])
        rw [if_pos hb] at hkind
        rw [scanLines, scanLine_begin hkind, hm]
        cases ho : s.opened with
        | some o =>
          rw [Option.map_some, violationIn, if_neg he]
          rfl
        | none =>
          rw [Option.map_none, violationIn, if_neg he]
          dsimp only
          cases hp : parseBeginAttrs chrono debug (trimmedLine l) n with
          | error e => exact congrArg some (parseBeginAttrs_violation hp)
          | ok a => exact ih _ hs
      · have hm : markersOf ((n, l) :: out) = markersOf out :=
          List.filter_cons_of_neg (by simp [isMarker, he, hb])
        rw [if_neg hb] at hkind
        have hall : AllText s.fence [l] := ⟨hkind, trivial⟩
        obtain ⟨s', hscan, hfence, hopened⟩ := @scanLines_run chrono debug [l] s hall n rest
        rw [hm, ← hopened, ← ih s' (by rw [hfence, hs, fenceAfter_cons]; exact hd)]
        exact congrArg _ hscan
  | @fenced n opener closer f inner rest out ho hi hc _ ih =>
    obtain ⟨hall, hafter⟩ := allText_region ho hi
    have hall : AllText s.fence (opener :: (inner ++ [closer])) := by
      rw [hs, ← List.cons_append]
      exact hall.concat (by rw [hafter]; rfl)
    have hclosed : fenceAfter s.fence (opener :: (inner ++ [closer])) = none := by
      rw [hs, ← List.cons_append, fenceAfter_append, hafter]
      simp [fenceStep, hc]
    obtain ⟨s', hscan, hfence, hopened⟩ := @scanLines_run chrono debug _ s hall n rest
    have hlines : opener :: (inner ++ closer :: rest) = opener :: (inner ++ [closer]) ++ rest := by
      simp
    have hlen : n + (opener :: (inner ++ [closer])).length = n + (inner.length + 2) := by simp
    rw [hlen] at hscan
    rw [hlines, hscan, ← hopened]
    exact ih s' (by rw [hfence, hclosed])
  | @unclosed n opener f inner ho hi =>
    obtain ⟨hall, -⟩ := allText_region ho hi
    obtain ⟨s', hscan, -, hopened⟩ := @scanLines_run chrono debug _ s (hs ▸ hall) n []
    rw [List.append_nil] at hscan
    rw [hscan, ← hopened]
    show (s'.opened.map fun o => Violation.unclosedBegin o.startLine) = _
    cases s'.opened <;> rfl

/-! ### The result -/

/-- A region ends at the first line that closes it. -/
theorem takeWhile_region {f : FenceSentinel} {closer : Text} {inner rest : List Text}
    (hi : ∀ l ∈ inner, f.lineCloses (trimmedLine l) = false)
    (hc : f.lineCloses (trimmedLine closer) = true) :
    (inner ++ closer :: rest).takeWhile (fun l => !f.lineCloses (trimmedLine l)) = inner := by
  rw [List.takeWhile_append_of_pos (fun l hl => by simp [hi l hl]),
    List.takeWhile_cons_of_neg (by simp [hc]), List.append_nil]

/-- The lines outside the fences are determined. -/
theorem Outside.unique {n : ℕ} {lines : List Text} {out out' : List (ℕ × Text)}
    (h : Outside n lines out) (h' : Outside n lines out') : out' = out := by
  induction h generalizing out' with
  | nil =>
    cases h'
    rfl
  | @line n l rest out hd _ ih =>
    generalize hlines : l :: rest = lines at h'
    cases h' with
    | nil => cases hlines
    | line _ hrest =>
      obtain ⟨rfl, rfl⟩ := List.cons.inj hlines
      rw [ih hrest]
    | fenced ho | unclosed ho =>
      obtain ⟨rfl, -⟩ := List.cons.inj hlines
      rw [hd] at ho
      cases ho
  | @fenced n opener closer f inner rest out ho hi hc _ ih =>
    generalize hlines : opener :: (inner ++ closer :: rest) = lines at h'
    cases h' with
    | nil => cases hlines
    | line hd =>
      obtain ⟨rfl, -⟩ := List.cons.inj hlines
      rw [hd] at ho
      cases ho
    | fenced ho' hi' hc' hrest =>
      obtain ⟨rfl, hl⟩ := List.cons.inj hlines
      obtain rfl := Option.some.inj (ho.symm.trans ho')
      have hinner := @takeWhile_region _ _ _ rest hi hc
      rw [hl, takeWhile_region hi' hc'] at hinner
      subst hinner
      obtain ⟨rfl, rfl⟩ := List.cons.inj (List.append_cancel_left hl)
      exact ih hrest
    | unclosed ho' hi' =>
      obtain ⟨rfl, rfl⟩ := List.cons.inj hlines
      obtain rfl := Option.some.inj (ho.symm.trans ho')
      rw [hi' closer (by simp)] at hc
      cases hc
  | @unclosed n opener f inner ho hi =>
    generalize hlines : opener :: inner = lines at h'
    cases h' with
    | nil => cases hlines
    | line hd =>
      obtain ⟨rfl, -⟩ := List.cons.inj hlines
      rw [hd] at ho
      cases ho
    | @fenced _ _ closer _ _ _ _ ho' _ hc' =>
      obtain ⟨rfl, rfl⟩ := List.cons.inj hlines
      obtain rfl := Option.some.inj (ho.symm.trans ho')
      rw [hi closer (by simp)] at hc'
      cases hc'
    | unclosed => rfl

theorem markersOf_markers {lines : List (ℕ × Text)} : ∀ p ∈ markersOf lines, isMarker p.2 = true :=
  fun _ hp => (List.mem_filter.mp hp).2

/-- A violation is the first when the reader finds it. -/
theorem firstViolation_iff {lines : List (ℕ × Text)} {v : Violation} :
    FirstViolation chrono (markersOf lines) v ↔
      violationIn chrono debug none (markersOf lines) = some v := by
  have hfound {w : Violation} (h : FirstViolation chrono (markersOf lines) w) :
      violationIn chrono debug none (markersOf lines) = some w := by
    obtain ⟨blocks, rest, hsplit, hblocks, hbreak⟩ := h
    rw [hsplit, violationIn_append hblocks, violationIn_breaks hbreak]
  refine ⟨hfound, fun h => ?_⟩
  rcases @alternates_or_firstViolation chrono _ markersOf_markers with halt | ⟨w, hw⟩
  · have hnone := @violationIn_append _ debug _ halt []
    rw [List.append_nil, h] at hnone
    cases hnone
  · obtain rfl := Option.some.inj ((hfound hw).symm.trans h)
    exact hw

theorem alternates_iff {lines : List (ℕ × Text)} :
    Alternates chrono (markersOf lines) ↔
      violationIn chrono debug none (markersOf lines) = none := by
  constructor
  · intro h
    have hnone := @violationIn_append _ debug _ h []
    rw [List.append_nil] at hnone
    exact hnone
  · intro h
    refine (alternates_or_firstViolation _ markersOf_markers).resolve_right ?_
    rintro ⟨v, hv⟩
    rw [@firstViolation_iff _ debug, h] at hv
    cases hv

/-- How the text is read: `lines` are those outside the fences. -/
structure ReadAs (chrono : Chrono) (debug : DebugText) (text : Text) (lines : List (ℕ × Text)) :
    Prop where
  outside : Outside 1 text.splitLines lines
  accepted : (∃ doc, parse chrono debug text = .ok doc) ↔ Alternates chrono (markersOf lines)
  /-- the runs of text, which are never adjacent, and the blocks -/
  segments : ∀ doc, parse chrono debug text = .ok doc →
    ∃ spans, WellFormed chrono debug spans ∧ text.splitLines = linesOf spans ∧
      doc.segments = spans.map Span.segment
  rejected : ∀ v, (∃ e, parse chrono debug text = .error e ∧ e.violation = v) ↔
    FirstViolation chrono (markersOf lines) v

/-- **The parser accepts its grammar, and reports the first violation.** -/
theorem parse_grammar (chrono : Chrono) (debug : DebugText) (text : Text) :
    ∃! lines, ReadAs chrono debug text lines := by
  obtain ⟨lines, hout⟩ := exists_outside 1 text.splitLines
  refine ⟨lines, ?_, fun lines' h => hout.unique h.outside⟩
  have hscan := @scanViolation_eq chrono debug _ _ _ hout Scan.init rfl
  have hok : (∃ doc, parse chrono debug text = .ok doc) ↔
      violationIn chrono debug none (markersOf lines) = none := by
    rw [← show _ = violationIn chrono debug none (markersOf lines) from hscan]
    unfold parse splitLinesPreservingNewlines
    cases hs : scanLines chrono debug 1 Scan.init text.splitLines with
    | error e => exact iff_of_false (fun ⟨doc, h⟩ => nomatch h) (Option.some_ne_none _)
    | ok s =>
      simp only [bind, Except.bind, scanViolation]
      cases s.opened <;> simp
  have herror (v : Violation) : (∃ e, parse chrono debug text = .error e ∧ e.violation = v) ↔
      violationIn chrono debug none (markersOf lines) = some v := by
    rw [← show _ = violationIn chrono debug none (markersOf lines) from hscan]
    unfold parse splitLinesPreservingNewlines
    cases hs : scanLines chrono debug 1 Scan.init text.splitLines with
    | error e => simp [bind, Except.bind, scanViolation]
    | ok s =>
      simp only [bind, Except.bind, scanViolation]
      cases s.opened <;> simp [MarkerError.violation]
  exact ⟨hout, hok.trans alternates_iff.symm, fun doc h => exists_spans_of_parse h,
    fun v => (herror v).trans firstViolation_iff.symm⟩

/-! ### A fence that is not closed -/

/-- A fence that nothing closes, and an end marker. -/
def openFence : Text := "```\n<!-- dayseam:end -->\n".toList

/-- **A fence that is not closed** hides the end marker behind it: the text has no closed
region, its one marker is a dangling end, and it is accepted. -/
theorem open_fence_hides_marker :
    openFence.splitLines = ["```\n".toList, "<!-- dayseam:end -->\n".toList] ∧
      FenceSentinel.detectOpen (trimmedLine "```\n".toList) = some (.mk '`' 3) ∧
      (FenceSentinel.mk '`' 3).lineCloses (trimmedLine "<!-- dayseam:end -->\n".toList) = false ∧
      ¬Alternates Chrono.iso (markersOf
        [(1, "```\n".toList), (2, "<!-- dayseam:end -->\n".toList)]) ∧
      parse Chrono.iso id openFence = .ok ⟨[.prose openFence]⟩ := by
  refine ⟨by decide, by decide, by decide, fun h => ?_, by rfl⟩
  rw [@alternates_iff _ id] at h
  revert h
  decide

end Markers
end Dayseam
