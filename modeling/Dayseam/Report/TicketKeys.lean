import Dayseam.Core.Utf8Ascii
import Dayseam.Lib.Occurrences
import Dayseam.Report.Enrich
import Mathlib

/-!
# The ticket keys of a text

The scanner reads a text once.  A candidate that it gives up may be followed at once
by the start of a key, and a key may start inside what it has passed only where no
letter or digit goes before; so the places at which it resumes decide whether a key
is missed.  The scan runs over the bytes of the text, and cuts keys out of them.

## Main definitions

* `IsTicketKey` — the grammar, at a place of a text.
* `KeyRound` — one round of the scan.
* `ticketSlicesLoop`, `scanTicketKeysBytes` — the scan over bytes, with its indices.

## Main results

* `KeyRound.finds` — a round passes at most one key, which it answers with.
* `KeyRound.slices` — the round over the bytes.
* `ticket_keys_found` — the keys of a text, and the places where they are cut out.
-/

namespace Dayseam
namespace Report

/-! ### The grammar -/

/-- The text does not end in a character of the kind. -/
def EndNot (p : Char → Bool) (t : Text) : Prop := ∀ c ∈ t.getLast?, p c = false

/-- A text of the form `[A-Z]{2,10}-[0-9]+`. -/
def KeyForm (t : Text) : Prop :=
  ∃ letters digits : Text, t = letters ++ '-' :: digits ∧
    2 ≤ letters.length ∧ letters.length ≤ 10 ∧ (∀ c ∈ letters, c.isUpper = true) ∧
    digits ≠ [] ∧ ∀ c ∈ digits, c.isDigit = true

/-- A key stands at the place.  Between characters that are neither letters nor digits
its letters and its digits are maximal runs. -/
structure IsTicketKey (o : Occurrence Char) : Prop where
  form : KeyForm o.token
  before : EndNot Char.isAlphanum o.before
  after : HeadNot Char.isAlphanum o.after

theorem isAlphanum_of_isUpper {c : Char} (h : c.isUpper = true) : c.isAlphanum = true := by
  simp [Char.isAlphanum, Char.isAlpha, h]

theorem isAlphanum_of_isDigit {c : Char} (h : c.isDigit = true) : c.isAlphanum = true := by
  simp [Char.isAlphanum, h]

theorem not_isDigit_of_isUpper {c : Char} (h : c.isUpper = true) : c.isDigit = false := by
  simp only [Char.isUpper, decide_eq_true_eq, ge_iff_le, UInt32.le_iff_toNat_le] at h
  change 65 ≤ c.toNat ∧ c.toNat ≤ 90 at h
  simp only [Char.isDigit, Bool.and_eq_false_iff, decide_eq_false_iff_not, ge_iff_le,
    UInt32.le_iff_toNat_le]
  change ¬48 ≤ c.toNat ∨ ¬c.toNat ≤ 57
  omega

theorem headNot_hyphen (t : Text) : HeadNot Char.isUpper ('-' :: t) := by
  rintro c ⟨⟩
  decide

theorem headNot_isDigit {t : Text} (h : HeadNot Char.isAlphanum t) : HeadNot Char.isDigit t := by
  intro c hc
  by_contra hd
  have halnum := isAlphanum_of_isDigit (Bool.eq_true_of_not_eq_false hd)
  rw [h c hc] at halnum
  exact Bool.false_ne_true halnum

theorem KeyForm.head {t : Text} (h : KeyForm t) : ∃ c t', t = c :: t' ∧ c.isUpper = true := by
  obtain ⟨letters, digits, rfl, htwo, -, hup, -⟩ := h
  cases letters with
  | nil => exact absurd htwo (by decide)
  | cons c letters => exact ⟨c, _, rfl, hup c List.mem_cons_self⟩

namespace IsTicketKey

variable {o : Occurrence Char}

/-- Inside a run of letters and digits a key starts with the run or not at all. -/
theorem start_in_run (ho : IsTicketKey o) {before u run tail : Text}
    (hbefore : o.before = before ++ u) (hsplit : run ++ tail = u ++ o.token ++ o.after)
    (hrun : ∀ c ∈ run, c.isAlphanum = true) : u = [] ∨ run.length < u.length := by
  rcases Nat.lt_or_ge run.length u.length with hlt | hle
  · exact .inr hlt
  left
  rcases List.eq_nil_or_concat' u with rfl | ⟨v, c, rfl⟩
  · rfl
  -- the character before the key would be one of the run
  exfalso
  have hprefix : v ++ [c] <+: run := by
    refine List.prefix_of_prefix_length_le ?_ (List.prefix_append run tail) hle
    rw [hsplit, List.append_assoc]
    exact List.prefix_append _ _
  have hc : c.isAlphanum = true := by
    apply hrun
    apply hprefix.subset
    simp
  have hlast := ho.before c
  rw [hbefore, ← List.append_assoc, List.getLast?_concat] at hlast
  rw [hlast rfl] at hc
  exact Bool.false_ne_true hc

/-- A key that starts with a maximal run of letters has these letters. -/
theorem at_letters (ho : IsTicketKey o) {letters tail : Text}
    (hsplit : letters ++ tail = o.token ++ o.after) (hup : ∀ c ∈ letters, c.isUpper = true)
    (hend : HeadNot Char.isUpper tail) :
    2 ≤ letters.length ∧ letters.length ≤ 10 ∧ ∃ digits : Text, digits ≠ [] ∧
      (∀ c ∈ digits, c.isDigit = true) ∧ tail = '-' :: (digits ++ o.after) ∧
      o.token = letters ++ '-' :: digits := by
  obtain ⟨letters', digits, htoken, htwo, hten, hup', hne, hdigits⟩ := ho.form
  rw [htoken, List.append_assoc] at hsplit
  obtain ⟨rfl, htail⟩ := run_unique hsplit hup hend hup' (headNot_hyphen _)
  exact ⟨htwo, hten, digits, hne, hdigits, htail, htoken⟩

/-- No key starts with a digit. -/
theorem not_at_digits (ho : IsTicketKey o) {digits tail : Text} (hne : digits ≠ [])
    (hdigits : ∀ c ∈ digits, c.isDigit = true) (hsplit : digits ++ tail = o.token ++ o.after) :
    False := by
  obtain ⟨c, t, htoken, hup⟩ := ho.form.head
  obtain ⟨d, digits, rfl⟩ := List.exists_cons_of_ne_nil hne
  rw [htoken] at hsplit
  obtain ⟨rfl, -⟩ := List.cons.inj hsplit
  have hd := hdigits d List.mem_cons_self
  rw [not_isDigit_of_isUpper hup] at hd
  exact Bool.false_ne_true hd

/-- Before the end of the digits behind the letters a key starts with the letters. -/
theorem start_in_digits (ho : IsTicketKey o) {before u letters digits tail : Text}
    (hbefore : o.before = before ++ u)
    (hsplit : letters ++ '-' :: (digits ++ tail) = u ++ o.token ++ o.after)
    (hup : ∀ c ∈ letters, c.isUpper = true) (hdne : digits ≠ [])
    (hdigits : ∀ c ∈ digits, c.isDigit = true)
    (hlt : u.length < letters.length + (digits.length + 1)) :
    ∃ digits' : Text, (∀ c ∈ digits', c.isDigit = true) ∧
      digits ++ tail = digits' ++ o.after ∧ o.token = letters ++ '-' :: digits' ∧ u = [] := by
  have hrun := ho.start_in_run hbefore hsplit fun c hc => isAlphanum_of_isUpper (hup c hc)
  rcases hrun with rfl | hlong
  · obtain ⟨-, -, digits', -, hdigits', htail, htoken⟩ :=
      ho.at_letters hsplit hup (headNot_hyphen _)
    exact ⟨digits', hdigits', (List.cons.inj htail).2, htoken, rfl⟩
  -- behind the hyphen a key would start with a digit, or follow one
  exfalso
  have hu : letters ++ ['-'] <+: u := by
    have hl : letters ++ ['-'] <+: letters ++ '-' :: (digits ++ tail) := ⟨digits ++ tail, by simp⟩
    rw [hsplit, List.append_assoc] at hl
    apply List.prefix_of_prefix_length_le hl (List.prefix_append _ _)
    rw [List.length_append, List.length_singleton]
    omega
  obtain ⟨v, rfl⟩ := hu
  have hdsplit : digits ++ tail = v ++ o.token ++ o.after := by
    simpa using hsplit
  rw [← List.append_assoc] at hbefore
  have hrun := ho.start_in_run hbefore hdsplit fun c hc => isAlphanum_of_isDigit (hdigits c hc)
  rcases hrun with rfl | hlong
  · exact ho.not_at_digits hdne hdigits hdsplit
  · simp only [List.length_append, List.length_singleton] at hlt
    omega

end IsTicketKey

/-! ### A round of the scan -/

/-- The letters of a candidate that starts behind `before`. -/
structure Letters (before letters : Text) : Prop where
  start : EndNot Char.isAlphanum before
  ne_nil : letters ≠ []
  upper : ∀ c ∈ letters, c.isUpper = true

/-- The digits behind its hyphen. -/
structure Digits (digits : Text) : Prop where
  ne_nil : digits ≠ []
  digit : ∀ c ∈ digits, c.isDigit = true

def InRange (letters : Text) : Prop := 2 ≤ letters.length ∧ letters.length ≤ 10

/-- A round at the place between `before` and `rest`: what it answers with, and the
place at which the scan resumes. -/
inductive KeyRound : Text → Text → Option Text → Text → Text → Prop
  /-- No candidate starts here. -/
  | skip {before rest : Text} {c : Char}
      (h : c.isUpper = false ∨ before.getLast?.any Char.isAlphanum = true) :
      KeyRound before (c :: rest) none (before ++ [c]) rest
  /-- The letters are too few, too many, or without a hyphen. -/
  | letters {before letters rest : Text} (hl : Letters before letters)
      (hend : HeadNot Char.isUpper rest) (h : rest.head? = some '-' → ¬InRange letters) :
      KeyRound before (letters ++ rest) none (before ++ letters) rest
  /-- No digits behind the hyphen. -/
  | noDigits {before letters rest : Text} (hl : Letters before letters) (hr : InRange letters)
      (hend : HeadNot Char.isDigit rest) :
      KeyRound before (letters ++ '-' :: rest) none (before ++ (letters ++ ['-'])) rest
  /-- A letter behind the digits. -/
  | glued {before letters digits rest : Text} (hl : Letters before letters) (hr : InRange letters)
      (hd : Digits digits) (hend : HeadNot Char.isDigit rest)
      (h : rest.head?.any Char.isAlphanum = true) :
      KeyRound before (letters ++ '-' :: (digits ++ rest)) none
        (before ++ (letters ++ '-' :: digits)) rest
  /-- A key. -/
  | key {before letters digits rest : Text} (hl : Letters before letters) (hr : InRange letters)
      (hd : Digits digits) (hend : HeadNot Char.isAlphanum rest) :
      KeyRound before (letters ++ '-' :: (digits ++ rest)) (some (letters ++ '-' :: digits))
        (before ++ (letters ++ '-' :: digits)) rest

namespace KeyRound

variable {before rest before' rest' : Text} {out : Option Text}

/-- A round takes characters from what is to be read. -/
theorem exists_taken (h : KeyRound before rest out before' rest') :
    ∃ taken, taken ≠ [] ∧ before' = before ++ taken ∧ rest = taken ++ rest' := by
  cases h with
  | @skip _ c => exact ⟨[c], List.cons_ne_nil _ _, rfl, rfl⟩
  | letters hl => exact ⟨_, hl.ne_nil, rfl, rfl⟩
  | noDigits | glued | key => exact ⟨_, by simp, rfl, by simp⟩

theorem text_eq (h : KeyRound before rest out before' rest') :
    before' ++ rest' = before ++ rest := by
  obtain ⟨taken, -, rfl, rfl⟩ := h.exists_taken
  exact List.append_assoc _ _ _

theorem length_lt (h : KeyRound before rest out before' rest') :
    rest'.length < rest.length := by
  obtain ⟨taken, hne, -, rfl⟩ := h.exists_taken
  have hpos := List.length_pos_of_ne_nil hne
  rw [List.length_append]
  omega

theorem length_utf8_lt (h : KeyRound before rest out before' rest') :
    (utf8 rest').length < (utf8 rest).length := by
  obtain ⟨taken, hne, -, rfl⟩ := h.exists_taken
  have hpos := List.length_pos_of_ne_nil (utf8_ne_nil hne)
  rw [utf8_append, List.length_append]
  omega

/-- A key that a round passes is what it answers with. -/
theorem passed (h : KeyRound before rest out before' rest') {o : Occurrence Char}
    (htext : o.text = before ++ rest) (ho : IsTicketKey o) (hle : before.length ≤ o.start)
    (hlt : o.start < before'.length) : ∃ t, out = some t ∧ o = ⟨before, t, rest'⟩ := by
  obtain ⟨u, hbefore, hrest⟩ := Occurrence.exists_of_le_start htext hle
  have hstart : o.start = before.length + u.length := by
    rw [Occurrence.start, hbefore, List.length_append]
  cases h with
  | skip h =>
    rw [List.length_append, List.length_singleton] at hlt
    obtain rfl : u = [] := List.eq_nil_of_length_eq_zero (by omega)
    -- a key here would start with the character that is skipped
    exfalso
    obtain ⟨d, t, htoken, hup⟩ := ho.form.head
    rw [htoken] at hrest
    obtain ⟨rfl, -⟩ := List.cons.inj hrest
    rcases h with h | h
    · exact Bool.false_ne_true (h.symm.trans hup)
    · rw [Option.any_eq_true] at h
      obtain ⟨d, hd, halnum⟩ := h
      rw [List.append_nil] at hbefore
      rw [ho.before d (by rw [hbefore]; exact hd)] at halnum
      exact Bool.false_ne_true halnum
  | @letters letters _ hl hend h =>
    rw [List.length_append] at hlt
    have hrun := ho.start_in_run hbefore hrest fun c hc => isAlphanum_of_isUpper (hl.upper c hc)
    obtain rfl : u = [] := hrun.resolve_right (by omega)
    -- a key here would have these letters and a hyphen behind them
    exfalso
    obtain ⟨htwo, hten, digits, -, -, htail, -⟩ := ho.at_letters hrest hl.upper hend
    exact h (by rw [htail]; rfl) ⟨htwo, hten⟩
  | @noDigits letters _ hl hr hend =>
    rw [List.length_append, List.length_append, List.length_singleton] at hlt
    have hrun := ho.start_in_run hbefore hrest fun c hc => isAlphanum_of_isUpper (hl.upper c hc)
    obtain rfl : u = [] := hrun.resolve_right (by omega)
    -- a key here would have a digit behind its hyphen
    exfalso
    obtain ⟨-, -, digits, hdne, hdigits, htail, -⟩ :=
      ho.at_letters hrest hl.upper (headNot_hyphen _)
    obtain ⟨d, digits, rfl⟩ := List.exists_cons_of_ne_nil hdne
    obtain ⟨-, rfl⟩ := List.cons.inj htail
    have hd := hdigits d List.mem_cons_self
    rw [hend d rfl] at hd
    exact Bool.false_ne_true hd
  | @glued letters digits _ hl hr hd hend h =>
    -- a key here would end with these digits, before the letter that is glued to them
    exfalso
    have hin := ho.start_in_digits hbefore hrest hl.upper hd.ne_nil hd.digit
      (by simpa [hstart] using hlt)
    obtain ⟨digits', hdigits', hsplit, -⟩ := hin
    have hend' : HeadNot Char.isDigit o.after := headNot_isDigit ho.after
    obtain ⟨-, rfl⟩ := run_unique hsplit hd.digit hend hdigits' hend'
    rw [Option.any_eq_true] at h
    obtain ⟨c, hc, halnum⟩ := h
    rw [ho.after c hc] at halnum
    exact Bool.false_ne_true halnum
  | @key letters digits _ hl hr hd hend =>
    have hin := ho.start_in_digits hbefore hrest hl.upper hd.ne_nil hd.digit
      (by simpa [hstart] using hlt)
    obtain ⟨digits', hdigits', hsplit, htoken, rfl⟩ := hin
    obtain ⟨rfl, hafter⟩ :=
      run_unique hsplit hd.digit (headNot_isDigit hend) hdigits' (headNot_isDigit ho.after)
    refine ⟨_, rfl, ?_⟩
    obtain ⟨b, t, a⟩ := o
    rw [List.append_nil] at hbefore
    subst hafter hbefore htoken
    rfl

/-- What a round answers with is a key that it has passed. -/
theorem answer {t : Text} (h : KeyRound before rest (some t) before' rest') :
    before' = before ++ t ∧ rest = t ++ rest' ∧ IsTicketKey ⟨before, t, rest'⟩ := by
  cases h with
  | @key letters digits _ hl hr hd hend =>
    refine ⟨rfl, by simp, ?_, hl.start, hend⟩
    exact ⟨letters, digits, rfl, hr.1, hr.2, hl.upper, hd.ne_nil, hd.digit⟩

/-- **A round finds the key that it passes.** -/
theorem finds (h : KeyRound before rest out before' rest') {occ : List (Occurrence Char)}
    (hf : Finds IsTicketKey (before' ++ rest') before'.length occ) :
    Finds IsTicketKey (before ++ rest) before.length
      ((out.map fun t => ⟨before, t, rest'⟩).toList ++ occ) := by
  rw [h.text_eq] at hf
  refine hf.round ?_ (fun o ho => ?_) fun o htext ho hle hlt => ?_
  · obtain ⟨taken, -, rfl, -⟩ := h.exists_taken
    rw [List.length_append]
    exact Nat.le_add_right _ _
  · obtain ⟨t, rfl, rfl⟩ := Option.map_eq_some_iff.mp ho
    obtain ⟨rfl, rfl, hkey⟩ := h.answer
    exact ⟨List.append_assoc _ _ _, hkey, le_rfl, (List.length_append).ge⟩
  · obtain ⟨t, rfl, rfl⟩ := h.passed htext ho hle hlt
    rfl

end KeyRound

/-! ### The scan over characters -/

/-- Letters without a hyphen behind them. -/
theorem scanTicketKeysLoop_letters (fuel : ℕ) {before letters rest : Text}
    (hl : Letters before letters) (hend : HeadNot Char.isUpper rest)
    (hrest : rest.head? ≠ some '-') :
    scanTicketKeysLoop (fuel + 1) false (letters ++ rest) = scanTicketKeysLoop fuel true rest := by
  have htake := takeWhile_append_of_headNot hl.upper hend
  have hdrop := dropWhile_append_of_headNot hl.upper hend
  obtain ⟨c, letters, rfl⟩ := List.exists_cons_of_ne_nil hl.ne_nil
  have hc := hl.upper c List.mem_cons_self
  rw [List.cons_append] at htake hdrop ⊢
  rw [scanTicketKeysLoop, if_neg (by simp [hc]), htake, hdrop]
  dsimp only
  split
  · exact absurd rfl hrest
  · rfl

/-- Letters with a hyphen behind them. -/
theorem scanTicketKeysLoop_hyphen (fuel : ℕ) {before letters afterHyphen : Text}
    (hl : Letters before letters) :
    scanTicketKeysLoop (fuel + 1) false (letters ++ '-' :: afterHyphen) =
      if !(2 ≤ letters.length && letters.length ≤ 10) then
        scanTicketKeysLoop fuel true ('-' :: afterHyphen)
      else if (afterHyphen.takeWhile Char.isDigit).isEmpty then
        scanTicketKeysLoop fuel false afterHyphen
      else if ((afterHyphen.dropWhile Char.isDigit).head?.map Char.isAlphanum).getD false then
        scanTicketKeysLoop fuel true (afterHyphen.dropWhile Char.isDigit)
      else (letters ++ '-' :: afterHyphen.takeWhile Char.isDigit) ::
        scanTicketKeysLoop fuel true (afterHyphen.dropWhile Char.isDigit) := by
  have htake := takeWhile_append_of_headNot hl.upper (headNot_hyphen afterHyphen)
  have hdrop := dropWhile_append_of_headNot hl.upper (headNot_hyphen afterHyphen)
  obtain ⟨c, letters, rfl⟩ := List.exists_cons_of_ne_nil hl.ne_nil
  have hc := hl.upper c List.mem_cons_self
  rw [List.cons_append] at htake hdrop ⊢
  rw [scanTicketKeysLoop, if_neg (by simp [hc]), htake, hdrop]
  rfl

theorem any_eq_getD (p : Char → Bool) (o : Option Char) : o.any p = (o.map p).getD false := by
  cases o <;> rfl

theorem any_eq_false {p : Char → Bool} {o : Option Char} :
    o.any p = false ↔ ∀ c ∈ o, p c = false := by
  cases o <;> simp

theorem any_getLast?_append {p : Char → Bool} {t : Text} (hne : t ≠ [])
    (ht : ∀ c ∈ t, p c = true) (before : Text) : (before ++ t).getLast?.any p = true := by
  obtain ⟨u, c, rfl⟩ := (List.eq_nil_or_concat' t).resolve_left hne
  rw [← List.append_assoc, List.getLast?_concat]
  exact ht c (by simp)

theorem Letters.any_getLast? {before letters : Text} (hl : Letters before letters) :
    (before ++ letters).getLast?.any Char.isAlphanum = true :=
  any_getLast?_append hl.ne_nil (fun c hc => isAlphanum_of_isUpper (hl.upper c hc)) before

theorem Digits.any_getLast? {digits : Text} (hd : Digits digits) (before letters : Text) :
    (before ++ (letters ++ '-' :: digits)).getLast?.any Char.isAlphanum = true := by
  have h := any_getLast?_append hd.ne_nil (fun c hc => isAlphanum_of_isDigit (hd.digit c hc))
    (before ++ letters ++ ['-'])
  simpa using h

/-- A candidate, cut into its letters and what is behind them. -/
theorem exists_letters {before : Text} {c : Char} (tail : Text) (hc : c.isUpper = true)
    (hstart : EndNot Char.isAlphanum before) : ∃ letters rest : Text,
      c :: tail = letters ++ rest ∧ Letters before letters ∧ HeadNot Char.isUpper rest := by
  refine ⟨(c :: tail).takeWhile Char.isUpper, (c :: tail).dropWhile Char.isUpper, ?_, ?_, ?_⟩
  · exact List.takeWhile_append_dropWhile.symm
  · refine ⟨hstart, ?_, fun d hd => List.mem_takeWhile_imp hd⟩
    rw [List.takeWhile_cons_of_pos hc]
    exact List.cons_ne_nil _ _
  · exact headNot_dropWhile _ _

/-- The round of a candidate with a hyphen. -/
theorem scanTicketKeysLoop_candidate (fuel : ℕ) {before letters : Text}
    (hl : Letters before letters) (afterHyphen : Text) :
    ∃ out before' rest', KeyRound before (letters ++ '-' :: afterHyphen) out before' rest' ∧
      scanTicketKeysLoop (fuel + 1) false (letters ++ '-' :: afterHyphen) =
        out.toList ++ scanTicketKeysLoop fuel (before'.getLast?.any Char.isAlphanum) rest' := by
  have hsplit := List.takeWhile_append_dropWhile (p := Char.isDigit) (l := afterHyphen)
  have hdigit : ∀ d ∈ afterHyphen.takeWhile Char.isDigit, d.isDigit = true :=
    fun d hd => List.mem_takeWhile_imp hd
  have hafter := headNot_dropWhile Char.isDigit afterHyphen
  rw [scanTicketKeysLoop_hyphen fuel hl]
  set digits := afterHyphen.takeWhile Char.isDigit
  set after := afterHyphen.dropWhile Char.isDigit
  split_ifs with hlen hnone hglued
  · refine ⟨none, _, _, .letters hl (headNot_hyphen _) fun _ h => ?_, ?_⟩
    · simp [h.1, h.2] at hlen
    · rw [hl.any_getLast?]
      rfl
  all_goals
    rw [Bool.not_eq_true, Bool.not_eq_false', Bool.and_eq_true, decide_eq_true_eq,
      decide_eq_true_eq] at hlen
    rw [List.isEmpty_iff] at hnone
  · rw [hnone, List.nil_append] at hsplit
    rw [hsplit] at hafter
    refine ⟨none, _, _, .noDigits hl hlen hafter, ?_⟩
    rw [← List.append_assoc, List.getLast?_concat]
    rfl
  · rw [← any_eq_getD] at hglued
    have hd : Digits digits := ⟨hnone, hdigit⟩
    refine ⟨none, before ++ (letters ++ '-' :: digits), after, ?_, ?_⟩
    · rw [← hsplit]
      exact .glued hl hlen hd hafter hglued
    · rw [hd.any_getLast?]
      rfl
  · rw [← any_eq_getD, Bool.not_eq_true] at hglued
    have hd : Digits digits := ⟨hnone, hdigit⟩
    refine ⟨some (letters ++ '-' :: digits), before ++ (letters ++ '-' :: digits), after, ?_, ?_⟩
    · rw [← hsplit]
      exact .key hl hlen hd (any_eq_false.mp hglued)
    · rw [hd.any_getLast?]
      rfl

/-- **The loop over the characters makes one round.** -/
theorem scanTicketKeysLoop_round (fuel : ℕ) (before rest : Text) (hne : rest ≠ []) :
    ∃ out before' rest', KeyRound before rest out before' rest' ∧
      scanTicketKeysLoop (fuel + 1) (before.getLast?.any Char.isAlphanum) rest =
        out.toList ++ scanTicketKeysLoop fuel (before'.getLast?.any Char.isAlphanum) rest' := by
  obtain ⟨c, tail, rfl⟩ := List.exists_cons_of_ne_nil hne
  by_cases hskip : c.isUpper = false ∨ before.getLast?.any Char.isAlphanum = true
  · refine ⟨none, before ++ [c], tail, .skip hskip, ?_⟩
    rw [scanTicketKeysLoop, if_pos (by simpa using hskip)]
    simp
  rw [not_or, Bool.not_eq_false, Bool.not_eq_true] at hskip
  obtain ⟨hc, hstart⟩ := hskip
  obtain ⟨letters, rest, heq, hl, hend⟩ :=
    exists_letters tail hc (any_eq_false.mp hstart)
  rw [hstart, heq]
  by_cases hhyphen : rest.head? = some '-'
  · obtain ⟨afterHyphen, rfl⟩ := List.head?_eq_some_iff.mp hhyphen
    exact scanTicketKeysLoop_candidate fuel hl afterHyphen
  · refine ⟨none, before ++ letters, rest, .letters hl hend fun h => absurd h hhyphen, ?_⟩
    rw [scanTicketKeysLoop_letters fuel hl hend hhyphen, hl.any_getLast?]
    rfl

/-! ### The scan over bytes -/

def isAsciiUpper (b : UInt8) : Bool := 65 ≤ b && b ≤ 90

def isAsciiDigit (b : UInt8) : Bool := 48 ≤ b && b ≤ 57

def isAsciiAlnum (b : UInt8) : Bool := isAsciiUpper b || (97 ≤ b && b ≤ 122) || isAsciiDigit b

/-- The index behind the run of such bytes that starts at `i`. -/
def runEnd (q : UInt8 → Bool) (bytes : List UInt8) (i : ℕ) : ℕ :=
  i + ((bytes.drop i).takeWhile q).length

/-- The loop of `scan_ticket_keys` over the bytes of a text: the bounds of each slice
that it takes.  Each round moves the index, so a fuel of the number of bytes is enough. -/
def ticketSlicesLoop (bytes : List UInt8) : ℕ → ℕ → List (ℕ × ℕ)
  | 0, _ => []
  | fuel + 1, i =>
    if bytes.length ≤ i then []
    else if !bytes[i]?.any isAsciiUpper || (decide (0 < i) && bytes[i - 1]?.any isAsciiAlnum) then
      ticketSlicesLoop bytes fuel (i + 1)
    else
      let hyphen := runEnd isAsciiUpper bytes i
      let prefixLen := hyphen - i
      if !(2 ≤ prefixLen && prefixLen ≤ 10) || bytes[hyphen]? != some 45 then
        ticketSlicesLoop bytes fuel hyphen
      else
        let digitsStart := hyphen + 1
        let stop := runEnd isAsciiDigit bytes digitsStart
        if stop - digitsStart = 0 then ticketSlicesLoop bytes fuel (hyphen + 1)
        else if bytes[stop]?.any isAsciiAlnum then ticketSlicesLoop bytes fuel stop
        else (i, stop) :: ticketSlicesLoop bytes fuel stop

def ticketSlices (bytes : List UInt8) : List (ℕ × ℕ) := ticketSlicesLoop bytes bytes.length 0

def slice (bytes : List UInt8) (bounds : ℕ × ℕ) : List UInt8 :=
  (bytes.drop bounds.1).take (bounds.2 - bounds.1)

example : ticketSlices (utf8 "é AB-CD-12 X-1-Y-2 ABC-7é".toList) = [(6, 11), (20, 25)] := by
  decide +kernel

/-- `scan_ticket_keys`, as it runs over the bytes: a slice that is no text is dropped. -/
def scanTicketKeysBytes (bytes : List UInt8) : List Text :=
  (ticketSlices bytes).filterMap fun bounds => fromUtf8 (slice bytes bounds)

theorem agrees_upper : Agrees isAsciiUpper Char.isUpper := by
  refine agrees_of (fun n => 65 ≤ n && n ≤ 90) (fun b => rfl) (fun c => Bool.decide_and _ _) ?_
  intro n hn
  simp
  omega

theorem agrees_digit : Agrees isAsciiDigit Char.isDigit := by
  refine agrees_of (fun n => 48 ≤ n && n ≤ 57) (fun b => rfl) (fun c => rfl) ?_
  intro n hn
  simp
  omega

theorem agrees_lower : Agrees (fun b => 97 ≤ b && b ≤ 122) Char.isLower := by
  refine agrees_of (fun n => 97 ≤ n && n ≤ 122) (fun b => rfl) (fun c => rfl) ?_
  intro n hn
  simp
  omega

theorem agrees_alnum : Agrees isAsciiAlnum Char.isAlphanum :=
  (agrees_upper.or agrees_lower).or agrees_digit

theorem agrees_hyphen : Agrees (· == 45) (· == '-') := by
  refine agrees_of (fun n => n == 45) (fun b => ?_) (fun c => ?_) fun n hn => ?_
  · rw [Bool.eq_iff_iff, beq_iff_eq, beq_iff_eq, ← UInt8.toNat_inj]
    rfl
  · rw [Bool.eq_iff_iff, beq_iff_eq, beq_iff_eq, ← Char.toNat_inj]
    rfl
  · rw [beq_eq_false_iff_ne]
    omega

section Bytes

variable {q : UInt8 → Bool} {p : Char → Bool}

/-- The byte behind a text. -/
theorem getElem?_utf8 (before rest : Text) :
    (utf8 (before ++ rest))[(utf8 before).length]? = (utf8 rest).head? := by
  rw [utf8_append, List.getElem?_append_right le_rfl, Nat.sub_self, List.head?_eq_getElem?]

/-- The byte at the end of a text. -/
theorem any_byte_before (h : Agrees q p) (before rest : Text) :
    (decide (0 < (utf8 before).length) &&
      (utf8 (before ++ rest))[(utf8 before).length - 1]?.any q) = before.getLast?.any p := by
  rw [← h.any_getLast?]
  rcases List.eq_nil_or_concat' (utf8 before) with hnil | ⟨bs, b, hbs⟩
  · rw [hnil]
    rfl
  · rw [utf8_append, hbs]
    simp

theorem any_byte_behind (h : Agrees q p) (before rest : Text) :
    (utf8 (before ++ rest))[(utf8 before).length]?.any q = rest.head?.any p := by
  rw [getElem?_utf8, h.any_head?]

/-- The index behind a run is the length of a text. -/
theorem runEnd_utf8 (h : Agrees q p) {before run rest : Text} (hrun : ∀ c ∈ run, p c = true)
    (hend : HeadNot p rest) :
    runEnd q (utf8 (before ++ (run ++ rest))) (utf8 before).length =
      (utf8 (before ++ run)).length := by
  rw [runEnd, utf8_append, List.drop_left, h.takeWhile_utf8, takeWhile_append_of_headNot hrun hend,
    utf8_append, List.length_append]

end Bytes

/-- Bytes that no key starts with are passed one by one. -/
theorem ticketSlicesLoop_pass (run : List UInt8) {before after : List UInt8}
    (hrun : ∀ b ∈ run, isAsciiUpper b = false) (fuel : ℕ) :
    ticketSlicesLoop (before ++ (run ++ after)) (run.length + fuel) before.length =
      ticketSlicesLoop (before ++ (run ++ after)) fuel (before ++ run).length := by
  induction run generalizing before with
  | nil => simp
  | cons b run ih =>
    have h := @ih (before ++ [b]) fun d hd => hrun d (List.mem_cons_of_mem _ hd)
    simp only [List.append_assoc, List.singleton_append] at h
    have hlen : ¬(before ++ (b :: run ++ after)).length ≤ before.length := by simp
    have hb : (before ++ (b :: run ++ after))[before.length]? = some b := by simp
    rw [List.length_cons, Nat.add_right_comm, ticketSlicesLoop, if_neg hlen, hb, if_pos]
    · rw [List.length_append, List.length_singleton] at h
      exact h
    · rw [Option.any_some, hrun b List.mem_cons_self]
      rfl

/-- A candidate with its letters, as the loop over the bytes takes it. -/
theorem ticketSlicesLoop_candidate (fuel : ℕ) {before letters rest : Text}
    (hl : Letters before letters) (hend : HeadNot Char.isUpper rest) :
    let bytes := utf8 (before ++ (letters ++ rest))
    let hyphen := (utf8 (before ++ letters)).length
    ticketSlicesLoop bytes (fuel + 1) (utf8 before).length =
      if !(2 ≤ letters.length && letters.length ≤ 10) || bytes[hyphen]? != some 45 then
        ticketSlicesLoop bytes fuel hyphen
      else
        let stop := runEnd isAsciiDigit bytes (hyphen + 1)
        if stop - (hyphen + 1) = 0 then ticketSlicesLoop bytes fuel (hyphen + 1)
        else if bytes[stop]?.any isAsciiAlnum then ticketSlicesLoop bytes fuel stop
        else ((utf8 before).length, stop) :: ticketSlicesLoop bytes fuel stop := by
  intro bytes hyphen
  have hnotEnd : ¬bytes.length ≤ (utf8 before).length := by
    have hpos := List.length_pos_of_ne_nil (utf8_ne_nil hl.ne_nil)
    show ¬(utf8 (before ++ (letters ++ rest))).length ≤ _
    rw [utf8_append, utf8_append, List.length_append, List.length_append]
    omega
  have hupper : bytes[(utf8 before).length]?.any isAsciiUpper = true := by
    obtain ⟨c, letters, rfl⟩ := List.exists_cons_of_ne_nil hl.ne_nil
    rw [any_byte_behind agrees_upper]
    exact hl.upper c List.mem_cons_self
  have hstart := any_byte_before agrees_alnum before (letters ++ rest)
  rw [any_eq_false.mpr hl.start] at hstart
  have hrun : runEnd isAsciiUpper bytes (utf8 before).length = hyphen :=
    runEnd_utf8 agrees_upper hl.upper hend
  have hlen : hyphen - (utf8 before).length = letters.length := by
    show (utf8 (before ++ letters)).length - _ = _
    rw [utf8_append, List.length_append, agrees_upper.length_utf8 hl.upper, Nat.add_sub_cancel_left]
  rw [ticketSlicesLoop, if_neg hnotEnd, hupper, hstart, if_neg (by decide), hrun]
  dsimp only
  rw [hlen]

/-- The digits of a candidate, as the loop over the bytes takes them. -/
theorem ticketSlicesLoop_digits (fuel : ℕ) {before letters digits rest : Text}
    (hl : Letters before letters) (hr : InRange letters)
    (hd : ∀ c ∈ digits, c.isDigit = true) (hend : HeadNot Char.isDigit rest) :
    let bytes := utf8 (before ++ (letters ++ '-' :: (digits ++ rest)))
    let stop := (utf8 (before ++ (letters ++ '-' :: digits))).length
    ticketSlicesLoop bytes (fuel + 1) (utf8 before).length =
      if digits = [] then ticketSlicesLoop bytes fuel stop
      else if rest.head?.any Char.isAlphanum then ticketSlicesLoop bytes fuel stop
      else ((utf8 before).length, stop) :: ticketSlicesLoop bytes fuel stop := by
  intro bytes stop
  have hcand := ticketSlicesLoop_candidate fuel hl (headNot_hyphen (digits ++ rest))
  have hassoc (t : Text) : before ++ (letters ++ '-' :: t) = before ++ letters ++ ['-'] ++ t := by
    simp
  -- the hyphen is one byte
  have hhyphen : bytes[(utf8 (before ++ letters)).length]? = some 45 := by
    show (utf8 (before ++ (letters ++ '-' :: (digits ++ rest))))[_]? = _
    rw [← List.append_assoc, getElem?_utf8]
    rfl
  have hnext : (utf8 (before ++ letters)).length + 1 =
      (utf8 (before ++ letters ++ ['-'])).length := by
    rw [utf8_append _ ['-'], List.length_append]
    rfl
  have hstop : runEnd isAsciiDigit bytes ((utf8 (before ++ letters)).length + 1) = stop := by
    show runEnd isAsciiDigit (utf8 _) _ = (utf8 _).length
    rw [hnext, hassoc, hassoc]
    exact runEnd_utf8 agrees_digit hd hend
  have hlen : stop - ((utf8 (before ++ letters)).length + 1) = digits.length := by
    show (utf8 _).length - _ = _
    rw [hnext, hassoc, utf8_append _ digits, List.length_append, agrees_digit.length_utf8 hd,
      Nat.add_sub_cancel_left]
  have hbehind : bytes[stop]?.any isAsciiAlnum = rest.head?.any Char.isAlphanum := by
    show (utf8 _)[(utf8 _).length]?.any _ = _
    rw [← any_byte_behind agrees_alnum (before ++ (letters ++ '-' :: digits)) rest]
    simp
  dsimp only at hcand
  rw [hhyphen, hstop, hlen, hbehind, if_neg (by simp [hr.1, hr.2])] at hcand
  show ticketSlicesLoop bytes (fuel + 1) (utf8 before).length = _
  rw [hcand]
  simp only [List.length_eq_zero_iff]
  split_ifs with hnil
  · subst hnil
    rw [hnext, List.append_assoc]
  · rfl
  · rfl

/-- A character that starts no candidate, as the loop over the bytes passes it. -/
theorem ticketSlicesLoop_skip {before rest : Text} {c : Char}
    (h : c.isUpper = false ∨ before.getLast?.any Char.isAlphanum = true) (fuel : ℕ) :
    ticketSlicesLoop (utf8 (before ++ c :: rest)) ((String.utf8EncodeChar c).length + fuel)
        (utf8 before).length =
      ticketSlicesLoop (utf8 (before ++ c :: rest)) fuel (utf8 (before ++ [c])).length := by
  have hone : utf8 (before ++ [c]) = utf8 before ++ String.utf8EncodeChar c := by
    rw [utf8_append, utf8_cons, utf8_nil, List.append_nil]
  cases hc : c.isUpper with
  | false =>
    rw [hone, utf8_append, utf8_cons]
    exact ticketSlicesLoop_pass _ (agrees_upper.neg c hc) fuel
  | true =>
    -- the letter is one byte, and the byte before it is a letter or a digit
    have hstart := any_byte_before agrees_alnum before (c :: rest)
    rw [h.resolve_left (by rw [hc]; decide)] at hstart
    obtain ⟨b, hb, -⟩ := agrees_upper.pos c hc
    have hlen : ¬(utf8 (before ++ c :: rest)).length ≤ (utf8 before).length := by
      rw [utf8_append, utf8_cons, hb]
      simp
    rw [hone, hb, List.length_singleton, Nat.add_comm, ticketSlicesLoop, if_neg hlen, hstart,
      Bool.or_true, if_pos rfl, List.length_append, List.length_singleton]

/-- **The loop over the bytes makes the round.** -/
theorem KeyRound.slices {before rest before' rest' : Text} {out : Option Text}
    (h : KeyRound before rest out before' rest') {fuel : ℕ} (hfuel : (utf8 rest).length ≤ fuel) :
    ∃ fuel', (utf8 rest').length ≤ fuel' ∧
      ticketSlicesLoop (utf8 (before ++ rest)) fuel (utf8 before).length =
        (out.map fun _ => ((utf8 before).length, (utf8 before').length)).toList ++
          ticketSlicesLoop (utf8 (before ++ rest)) fuel' (utf8 before').length := by
  have hlt := h.length_utf8_lt
  cases h with
  | @skip _ c h =>
    rw [utf8_cons, List.length_append] at hfuel
    obtain ⟨fuel', rfl⟩ := Nat.exists_eq_add_of_le (Nat.le_of_add_right_le hfuel)
    refine ⟨fuel', by omega, ?_⟩
    exact ticketSlicesLoop_skip h fuel'
  | @letters letters _ hl hend h =>
    obtain ⟨fuel', rfl⟩ := Nat.exists_eq_add_of_lt (Nat.lt_of_lt_of_le hlt hfuel)
    refine ⟨_, Nat.le_add_right _ fuel', ?_⟩
    have hcand := ticketSlicesLoop_candidate ((utf8 rest').length + fuel') hl hend
    dsimp only at hcand
    rw [hcand, if_pos]
    · rfl
    · rw [Bool.or_eq_true, bne_iff_ne]
      by_cases hhyphen : rest'.head? = some '-'
      · left
        have hr := h hhyphen
        rw [InRange, not_and_or] at hr
        rw [Bool.not_eq_true', Bool.and_eq_false_iff, decide_eq_false_iff_not,
          decide_eq_false_iff_not]
        exact hr
      · right
        intro hb
        have hbyte := any_byte_behind agrees_hyphen (before ++ letters) rest'
        rw [List.append_assoc, hb] at hbyte
        obtain ⟨c, hc, hcc⟩ := (Option.any_eq_true _ _).mp hbyte.symm
        rw [beq_iff_eq] at hcc
        exact hhyphen (hcc ▸ hc)
  | @noDigits letters _ hl hr hend =>
    obtain ⟨fuel', rfl⟩ := Nat.exists_eq_add_of_lt (Nat.lt_of_lt_of_le hlt hfuel)
    refine ⟨_, Nat.le_add_right _ fuel', ?_⟩
    have hcand := @ticketSlicesLoop_digits ((utf8 rest').length + fuel') before letters [] rest'
      hl hr (by simp) hend
    exact hcand
  | @glued letters digits _ hl hr hd hend h =>
    obtain ⟨fuel', rfl⟩ := Nat.exists_eq_add_of_lt (Nat.lt_of_lt_of_le hlt hfuel)
    refine ⟨_, Nat.le_add_right _ fuel', ?_⟩
    have hcand := ticketSlicesLoop_digits ((utf8 rest').length + fuel') hl hr hd.digit hend
    dsimp only at hcand
    rw [hcand, if_neg hd.ne_nil, if_pos h]
    rfl
  | @key letters digits _ hl hr hd hend =>
    obtain ⟨fuel', rfl⟩ := Nat.exists_eq_add_of_lt (Nat.lt_of_lt_of_le hlt hfuel)
    refine ⟨_, Nat.le_add_right _ fuel', ?_⟩
    have hcand := ticketSlicesLoop_digits ((utf8 rest').length + fuel') hl hr hd.digit
      (headNot_isDigit hend)
    have hglued : ¬rest'.head?.any Char.isAlphanum = true := by
      rw [any_eq_false.mpr hend]
      exact Bool.false_ne_true
    dsimp only at hcand
    rw [hcand, if_neg hd.ne_nil, if_neg hglued]
    rfl

/-! ### The keys of a text -/

/-- The bounds of a place, in bytes. -/
def keyBounds (o : Occurrence Char) : ℕ × ℕ :=
  ((utf8 o.before).length, (utf8 (o.before ++ o.token)).length)

/-- No key starts at the end of a text. -/
theorem finds_done (s : Text) : Finds IsTicketKey s s.length [] := by
  refine Finds.done fun o htext ho => ?_
  obtain ⟨c, t, htoken, -⟩ := ho.form.head
  rw [← htext, Occurrence.text, htoken, Occurrence.start]
  simp only [List.length_append, List.length_cons]
  omega

theorem ticketSlicesLoop_end (bytes : List UInt8) (fuel : ℕ) :
    ticketSlicesLoop bytes fuel bytes.length = [] := by
  cases fuel with
  | zero => rfl
  | succ fuel => rw [ticketSlicesLoop, if_pos le_rfl]

/-- **A run of either loop answers with the keys in what it reads.** -/
theorem scans_find {fuel fuel' : ℕ} {before rest : Text} (hfuel : rest.length ≤ fuel)
    (hfuel' : (utf8 rest).length ≤ fuel') :
    ∃ occ, Finds IsTicketKey (before ++ rest) before.length occ ∧
      scanTicketKeysLoop fuel (before.getLast?.any Char.isAlphanum) rest =
        occ.map Occurrence.token ∧
      ticketSlicesLoop (utf8 (before ++ rest)) fuel' (utf8 before).length = occ.map keyBounds := by
  induction fuel generalizing before rest fuel' with
  | zero =>
    obtain rfl : rest = [] := List.eq_nil_of_length_eq_zero (by omega)
    rw [List.append_nil]
    exact ⟨[], finds_done before, rfl, ticketSlicesLoop_end _ _⟩
  | succ fuel ih =>
    by_cases hne : rest = []
    · subst hne
      rw [List.append_nil]
      exact ⟨[], finds_done before, rfl, ticketSlicesLoop_end _ _⟩
    obtain ⟨out, before', rest', hround, hloop⟩ :=
      scanTicketKeysLoop_round fuel before rest hne
    have hlt := hround.length_lt
    obtain ⟨fuel₁, hfuel₁, hslices⟩ := hround.slices hfuel'
    obtain ⟨occ, hfinds, hchars, hbytes⟩ := @ih fuel₁ before' rest' (by omega) hfuel₁
    refine ⟨_, hround.finds hfinds, ?_, ?_⟩
    · rw [hloop, hchars, List.map_append]
      cases out <;> rfl
    · rw [hround.text_eq] at hbytes
      rw [hslices, hbytes, List.map_append]
      congr 1
      cases out with
      | none => rfl
      | some t =>
        rw [hround.answer.1]
        rfl

/-- The slice between two places of a text is the text between them. -/
theorem slice_keyBounds (o : Occurrence Char) :
    slice (utf8 o.text) (keyBounds o) = utf8 o.token := by
  show ((utf8 o.text).drop (utf8 o.before).length).take
    ((utf8 (o.before ++ o.token)).length - (utf8 o.before).length) = _
  rw [Occurrence.text, List.append_assoc, utf8_append o.before (o.token ++ o.after),
    List.drop_left, utf8_append o.before o.token, List.length_append, Nat.add_sub_cancel_left,
    utf8_append, List.take_left]

/-- **The scanner answers with the keys of a text, in order, each once.**  It cuts each
of them out of the bytes at the bounds of a place of the text, and what it cuts out
is the key. -/
theorem ticket_keys_found (s : Text) :
    ∃ occ, Finds IsTicketKey s 0 occ ∧ scanTicketKeys s = occ.map Occurrence.token ∧
      ticketSlices (utf8 s) = occ.map keyBounds ∧
      scanTicketKeysBytes (utf8 s) = scanTicketKeys s := by
  obtain ⟨occ, hfinds, hchars, hbytes⟩ :=
    @scans_find s.length (utf8 s).length [] s le_rfl le_rfl
  refine ⟨occ, hfinds, hchars, hbytes, ?_⟩
  have hslices : ticketSlices (utf8 s) = occ.map keyBounds := hbytes
  have hkeys : scanTicketKeys s = occ.map Occurrence.token := hchars
  rw [scanTicketKeysBytes, hslices, hkeys, List.filterMap_map, ← List.filterMap_eq_map]
  apply List.filterMap_congr
  intro o ho
  have htext : o.text = s := ((hfinds.mem_iff o).mp ho).1
  show fromUtf8 (slice (utf8 s) (keyBounds o)) = some o.token
  rw [← htext, slice_keyBounds, fromUtf8_utf8]

end Report
end Dayseam
