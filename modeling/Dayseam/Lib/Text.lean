import Mathlib

/-!
# Texts as lists of characters

A text is the list of its Unicode scalar values, so every fact about it is a
fact about lists.  This module has the operations of a string library that a
line-oriented reader needs: trimming, cutting at a character, byte lengths, and
cutting into lines that keep their terminator.

## Main results

* `trim_append_of_all` — trailing white space never changes a trimmed text.
* `splitFirst_eq_some_iff` — what the first cut at a character means.
* `flatten_splitLines` — the lines of a text, put together, are the text.
* `IsLines.splitLines_flatten` — a list of lines is recovered from its text.
-/

/-- A text is the list of its characters. -/
abbrev Text := List Char

instance lawfulBEq_text : LawfulBEq Text := inferInstance

namespace Text

/-! ### White space and trimming -/

/-- The `White_Space` property of Unicode. -/
def isWhitespace (c : Char) : Bool :=
  (0x09 ≤ c.toNat && c.toNat ≤ 0x0D) || c.toNat == 0x20 || c.toNat == 0x85 || c.toNat == 0xA0 ||
  c.toNat == 0x1680 || (0x2000 ≤ c.toNat && c.toNat ≤ 0x200A) || c.toNat == 0x2028 ||
  c.toNat == 0x2029 || c.toNat == 0x202F || c.toNat == 0x205F || c.toNat == 0x3000

/-- A text without its leading white space. -/
def trimStart (t : Text) : Text := t.dropWhile isWhitespace

/-- A text without the longest suffix of characters that `p` accepts. -/
def trimEndMatches (p : Char → Bool) (t : Text) : Text := t.rdropWhile p

/-- A text without its trailing white space. -/
def trimEnd (t : Text) : Text := trimEndMatches isWhitespace t

/-- A text without the white space at either end. -/
def trim (t : Text) : Text := trimEnd (trimStart t)

@[simp] theorem trimStart_nil : trimStart [] = [] := rfl

@[simp] theorem trimEnd_nil : trimEnd [] = [] := rfl

@[simp] theorem trim_nil : trim [] = [] := rfl

@[simp] theorem isWhitespace_newline : isWhitespace '\n' = true := by decide

@[simp] theorem isWhitespace_return : isWhitespace '\r' = true := by decide

theorem isWhitespace_of_isDigit {c : Char} (h : c.isDigit = true) : isWhitespace c = false := by
  simp only [Char.isDigit, Bool.and_eq_true, decide_eq_true_eq, ge_iff_le,
    UInt32.le_iff_toNat_le] at h
  change 48 ≤ c.toNat ∧ c.toNat ≤ 57 at h
  simp only [isWhitespace, Bool.or_eq_false_iff, Bool.and_eq_false_iff, decide_eq_false_iff_not,
    beq_eq_false_iff_ne]
  omega

theorem trimStart_cons_of_not {c : Char} (h : isWhitespace c = false) (t : Text) :
    trimStart (c :: t) = c :: t := by
  simp [trimStart, h]

theorem trimStart_append_of_all {w : Text} (hw : ∀ c ∈ w, isWhitespace c = true) (t : Text) :
    trimStart (w ++ t) = trimStart t := by
  induction w with
  | nil => rfl
  | cons c w ih =>
    have hc : isWhitespace c = true := hw c (by simp)
    simp only [trimStart, List.cons_append, List.dropWhile_cons, hc, if_true]
    exact ih (fun d hd => hw d (by simp [hd]))

theorem trimEnd_append_of_all {w : Text} (hw : ∀ c ∈ w, isWhitespace c = true) (t : Text) :
    trimEnd (t ++ w) = trimEnd t := by
  induction w using List.reverseRecOn with
  | nil => rw [List.append_nil]
  | append_singleton w c ih =>
    have hc : isWhitespace c = true := hw c (by simp)
    rw [← List.append_assoc, trimEnd, trimEndMatches, List.rdropWhile_concat, if_pos hc]
    exact ih (fun d hd => hw d (by simp [hd]))

theorem trimEnd_concat_of_not {c : Char} (h : isWhitespace c = false) (t : Text) :
    trimEnd (t ++ [c]) = t ++ [c] := by
  simp [trimEnd, trimEndMatches, h]

/-- Trimming at the end stops at a character that is no white space. -/
theorem trimEnd_append_cons {c : Char} (hc : isWhitespace c = false) (s t : Text) :
    trimEnd (s ++ c :: t) = s ++ c :: trimEnd t := by
  induction t using List.reverseRecOn with
  | nil => exact trimEnd_concat_of_not hc s
  | append_singleton t d ih =>
    cases hd : isWhitespace d with
    | true =>
      have hblank : ∀ c ∈ [d], isWhitespace c = true := by simpa using hd
      rw [← List.cons_append, ← List.append_assoc, trimEnd_append_of_all hblank, ih,
        trimEnd_append_of_all hblank]
    | false =>
      rw [← List.cons_append, ← List.append_assoc, trimEnd_concat_of_not hd,
        trimEnd_concat_of_not hd, List.append_assoc, List.cons_append]

theorem trimStart_append_of_ne_nil {t : Text} (h : trimStart t ≠ []) (u : Text) :
    trimStart (t ++ u) = trimStart t ++ u := by
  induction t with
  | nil => exact absurd rfl h
  | cons c t ih =>
    simp only [trimStart, List.cons_append, List.dropWhile_cons] at h ih ⊢
    split
    · next hc => rw [if_pos hc] at h; exact ih h
    · rfl

theorem all_of_trimStart_eq_nil {t : Text} (h : trimStart t = []) :
    ∀ c ∈ t, isWhitespace c = true := by
  simpa [trimStart, List.dropWhile_eq_nil_iff] using h

/-- **Trailing white space never changes a trimmed text.** -/
theorem trim_append_of_all {w : Text} (hw : ∀ c ∈ w, isWhitespace c = true) (t : Text) :
    trim (t ++ w) = trim t := by
  unfold trim
  by_cases ht : trimStart t = []
  · have hall := all_of_trimStart_eq_nil ht
    have hall' : ∀ c ∈ t ++ w, isWhitespace c = true := by
      intro c hc
      rcases List.mem_append.mp hc with h | h
      · exact hall c h
      · exact hw c h
    have h0 : trimStart (t ++ w) = [] := by
      have h := trimStart_append_of_all hall' []
      simpa using h
    rw [h0, ht]
  · rw [trimStart_append_of_ne_nil ht, trimEnd_append_of_all hw]

theorem trim_append_newline (t : Text) : trim (t ++ ['\n']) = trim t :=
  trim_append_of_all (by simp) t

theorem trim_append_crlf (t : Text) : trim (t ++ ['\r', '\n']) = trim t :=
  trim_append_of_all (by simp) t

/-- A text with no white space at either end is its own trimmed form. -/
theorem trim_eq_self {c d : Char} (hc : isWhitespace c = false) (hd : isWhitespace d = false)
    (t : Text) : trim (c :: (t ++ [d])) = c :: (t ++ [d]) := by
  rw [trim, trimStart_cons_of_not hc]
  exact trimEnd_concat_of_not hd (c :: t)

/-- A closed word is checked as a whole. -/
theorem bareword {w : Text} (h : w.any isWhitespace = false) : ∀ c ∈ w, isWhitespace c = false := by
  simpa using h

/-- A text without white space is its own trimmed form. -/
theorem trim_of_forall_not {t : Text} (h : ∀ c ∈ t, isWhitespace c = false) : trim t = t := by
  rcases t with _ | ⟨c, t⟩
  · rfl
  · rcases List.eq_nil_or_concat t with rfl | ⟨t, d, rfl⟩
    · rw [trim, trimStart_cons_of_not (h c (by simp))]
      exact trimEnd_concat_of_not (h c (by simp)) []
    · rw [List.concat_eq_append]
      exact trim_eq_self (h c (by simp)) (h d (by simp)) t

theorem trimEnd_isPrefix (t : Text) : trimEnd t <+: t := List.rdropWhile_prefix _ _

theorem trim_isPrefix (t : Text) : trim t <+: trimStart t := trimEnd_isPrefix _

/-- The characters of a trimmed text are characters of the text. -/
theorem mem_of_mem_trim {t : Text} {c : Char} (h : c ∈ trim t) : c ∈ t :=
  (List.dropWhile_sublist _).subset ((trim_isPrefix t).subset h)

/-- A text is its trimmed part between two runs of whitespace. -/
theorem exists_trim (t : Text) : ∃ a b, (∀ c ∈ a, isWhitespace c = true) ∧
    (∀ c ∈ b, isWhitespace c = true) ∧ t = a ++ (trim t ++ b) := by
  refine ⟨t.takeWhile isWhitespace, (trimStart t).rtakeWhile isWhitespace,
    fun _ hc => List.mem_takeWhile_imp hc, fun _ hc => List.mem_rtakeWhile_imp hc, ?_⟩
  rw [trim, trimEnd, trimEndMatches, List.rdropWhile_append_rtakeWhile, trimStart,
    List.takeWhile_append_dropWhile]

theorem trim_sublist (t : Text) : (trim t).Sublist t :=
  (trim_isPrefix t).sublist.trans (List.dropWhile_sublist _)

/-- A prefix of a trimmed start needs no trimming. -/
theorem trimStart_of_isPrefix {s t : Text} (h : s <+: trimStart t) : trimStart s = s := by
  cases s with
  | nil => rfl
  | cons c s =>
    obtain ⟨u, hu⟩ := h
    have hc : isWhitespace c = false := by
      have hhead := List.head?_dropWhile_not isWhitespace t
      rw [trimStart] at hu
      simpa [← hu] using hhead
    exact trimStart_cons_of_not hc s

theorem trimEndMatches_append_of_all {p : Char → Bool} {w : Text} (hw : ∀ c ∈ w, p c = true)
    (t : Text) : trimEndMatches p (t ++ w) = trimEndMatches p t := by
  induction w using List.reverseRecOn with
  | nil => rw [List.append_nil]
  | append_singleton w c ih =>
    have hc : p c = true := hw c (by simp)
    rw [← List.append_assoc, trimEndMatches, List.rdropWhile_concat, if_pos hc]
    exact ih (fun d hd => hw d (by simp [hd]))

/-- Dropping some trailing white space first does not change the trimmed text. -/
theorem trim_trimEndMatches {p : Char → Bool} (hp : ∀ c, p c = true → isWhitespace c = true)
    (t : Text) : trim (trimEndMatches p t) = trim t := by
  have h : trimEndMatches p t ++ t.rtakeWhile p = t := List.rdropWhile_append_rtakeWhile
  conv_rhs => rw [← h]
  rw [trim_append_of_all]
  intro c hc
  exact hp c (List.mem_rtakeWhile_imp hc)

/-! ### Cutting at a character -/

/-- The parts of `t` before and after its first `c`. -/
def splitFirst (c : Char) : Text → Option (Text × Text)
  | [] => none
  | x :: xs => if x = c then some ([], xs) else (splitFirst c xs).map fun (a, b) => (x :: a, b)

theorem splitFirst_append {c : Char} {a : Text} (ha : c ∉ a) (b : Text) :
    splitFirst c (a ++ c :: b) = some (a, b) := by
  induction a with
  | nil => simp [splitFirst]
  | cons x a ih =>
    have hx : x ≠ c := fun h => ha (by simp [h])
    have ha' : c ∉ a := fun h => ha (by simp [h])
    simp [splitFirst, hx, ih ha']

/-- **The first cut at a character**: the first part is free of it. -/
theorem splitFirst_eq_some_iff {c : Char} {t a b : Text} :
    splitFirst c t = some (a, b) ↔ c ∉ a ∧ t = a ++ c :: b := by
  constructor
  · intro h
    induction t generalizing a with
    | nil => simp [splitFirst] at h
    | cons x t ih =>
      by_cases hx : x = c
      · simp only [splitFirst, hx, if_true, Option.some.injEq, Prod.mk.injEq] at h
        obtain ⟨rfl, rfl⟩ := h
        simp [hx]
      · simp only [splitFirst, hx, if_false, Option.map_eq_some_iff, Prod.mk.injEq] at h
        obtain ⟨⟨a', b'⟩, h', rfl, rfl⟩ := h
        obtain ⟨hna, rfl⟩ := ih h'
        simp [hna, Ne.symm hx]
  · rintro ⟨ha, rfl⟩
    exact splitFirst_append ha b

theorem splitFirst_eq_none_iff {c : Char} {t : Text} : splitFirst c t = none ↔ c ∉ t := by
  induction t with
  | nil => simp [splitFirst]
  | cons x t ih =>
    by_cases hx : x = c
    · simp [splitFirst, hx]
    · simp [splitFirst, hx, ih, Ne.symm hx]

/-! ### Byte lengths -/

/-- The number of bytes of the UTF-8 encoding. -/
def byteLen (t : Text) : ℕ := (t.map fun c => c.utf8Size).sum

theorem length_le_byteLen (t : Text) : t.length ≤ t.byteLen := by
  induction t with
  | nil => simp [byteLen]
  | cons c t ih =>
    have hc := Char.utf8Size_pos c
    simp only [byteLen, List.map_cons, List.sum_cons, List.length_cons] at ih ⊢
    omega

@[simp] theorem byteLen_nil : byteLen [] = 0 := rfl

@[simp] theorem byteLen_cons (c : Char) (t : Text) : byteLen (c :: t) = c.utf8Size + byteLen t := by
  simp [byteLen]

theorem byteLen_append (s t : Text) : byteLen (s ++ t) = byteLen s + byteLen t := by
  simp [byteLen]

/-- The texts before and after byte `n`; none when `n` is past the end or
inside a character. -/
def splitAtByte : ℕ → Text → Option (Text × Text)
  | 0, t => some ([], t)
  | _ + 1, [] => none
  | n + 1, c :: t =>
    if c.utf8Size ≤ n + 1 then
      (splitAtByte (n + 1 - c.utf8Size) t).map fun p => (c :: p.1, p.2)
    else none

theorem splitAtByte_add (s : Text) (n : ℕ) (t : Text) :
    splitAtByte (byteLen s + n) (s ++ t) = (splitAtByte n t).map fun p => (s ++ p.1, p.2) := by
  induction s with
  | nil => simp
  | cons c s ih =>
    have hc := Char.utf8Size_pos c
    obtain ⟨m, hm⟩ : ∃ m, byteLen (c :: s) + n = m + 1 :=
      ⟨byteLen (c :: s) + n - 1, by rw [byteLen_cons]; omega⟩
    have hle : c.utf8Size ≤ m + 1 := by rw [← hm, byteLen_cons]; omega
    have hsub : m + 1 - c.utf8Size = byteLen s + n := by rw [← hm, byteLen_cons]; omega
    rw [hm, List.cons_append, splitAtByte, if_pos hle, hsub, ih, Option.map_map]
    rfl

/-- A text is cut off at its own length. -/
theorem splitAtByte_append (s t : Text) : splitAtByte (byteLen s) (s ++ t) = some (s, t) := by
  simpa [splitAtByte] using splitAtByte_add s 0 t

/-- **A cut at a byte** leaves that many bytes before it. -/
theorem splitAtByte_eq_some_iff {n : ℕ} {t a b : Text} :
    splitAtByte n t = some (a, b) ↔ byteLen a = n ∧ t = a ++ b := by
  constructor
  · intro h
    induction t generalizing n a with
    | nil =>
      cases n with
      | zero => cases h; simp
      | succ n => simp [splitAtByte] at h
    | cons c t ih =>
      cases n with
      | zero => cases h; simp
      | succ n =>
        rw [splitAtByte] at h
        split at h
        · next hle =>
          simp only [Option.map_eq_some_iff, Prod.mk.injEq] at h
          obtain ⟨⟨a', b'⟩, h', rfl, rfl⟩ := h
          obtain ⟨hlen, rfl⟩ := ih h'
          refine ⟨?_, rfl⟩
          rw [byteLen_cons, hlen]
          omega
        · cases h
  · rintro ⟨rfl, rfl⟩
    exact splitAtByte_append a b

/-! ### Replacing -/

/-- The scan of `replaceAll`; `skip` characters belong to the last match. -/
def replaceFrom (pat new : Text) : ℕ → Text → Text
  | _, [] => []
  | skip + 1, _ :: t => replaceFrom pat new skip t
  | 0, c :: t =>
    if pat.isPrefixOf (c :: t) then new ++ replaceFrom pat new (pat.length - 1) t
    else c :: replaceFrom pat new 0 t

/-- Every occurrence of `pat`, from the left and without overlaps, becomes `new`. -/
def replaceAll (pat new t : Text) : Text := replaceFrom pat new 0 t

theorem mem_replaceFrom {pat new t : Text} {skip : ℕ} {c : Char}
    (h : c ∈ replaceFrom pat new skip t) : c ∈ new ∨ c ∈ t := by
  induction t generalizing skip with
  | nil => cases skip <;> simp [replaceFrom] at h
  | cons d t ih =>
    cases skip with
    | succ k => exact (ih h).imp_right (List.mem_cons_of_mem d)
    | zero =>
      simp only [replaceFrom] at h
      split at h
      · rcases List.mem_append.mp h with h | h
        · exact Or.inl h
        · exact (ih h).imp_right (List.mem_cons_of_mem d)
      · rcases List.mem_cons.mp h with rfl | h
        · exact Or.inr (by simp)
        · exact (ih h).imp_right (List.mem_cons_of_mem d)

/-- Replacing brings in no characters but those of the replacement. -/
theorem mem_replaceAll {pat new t : Text} {c : Char} (h : c ∈ replaceAll pat new t) :
    c ∈ new ∨ c ∈ t :=
  mem_replaceFrom h

/-! ### Texts without a newline -/

/-- The text is part of one line. -/
def NoNewline (t : Text) : Prop := '\n' ∉ t

theorem NoNewline.nil : NoNewline [] := by simp [NoNewline]

theorem NoNewline.append {s t : Text} (hs : NoNewline s) (ht : NoNewline t) :
    NoNewline (s ++ t) := by
  simp only [NoNewline, List.mem_append, not_or]
  exact ⟨hs, ht⟩

theorem NoNewline.flatten {ts : List Text} (h : ∀ t ∈ ts, NoNewline t) : NoNewline ts.flatten := by
  simp only [NoNewline, List.mem_flatten, not_exists, not_and]
  exact fun t ht => h t ht

theorem NoNewline.cons {c : Char} {t : Text} (hc : c ≠ '\n') (ht : NoNewline t) :
    NoNewline (c :: t) := by
  simp only [NoNewline, List.mem_cons, not_or]
  exact ⟨hc.symm, ht⟩

theorem NoNewline.intercalate {sep : Text} {ts : List Text} (hs : NoNewline sep)
    (h : ∀ t ∈ ts, NoNewline t) : NoNewline (List.intercalate sep ts) := by
  refine .flatten fun t ht => ?_
  induction ts with
  | nil => simp at ht
  | cons a ts ih =>
    rcases ts with _ | ⟨b, ts⟩
    · exact h t (by simpa using ht)
    · rw [List.intersperse_cons_cons, List.mem_cons, List.mem_cons] at ht
      rcases ht with rfl | rfl | ht
      · exact h _ (by simp)
      · exact hs
      · exact ih (fun u hu => h u (by simp [hu])) ht

/-- A literal is checked on its characters. -/
theorem NoNewline.literal {l : List Char} (h : l.elem '\n' = false) :
    NoNewline (String.ofList l).toList := by
  rw [String.toList_ofList]
  simpa [NoNewline] using h

theorem noNewline_toDigits (n : ℕ) : NoNewline (Nat.toDigits 10 n) := by
  intro h
  have := Nat.isDigit_of_mem_toDigits (by omega) (by omega) h
  revert this
  decide

theorem NoNewline.replaceAll {pat new t : Text} (hn : NoNewline new) (ht : NoNewline t) :
    NoNewline (replaceAll pat new t) :=
  fun h => (mem_replaceAll h).elim hn ht

/-! ### Lines -/

/-- The lines of a text, each with its terminator. -/
def splitLines : Text → List Text
  | [] => []
  | c :: t =>
    if c = '\n' then ['\n'] :: splitLines t
    else match splitLines t with
      | [] => [[c]]
      | l :: ls => (c :: l) :: ls

/-- A line with its terminator: a newline at its end and nowhere else. -/
def IsLine (l : Text) : Prop := ∃ s : Text, '\n' ∉ s ∧ l = s ++ ['\n']

/-- The text is empty or ends with a newline. -/
def EndsLine (t : Text) : Prop := t = [] ∨ ∃ s : Text, t = s ++ ['\n']

theorem IsLine.ne_nil {l : Text} (h : IsLine l) : l ≠ [] := by
  obtain ⟨s, _, rfl⟩ := h
  simp

theorem IsLine.endsLine {l : Text} (h : IsLine l) : EndsLine l := by
  obtain ⟨s, _, rfl⟩ := h
  exact Or.inr ⟨s, rfl⟩

theorem IsLine.newline_isSuffix {l : Text} (h : IsLine l) : ['\n'] <:+ l := by
  obtain ⟨s, _, rfl⟩ := h
  exact ⟨s, rfl⟩

theorem singleton_isSuffix_concat {c d : Char} {t : Text} : [c] <:+ t ++ [d] ↔ d = c := by
  constructor
  · rintro ⟨u, hu⟩
    simpa using (List.append_inj' hu rfl).2.symm
  · rintro rfl
    exact ⟨t, rfl⟩

@[simp] theorem splitLines_nil : splitLines [] = [] := rfl

/-- One line is cut off at its newline. -/
theorem splitLines_append_newline {s : Text} (hs : '\n' ∉ s) (t : Text) :
    splitLines (s ++ '\n' :: t) = (s ++ ['\n']) :: splitLines t := by
  induction s with
  | nil => simp [splitLines]
  | cons c s ih =>
    have hc : c ≠ '\n' := fun h => hs (by simp [h])
    have hs' : '\n' ∉ s := fun h => hs (by simp [h])
    simp [splitLines, hc, ih hs']

theorem IsLine.splitLines_append {l : Text} (h : IsLine l) (t : Text) :
    splitLines (l ++ t) = l :: splitLines t := by
  obtain ⟨s, hs, rfl⟩ := h
  rw [List.append_assoc]
  exact splitLines_append_newline hs t

/-- A text without a newline is its own last line. -/
theorem splitLines_of_notMem {t : Text} (h0 : t ≠ []) (h : '\n' ∉ t) : splitLines t = [t] := by
  induction t with
  | nil => exact absurd rfl h0
  | cons c t ih =>
    have hc : c ≠ '\n' := fun e => h (by simp [e])
    have ht : '\n' ∉ t := fun e => h (by simp [e])
    by_cases hne : t = []
    · subst hne; simp [splitLines, hc]
    · simp [splitLines, hc, ih hne ht]

theorem splitLines_ne_nil {t : Text} (h : t ≠ []) : splitLines t ≠ [] := by
  cases t with
  | nil => exact absurd rfl h
  | cons c t =>
    simp only [splitLines]
    split
    · simp
    · split <;> simp

/-- **The lines of a text, put together, are the text.** -/
@[simp] theorem flatten_splitLines (t : Text) : (splitLines t).flatten = t := by
  induction t with
  | nil => rfl
  | cons c t ih =>
    simp only [splitLines]
    split
    · next hc => simp [hc, ih]
    · split
      · next h =>
        have h0 : t = [] := by rw [← ih, h]; rfl
        simp [h0]
      · next l ls h =>
        rw [h] at ih
        simp only [List.flatten_cons] at ih
        simp [ih]

theorem splitLines_injective : Function.Injective splitLines := by
  intro s t h
  rw [← flatten_splitLines s, h, flatten_splitLines]

/-- The cut that one step of a line iterator makes: up to and with the first
newline, or everything. -/
theorem splitLines_eq_next {t : Text} (h : t ≠ []) :
    splitLines t = match splitFirst '\n' t with
      | some (a, b) => (a ++ ['\n']) :: splitLines b
      | none => [t] := by
  split
  · next a b hab =>
    obtain ⟨ha, rfl⟩ := splitFirst_eq_some_iff.mp hab
    exact splitLines_append_newline ha b
  · next hn => exact splitLines_of_notMem h (splitFirst_eq_none_iff.mp hn)

/-- **Terminated lines are recovered by the cut**, whatever follows them. -/
theorem splitLines_flatten_append {ls : List Text} (h : ∀ l ∈ ls, IsLine l) (t : Text) :
    splitLines (ls.flatten ++ t) = ls ++ splitLines t := by
  induction ls with
  | nil => rfl
  | cons l ls ih =>
    rw [List.flatten_cons, List.append_assoc, (h l (by simp)).splitLines_append,
      ih (fun m hm => h m (by simp [hm])), List.cons_append]

theorem splitLines_flatten {ls : List Text} (h : ∀ l ∈ ls, IsLine l) :
    splitLines ls.flatten = ls := by
  simpa using splitLines_flatten_append h []

/-- A text is its terminated lines followed by a rest without a newline. -/
theorem exists_lines_and_tail (t : Text) :
    ∃ (ls : List Text) (r : Text), (∀ l ∈ ls, IsLine l) ∧ '\n' ∉ r ∧ t = ls.flatten ++ r := by
  induction hn : t.length using Nat.strong_induction_on generalizing t with
  | _ n ih =>
    cases hf : splitFirst '\n' t with
    | none => exact ⟨[], t, by simp, splitFirst_eq_none_iff.mp hf, by simp⟩
    | some ab =>
      obtain ⟨a, b⟩ := ab
      obtain ⟨ha, rfl⟩ := splitFirst_eq_some_iff.mp hf
      obtain ⟨ls, r, hls, hr, rfl⟩ := ih b.length (by subst hn; simp; omega) b rfl
      refine ⟨(a ++ ['\n']) :: ls, r, ?_, hr, by simp⟩
      intro l hl
      rcases List.mem_cons.mp hl with rfl | hl
      · exact ⟨a, ha, rfl⟩
      · exact hls l hl

/-- The lines of a text that ends a line are all terminated. -/
theorem EndsLine.isLine {t : Text} (h : EndsLine t) : ∀ l ∈ splitLines t, IsLine l := by
  obtain ⟨ls, r, hls, hr, rfl⟩ := exists_lines_and_tail t
  have hr0 : r = [] := by
    rcases List.eq_nil_or_concat r with rfl | ⟨r', d, rfl⟩
    · rfl
    · rcases h with h | ⟨s, hs⟩
      · simp at h
      · have hd : d = '\n' := by
          rw [List.concat_eq_append, ← List.append_assoc] at hs
          simpa using (List.append_inj' hs rfl).2
        exact absurd (by simp [hd]) hr
  subst hr0
  rw [splitLines_flatten_append hls]
  simpa using hls

theorem endsLine_of_forall_isLine {ls : List Text} (h : ∀ l ∈ ls, IsLine l) :
    EndsLine ls.flatten := by
  rcases List.eq_nil_or_concat ls with rfl | ⟨ls', l, rfl⟩
  · exact Or.inl rfl
  · obtain ⟨s, _, rfl⟩ := h l (by simp)
    exact Or.inr ⟨ls'.flatten ++ s, by simp⟩

/-- Cutting into lines distributes over a concatenation at the end of a line. -/
theorem EndsLine.splitLines_append {s : Text} (h : EndsLine s) (t : Text) :
    splitLines (s ++ t) = splitLines s ++ splitLines t := by
  have hs := splitLines_flatten_append h.isLine t
  rwa [flatten_splitLines] at hs

theorem EndsLine.append {s t : Text} (hs : EndsLine s) (ht : EndsLine t) : EndsLine (s ++ t) := by
  rcases ht with rfl | ⟨u, rfl⟩
  · simpa using hs
  · exact Or.inr ⟨s ++ u, by simp⟩

/-- The lists of lines that a text is cut into: all terminated, but for the last. -/
inductive IsLines : List Text → Prop
  | nil : IsLines []
  | last {l : Text} : l ≠ [] → '\n' ∉ l → IsLines [l]
  | cons {l : Text} {ls : List Text} : IsLine l → IsLines ls → IsLines (l :: ls)

theorem IsLines.append {as bs : List Text} (ha : ∀ l ∈ as, IsLine l) (hb : IsLines bs) :
    IsLines (as ++ bs) := by
  induction as with
  | nil => exact hb
  | cons l as ih =>
    exact .cons (ha l (by simp)) (ih fun m hm => ha m (by simp [hm]))

theorem isLines_of_forall {ls : List Text} (h : ∀ l ∈ ls, IsLine l) : IsLines ls := by
  simpa using IsLines.append h .nil

theorem isLines_splitLines (t : Text) : IsLines (splitLines t) := by
  obtain ⟨ls, r, hls, hr, rfl⟩ := exists_lines_and_tail t
  rw [splitLines_flatten_append hls]
  refine .append hls ?_
  by_cases h : r = []
  · subst h; exact .nil
  · rw [splitLines_of_notMem h hr]; exact .last h hr

/-- **A list of lines is recovered from its text.** -/
theorem IsLines.splitLines_flatten {ls : List Text} (h : IsLines ls) :
    splitLines ls.flatten = ls := by
  induction h with
  | nil => rfl
  | last h0 h => simpa using splitLines_of_notMem h0 h
  | cons hl _ ih => rw [List.flatten_cons, hl.splitLines_append, ih]

/-- Only the last line may lack its terminator. -/
theorem IsLines.isLine_left {as bs : List Text} (h : IsLines (as ++ bs)) (hb : bs ≠ []) :
    ∀ l ∈ as, IsLine l := by
  induction as with
  | nil => simp
  | cons l as ih =>
    have hne : as ++ bs ≠ [] := by simp [hb]
    rw [List.cons_append] at h
    generalize hcs : as ++ bs = cs at h hne
    cases h with
    | last => exact absurd rfl hne
    | cons hl hls =>
      intro m hm
      rcases List.mem_cons.mp hm with rfl | hm
      · exact hl
      · exact ih (hcs ▸ hls) m hm

theorem IsLines.right {as bs : List Text} (h : IsLines (as ++ bs)) : IsLines bs := by
  induction as with
  | nil => exact h
  | cons l as ih =>
    rw [List.cons_append] at h
    generalize hcs : as ++ bs = cs at h
    cases h with
    | last =>
      obtain ⟨-, rfl⟩ := List.append_eq_nil_iff.mp hcs
      exact .nil
    | cons _ hls => exact ih (hcs ▸ hls)

theorem IsLines.ne_nil {ls : List Text} (h : IsLines ls) : ∀ l ∈ ls, l ≠ [] := by
  induction h with
  | nil => simp
  | last h0 _ => simpa using h0
  | cons hl _ ih =>
    intro m hm
    rcases List.mem_cons.mp hm with rfl | hm
    · exact hl.ne_nil
    · exact ih m hm

/-! ### Line terminators -/

/-- A line without its `\n` or `\r\n`. -/
def stripTerminator (line : Text) : Text :=
  if ['\n'].isSuffixOf line then
    if ['\r'].isSuffixOf line.dropLast then line.dropLast.dropLast else line.dropLast
  else line

/-- The lines of a text without their terminators. -/
def lines (t : Text) : List Text := (splitLines t).map stripTerminator

/-- The characters of line terminators. -/
def isTerminator (c : Char) : Bool := c == '\r' || c == '\n'

/-- A line without the run of terminators at its end. -/
def content (line : Text) : Text := trimEndMatches isTerminator line

theorem content_append_of_all {w : Text} (hw : ∀ c ∈ w, isTerminator c = true) (t : Text) :
    content (t ++ w) = content t :=
  trimEndMatches_append_of_all hw t

@[simp] theorem content_append_newline (t : Text) : content (t ++ ['\n']) = content t :=
  content_append_of_all (by simp [isTerminator]) t

theorem isWhitespace_of_isTerminator {c : Char} (h : isTerminator c = true) :
    isWhitespace c = true := by
  simp only [isTerminator, Bool.or_eq_true, beq_iff_eq] at h
  rcases h with rfl | rfl <;> decide

/-- A line is its content and a run of terminators. -/
theorem exists_terminator (line : Text) :
    ∃ w, (∀ c ∈ w, isTerminator c = true) ∧ line = content line ++ w :=
  ⟨line.rtakeWhile isTerminator, fun _ hc => List.mem_rtakeWhile_imp hc,
    List.rdropWhile_append_rtakeWhile.symm⟩

theorem trim_content (line : Text) : trim (content line) = trim line :=
  trim_trimEndMatches (fun _ => isWhitespace_of_isTerminator) line

theorem content_eq_self {c : Char} (hc : isTerminator c = false) (t : Text) :
    content (t ++ [c]) = t ++ [c] := by
  rw [content, trimEndMatches, List.rdropWhile_concat_neg _ _ _ (by simp [hc])]

theorem content_of_forall_not {t : Text} (h : ∀ c ∈ t, isTerminator c = false) : content t = t := by
  rw [content, trimEndMatches, List.rdropWhile_eq_self_iff]
  intro h0
  simpa using h _ (List.getLast_mem h0)

/-- Only terminators are stripped. -/
theorem content_stripTerminator (line : Text) : content (stripTerminator line) = content line := by
  have key : ∀ {u : Text} {c : Char}, isTerminator c = true → [c].isSuffixOf u = true →
      content u.dropLast = content u := by
    intro u c hc hu
    obtain ⟨v, rfl⟩ := List.isSuffixOf_iff_suffix.mp hu
    rw [List.dropLast_concat, content_append_of_all (by simpa using hc)]
  unfold stripTerminator
  split
  · next hn =>
    split
    · next hr => rw [key (by decide) hr, key (by decide) hn]
    · rw [key (by decide) hn]
  · rfl

theorem NoNewline.stripTerminator {l : Text} (h : IsLine l) : NoNewline (stripTerminator l) := by
  obtain ⟨s, hs, rfl⟩ := h
  have hsuf : ['\n'].isSuffixOf (s ++ ['\n']) = true := by
    rw [List.isSuffixOf_iff_suffix]
    exact ⟨s, rfl⟩
  unfold Text.stripTerminator
  rw [if_pos hsuf, List.dropLast_concat]
  split
  · exact fun hm => hs (List.mem_of_mem_dropLast hm)
  · exact hs

end Text
