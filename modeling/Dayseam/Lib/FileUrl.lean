import Dayseam.Lib.Urlencoded
import Mathlib

/-!
# How a URL of a file is read

What a parser of URLs does to the text before it opens a file: controls and blanks go from the
ends, tabs and newlines from everywhere, either slash separates, and the path ends at the query
or the fragment.  Its parts may be percent-encoded.

## Main definitions

* `clean` — the text that is read.
* `read` — its scheme, its host and the segments of its path.
* `doubleDots` — the spellings of the segment that goes up.

## Main results

* `read_file`, `clean_file` — the reading of a text that begins with "file:///".
* `segments_filter` — what is taken out leaves the segments where they are.
-/

namespace FileUrl

open Text

def isTabOrNewline (c : Char) : Bool := c == '\t' || c == '\n' || c == '\r'

def isControlOrSpace (c : Char) : Bool := decide (c.toNat ≤ 32)

def isSeparator (c : Char) : Bool := c == '/' || c == '\\'

def endsPath (c : Char) : Bool := c == '?' || c == '#'

/-- The text without controls and spaces at its end. -/
def stripEnd (t : Text) : Text := t.rdropWhile isControlOrSpace

def dropTabs (t : Text) : Text := t.filter fun c => !isTabOrNewline c

/-- The text as it is read. -/
def clean (t : Text) : Text := dropTabs (stripEnd (t.dropWhile isControlOrSpace))

def segments (path : Text) : List Text :=
  (path.takeWhile fun c => !endsPath c).splitOnP isSeparator

structure Reading where
  scheme : Text
  host : Text
  segments : List Text
  deriving DecidableEq

/-- The parts of a URL of a file.  The host stands between two separators and the path. -/
def read (t : Text) : Reading :=
  let scheme := (t.takeWhile (· != ':')).map Char.toLower
  match (t.dropWhile (· != ':')).drop 1 with
  | a :: b :: rest =>
    if isSeparator a && isSeparator b then
      let host := rest.takeWhile fun c => !isSeparator c && !endsPath c
      ⟨scheme, host, segments (rest.drop host.length)⟩
    else ⟨scheme, [], segments (a :: b :: rest)⟩
  | rest => ⟨scheme, [], segments rest⟩

def filePrefixText : Text := "file:///".toList

/-- The segments behind the third slash; the first one of all is empty. -/
theorem read_file (r : Text) :
    read (filePrefixText ++ r) = ⟨"file".toList, [], [] :: segments r⟩ := by
  have hsegments : segments ('/' :: r) = [] :: segments r := by
    rw [segments, List.takeWhile_cons_of_pos (by decide), segments,
      List.splitOnP_cons_eq_if_modifyHead, if_pos (by decide)]
  show Reading.mk "file".toList [] (segments ('/' :: r)) = _
  rw [hsegments]

theorem stripEnd_append {s t : Text} (h : ∀ c ∈ s.getLast?, isControlOrSpace c = false) :
    stripEnd (s ++ t) = s ++ stripEnd t := by
  induction t using List.reverseRecOn with
  | nil =>
    rw [stripEnd, stripEnd, List.append_nil, List.rdropWhile_nil, List.append_nil,
      List.rdropWhile_eq_self_iff]
    intro hs
    rw [h _ (List.getLast_mem_getLast? hs)]
    exact Bool.false_ne_true
  | append_singleton t c ih =>
    rw [stripEnd, stripEnd, ← List.append_assoc]
    by_cases hc : isControlOrSpace c = true
    · rw [List.rdropWhile_concat_pos _ _ _ hc, List.rdropWhile_concat_pos _ _ _ hc]
      exact ih
    · rw [List.rdropWhile_concat_neg _ _ _ hc, List.rdropWhile_concat_neg _ _ _ hc,
        List.append_assoc]

/-- What comes before the path is read as it is. -/
theorem clean_file (r : Text) :
    clean (filePrefixText ++ r) = filePrefixText ++ dropTabs (stripEnd r) := by
  have hstart : (filePrefixText ++ r).dropWhile isControlOrSpace = filePrefixText ++ r := rfl
  have hlast : ∀ c ∈ filePrefixText.getLast?, isControlOrSpace c = false := by
    intro c hc
    obtain rfl : '/' = c := Option.some.inj hc
    decide
  rw [clean, hstart, stripEnd_append hlast, dropTabs, List.filter_append]
  rfl

/-! ### What is taken out -/

section Filter

variable {keep p : Char → Bool}

theorem takeWhile_filter (h : ∀ c, keep c = false → p c = true) (t : Text) :
    (t.filter keep).takeWhile p = (t.takeWhile p).filter keep := by
  induction t with
  | nil => rfl
  | cons c t ih =>
    cases hk : keep c with
    | true =>
      rw [List.filter_cons_of_pos hk]
      by_cases hp : p c = true
      · rw [List.takeWhile_cons_of_pos hp, List.takeWhile_cons_of_pos hp,
          List.filter_cons_of_pos hk, ih]
      · rw [List.takeWhile_cons_of_neg hp, List.takeWhile_cons_of_neg hp, List.filter_nil]
    | false =>
      rw [List.filter_cons_of_neg (by simp [hk]), List.takeWhile_cons_of_pos (h c hk),
        List.filter_cons_of_neg (by simp [hk]), ih]

theorem splitOnP_filter (h : ∀ c, keep c = false → p c = false) (t : Text) :
    (t.filter keep).splitOnP p = (t.splitOnP p).map (List.filter keep) := by
  induction t with
  | nil => rfl
  | cons c t ih =>
    obtain ⟨head, tail, hsplit⟩ := List.exists_cons_of_ne_nil (List.splitOnP_ne_nil p t)
    rw [List.splitOnP_cons_eq_if_modifyHead c t]
    cases hk : keep c with
    | true =>
      rw [List.filter_cons_of_pos hk, List.splitOnP_cons_eq_if_modifyHead, ih]
      by_cases hp : p c = true
      · rw [if_pos hp, if_pos hp]
        rfl
      · rw [if_neg hp, if_neg hp, hsplit, List.map_cons, List.modifyHead_cons,
          List.modifyHead_cons, List.map_cons, List.filter_cons_of_pos hk]
    | false =>
      rw [List.filter_cons_of_neg (by simp [hk]), ih, if_neg (by simp [h c hk]), hsplit,
        List.modifyHead_cons, List.map_cons, List.map_cons,
        List.filter_cons_of_neg (by simp [hk])]

theorem mem_of_mem_splitOnP {t piece : Text} {c : Char} (h : piece ∈ t.splitOnP p)
    (hc : c ∈ piece) : c ∈ t := by
  induction t generalizing piece with
  | nil =>
    rw [List.mem_singleton.mp h] at hc
    exact absurd hc List.not_mem_nil
  | cons d t ih =>
    rw [List.splitOnP_cons_eq_if_modifyHead] at h
    split_ifs at h
    · rcases List.mem_cons.mp h with rfl | h
      · exact absurd hc List.not_mem_nil
      · exact List.mem_cons_of_mem _ (ih h hc)
    · obtain ⟨head, tail, hsplit⟩ := List.exists_cons_of_ne_nil (List.splitOnP_ne_nil p t)
      rw [hsplit] at h ih
      rcases List.mem_cons.mp h with rfl | h
      · rcases List.mem_cons.mp hc with rfl | hc
        · exact List.mem_cons_self
        · exact List.mem_cons_of_mem _ (ih List.mem_cons_self hc)
      · exact List.mem_cons_of_mem _ (ih (List.mem_cons_of_mem _ h) hc)

end Filter

/-- The tabs of a text lie within its segments. -/
theorem segments_dropTabs (t : Text) : segments (dropTabs t) = (segments t).map dropTabs := by
  have hout : ∀ c, (!isTabOrNewline c) = false → endsPath c = false ∧ isSeparator c = false := by
    intro c hc
    simp only [Bool.not_eq_false', isTabOrNewline, Bool.or_eq_true, beq_iff_eq] at hc
    rcases hc with (rfl | rfl) | rfl <;> decide
  rw [segments, dropTabs, takeWhile_filter fun c hc => by rw [(hout c hc).1]; rfl,
    splitOnP_filter fun c hc => (hout c hc).2]
  rfl

/-! ### Segments that go up -/

/-- A dot, by itself or encoded. -/
def dots : List Text := [".".toList, "%2e".toList, "%2E".toList]

/-- Two dots, each by itself or encoded. -/
def doubleDots : List Text := dots.flatMap fun a => dots.map fun b => a ++ b

end FileUrl
