import Dayseam.Connectors.Atlassian
import Dayseam.Core.Utf8Ascii
import Dayseam.Lib.Urlencoded
import Mathlib

/-!
# The cursor of a page of Confluence

A page links to the next one with a cursor in the query of the link, percent-encoded.  The
paginator takes the value as it stands in the link, and the walk encodes it for the next
request, so that a value with an escape is encoded twice.

## Main definitions

* `pageQuery` — the query of a request, that of `build_page_url`.
* `PlacedCursor`, `OtherParam`, `NextLink` — a link of the server.
* `RoundTrips` — the next request asks for the cursor that the server placed.

## Main results

* `cursorOf_pageQuery` — the request asks for what the walk put in.
* `extract_text` — the paginator takes the raw value.
* `roundTrips_iff` — **when the cursor of a link round-trips.**
-/

namespace Dayseam
namespace Atlassian

open Text

/-! ### The request -/

def EXPAND_FIELDS : Text :=
  ("content.space,content.history,content.history.createdBy,content.version,content.version.by," ++
    "content.body.atlas_doc_format,content.extensions,content.ancestors,content.container").toList

def PAGE_SIZE : ℕ := 25

/-- A pair of texts, as `append_pair` takes it. -/
def textPair (name : String) (value : Text) : List UInt8 × List UInt8 :=
  (utf8 name.toList, utf8 value)

/-- The query of `build_page_url` for a base URL without one. -/
def pageQuery (cql : Text) (cursor : Option Text) : Text :=
  Urlencoded.serialize
    ([textPair "cql" cql, textPair "expand" EXPAND_FIELDS,
      textPair "limit" (Nat.toDigits 10 PAGE_SIZE)] ++
      (cursor.map fun c => textPair "cursor" c).toList)

def isCursor (p : List UInt8 × List UInt8) : Bool := decide (p.1 = utf8 "cursor".toList)

/-- The decoded value of the parameter `cursor` in a query. -/
def cursorOf (query : Text) : Option (List UInt8) :=
  ((Urlencoded.parse query).find? isCursor).map Prod.snd

/-- The request asks for what the walk put in. -/
theorem cursorOf_pageQuery (cql : Text) (cursor : Option Text) :
    cursorOf (pageQuery cql cursor) = cursor.map utf8 := by
  have hother : ∀ name : String, name ≠ "cursor" → ∀ v,
      ¬ isCursor (textPair name v) = true := by
    intro name hname v h
    exact hname (String.toList_inj.mp (utf8_injective (of_decide_eq_true h)))
  rw [cursorOf, pageQuery, Urlencoded.parse_serialize]
  simp only [List.cons_append, List.nil_append]
  rw [List.find?_cons_of_neg (hother _ (by decide) _),
    List.find?_cons_of_neg (hother _ (by decide) _),
    List.find?_cons_of_neg (hother _ (by decide) _)]
  cases cursor with
  | none => rfl
  | some c =>
    have hc : isCursor (textPair "cursor" c) = true := decide_eq_true rfl
    rw [Option.map_some, Option.toList_some, List.find?_cons_of_pos hc]
    rfl

/-! ### The link -/

/-- A cursor in a link, with its value as it stands there. -/
structure PlacedCursor where
  cursor : Text
  raw : Text
  encodes : Urlencoded.percentDecode raw = utf8 cursor
  noAmp : '&' ∉ raw

/-- A parameter by another name. -/
structure OtherParam where
  text : Text
  noAmp : '&' ∉ text
  name_ne : (Urlencoded.parsePair text).1 ≠ utf8 "cursor".toList

/-- A link of the server: a path, and the parameters around the cursor. -/
structure NextLink where
  path : Text
  noQuery : '?' ∉ path
  before : List OtherParam
  cursor : Option PlacedCursor
  behind : List OtherParam

def PlacedCursor.text (p : PlacedCursor) : Text := "cursor=".toList ++ p.raw

def NextLink.params (l : NextLink) : List Text :=
  l.before.map OtherParam.text ++ (l.cursor.map PlacedCursor.text).toList ++
    l.behind.map OtherParam.text

def NextLink.text (l : NextLink) : Text :=
  if l.params = [] then l.path else l.path ++ '?' :: List.intercalate ['&'] l.params

theorem OtherParam.isPrefixOf?_eq_none (o : OtherParam) :
    "cursor=".toList.isPrefixOf? o.text = none := by
  cases h : "cursor=".toList.isPrefixOf? o.text with
  | none => rfl
  | some v =>
    have htext : o.text = "cursor".toList ++ '=' :: v := by
      rw [← List.isPrefixOf?_eq_some_iff_append_eq.mp h]
      rfl
    refine absurd ?_ o.name_ne
    rw [htext, Urlencoded.parsePair, splitFirst_append (by decide)]
    rfl

theorem NextLink.noAmp (l : NextLink) : ∀ t ∈ l.params, '&' ∉ t := by
  intro t ht
  simp only [NextLink.params, List.mem_append, List.mem_map, Option.mem_toList,
    Option.map_eq_some_iff] at ht
  rcases ht with (⟨o, -, rfl⟩ | ⟨p, -, rfl⟩) | ⟨o, -, rfl⟩
  · exact o.noAmp
  · intro h
    rcases List.mem_append.mp h with h | h
    · exact absurd h (by decide)
    · exact p.noAmp h
  · exact o.noAmp

theorem findSome?_others (os : List OtherParam) :
    (os.map OtherParam.text).findSome? (fun pair =>
      ("cursor=".toList.isPrefixOf? pair).bind nonEmpty) = none := by
  rw [List.findSome?_eq_none_iff]
  intro t ht
  obtain ⟨o, -, rfl⟩ := List.mem_map.mp ht
  rw [o.isPrefixOf?_eq_none, Option.bind_none]

/-- The paginator takes the raw value of the cursor, unless it is empty. -/
theorem extract_text (l : NextLink) :
    extractCursorQueryParam l.text = l.cursor.bind fun p => nonEmpty p.raw := by
  unfold extractCursorQueryParam NextLink.text
  by_cases hp : l.params = []
  · have hc : l.cursor = none := by
      cases hc : l.cursor with
      | none => rfl
      | some p => simp [NextLink.params, hc] at hp
    rw [if_pos hp, splitFirst_eq_none_iff.mpr l.noQuery, hc]
    rfl
  · rw [if_neg hp, splitFirst_append l.noQuery]
    simp only [Option.bind_some]
    rw [List.splitOn_intercalate _ l.noAmp hp, NextLink.params, List.findSome?_append,
      List.findSome?_append, findSome?_others, findSome?_others, Option.none_or, Option.or_none]
    cases l.cursor with
    | none => rfl
    | some p =>
      have hstrip : "cursor=".toList.isPrefixOf? p.text = some p.raw :=
        List.isPrefixOf?_eq_some_iff_append_eq.mpr rfl
      simp only [Option.map_some, Option.toList_some, List.findSome?_cons, List.findSome?_nil,
        hstrip, Option.bind_some]
      cases nonEmpty p.raw <;> rfl

/-! ### The round trip -/

/-- The next request asks for the cursor of the link, and there is none only without one. -/
structure RoundTrips (cql : Text) (l : NextLink) : Prop where
  none_iff : extractCursorQueryParam l.text = none ↔ l.cursor = none
  cursor : ∀ p, l.cursor = some p →
    cursorOf (pageQuery cql (extractCursorQueryParam l.text)) = some (utf8 p.cursor)

/-- **The cursor of a link round-trips** exactly when it is not empty and stands there without
an escape. -/
theorem roundTrips_iff (cql : Text) (l : NextLink) :
    RoundTrips cql l ↔ ∀ p, l.cursor = some p → p.raw = p.cursor ∧ p.cursor ≠ [] := by
  constructor
  · intro h p hp
    have hcursor := h.cursor p hp
    rw [cursorOf_pageQuery, extract_text, hp, Option.bind_some, nonEmpty] at hcursor
    split_ifs at hcursor with hraw
    · cases hcursor
    · have hraw' : p.raw = p.cursor := utf8_injective (Option.some.inj hcursor)
      exact ⟨hraw', hraw' ▸ hraw⟩
  · intro h
    constructor
    · rw [extract_text]
      cases hl : l.cursor with
      | none => simp
      | some p =>
        obtain ⟨hraw, hne⟩ := h p hl
        simp [nonEmpty, hraw, hne]
    · intro p hp
      obtain ⟨hraw, hne⟩ := h p hp
      rw [cursorOf_pageQuery, extract_text, hp, Option.bind_some, nonEmpty, hraw, if_neg hne]
      rfl

/-- A link with the cursor "a=b". -/
def escapedLink : NextLink where
  path := "/wiki/rest/api/search".toList
  noQuery := by decide
  before := [⟨"limit=25".toList, by decide, by decide +kernel⟩]
  cursor := some ⟨"a=b".toList, "a%3Db".toList, by decide +kernel, by decide⟩
  behind := []

/-- The request for the page behind it asks for the cursor "a%3Db". -/
theorem escaped_cursor_encoded_twice :
    pageQuery [] (extractCursorQueryParam escapedLink.text)
        = pageQuery [] (some "a%3Db".toList) ∧
      cursorOf (pageQuery [] (extractCursorQueryParam escapedLink.text))
        = some (utf8 "a%3Db".toList) ∧
      ¬ RoundTrips [] escapedLink := by
  have hextract : extractCursorQueryParam escapedLink.text = some "a%3Db".toList := by
    rw [extract_text]
    rfl
  refine ⟨by rw [hextract], by rw [hextract, cursorOf_pageQuery]; rfl, fun h => ?_⟩
  have hcursor := h.cursor _ rfl
  rw [hextract, cursorOf_pageQuery] at hcursor
  have : utf8 "a%3Db".toList = utf8 "a=b".toList := Option.some.inj hcursor
  exact absurd (utf8_injective this) (by decide)

end Atlassian
end Dayseam
