import Dayseam.Core.Types
import Mathlib

/-!
# The YAML frontmatter of the markdown sink

An optional `---` block at the top of the file.  `split` cuts it off by byte
offsets, `merge` reads its lines as flat `key: value` pairs, sets the four keys
that the sink owns and writes the block again.  A slice that would fall inside
a character is a panic of the source; `split` and `merge` are `none` there.

## Main definitions

* `split` — the frontmatter block and the body of a file.
* `parseFlat`, `upsert` — the entries of a block, and one key set among them.
* `merge` — the block that a save writes.
-/

namespace Dayseam
namespace Frontmatter

/-- The delimiter line opening and closing a block. -/
def delim : Text := ['-', '-', '-']

/-- The RFC 3339 form of an instant to the second, with a `Z`, as `chrono`
writes it: a text of one line. -/
structure Rfc3339 where
  toRfc3339 : ℤ → Text
  oneLine : ∀ z, ∀ c ∈ toRfc3339 z, Text.isTerminator c = false

/-- The form on the texts of the calendar. -/
def Rfc3339.utc : Rfc3339 where
  toRfc3339 z :=
    let s := z / 10 ^ 9
    let n := (s % 86400).natAbs
    Calendar.isoText (s / 86400) ++ 'T' :: (Calendar.padded 2 (n / 3600) ++
      ':' :: (Calendar.padded 2 (n / 60 % 60) ++ ':' :: (Calendar.padded 2 (n % 60) ++ ['Z'])))
  oneLine z c hc := by
    have hdigit : ∀ {c : Char}, c.isDigit = true → Text.isTerminator c = false := by
      intro c h
      rw [Bool.eq_false_iff]
      intro ht
      simp only [Text.isTerminator, Bool.or_eq_true, beq_iff_eq] at ht
      rcases ht with rfl | rfl <;> revert h <;> decide
    simp only [List.mem_append, List.mem_cons, List.not_mem_nil, or_false] at hc
    rcases hc with h | rfl | h | rfl | h | rfl | h | rfl
    · rcases Calendar.mem_isoText h with h | rfl | rfl
      · exact hdigit h
      · decide
      · decide
    all_goals first | exact hdigit (Calendar.isDigit_of_mem_padded h) | decide

/-- The fields that the sink writes on every save; `generatedAt` is in
nanoseconds since the epoch. -/
structure FrontmatterFields where
  date : NaiveDate
  template : Text
  templateVersion : Text
  generatedAt : ℤ
  deriving DecidableEq, Repr

/-! ### Splitting a file -/

/-- The line holds the delimiter and blanks only. -/
def isDelimLine (line : Text) : Bool := line.content.trim == delim

/-- The byte offset of the first delimiter line among `lines`, which start at
`offset`. -/
def findDelimFrom (offset : ℕ) : List Text → Option ℕ
  | [] => none
  | l :: ls => if isDelimLine l then some offset else findDelimFrom (offset + l.byteLen) ls

/-- The byte offset of the first delimiter line.  The pieces of
`split_inclusive` cover the text, so the source's second look at a final line
without a newline finds nothing more. -/
def findDelimLine (text : Text) : Option ℕ := findDelimFrom 0 text.splitLines

/-- The terminator at the start of a text. -/
def leadingEol (t : Text) : Option Text :=
  if ['\r', '\n'].isPrefixOf t then some ['\r', '\n']
  else if ['\n'].isPrefixOf t then some ['\n']
  else none

/-- The block with its delimiter lines, if the file starts with one, and the body. -/
def split (text : Text) : Option (Option Text × Text) :=
  if delim.isPrefixOf text then
    match leadingEol (text.drop delim.length) with
    | none => some (none, text)
    | some eol =>
      match findDelimLine (text.drop (delim.length + eol.length)) with
      | none => some (none, text)
      | some closeRel => do
        let endOfBlock := delim.byteLen + eol.byteLen + closeRel + delim.byteLen
        let (_, rest) ← text.splitAtByte endOfBlock
        let eol := (leadingEol rest).getD []
        let (block, body) ← text.splitAtByte (endOfBlock + eol.byteLen)
        some (some block, body)
  else some (none, text)

/-! ### Entries -/

/-- A line of a block: a pair, or a line kept as it is. -/
inductive Entry
  | pair (key value : Text)
  | other (raw : Text)
  deriving DecidableEq, Repr

/-- The parts of a line `key: value` with a bareword key. -/
def splitKeyValue (line : Text) : Option (Text × Text) :=
  let trimmed := line.trimStart
  if ['#'].isPrefixOf trimmed ∨ trimmed = [] then none
  else match trimmed.splitFirst ':' with
    | none => none
    | some (key, rest) =>
      let key := key.trim
      if key = [] ∨ key.any Text.isWhitespace then none
      else some (key, rest.trimStart.trimEndMatches Text.isTerminator)

def parseLine (line : Text) : Entry :=
  match splitKeyValue line with
  | some (key, value) => .pair key value
  | none => .other line

/-- The entries between the delimiters of a block.  Only a bare newline after
the opening delimiter is stripped with it; after `\r\n` the whole block is
searched, whose first line is a delimiter. -/
def parseFlat (block : Text) : Option (List Entry) := do
  let inner : Text :=
    if delim.isPrefixOf block ∧ ['\n'].isPrefixOf (block.drop delim.length) then
      block.drop (delim.length + 1)
    else block
  let body : Text ← match findDelimLine inner with
    | some close => (inner.splitAtByte close).map Prod.fst
    | none => some inner
  some (body.lines.map parseLine)

/-- The first pair with this key gets the value; without one a pair is added. -/
def upsert (key value : Text) : List Entry → List Entry
  | [] => [.pair key value]
  | .pair k v :: es =>
    if k = key then .pair k value :: es else .pair k v :: upsert key value es
  | .other raw :: es => .other raw :: upsert key value es

/-! ### Merging -/

/-- An entry without its newline. -/
def Entry.line : Entry → Text
  | .pair key value => key ++ ':' :: ' ' :: value
  | .other raw => raw

/-- An entry as it is written. -/
def Entry.text : Entry → Text
  | .pair key value => key ++ ':' :: ' ' :: (value ++ ['\n'])
  | .other raw => if ['\n'].isSuffixOf raw then raw else raw ++ ['\n']

section
variable (chrono : Chrono) (rfc : Rfc3339)

/-- The owned keys with the values of a save, in the order they are set. -/
def FrontmatterFields.owned (f : FrontmatterFields) : List (Text × Text) :=
  [("date".toList, chrono.display f.date),
   ("template".toList, f.template),
   ("template_version".toList, f.templateVersion),
   ("generated_at".toList, rfc.toRfc3339 f.generatedAt)]

def merge (existing : Option Text) (f : FrontmatterFields) : Option Text := do
  let entries ← match existing with
    | some block => parseFlat block
    | none => some []
  let entries := (f.owned chrono rfc).foldl (fun es kv => upsert kv.1 kv.2 es) entries
  some (delim ++ '\n' :: ((entries.map Entry.text).flatten ++ delim ++ ['\n']))

end

end Frontmatter
end Dayseam
