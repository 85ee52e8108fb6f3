import Dayseam.Lib.Text
import Dayseam.Lib.Calendar
import Mathlib

/-!
# Core types

The canonical types that the crates of the workspace share: identifiers, dates,
numbers and their texts, source kinds, and the report draft that the engine hands to
a sink.

## Main definitions

* `NaiveDate`, `Chrono` — a calendar date, and the two date formats that the
  program takes from the `chrono` crate.
* `SourceKind` — the six connector kinds and their display texts.
* `ReportDraft` — a rendered report.
-/

namespace Dayseam

/-! ### Identifiers -/

/-- A 128-bit identifier, ordered as its bytes are. -/
abbrev Uuid := Fin (2 ^ 128)

instance neZero_uuid : NeZero (2 ^ 128 : ℕ) := inferInstance

instance lawfulBEq_uuid : LawfulBEq Uuid := inferInstance

/-- The hexadecimal digits of `n`, `k` of them. -/
def hexDigits (n : ℕ) : ℕ → Text
  | 0 => []
  | k + 1 => hexDigits (n / 16) k ++ [Nat.digitChar (n % 16)]

/-- The hyphenated lower-case form of an identifier. -/
def Uuid.display (u : Uuid) : Text :=
  hexDigits (u.val / 2 ^ 96) 8 ++ '-' :: (hexDigits (u.val / 2 ^ 80 % 2 ^ 16) 4 ++
    '-' :: (hexDigits (u.val / 2 ^ 64 % 2 ^ 16) 4 ++
      '-' :: (hexDigits (u.val / 2 ^ 48 % 2 ^ 16) 4 ++
        '-' :: hexDigits (u.val % 2 ^ 48) 12)))

/-- A character of a hyphenated identifier. -/
def isUuidChar (c : Char) : Bool := c == '-' || (List.range 16).any fun n => n.digitChar == c

theorem isUuidChar_digitChar {n : ℕ} (h : n < 16) : isUuidChar n.digitChar = true := by
  simp only [isUuidChar, Bool.or_eq_true, List.any_eq_true, List.mem_range]
  exact Or.inr ⟨n, h, by simp⟩

theorem isUuidChar_of_mem_hexDigits {n k : ℕ} {c : Char} (h : c ∈ hexDigits n k) :
    isUuidChar c = true := by
  induction k generalizing n with
  | zero => simp [hexDigits] at h
  | succ k ih =>
    rcases List.mem_append.mp h with h | h
    · exact ih h
    · rw [List.mem_singleton.mp h]
      exact isUuidChar_digitChar (Nat.mod_lt _ (by omega))

theorem isUuidChar_of_mem_display {u : Uuid} {c : Char} (h : c ∈ u.display) :
    isUuidChar c = true := by
  simp only [Uuid.display, List.mem_append, List.mem_cons] at h
  rcases h with h | rfl | h | rfl | h | rfl | h | rfl | h
  all_goals first | exact isUuidChar_of_mem_hexDigits h | decide

/-! ### Dates -/

/-- A calendar date, as its distance in days from 1970-01-01. -/
@[ext] structure NaiveDate where
  day : ℤ
  deriving DecidableEq, Repr

/-- The formats that the program takes from `chrono`: the `Display` form of a
date and `parse_from_str(_, "%Y-%m-%d")`, with the text of its error.  What the
program relies on is that the second reads back the first. -/
structure Chrono where
  display : NaiveDate → Text
  parseFromStr : Text → Except Text NaiveDate
  parse_display : ∀ d, parseFromStr (display d) = .ok d
  display_chars : ∀ d c, c ∈ display d → c.isDigit = true ∨ c = '-' ∨ c = '+'

/-- The formats on the texts of the calendar. -/
def Chrono.iso : Chrono where
  display d := Calendar.isoText d.day
  parseFromStr t := match Calendar.parseIso t with
    | some z => .ok ⟨z⟩
    | none => .error "input contains invalid characters".toList
  parse_display d := by simp [Calendar.parseIso_isoText]
  display_chars _ _ h := Calendar.mem_isoText h

/-- A character outside a class is in no text over it. -/
theorem Chrono.notMem_display (chrono : Chrono) (d : NaiveDate) {c : Char}
    (h : c.isDigit = false ∧ c ≠ '-' ∧ c ≠ '+') : c ∉ chrono.display d := by
  intro hc
  rcases chrono.display_chars d c hc with hd | hd | hd
  · rw [h.1] at hd; exact absurd hd (by decide)
  · exact h.2.1 hd
  · exact h.2.2 hd

/-! ### Numbers -/

/-- `str::parse::<i64>`: an optional sign, then digits, within the range. -/
def parseI64 (t : Text) : Option ℤ :=
  let value := match t with
    | '-' :: digits => (Calendar.parseNat digits).map fun n => -(n : ℤ)
    | '+' :: digits => (Calendar.parseNat digits).map fun n => (n : ℤ)
    | digits => (Calendar.parseNat digits).map fun n => (n : ℤ)
  value.filter fun n => decide (-2 ^ 63 ≤ n ∧ n < 2 ^ 63)

def i64Text (n : ℤ) : Text :=
  if n < 0 then '-' :: Nat.toDigits 10 n.natAbs else Nat.toDigits 10 n.natAbs

/-! ### Letters -/

/-- `str::eq_ignore_ascii_case`. -/
def eqIgnoreAsciiCase (a b : Text) : Bool := a.map Char.toLower == b.map Char.toLower

/-! ### Sources -/

/-- The connector kinds. -/
inductive SourceKind
  | gitLab
  | localGit
  | jira
  | confluence
  | gitHub
  | outlook
  deriving DecidableEq, Repr

def SourceKind.displayLabel : SourceKind → Text
  | .gitLab => "GitLab".toList
  | .localGit => "Local git".toList
  | .jira => "Jira".toList
  | .confluence => "Confluence".toList
  | .gitHub => "GitHub".toList
  | .outlook => "Outlook".toList

def SourceKind.displayEmoji : SourceKind → Text
  | .gitLab => "🦊".toList
  | .localGit => "💻".toList
  | .jira => "📋".toList
  | .confluence => "📄".toList
  | .gitHub => "🐙".toList
  | .outlook => "📅".toList

def SourceKind.displayWithEmoji (k : SourceKind) : Text :=
  k.displayEmoji ++ ' ' :: k.displayLabel

def SourceKind.renderOrder : List SourceKind :=
  [.localGit, .gitHub, .gitLab, .jira, .confluence, .outlook]

/-- Every kind has a place in the render order. -/
theorem SourceKind.mem_renderOrder (k : SourceKind) : k ∈ renderOrder := by
  cases k <;> decide

/-! ### Report drafts -/

structure RenderedBullet where
  id : Text
  text : Text
  sourceKind : Option SourceKind
  deriving DecidableEq, Repr

structure RenderedSection where
  id : Text
  title : Text
  bullets : List RenderedBullet
  deriving DecidableEq, Repr

/-- The edge from a bullet back to the events behind it. -/
structure Evidence where
  bulletId : Text
  eventIds : List Uuid
  reason : Text
  deriving DecidableEq, Repr

/-- A rendered report for one date.  `generatedAt` is in nanoseconds since the
epoch. -/
structure ReportDraft where
  id : Uuid
  date : NaiveDate
  templateId : Text
  templateVersion : Text
  sections : List RenderedSection
  evidence : List Evidence
  verboseMode : Bool
  generatedAt : ℤ
  deriving DecidableEq, Repr

end Dayseam
