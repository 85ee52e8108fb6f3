import Dayseam.Core.Time
import Dayseam.Db.ActivityRepo
import Dayseam.Lib.Rfc3339
import Mathlib

/-!
# Timestamps in the database

Every timestamp is bound as its RFC 3339 text, and the statements compare the column
with other texts.  The drafts, the log and the raw payloads are pruned by such a
comparison, and the events of a date are those between two midnights.  The midnights are
written with a format of their own, and the one after 9999-12-31 has a year of five
digits, whose sign sorts before every stored text.

## Main definitions

* `TextTable` — records of a table, with the texts of their timestamps.
* `DraftRepo.pruneOlderThan`, `LogRepo.pruneOlderThan`, `RawPayloadRepo.pruneOlderThan`.
* `ActivityRepo.listBySourceDate` — the events of a source on a date.
* `TimestampsSort` — texts sort as instants do, and the statements do what that promises.

## Main results

* `TextTable.deleteBefore_spec` — a sweep deletes what is stamped before the cutoff.
* `LogRepo.tail_spec` — the newest entries of the log.
* `ActivityRepo.listsDay_iff` — **the events of a date are listed** unless it is the last
  date that has four digits.
-/

namespace Dayseam

open Calendar (isoText FourDigitYear)
open Rfc3339 (Instant toRfc3339 toRfc3339_lt_iff)

/-! ### Records and their columns -/

/-- A record as it is stored: the column of its timestamp is a text. -/
structure Stamped (ρ : Type) where
  record : ρ
  stamp : Text
  deriving DecidableEq

section TextTable

variable {ρ : Type} {stampOf : ρ → Instant}

def Stamped.of (stampOf : ρ → Instant) (record : ρ) : Stamped ρ :=
  ⟨record, toRfc3339 (stampOf record)⟩

/-- The rows of a table, in the order they were inserted.  Every one was bound from a
record. -/
structure TextTable (ρ : Type) (stampOf : ρ → Instant) where
  rows : List (Stamped ρ)
  bound : ∀ row ∈ rows, row = Stamped.of stampOf row.record

namespace TextTable

variable (t : TextTable ρ stampOf) (cutoff : Instant)

def empty : TextTable ρ stampOf := ⟨[], fun _ h => absurd h List.not_mem_nil⟩

def records : List ρ := t.rows.map (·.record)

/-- Every timestamp has a year of four digits. -/
def FourDigit : Prop := ∀ r ∈ t.records, FourDigitYear (stampOf r).day

/-- `INSERT`. -/
def insert (record : ρ) : TextTable ρ stampOf where
  rows := t.rows ++ [Stamped.of stampOf record]
  bound row hrow := by
    rcases List.mem_append.mp hrow with hrow | hrow
    · exact t.bound row hrow
    · rw [List.mem_singleton.mp hrow]
      rfl

/-- `DELETE … WHERE stamp < ?`, with the number of the rows it deleted. -/
def deleteBefore : TextTable ρ stampOf × ℕ :=
  ({ rows := t.rows.filter fun row => ¬ row.stamp < toRfc3339 cutoff
     bound := fun row hrow => t.bound row (List.mem_filter.mp hrow).1 },
    (t.rows.filter fun row => row.stamp < toRfc3339 cutoff).length)

variable {t cutoff}

theorem rows_eq : t.rows = t.records.map (Stamped.of stampOf) := by
  rw [records, List.map_map]
  exact (List.map_id' _).symm.trans (List.map_congr_left fun row hrow => t.bound row hrow)

/-- The column of a row sorts as the instant of its record. -/
theorem stamp_lt_iff (ht : t.FourDigit) (hc : FourDigitYear cutoff.day) {row : Stamped ρ}
    (hrow : row ∈ t.rows) : row.stamp < toRfc3339 cutoff ↔ stampOf row.record < cutoff := by
  have hstamp : row.stamp = toRfc3339 (stampOf row.record) :=
    congrArg Stamped.stamp (t.bound row hrow)
  rw [hstamp]
  exact toRfc3339_lt_iff (ht _ (List.mem_map_of_mem hrow)) hc

/-- **A sweep deletes what is stamped before the cutoff**, and nothing else. -/
theorem deleteBefore_spec (ht : t.FourDigit) (hc : FourDigitYear cutoff.day) :
    (t.deleteBefore cutoff).1.records = t.records.filter (fun r => ¬ stampOf r < cutoff) ∧
      (t.deleteBefore cutoff).2 = t.records.countP (fun r => stampOf r < cutoff) := by
  constructor
  · rw [records, records, List.filter_map]
    refine congrArg _ (List.filter_congr fun row hrow => ?_)
    exact decide_eq_decide.mpr (not_congr (stamp_lt_iff ht hc hrow))
  · rw [records, List.countP_map, List.countP_eq_length_filter]
    refine congrArg List.length (List.filter_congr fun row hrow => ?_)
    exact decide_eq_decide.mpr (stamp_lt_iff ht hc hrow)

end TextTable

end TextTable

/-- `ORDER BY key`. -/
theorem pairwise_orderBy {α κ : Type} [LinearOrder κ] (key : α → κ) (l : List α) :
    (l.mergeSort fun a b => key a ≤ key b).Pairwise fun a b => key a ≤ key b := by
  refine (List.pairwise_mergeSort (fun a b c hab hbc => ?_) (fun a b => ?_) l).imp
    of_decide_eq_true
  · exact decide_eq_true ((of_decide_eq_true hab).trans (of_decide_eq_true hbc))
  · simpa using le_total (key a) (key b)

/-! ### Drafts, the log and the raw payloads -/

/-- When a draft was rendered. -/
def draftStamp (draft : ReportDraft) : Instant := .ofNanos draft.generatedAt

abbrev DraftRows := TextTable ReportDraft draftStamp

namespace DraftRepo

def insert (t : DraftRows) (draft : ReportDraft) : Except DbError DraftRows :=
  if draft.id ∈ t.records.map (·.id) then .error (.conflict "report_drafts.insert".toList)
  else .ok (t.insert draft)

def pruneOlderThan (t : DraftRows) (cutoff : Instant) : DraftRows × ℕ := t.deleteBefore cutoff

end DraftRepo

inductive LogLevel
  | debug
  | info
  | warn
  | error
  deriving DecidableEq, Repr

structure LogRow where
  ts : Instant
  level : LogLevel
  sourceId : Option Uuid
  message : Text
  context : Option Json

abbrev LogRows := TextTable LogRow LogRow.ts

namespace LogRepo

def append (t : LogRows) (row : LogRow) : LogRows := t.insert row

/-- `WHERE ts >= ? ORDER BY ts DESC LIMIT ?`. -/
def tail (t : LogRows) (since : Instant) (limit : ℕ) : List LogRow :=
  (((t.rows.filter fun row => toRfc3339 since ≤ row.stamp).mergeSort
    fun a b => b.stamp ≤ a.stamp).take limit).map (·.record)

def pruneOlderThan (t : LogRows) (cutoff : Instant) : LogRows × ℕ := t.deleteBefore cutoff

/-- **The newest entries of the log**: the head of all those not before `since`, from the
newest to the oldest. -/
theorem tail_spec {t : LogRows} {since : Instant} (ht : t.FourDigit)
    (hs : FourDigitYear since.day) (limit : ℕ) :
    ∃ all : List LogRow, tail t since limit = all.take limit ∧
      all.Perm (t.records.filter fun row => since ≤ row.ts) ∧
        all.Pairwise fun a b => b.ts ≤ a.ts := by
  set kept := t.rows.filter fun row => toRfc3339 since ≤ row.stamp with hkept
  have hmem : ∀ row ∈ kept, row ∈ t.rows := fun row hrow => (List.mem_filter.mp hrow).1
  have hle : ∀ a ∈ kept, ∀ b ∈ kept, a.stamp ≤ b.stamp → a.record.ts ≤ b.record.ts := by
    intro a ha b hb hab
    have hstamp : a.stamp = toRfc3339 a.record.ts := congrArg Stamped.stamp (t.bound a (hmem a ha))
    rw [hstamp, ← not_lt] at hab
    rw [← not_lt]
    exact fun hlt => hab ((TextTable.stamp_lt_iff ht
      (ht _ (List.mem_map_of_mem (hmem a ha))) (hmem b hb)).mpr hlt)
  refine ⟨(kept.mergeSort fun a b => b.stamp ≤ a.stamp).map (·.record), ?_, ?_, ?_⟩
  · rw [tail, List.map_take]
  · refine ((List.mergeSort_perm kept _).map _).trans (List.Perm.of_eq ?_)
    rw [TextTable.records, List.filter_map]
    refine congrArg _ (List.filter_congr fun row hrow => decide_eq_decide.mpr ?_)
    rw [← not_lt, ← not_lt]
    exact not_congr (TextTable.stamp_lt_iff ht hs hrow)
  · rw [List.pairwise_map]
    -- the descending order is the ascending one of the dual
    refine (pairwise_orderBy (fun row => OrderDual.toDual row.stamp) kept).imp_of_mem
      fun ha hb hab => ?_
    exact hle _ (List.mem_mergeSort.mp hb) _ (List.mem_mergeSort.mp ha) hab

end LogRepo

/-- One stored raw payload. -/
structure RawPayload where
  id : Uuid
  sourceId : Uuid
  endpoint : Text
  fetchedAt : Instant
  payloadJson : Text
  payloadSha256 : Text

abbrev RawPayloadRows := TextTable RawPayload RawPayload.fetchedAt

namespace RawPayloadRepo

def insert (t : RawPayloadRows) (rp : RawPayload) : Except DbError RawPayloadRows :=
  if rp.id ∈ t.records.map (·.id) then .error (.conflict "raw_payloads.insert".toList)
  else .ok (t.insert rp)

def pruneOlderThan (t : RawPayloadRows) (cutoff : Instant) : RawPayloadRows × ℕ :=
  t.deleteBefore cutoff

end RawPayloadRepo

/-! ### The events of a date -/

/-- The last date whose year has four digits, 9999-12-31. -/
def lastDate : NaiveDate := ⟨2932896⟩

example : isoText lastDate.day = "9999-12-31".toList := by decide

/-- The date after a date with a year of four digits has one too, unless there is none. -/
theorem fourDigitYear_succ_iff {date : NaiveDate} (h : FourDigitYear date.day) :
    FourDigitYear (date.day + 1) ↔ date ≠ lastDate := by
  have hlast : (Calendar.civilOfDays 2932896).year = 9999 := by decide
  have hlong : (Calendar.civilOfDays 2932897).year = 10000 := by decide
  unfold FourDigitYear at h ⊢
  constructor
  · rintro ⟨-, hle⟩ rfl
    rw [show lastDate.day + 1 = 2932897 from rfl, hlong] at hle
    omega
  · intro hne
    have hday : date.day ≠ 2932896 := fun hd => hne (NaiveDate.ext hd)
    have hnext := Calendar.civilOfDays_lt (Int.lt_add_one_iff.mpr (le_refl date.day))
    rcases lt_or_gt_of_ne hday with hlt | hgt
    · -- an earlier date: the next one is not after the last
      rcases (by omega : date.day + 1 = 2932896 ∨ date.day + 1 < 2932896) with heq | hlt'
      · rw [heq]
        omega
      · have hle := Calendar.civilOfDays_lt hlt'
        omega
    · rcases (by omega : date.day = 2932897 ∨ 2932897 < date.day) with heq | hgt'
      · rw [heq, hlong] at h
        omega
      · have hle := Calendar.civilOfDays_lt hgt'
        omega

namespace ActivityRepo

def eventStamp (event : ActivityEvent) : Instant := .ofNanos event.occurredAt

/-- `DateTime::parse_from_rfc3339`, with the text of its error. -/
abbrev ParseRfc3339 := Text → Except Text ℤ

variable (parse : ParseRfc3339) (t : ActivityRows) (sourceId : Uuid) (date : NaiveDate)

/-- Read a row back.  The columns other than the timestamp are as they were bound. -/
def rowToEvent (row : Stamped ActivityEvent) : Except DbError ActivityEvent :=
  match parse row.stamp with
  | .ok instant => .ok { row.record with occurredAt := instant }
  | .error message => .error (.invalidData "activity_events.occurred_at".toList message)

/-- The rows from the midnight of the date to the next. -/
def rowsOfDate : List (Stamped ActivityEvent) :=
  let startStr := isoText date.day ++ "T00:00:00+00:00".toList
  let endStr := isoText (date.addDays 1).day ++ "T00:00:00+00:00".toList
  (t.rows.map (Stamped.of eventStamp)).filter fun row =>
    row.record.sourceId = sourceId ∧ startStr ≤ row.stamp ∧ row.stamp < endStr

def listBySourceDate : Except DbError (List ActivityEvent) :=
  ((rowsOfDate t sourceId date).mergeSort fun a b => a.stamp ≤ b.stamp).mapM (rowToEvent parse)

/-- The events of the source whose instants are in the date. -/
def eventsOfDate : List ActivityEvent :=
  t.rows.filter fun e => e.sourceId = sourceId ∧ (eventStamp e).day = date.day

/-- The call returns just the events of the date, in the order of their instants. -/
def ListsDay : Prop :=
  ∃ events : List ActivityEvent, listBySourceDate parse t sourceId date = .ok events ∧
    events.Perm (eventsOfDate t sourceId date) ∧
      events.Pairwise fun a b => a.occurredAt ≤ b.occurredAt

variable {parse t sourceId date}

/-- What was bound is read back. -/
def ReadsBack (parse : ParseRfc3339) (t : ActivityRows) : Prop :=
  ∀ e ∈ t.rows, parse (toRfc3339 (eventStamp e)) = .ok e.occurredAt

def FourDigit (t : ActivityRows) : Prop := ∀ e ∈ t.rows, FourDigitYear (eventStamp e).day

/-- Read rows back that were bound. -/
theorem mapM_rowToEvent (hparse : ReadsBack parse t) {rows : List (Stamped ActivityEvent)}
    (hrows : ∀ row ∈ rows, ∃ e ∈ t.rows, row = Stamped.of eventStamp e) :
    rows.mapM (rowToEvent parse) = .ok (rows.map (·.record)) := by
  induction rows with
  | nil => rfl
  | cons row rows ih =>
    obtain ⟨e, he, rfl⟩ := hrows row List.mem_cons_self
    have hrow : rowToEvent parse (Stamped.of eventStamp e) = .ok e := by
      simp only [rowToEvent, Stamped.of, hparse e he]
    rw [List.mapM_cons, hrow, ih fun r hr => hrows r (List.mem_cons_of_mem _ hr)]
    rfl

theorem mem_rowsOfDate {row : Stamped ActivityEvent} (h : row ∈ rowsOfDate t sourceId date) :
    ∃ e ∈ t.rows, row = Stamped.of eventStamp e := by
  obtain ⟨e, he, heq⟩ := List.mem_map.mp (List.mem_filter.mp h).1
  exact ⟨e, he, heq.symm⟩

/-- **The rows between two midnights** of four-digit years are those of the date. -/
theorem map_record_rowsOfDate (ht : FourDigit t) (hd : FourDigitYear date.day)
    (hnext : FourDigitYear (date.day + 1)) :
    (rowsOfDate t sourceId date).map (·.record) = eventsOfDate t sourceId date := by
  simp only [rowsOfDate, eventsOfDate, List.filter_map, List.map_map, NaiveDate.day_addDays]
  refine (List.map_id' _).trans (List.filter_congr fun e he => decide_eq_decide.mpr ?_)
  rw [Instant.day_eq_iff, ← Rfc3339.toRfc3339_midnight, ← Rfc3339.toRfc3339_midnight]
  refine and_congr_right fun _ => and_congr ?_ (toRfc3339_lt_iff (ht e he) hnext)
  rw [← not_lt, ← not_lt]
  exact not_congr (toRfc3339_lt_iff (ht e he) hd)

/-- No text is between the last midnight and the one with a sign. -/
theorem rowsOfDate_lastDate : rowsOfDate t sourceId lastDate = [] := by
  rw [rowsOfDate, List.filter_eq_nil_iff]
  intro row _ hrow
  obtain ⟨-, hstart, hend⟩ := of_decide_eq_true hrow
  have hlong : 9999 < (Calendar.civilOfDays (lastDate.addDays 1).day).year := by decide
  have hdate : FourDigitYear lastDate.day := by decide
  exact absurd (hstart.trans_lt hend) (lt_asymm (Rfc3339.isoText_lt_of_long hlong hdate _ _))

theorem listsDay_of_ne (hparse : ReadsBack parse t) (ht : FourDigit t)
    (hd : FourDigitYear date.day) (hne : date ≠ lastDate) : ListsDay parse t sourceId date := by
  set sorted := (rowsOfDate t sourceId date).mergeSort fun a b => a.stamp ≤ b.stamp with hsorted
  have hmem : ∀ row ∈ sorted, ∃ e ∈ t.rows, row = Stamped.of eventStamp e :=
    fun row hrow => mem_rowsOfDate (List.mem_mergeSort.mp hrow)
  refine ⟨sorted.map Stamped.record, mapM_rowToEvent hparse hmem, ?_, ?_⟩
  · rw [← map_record_rowsOfDate ht hd ((fourDigitYear_succ_iff hd).mpr hne)]
    exact (List.mergeSort_perm _ _).map _
  · rw [List.pairwise_map]
    refine (pairwise_orderBy Stamped.stamp _).imp_of_mem fun {a b} ha hb hab => ?_
    obtain ⟨e, he, rfl⟩ := hmem a ha
    obtain ⟨e', he', rfl⟩ := hmem b hb
    rw [Stamped.of, Stamped.of, ← not_lt, toRfc3339_lt_iff (ht e' he') (ht e he), eventStamp,
      eventStamp, Instant.ofNanos_lt_iff, not_lt] at hab
    exact hab

/-- **The events of a date are listed**, unless the date is the last one of four digits and
has any. -/
theorem listsDay_iff (hparse : ReadsBack parse t) (ht : FourDigit t)
    (hd : FourDigitYear date.day) :
    ListsDay parse t sourceId date ↔ date ≠ lastDate ∨ eventsOfDate t sourceId date = [] := by
  by_cases hne : date = lastDate
  · subst hne
    have hnone : listBySourceDate parse t sourceId lastDate = .ok [] := by
      rw [listBySourceDate, rowsOfDate_lastDate, List.mergeSort_nil]
      rfl
    constructor
    · rintro ⟨events, hok, hperm, -⟩
      rw [hnone, Except.ok.injEq] at hok
      subst hok
      exact Or.inr (List.nil_perm.mp hperm)
    · rintro (h | h)
      · exact absurd rfl h
      · exact ⟨[], hnone, by rw [h], List.Pairwise.nil⟩
  · exact iff_of_true (listsDay_of_ne hparse ht hd hne) (Or.inl hne)

end ActivityRepo

/-! ### Texts and instants -/

/-- A sweep leaves the records that are not stamped before the cutoff, and counts the
others. -/
def PrunesBefore {ρ : Type} (stampOf : ρ → Instant) (cutoff : Instant)
    (t : TextTable ρ stampOf) (swept : TextTable ρ stampOf × ℕ) : Prop :=
  swept.1.records = t.records.filter (fun r => ¬ stampOf r < cutoff) ∧
    swept.2 = t.records.countP fun r => stampOf r < cutoff

/-- Texts sort as the instants that they name, the events of a date are listed, and the
sweeps delete what is stamped before their cutoff. -/
structure TimestampsSort (parse : ActivityRepo.ParseRfc3339) (t : ActivityRows)
    (drafts : DraftRows) (logs : LogRows) (payloads : RawPayloadRows) (sourceId : Uuid)
    (date : NaiveDate) (cutoff : Instant) : Prop where
  sorts : ∀ a b : Instant, FourDigitYear a.day → FourDigitYear b.day →
    (toRfc3339 a < toRfc3339 b ↔ a < b)
  lists : ActivityRepo.ListsDay parse t sourceId date
  drafts : PrunesBefore draftStamp cutoff drafts (DraftRepo.pruneOlderThan drafts cutoff)
  logs : PrunesBefore LogRow.ts cutoff logs (LogRepo.pruneOlderThan logs cutoff)
  payloads : PrunesBefore RawPayload.fetchedAt cutoff payloads
    (RawPayloadRepo.pruneOlderThan payloads cutoff)

/-- Every timestamp and every bound has a year of four digits. -/
structure AllFourDigit (t : ActivityRows) (drafts : DraftRows) (logs : LogRows)
    (payloads : RawPayloadRows) (date : NaiveDate) (cutoff : Instant) : Prop where
  events : ActivityRepo.FourDigit t
  drafts : drafts.FourDigit
  logs : logs.FourDigit
  payloads : payloads.FourDigit
  date : FourDigitYear date.day
  cutoff : FourDigitYear cutoff.day

/-- A commit at some second. -/
def timedCommit (seconds : ℤ) : ActivityEvent where
  id := 3
  sourceId := 1
  externalId := "deadbeef".toList
  kind := .commitAuthored
  occurredAt := seconds * 1000000000
  actor := ⟨"Me".toList, none, none⟩
  title := "feat: add payments".toList
  body := none
  links := []
  entities := []
  parentExternalId := none
  metadata := .object []
  privacy := .normal

def timedRows (seconds : ℤ) : ActivityRows :=
  ⟨[timedCommit seconds], List.pairwise_singleton _ _, List.nodup_singleton _⟩

/-- What `parse_from_rfc3339` says about the two texts. -/
def timedParse : ActivityRepo.ParseRfc3339 := fun text =>
  if text = "2026-04-20T10:15:00+00:00".toList then .ok 1776680100000000000
  else if text = "9999-12-31T10:15:00+00:00".toList then .ok 253402251300000000000
  else .error "input contains invalid characters".toList

theorem timed_readsBack : ActivityRepo.ReadsBack timedParse (timedRows 1776680100) := by
  intro e he
  rw [List.mem_singleton.mp he]
  decide

theorem timed_fourDigit : AllFourDigit (timedRows 1776680100) TextTable.empty TextTable.empty
    TextTable.empty ⟨20563⟩ (.midnight 20563) where
  events e he := by
    rw [List.mem_singleton.mp he]
    decide
  drafts _ h := absurd h List.not_mem_nil
  logs _ h := absurd h List.not_mem_nil
  payloads _ h := absurd h List.not_mem_nil
  date := by decide
  cutoff := by decide

end Dayseam
