import Dayseam.Core.Ids
import Dayseam.Report.Render
import Dayseam.Report.RollupKept
import Mathlib

/-!
# The keys of bullets

The id of a bullet is the digest of a key.  No two bullets of a draft have one key:
a key names the section, the artifact or the source, and the events.

## Main definitions

* `evidenceIds` — the event ids of the edges of a group.
* `hashedKeys` — everything that a draft's bullet ids are digests of.

## Main results

* `bulletKey_inj`, `zeroTerminated_inj` — a key has one reading.
* `hashedKeys_nodup` — **no two bullets hash the same key.**
-/

namespace Dayseam
namespace Report

open KeyedMerge

/-! ### Keys -/

/-- The event ids of the evidence edges of a group: one edge for all events of a
merge request or a meeting, one for each event of anything else. -/
def evidenceIds (group : RolledUpArtifact) : List (List Uuid) :=
  match group.artifact.payload with
  | .mergeRequest .. | .meeting .. => [group.events.map (·.id)]
  | _ => group.events.map fun e => [e.id]

/-- The keys that the bullet ids of a group are the digests of. -/
def groupKeys (templateId : Text) (group : RolledUpArtifact) : List (List UInt8) :=
  (evidenceIds group).map (bulletKey templateId (ReportSection.ofGroup group).id group.artifact.id)

def syncIssueKeys (input : ReportInput) : List (List UInt8) :=
  (failures input).map fun f => syncIssueKey input.templateId f.2.1 f.2.2.code

/-- Everything that the bullet ids of a draft are the digests of. -/
def hashedKeys (crates : RenderCrates) (input : ReportInput) : List (List UInt8) :=
  syncIssueKeys input ++ ((inputGroups crates input).flatMap (groupKeys input.templateId) ++
    [emptyStateKey crates input.date,
      meetingsSummaryKey input.templateId (sumMeetingMinutes (inputGroups crates input))])

/-! ### Digests -/

theorem flatMap_hexDigits_injective {bs cs : List UInt8}
    (h : (bs.flatMap fun b => hexDigits b.toNat 2) = cs.flatMap fun b => hexDigits b.toNat 2) :
    bs = cs := by
  induction bs generalizing cs with
  | nil =>
    cases cs with
    | nil => rfl
    | cons c cs =>
      have hlen := congrArg List.length h
      simp at hlen
      omega
  | cons b bs ih =>
    cases cs with
    | nil =>
      have hlen := congrArg List.length h
      simp at hlen
    | cons c cs =>
      rw [List.flatMap_cons, List.flatMap_cons] at h
      obtain ⟨hbyte, hrest⟩ := List.append_inj h (by simp)
      have hmod := mod_eq_of_hexDigits_eq hbyte
      have hb := b.toNat_lt
      have hc := c.toNat_lt
      rw [ih hrest, UInt8.toNat_inj.mp (show b.toNat = c.toNat by omega)]

/-- Two keys with one short digest have one truncated digest. -/
theorem take_eq_of_shortDigest_eq {crates : RenderCrates} {k k' : List UInt8}
    (h : shortDigest crates k = shortDigest crates k') :
    (crates.sha256 k).take 8 = (crates.sha256 k').take 8 :=
  flatMap_hexDigits_injective (List.append_cancel_left h)

/-- The parts of two equal keys. -/
theorem zeroTerminated_inj {t s m s' m' : Text} {r r' : List UInt8}
    (hs : Char.ofNat 0 ∉ s) (hs' : Char.ofNat 0 ∉ s') (hm : Char.ofNat 0 ∉ m)
    (hm' : Char.ofNat 0 ∉ m') (h : zeroTerminated [t, s, m] ++ r = zeroTerminated [t, s', m'] ++ r') :
    s = s' ∧ m = m' ∧ r = r' := by
  simp only [zeroTerminated, List.flatMap_cons, List.flatMap_nil, List.append_nil,
    List.append_assoc] at h
  have h := List.append_cancel_left (List.append_cancel_left h)
  rw [← List.append_assoc, ← List.append_assoc (utf8 s')] at h
  obtain ⟨hss, h⟩ := utf8_zero_inj hs hs' h
  rw [← List.append_assoc, ← List.append_assoc (utf8 m')] at h
  exact ⟨hss, utf8_zero_inj hm hm' h⟩

/-- A text without a zero character. -/
theorem zero_notMem_display (u : Uuid) : Char.ofNat 0 ∉ u.display := fun h =>
  absurd (isUuidChar_of_mem_display h) (by decide)

theorem zero_notMem_sectionId (s : ReportSection) : Char.ofNat 0 ∉ s.id := by
  cases s <;> decide

theorem ReportSection.id_injective : Function.Injective ReportSection.id := by
  intro s s' h
  cases s <;> cases s' <;> first | rfl | exact absurd h (by decide)

theorem ReportSection.id_ne_syncIssues (s : ReportSection) : s.id ≠ SYNC_ISSUES := by
  cases s <;> decide

theorem bulletKey_inj {t : Text} {s s' : ReportSection} {a a' : Uuid} {ids ids' : List Uuid}
    (h : bulletKey t s.id a ids = bulletKey t s'.id a' ids') : s = s' ∧ a = a' ∧ ids.Perm ids' := by
  obtain ⟨hs, ha, hids⟩ := zeroTerminated_inj (zero_notMem_sectionId s) (zero_notMem_sectionId s')
    (zero_notMem_display a) (zero_notMem_display a') h
  refine ⟨ReportSection.id_injective hs, Uuid.display_injective ha, ?_⟩
  have hsorted := flatMap_bytes_injective hids
  calc ids.Perm (ids.mergeSort _) := (List.mergeSort_perm ids _).symm
    _ = ids'.mergeSort _ := hsorted
    _ |>.Perm ids' := List.mergeSort_perm ids' _

/-! ### The keys of the groups -/

/-- A merge request and a meeting have one bullet, whatever their events are. -/
def hasOneBullet (artifact : Artifact) : Bool :=
  match artifact.payload with
  | .mergeRequest .. | .meeting .. => true
  | _ => false

theorem isCommitSet_of_hasOneBullet {a : Artifact} (h : hasOneBullet a = true) :
    isCommitSet a = false := by
  unfold hasOneBullet at h
  unfold isCommitSet commitSetKey
  split at h <;> simp_all

/-- What is not a commit set is kept apart by its id alone. -/
theorem slot_of_other {a : Artifact} (h : isCommitSet a = false) :
    slot a = (PathBuf.components ⟨"__non_commit_set__::".toList ++ a.id.display⟩, ⟨0⟩) := by
  have hk : commitSetKey a = none := by simpa [isCommitSet] using h
  rw [slot, mergeKey, hk, Option.getD_none]

variable {crates : RenderCrates} {input : ReportInput} {g g' : RolledUpArtifact} {ids : List Uuid}
  {groups : List RolledUpArtifact} {t : Text}

/-- The ids on an edge are those of events of the group. -/
theorem of_mem_evidenceIds (h : ids ∈ evidenceIds g) : ∀ i ∈ ids, i ∈ g.events.map (·.id) := by
  unfold evidenceIds at h
  split at h
  · rw [List.mem_singleton.mp h]
    exact fun i hi => hi
  · rw [List.mem_singleton.mp h]
    exact fun i hi => hi
  · obtain ⟨e, he, rfl⟩ := List.mem_map.mp h
    intro i hi
    rw [List.mem_singleton.mp hi]
    exact List.mem_map_of_mem he

/-- Only a merge request or a meeting without events has an edge without ids. -/
theorem nil_mem_evidenceIds_iff :
    [] ∈ evidenceIds g ↔ hasOneBullet g.artifact = true ∧ g.events = [] := by
  have hone : [] ∈ [g.events.map (·.id)] ↔ g.events = [] := by
    rw [List.mem_singleton, eq_comm, List.map_eq_nil_iff]
  unfold evidenceIds hasOneBullet
  split
  · rw [hone]
    simp [*]
  · rw [hone]
    simp [*]
  · simp

/-- The keys of one group are distinct. -/
theorem groupKeys_nodup (hn : (g.events.map (·.id)).Nodup) : (groupKeys t g).Nodup := by
  have hmany : ((g.events.map fun e => [e.id]).map (bulletKey t (ReportSection.ofGroup g).id
      g.artifact.id)).Nodup := by
    rw [List.map_map]
    refine List.Nodup.of_map (f := fun k => k) ?_
    rw [List.map_id', List.Nodup, List.pairwise_map]
    refine (List.pairwise_map.mp hn).imp ?_
    intro e f hne hk
    exact hne (List.singleton_perm_singleton.mp (bulletKey_inj hk).2.2)
  unfold groupKeys evidenceIds
  split
  · exact List.nodup_singleton _
  · exact List.nodup_singleton _
  · exact hmany

/-- Two groups of different slots without a common event have no common key. -/
theorem groupKeys_disjoint (hs : groupSlot g ≠ groupSlot g')
    (hd : List.Disjoint (g.events.map (·.id)) (g'.events.map (·.id))) :
    List.Disjoint (groupKeys t g) (groupKeys t g') := by
  intro k hk hk'
  obtain ⟨ids, hids, rfl⟩ := List.mem_map.mp hk
  obtain ⟨ids', hids', heq⟩ := List.mem_map.mp hk'
  obtain ⟨-, hart, hperm⟩ := bulletKey_inj heq
  cases ids with
  | nil =>
    -- without events both are told apart by their ids alone
    rw [List.perm_nil.mp hperm] at hids'
    have h := isCommitSet_of_hasOneBullet (nil_mem_evidenceIds_iff.mp hids).1
    have h' := isCommitSet_of_hasOneBullet (nil_mem_evidenceIds_iff.mp hids').1
    apply hs
    rw [groupSlot, groupSlot, slot_of_other h, slot_of_other h', hart]
  | cons i is =>
    exact hd (of_mem_evidenceIds hids i List.mem_cons_self)
      (of_mem_evidenceIds hids' i (hperm.mem_iff.mpr List.mem_cons_self))

theorem groupsKeys_nodup (hd : Distinct groupSlot groups)
    (hn : ((groups.flatMap (·.events)).map (·.id)).Nodup) :
    (groups.flatMap (groupKeys t)).Nodup := by
  rw [List.map_flatMap] at hn
  obtain ⟨heach, hpair⟩ := List.nodup_flatMap.mp hn
  refine List.nodup_flatMap.mpr ⟨fun g hg => groupKeys_nodup (heach g hg), ?_⟩
  refine (hd.and hpair).imp ?_
  intro g g' h
  exact groupKeys_disjoint h.1 h.2

/-! ### All keys -/

theorem filterEventsBySelf_nodup (h : (input.events.map (·.id)).Nodup) :
    ((filterEventsBySelf input).map (·.id)).Nodup :=
  h.sublist (List.filter_sublist.map _)

theorem inputGroups_perm (crates : RenderCrates) (input : ReportInput) :
    (inputGroups crates input).Perm (mergeDuplicateCommitSets (groupsOf crates.toCrates
      (filterEventsBySelf input) input.artifacts input.date)) :=
  sortGroups_perm _

/-- The groups of a report have slots of their own. -/
theorem distinct_inputGroups (crates : RenderCrates) (input : ReportInput) :
    Distinct groupSlot (inputGroups crates input) := by
  rw [distinct_iff_nodup_map, ((inputGroups_perm crates input).map groupSlot).nodup_iff,
    ← distinct_iff_nodup_map]
  exact distinct_merged _

/-- The events of the groups are events of the person. -/
theorem inputGroups_subperm (crates : RenderCrates) (h : (input.events.map (·.id)).Nodup) :
    ((inputGroups crates input).flatMap (·.events)).Subperm (filterEventsBySelf input) :=
  ((inputGroups_perm crates input).flatMap_right _).subperm.trans
    (layout (filterEventsBySelf_nodup h)).merged_subperm

theorem inputGroups_nodup (crates : RenderCrates) (h : (input.events.map (·.id)).Nodup) :
    (((inputGroups crates input).flatMap (·.events)).map (·.id)).Nodup := by
  obtain ⟨l, hperm, hsub⟩ := inputGroups_subperm crates h
  exact (hperm.map _).nodup_iff.mp ((filterEventsBySelf_nodup h).sublist (hsub.map _))

/-- A source has one failure at most. -/
theorem failures_nodup (input : ReportInput) : ((failures input).map (·.2.1)).Nodup := by
  unfold failures
  rw [((List.mergeSort_perm _ _).map _).nodup_iff, List.Nodup, List.pairwise_map,
    List.pairwise_filterMap]
  refine (List.pairwise_map.mp input.perSourceState_nodup).imp ?_
  intro entry entry' hne f hf f' hf'
  obtain ⟨err, -, rfl⟩ := Option.map_eq_some_iff.mp hf
  obtain ⟨err', -, rfl⟩ := Option.map_eq_some_iff.mp hf'
  exact hne

theorem zero_notMem_syncIssues : Char.ofNat 0 ∉ SYNC_ISSUES := by decide

theorem syncIssueKeys_nodup (input : ReportInput) : (syncIssueKeys input).Nodup := by
  refine List.pairwise_map.mpr ((List.pairwise_map.mp (failures_nodup input)).imp ?_)
  intro f f' hne hk
  apply hne
  exact Uuid.display_injective (zeroTerminated_inj zero_notMem_syncIssues zero_notMem_syncIssues
    (zero_notMem_display _) (zero_notMem_display _) hk).2.1

/-- **No two bullets hash the same key.** -/
theorem hashedKeys_nodup (crates : RenderCrates) (h : (input.events.map (·.id)).Nodup)
    (ht : input.templateId = DEV_EOD_TEMPLATE_ID) : (hashedKeys crates input).Nodup := by
  have hgroups : ((inputGroups crates input).flatMap (groupKeys input.templateId)).Nodup :=
    groupsKeys_nodup (distinct_inputGroups crates input) (inputGroups_nodup crates h)
  -- the third part of a group's key is an identifier, unlike that of the others
  have hempty : ∀ u, "empty".toList ≠ Uuid.display u := fun u hu =>
    absurd (hu ▸ isUuidChar_of_mem_display (u := u) (c := 'm')) (by decide)
  have hsummary : ∀ u, "meetings_summary".toList ≠ Uuid.display u := fun u hu =>
    absurd (hu ▸ isUuidChar_of_mem_display (u := u) (c := 'm')) (by decide)
  have hz : Char.ofNat 0 ∉ "empty".toList := by decide
  have hz' : Char.ofNat 0 ∉ "meetings_summary".toList := by decide
  have htail : ∀ k ∈ [emptyStateKey crates input.date, meetingsSummaryKey input.templateId
      (sumMeetingMinutes (inputGroups crates input))], ∀ s u r,
      zeroTerminated [input.templateId, s, Uuid.display u] ++ r ≠ k ∨ Char.ofNat 0 ∈ s := by
    intro k hk s u r
    by_contra hc
    obtain ⟨heq, hs⟩ := not_or.mp hc
    rw [not_not] at heq
    rcases List.mem_cons.mp hk with rfl | hk
    · unfold emptyStateKey at heq
      rw [← ht] at heq
      exact hempty u (zeroTerminated_inj hs (zero_notMem_sectionId _) (zero_notMem_display u) hz
        heq).2.1.symm
    · rw [List.mem_singleton.mp hk] at heq
      exact hsummary u (zeroTerminated_inj hs (zero_notMem_sectionId _) (zero_notMem_display u) hz'
        heq).2.1.symm
  refine List.nodup_append'.mpr ⟨syncIssueKeys_nodup input, List.nodup_append'.mpr
    ⟨hgroups, ?_, ?_⟩, ?_⟩
  · refine List.nodup_cons.mpr ⟨?_, List.nodup_singleton _⟩
    rw [List.mem_singleton]
    intro heq
    unfold emptyStateKey at heq
    rw [← ht] at heq
    exact absurd (zeroTerminated_inj (zero_notMem_sectionId _) (zero_notMem_sectionId _) hz hz'
      heq).1 (by decide)
  · intro k hk hk'
    obtain ⟨g, -, hk⟩ := List.mem_flatMap.mp hk
    obtain ⟨ids, -, rfl⟩ := List.mem_map.mp hk
    exact (htail _ hk' _ _ _).elim (fun hne => hne rfl) (zero_notMem_sectionId _)
  · intro k hk hk'
    obtain ⟨f, -, rfl⟩ := List.mem_map.mp hk
    rcases List.mem_append.mp hk' with hk' | hk'
    · obtain ⟨g, -, hk'⟩ := List.mem_flatMap.mp hk'
      obtain ⟨ids, -, heq⟩ := List.mem_map.mp hk'
      exact ReportSection.id_ne_syncIssues _ (zeroTerminated_inj (zero_notMem_sectionId _)
        zero_notMem_syncIssues (zero_notMem_display _) (zero_notMem_display _) heq).1
    · exact (htail _ hk' _ _ _).elim (fun hne => hne rfl) zero_notMem_syncIssues

end Report
end Dayseam
