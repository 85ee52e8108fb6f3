import Dayseam.Lib.StableSort
import Dayseam.Report.DedupOrder
import Dayseam.Report.Pipeline
import Dayseam.Report.RollupGroups
import Dayseam.Report.RollupMerge
import Mathlib

/-!
# The rollup of results in any order

The events and the artifacts of the sources come in the order in which the sources
come to their ends.  With distinct ids, the order of the events is lost in the
rollup; that of the artifacts is, where the artifacts of different sources claim
different events and stand for different days and repositories.

## Main definitions

* `SetsApart` — the artifacts of different sources do not meet.
* `groupKey` — the key by which groups are sorted.

## Main results

* `pipeline_perm` — the passes before the rollup, in any order.
* `rollUp_perm` — **the rollup of results in any order.**
-/

namespace Dayseam
namespace Report

open KeyedMerge StableSort

variable {crates : Crates} {events events' index : List ActivityEvent}
  {artifacts : List Artifact} {ids : List Uuid} {date : NaiveDate} {g h : RolledUpArtifact}

/-! ### The passes before the rollup -/

theorem id_addEntities (kind : EntityKind) (refs : List (Text × Option Text)) (e : ActivityEvent) :
    (addEntities kind refs e).id = e.id := by
  obtain ⟨extra, -, heq⟩ := addEntities_eq kind refs e
  rw [heq]

theorem id_extractTicketKeysOf (e : ActivityEvent) : (extractTicketKeysOf e).id = e.id := by
  obtain ⟨extra, -, heq⟩ := extractTicketKeysOf_eq e
  rw [heq]

theorem id_extractGithubPrUrlsOf (e : ActivityEvent) : (extractGithubPrUrlsOf e).id = e.id := by
  unfold extractGithubPrUrlsOf
  split_ifs
  · exact id_addEntities _ _ e
  · rfl

theorem id_annotateTransitionOf (events : List ActivityEvent) (e : ActivityEvent) :
    (annotateTransitionOf events e).id = e.id := by
  unfold annotateTransitionOf
  split_ifs
  · split <;> rfl
  · rfl

theorem id_rolledIntoMrOf (mrs : List MergeRequestArtifact) (e : ActivityEvent) :
    (rolledIntoMrOf mrs e).id = e.id := by
  unfold rolledIntoMrOf
  split_ifs
  · split <;> rfl
  · rfl

/-- The passes keep the ids. -/
theorem map_id_pipeline (events : List ActivityEvent) (mrs : List MergeRequestArtifact) :
    (pipeline events mrs).map (·.id) = (dedupCommitAuthored events).map (·.id) := by
  unfold pipeline annotateRolledIntoMr annotateTransitionWithMr extractGithubPrUrls
    extractTicketKeys
  simp only [List.map_map]
  refine List.map_congr_left fun e _ => ?_
  rw [Function.comp_apply, Function.comp_apply, Function.comp_apply, Function.comp_apply,
    id_rolledIntoMrOf, id_annotateTransitionOf, id_extractGithubPrUrlsOf, id_extractTicketKeysOf]

/-- With distinct ids, the merge request before a status change does not depend on the
order of the events. -/
theorem triggerOf_perm (h : events.Perm events') (hn : (events.map (·.id)).Nodup)
    (transition : ActivityEvent) (issueKey : Text) :
    triggerOf events transition issueKey = triggerOf events' transition issueKey := by
  have hcandidates : (issueCandidates events issueKey).Perm (issueCandidates events' issueKey) :=
    (h.filter _).flatMap_right _
  -- candidates with one id are of one event
  have heq : ∀ c ∈ issueCandidates events issueKey, ∀ d ∈ issueCandidates events issueKey,
      c.id = d.id → c = d := by
    intro c hc d hd hid
    obtain ⟨e, he, hc⟩ := List.mem_flatMap.mp hc
    obtain ⟨f, hf, hd⟩ := List.mem_flatMap.mp hd
    obtain ⟨-, -, rfl⟩ := List.mem_map.mp hc
    obtain ⟨-, -, rfl⟩ := List.mem_map.mp hd
    obtain rfl := List.inj_on_of_nodup_map hn (List.mem_of_mem_filter he)
      (List.mem_of_mem_filter hf) hid
    rfl
  refine congrArg List.head? (sortBy_eq_of_perm
    (fun c : MrCandidate => (toLex (c.occurredAt, c.id) : ℤ ×ₗ Uuid))
    (hcandidates.filter _) fun c hc d hd hkey => ?_)
  exact heq c (List.mem_of_mem_filter hc) d (List.mem_of_mem_filter hd)
    (Prod.mk.inj (toLex_inj.mp hkey)).2

theorem annotateTransitionOf_perm (h : events.Perm events') (hn : (events.map (·.id)).Nodup) :
    annotateTransitionOf events = annotateTransitionOf events' := by
  funext e
  unfold annotateTransitionOf
  simp only [triggerOf_perm h hn]

theorem annotateTransitionWithMr_perm (h : events.Perm events')
    (hn : (events.map (·.id)).Nodup) :
    (annotateTransitionWithMr events).Perm (annotateTransitionWithMr events') := by
  unfold annotateTransitionWithMr
  rw [annotateTransitionOf_perm h hn]
  exact h.map _

/-- **The passes before the rollup, in any order.** -/
theorem pipeline_perm (h : (dedupCommitAuthored events).Perm (dedupCommitAuthored events'))
    (hn : (events.map (·.id)).Nodup) (mrs : List MergeRequestArtifact) :
    (pipeline events mrs).Perm (pipeline events' mrs) := by
  have hids : ((extractGithubPrUrls (extractTicketKeys (dedupCommitAuthored events))).map
      (·.id)).Nodup := by
    have heq : (extractGithubPrUrls (extractTicketKeys (dedupCommitAuthored events))).map (·.id) =
        (dedupCommitAuthored events).map (·.id) := by
      unfold extractGithubPrUrls extractTicketKeys
      rw [List.map_map, List.map_map]
      refine List.map_congr_left fun e _ => ?_
      rw [Function.comp_apply, Function.comp_apply, id_extractGithubPrUrlsOf,
        id_extractTicketKeysOf]
    rw [heq]
    exact nodup_ids_dedup hn
  exact (annotateTransitionWithMr_perm ((h.map _).map _) hids).map _

/-! ### What each source's artifacts claim -/

/-- What an artifact takes does not change with events that it does not claim. -/
theorem claimEvents_filter {p : ActivityEvent → Bool}
    (h : ∀ e ∈ index, e.id ∈ ids → p e = true) :
    (claimEvents ids (index.filter p)).1 = (claimEvents ids index).1 := by
  induction ids generalizing index with
  | nil => rfl
  | cons id ids ih =>
    have hfind : (index.filter p).find? (·.id = id) = index.find? (·.id = id) := by
      rw [← List.head?_filter, ← List.head?_filter, List.filter_filter]
      refine congrArg List.head? (List.filter_congr fun e he => ?_)
      by_cases hid : e.id = id
      · simp [hid, h e he (hid ▸ List.mem_cons_self)]
      · simp [hid]
    have hrest : ∀ e ∈ index, e.id ∈ ids → p e = true := fun e he hid =>
      h e he (List.mem_cons_of_mem _ hid)
    cases hf : index.find? (·.id = id) with
    | none =>
      rw [hf] at hfind
      simp only [claimEvents, hfind, hf]
      exact ih hrest
    | some found =>
      rw [hf] at hfind
      have hswap : (index.filter p).filter (·.id ≠ id) = (index.filter (·.id ≠ id)).filter p := by
        rw [List.filter_filter, List.filter_filter]
        exact List.filter_congr fun e _ => Bool.and_comm _ _
      simp only [claimEvents, hfind, hf]
      rw [hswap, ih fun e he => hrest e (List.mem_of_mem_filter he)]

theorem claimGroups_filter {p : ActivityEvent → Bool}
    (h : ∀ e ∈ index, ∀ a ∈ artifacts, claims a e = true → p e = true) :
    (claimGroups artifacts (index.filter p)).1 = (claimGroups artifacts index).1 := by
  induction artifacts generalizing index with
  | nil => rfl
  | cons a artifacts ih =>
    have hswap : (claimEvents a.payload.eventIds (index.filter p)).2 =
        (claimEvents a.payload.eventIds index).2.filter p := by
      rw [claimEvents_left, claimEvents_left, List.filter_filter, List.filter_filter]
      exact List.filter_congr fun e _ => Bool.and_comm _ _
    rw [claimGroups_cons, claimGroups_cons, claimEvents_filter fun e he hid =>
      h e he a List.mem_cons_self (decide_eq_true hid), hswap, ih]
    intro e he b hb
    rw [claimEvents_left] at he
    exact h e (List.mem_of_mem_filter he) b (List.mem_cons_of_mem _ hb)

/-- **Artifacts that claim different events** take them apart from each other. -/
theorem claimGroups_flatten {blocks : List (List Artifact)}
    (h : blocks.Pairwise fun as bs => ∀ a ∈ as, ∀ b ∈ bs, ∀ e ∈ index,
      ¬(claims a e = true ∧ claims b e = true)) :
    (claimGroups blocks.flatten index).1 =
      (blocks.map fun artifacts => (claimGroups artifacts index).1).flatten := by
  induction blocks generalizing index with
  | nil => rfl
  | cons as blocks ih =>
    obtain ⟨has, h⟩ := List.pairwise_cons.mp h
    rw [List.flatten_cons, claimGroups_append, List.map_cons, List.flatten_cons, ← ih h,
      claimGroups_left, claimGroups_filter]
    intro e he b hb hclaims
    obtain ⟨bs, hbs, hb⟩ := List.mem_flatten.mp hb
    refine decide_eq_true fun a ha => ?_
    by_contra hc
    rw [Bool.not_eq_false] at hc
    exact has bs hbs a ha b hb e he ⟨hc, hclaims⟩

/-! ### The order of the groups -/

/-- The kind of the artifact is that of its payload, as far as the sort can tell. -/
structure KindFits (artifact : Artifact) : Prop where
  commitSet : artifact.kind = .commitSet ↔ isCommitSet artifact = true
  meeting : artifact.kind = .outlookMeeting ↔
    ∃ eventId title start stop date ids,
      artifact.payload = .meeting eventId title start stop date ids

/-- The key by which groups are sorted. -/
def groupKey (g : RolledUpArtifact) : Text ×ₗ ℤ ×ₗ Text ×ₗ Uuid :=
  match g.artifact.payload with
  | .meeting _ _ start _ _ _ =>
    toLex (g.artifact.kind.token, toLex (start, toLex ([], g.artifact.id)))
  | _ => toLex (g.artifact.kind.token, toLex (0, toLex (g.artifact.externalId, g.artifact.id)))

theorem token_injective : Function.Injective ArtifactKind.token := by
  intro a b
  cases a <;> cases b <;> decide

theorem kindFits_synthesizeArtifact (key : OrphanKey) (events : List ActivityEvent) :
    KindFits (synthesizeArtifact crates key events date) := by
  cases key <;> constructor <;> simp [synthesizeArtifact, OrphanKey.identity, synthesizePayload,
    isCommitSet, commitSetKey]

/-- Groups of two kinds are compared by the tokens of their kinds. -/
theorem token_le_iff {β : Type} [LinearOrder β] {k l : ArtifactKind} (h : k ≠ l) (x y : β) :
    (toLex (k.token, x) : Text ×ₗ β) ≤ toLex (l.token, y) ↔ k.token < l.token := by
  have hne : k.token ≠ l.token := fun heq => h (token_injective heq)
  rw [Prod.Lex.toLex_le_toLex]
  simp only [hne, false_and, or_false]

/-- Groups are compared by their keys. -/
theorem groupLe_eq (hg : KindFits g.artifact) (hh : KindFits h.artifact) :
    groupLe g h = decide (groupKey g ≤ groupKey h) := by
  unfold groupLe groupKey
  split
  · next hgp hhp =>
    rw [hgp, hhp]
    refine Bool.decide_congr ?_
    simp only [Prod.Lex.toLex_le_toLex, lt_self_iff_false, true_and, false_or]
  · next hnot =>
    refine Bool.decide_congr ?_
    split
    · next hgp =>
      split
      · next hhp => exact absurd hhp (hnot _ _ _ _ _ _ _ _ _ _ _ _ hgp)
      · next hhp =>
        have hne : g.artifact.kind ≠ h.artifact.kind := fun heq => by
          obtain ⟨_, _, _, _, _, _, hp⟩ :=
            hh.meeting.mp (heq ▸ hg.meeting.mpr ⟨_, _, _, _, _, _, hgp⟩)
          exact hhp _ _ _ _ _ _ hp
        rw [token_le_iff hne, token_le_iff hne]
    · next hgp =>
      split
      · next hhp =>
        have hne : g.artifact.kind ≠ h.artifact.kind := fun heq => by
          obtain ⟨_, _, _, _, _, _, hp⟩ :=
            hg.meeting.mp (heq ▸ hh.meeting.mpr ⟨_, _, _, _, _, _, hhp⟩)
          exact hgp _ _ _ _ _ _ hp
        rw [token_le_iff hne, token_le_iff hne]
      · simp only [Prod.Lex.toLex_le_toLex, lt_self_iff_false, true_and, false_or]

theorem sortGroups_eq {groups : List RolledUpArtifact} (h : ∀ g ∈ groups, KindFits g.artifact) :
    sortGroups groups = sortBy groupKey groups := by
  have hmap := List.map_mergeSort (f := id) (r := groupLe)
    (s := fun a b => decide (groupKey a ≤ groupKey b)) (l := groups)
    fun a ha b hb => groupLe_eq (h a ha) (h b hb)
  rwa [List.map_id, List.map_id] at hmap

/-! ### The merged groups -/

/-- A merged group has the artifact of its first group, or that of one which is no
commit set. -/
theorem artifact_foldl_mergeInto (rest : List RolledUpArtifact) (g : RolledUpArtifact) :
    (rest.foldl mergeInto g).artifact = g.artifact ∨
      ∃ z ∈ rest, isCommitSet z.artifact = false ∧
        (rest.foldl mergeInto g).artifact = z.artifact := by
  induction rest generalizing g with
  | nil => exact Or.inl rfl
  | cons x rest ih =>
    rw [List.foldl_cons]
    rcases ih (mergeInto g x) with heq | ⟨z, hz, hc, heq⟩
    · cases hx : isCommitSet x.artifact with
      | true =>
        rw [mergeInto_of_commitSet hx] at heq ⊢
        exact Or.inl heq
      | false =>
        rw [mergeInto_of_other hx] at heq ⊢
        exact Or.inr ⟨x, List.mem_cons_self, hx, heq⟩
    · exact Or.inr ⟨z, List.mem_cons_of_mem _ hz, hc, heq⟩

theorem kindFits_merged {groups : List RolledUpArtifact} (h : ∀ g ∈ groups, KindFits g.artifact) :
    ∀ g ∈ mergeDuplicateCommitSets groups, KindFits g.artifact := by
  intro g hg
  obtain ⟨x, rest, hf, rfl⟩ := (mem_mergeBy_iff mergeInto_keeps).mp hg
  obtain ⟨z, hz, heq⟩ := foldl_mergeInto_artifact rest x
  rw [heq]
  exact h z (List.mem_of_mem_filter (hf ▸ hz))

theorem groupKey_of_commitSet (h : isCommitSet g.artifact = true) : groupKey g =
    toLex (g.artifact.kind.token, toLex (0, toLex (g.artifact.externalId, g.artifact.id))) := by
  unfold groupKey
  split
  · next hp => simp [isCommitSet, commitSetKey, hp] at h
  · rfl

/-- Groups that tie are of one kind and have one id. -/
theorem of_groupKey_eq (heq : groupKey g = groupKey h) :
    g.artifact.kind = h.artifact.kind ∧ g.artifact.id = h.artifact.id := by
  have hform : ∀ g, ∃ start name,
      groupKey g = toLex (g.artifact.kind.token, toLex (start, toLex (name, g.artifact.id))) := by
    intro g
    unfold groupKey
    split
    · exact ⟨_, _, rfl⟩
    · exact ⟨_, _, rfl⟩
  obtain ⟨s, n, hg⟩ := hform g
  obtain ⟨s', n', hh⟩ := hform h
  rw [hg, hh] at heq
  simp only [EmbeddingLike.apply_eq_iff_eq, Prod.mk.injEq] at heq
  exact ⟨token_injective heq.1, heq.2.2.2⟩

/-- What is no commit set has its slot by its id. -/
theorem groupSlot_eq_of_id (hg : isCommitSet g.artifact = false)
    (hh : isCommitSet h.artifact = false) (hid : g.artifact.id = h.artifact.id) :
    groupSlot g = groupSlot h := by
  have hkey : ∀ {a : Artifact}, isCommitSet a = false → commitSetKey a = none := fun ha => by
    simpa [isCommitSet] using ha
  rw [groupSlot, groupSlot, slot, slot, mergeKey, mergeKey, hkey hg, hkey hh, hid]

/-- A merged list of commit sets holds artifacts of it. -/
theorem of_mem_merged {groups : List RolledUpArtifact}
    (hg : g ∈ mergeDuplicateCommitSets groups) :
    (∃ z ∈ groups, g.artifact = z.artifact) ∧ ∃ z ∈ groups, groupSlot z = groupSlot g := by
  refine ⟨?_, (mem_map_slot_mergeBy mergeInto_keeps).mp (List.mem_map_of_mem hg)⟩
  obtain ⟨x, rest, hf, rfl⟩ := (mem_mergeBy_iff mergeInto_keeps).mp hg
  obtain ⟨z, hz, heq⟩ := foldl_mergeInto_artifact rest x
  exact ⟨z, List.mem_of_mem_filter (hf ▸ hz), heq⟩

/-- Commit sets of two sources do not tie, also when orphans are merged into them. -/
theorem groupKey_ne {gs hs orphans : List RolledUpArtifact}
    (hgs : ∀ g ∈ gs, isCommitSet g.artifact = true ∧ KindFits g.artifact)
    (hhs : ∀ h ∈ hs, isCommitSet h.artifact = true ∧ KindFits h.artifact)
    (horphans : ∀ g ∈ orphans, KindFits g.artifact)
    (hslots : ∀ g ∈ gs, ∀ h ∈ hs, groupSlot g ≠ groupSlot h)
    (hnames : ∀ g ∈ gs, ∀ h ∈ hs,
      (g.artifact.externalId, g.artifact.id) ≠ (h.artifact.externalId, h.artifact.id))
    (hg : g ∈ mergeDuplicateCommitSets gs) (hh : h ∈ mergeDuplicateCommitSets hs) :
    groupKey ((orphans.filter (groupSlot · = groupSlot g)).foldl mergeInto g) ≠
      groupKey ((orphans.filter (groupSlot · = groupSlot h)).foldl mergeInto h) := by
  intro heq
  obtain ⟨hkind, hid⟩ := of_groupKey_eq heq
  obtain ⟨⟨x, hx, hgx⟩, x', hx', hgslot⟩ := of_mem_merged hg
  obtain ⟨⟨y, hy, hhy⟩, y', hy', hhslot⟩ := of_mem_merged hh
  have horphan : ∀ {v z : RolledUpArtifact}, z ∈ orphans.filter (groupSlot · = groupSlot v) →
      KindFits z.artifact ∧ groupSlot z = groupSlot v := fun hz =>
    ⟨horphans _ (List.mem_of_mem_filter hz), of_decide_eq_true (List.mem_filter.mp hz).2⟩
  rcases artifact_foldl_mergeInto (orphans.filter (groupSlot · = groupSlot g)) g with
    hga | ⟨z, hz, hzc, hza⟩
  · rcases artifact_foldl_mergeInto (orphans.filter (groupSlot · = groupSlot h)) h with
      hha | ⟨w, hw, hwc, hwa⟩
    · -- two commit sets: their names would be the same
      rw [groupKey_of_commitSet (by rw [hga, hgx]; exact (hgs x hx).1),
        groupKey_of_commitSet (by rw [hha, hhy]; exact (hhs y hy).1), hga, hha, hgx, hhy] at heq
      simp only [EmbeddingLike.apply_eq_iff_eq, Prod.mk.injEq] at heq
      exact hnames x hx y hy (Prod.ext heq.2.2.1 heq.2.2.2)
    · -- a commit set and what is none: their kinds would be the same
      rw [hga, hgx, hwa, (hgs x hx).2.commitSet.mpr (hgs x hx).1] at hkind
      rw [(horphan hw).1.commitSet.mp hkind.symm] at hwc
      exact nomatch hwc
  · rcases artifact_foldl_mergeInto (orphans.filter (groupSlot · = groupSlot h)) h with
      hha | ⟨w, hw, hwc, hwa⟩
    · rw [hza, hha, hhy, (hhs y hy).2.commitSet.mpr (hhs y hy).1] at hkind
      rw [(horphan hz).1.commitSet.mp hkind] at hzc
      exact nomatch hzc
    · -- two of one id: their slots would be the same
      rw [hza, hwa] at hid
      apply hslots x' hx' y' hy'
      rw [hgslot, hhslot, ← (horphan hz).2, ← (horphan hw).2]
      exact groupSlot_eq_of_id hzc hwc hid

/-- Lists of which at most one has an element, in any order. -/
theorem flatten_eq_of_perm {α : Type} {blocks blocks' : List (List α)} (h : blocks.Perm blocks')
    (hone : blocks.Pairwise fun xs ys => xs = [] ∨ ys = []) :
    blocks.flatten = blocks'.flatten := by
  induction h with
  | nil => rfl
  | cons block _ ih =>
    rw [List.flatten_cons, List.flatten_cons, ih (List.pairwise_cons.mp hone).2]
  | swap ys xs blocks =>
    rcases (List.pairwise_cons.mp hone).1 ys List.mem_cons_self with rfl | rfl <;> rfl
  | trans h₁ _ ih₁ ih₂ =>
    exact (ih₁ hone).trans (ih₂ ((h₁.pairwise_iff fun h => h.symm).mp hone))

/-- **Commit sets of sources that do not meet** are merged and sorted alike in any
order of the sources. -/
theorem sortGroups_merged_perm {blocks blocks' : List (List RolledUpArtifact)}
    {orphans : List RolledUpArtifact} (hperm : blocks.Perm blocks')
    (hsets : ∀ block ∈ blocks, ∀ g ∈ block, isCommitSet g.artifact = true ∧ KindFits g.artifact)
    (horphans : ∀ g ∈ orphans, KindFits g.artifact)
    (hslots : blocks.Pairwise fun gs hs => ∀ g ∈ gs, ∀ h ∈ hs, groupSlot g ≠ groupSlot h)
    (hnames : blocks.Pairwise fun gs hs => ∀ g ∈ gs, ∀ h ∈ hs,
      (g.artifact.externalId, g.artifact.id) ≠ (h.artifact.externalId, h.artifact.id)) :
    sortGroups (mergeDuplicateCommitSets (blocks.flatten ++ orphans)) =
      sortGroups (mergeDuplicateCommitSets (blocks'.flatten ++ orphans)) := by
  have hfits : ∀ L : List (List RolledUpArtifact), (∀ block ∈ L, block ∈ blocks) →
      ∀ g ∈ L.flatten ++ orphans, KindFits g.artifact := by
    intro L hL g hg
    rcases List.mem_append.mp hg with hg | hg
    · obtain ⟨block, hblock, hg⟩ := List.mem_flatten.mp hg
      exact (hsets block (hL block hblock) g hg).2
    · exact horphans g hg
  have hslots' : blocks'.Pairwise fun gs hs => ∀ g ∈ gs, ∀ h ∈ hs, groupSlot g ≠ groupSlot h :=
    (hperm.pairwise_iff fun h g hg h' hh' => (h h' hh' g hg).symm).mp hslots
  rw [sortGroups_eq (kindFits_merged (hfits blocks fun _ h => h)),
    sortGroups_eq (kindFits_merged (hfits blocks' fun _ h => hperm.mem_iff.mpr h))]
  refine sortBy_eq_of_ties fun k => ?_
  unfold mergeDuplicateCommitSets
  rw [mergeBy_append mergeInto_keeps, mergeBy_append mergeInto_keeps, List.filter_append,
    List.filter_append]
  refine congrArg₂ _ ?_ ?_
  · rw [mergeBy_flatten mergeInto_keeps hslots, mergeBy_flatten mergeInto_keeps hslots',
      List.map_flatten, List.map_flatten, List.filter_flatten, List.filter_flatten, List.map_map,
      List.map_map, List.map_map, List.map_map]
    refine flatten_eq_of_perm (hperm.map _) (List.pairwise_map.mpr ?_)
    refine (hslots.and hnames).imp_of_mem fun {gs hs} hgs hhs hne => ?_
    by_contra hboth
    obtain ⟨hleft, hright⟩ := not_or.mp hboth
    obtain ⟨v, hv⟩ := List.exists_mem_of_ne_nil _ hleft
    obtain ⟨w, hw⟩ := List.exists_mem_of_ne_nil _ hright
    obtain ⟨hv, hvk⟩ := List.mem_filter.mp hv
    obtain ⟨hw, hwk⟩ := List.mem_filter.mp hw
    obtain ⟨g, hg, rfl⟩ := List.mem_map.mp hv
    obtain ⟨h, hh, rfl⟩ := List.mem_map.mp hw
    simp only [decide_eq_true_eq] at hvk hwk
    exact groupKey_ne (hsets gs hgs) (hsets hs hhs) horphans hne.1 hne.2 hg hh
      (hvk.trans hwk.symm)
  · refine congrArg (List.filter _) (congrArg (mergeBy _ _) (List.filter_congr fun g _ => ?_))
    rw [Bool.eq_iff_iff]
    simp only [decide_eq_true_eq, mem_map_slot_mergeBy mergeInto_keeps, hperm.flatten.mem_iff]

/-! ### The rollup -/

/-- The artifacts of different sources do not meet: no event has two of them, and no two
stand for one repository and day or have one name. -/
structure SetsApart (ids : List Uuid) (blocks : List (List Artifact)) : Prop where
  claims : blocks.Pairwise fun as bs => ∀ a ∈ as, ∀ b ∈ bs, ∀ id ∈ ids,
    ¬(id ∈ a.payload.eventIds ∧ id ∈ b.payload.eventIds)
  slots : blocks.Pairwise fun as bs => ∀ a ∈ as, ∀ b ∈ bs, slot a ≠ slot b
  names : blocks.Pairwise fun as bs => ∀ a ∈ as, ∀ b ∈ bs,
    (a.externalId, a.id) ≠ (b.externalId, b.id)

/-- **The rollup of results in any order.** -/
theorem rollUp_perm {blocks blocks' : List (List Artifact)} (hevents : events.Perm events')
    (hn : (events.map (·.id)).Nodup) (hperm : blocks.Perm blocks')
    (hsets : ∀ block ∈ blocks, ∀ a ∈ block, a.kind = .commitSet ∧ isCommitSet a = true)
    (hapart : SetsApart ids blocks) (hids : ∀ e ∈ events, e.id ∈ ids) :
    rollUp crates events blocks.flatten date = rollUp crates events' blocks'.flatten date := by
  have hindex : indexById events = indexById events' :=
    (indexById_sorted events).eq_of_perm (indexById_sorted events')
      ((indexById_perm hn).trans (hevents.trans (indexById_perm
        ((hevents.map _).nodup_iff.mp hn)).symm))
  have hclaims : blocks.Pairwise fun as bs => ∀ a ∈ as, ∀ b ∈ bs, ∀ e ∈ indexById events,
      ¬(claims a e = true ∧ claims b e = true) := by
    refine hapart.claims.imp fun h a ha b hb e he hboth => ?_
    have hid := hids e ((indexById_perm hn).mem_iff.mp he)
    exact h a ha b hb e.id hid ⟨of_decide_eq_true hboth.1, of_decide_eq_true hboth.2⟩
  have hclaims' := (hperm.pairwise_iff fun h b hb a ha e he hboth =>
    h a ha b hb e he hboth.symm).mp hclaims
  have hleft : (claimGroups blocks.flatten (indexById events)).2 =
      (claimGroups blocks'.flatten (indexById events)).2 := by
    rw [claimGroups_left, claimGroups_left]
    refine List.filter_congr fun e _ => Bool.decide_congr ?_
    unfold Unclaimed
    simp only [hperm.flatten.mem_iff]
  have hartifact : ∀ {block : List Artifact} {g : RolledUpArtifact},
      g ∈ (claimGroups block (indexById events)).1 → g.artifact ∈ block := fun {block g} hg => by
    have hmem := List.mem_map_of_mem (f := (·.artifact)) hg
    rwa [map_artifact_claimGroups] at hmem
  unfold rollUp
  rw [groupsOf_eq, groupsOf_eq, ← hindex, ← hleft, claimGroups_flatten hclaims,
    claimGroups_flatten hclaims']
  refine sortGroups_merged_perm (hperm.map _) ?_ ?_ ?_ ?_
  · intro _ hgroups g hg
    obtain ⟨block, hblock, rfl⟩ := List.mem_map.mp hgroups
    obtain ⟨hkind, hset⟩ := hsets block hblock _ (hartifact hg)
    refine ⟨hset, iff_of_true hkind hset, iff_of_false (by rw [hkind]; decide) ?_⟩
    rintro ⟨_, _, _, _, _, _, hp⟩
    simp [isCommitSet, commitSetKey, hp] at hset
  · intro g hg
    obtain ⟨bucket, -, rfl⟩ := List.mem_map.mp hg
    exact kindFits_synthesizeArtifact _ _
  · refine List.pairwise_map.mpr (hapart.slots.imp ?_)
    intro as bs hne g hg h hh
    exact hne g.artifact (hartifact hg) h.artifact (hartifact hh)
  · refine List.pairwise_map.mpr (hapart.names.imp ?_)
    intro as bs hne g hg h hh
    exact hne g.artifact (hartifact hg) h.artifact (hartifact hh)

end Report
end Dayseam
