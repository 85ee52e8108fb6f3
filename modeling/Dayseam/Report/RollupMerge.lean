import Dayseam.Report.Rollup
import Mathlib

/-!
# What merging commit sets keeps

Groups are merged by their slots.  No group is lost in the merge exactly when two
groups share a slot only if both are commit sets, and then an event is lost
exactly when an earlier one of its slot has its upstream id.

## Main definitions

* `Separate` — groups that share a slot are commit sets.
* `GroupsKept` — no group replaces or swallows a group of another kind.
* `Layout` — where the events lie in the groups.
* `RepeatsAreCommits` — a repeated upstream id is that of a commit.

## Main results

* `groupsKept_iff` — **the groups are kept when they are separate.**
* `eventsKept_iff` — **the events are then kept when the repeats are commits.**
-/

namespace Dayseam
namespace Report

open KeyedMerge

variable {groups rest : List RolledUpArtifact} {g g₀ h v x y : RolledUpArtifact}
  {s : List PathComponent × NaiveDate} {e f : ActivityEvent} {events : List ActivityEvent}

/-- The artifact is a commit set. -/
def isCommitSet (artifact : Artifact) : Bool := (commitSetKey artifact).isSome

/-! ### One step -/

theorem mergeInto_of_commitSet (hx : isCommitSet x.artifact = true) (y : RolledUpArtifact) :
    mergeInto y x = { y with
      events := sortEvents (y.events ++
        keepNew (·.externalId) (y.events.map (·.externalId)) x.events) } := by
  obtain ⟨k, hk⟩ := Option.isSome_iff_exists.mp hx
  simp only [mergeInto, hk]

theorem mergeInto_of_other (hx : isCommitSet x.artifact = false) (y : RolledUpArtifact) :
    mergeInto y x = x := by
  have hk : commitSetKey x.artifact = none := by simpa [isCommitSet] using hx
  simp only [mergeInto, hk]

/-- A merged group stays in its slot. -/
theorem mergeInto_keeps : Keeps groupSlot mergeInto := by
  intro y x hs
  cases hx : isCommitSet x.artifact with
  | true => rw [mergeInto_of_commitSet hx]; exact hs
  | false => rw [mergeInto_of_other hx]

/-- A step of the merge adds no event. -/
theorem events_mergeInto_subperm (y x : RolledUpArtifact) :
    (mergeInto y x).events.Subperm (y.events ++ x.events) := by
  cases hx : isCommitSet x.artifact with
  | true =>
    rw [mergeInto_of_commitSet hx]
    exact (sortEvents_perm _).subperm.trans
      ((keepNew_sublist _ _ _).append_left y.events).subperm
  | false =>
    rw [mergeInto_of_other hx]
    exact (List.sublist_append_right _ _).subperm

/-- Commit sets of one slot add their new events to the first of them. -/
theorem foldl_mergeInto (hall : ∀ h ∈ rest, isCommitSet h.artifact = true)
    (g : RolledUpArtifact) : (rest.foldl mergeInto g).artifact = g.artifact ∧
      (rest.foldl mergeInto g).events.Perm (g.events ++
        keepNew (·.externalId) (g.events.map (·.externalId)) (rest.flatMap (·.events))) := by
  induction rest generalizing g with
  | nil => simp [keepNew]
  | cons h rest ih =>
    obtain ⟨hart, hev⟩ := ih (fun z hz => hall z (List.mem_cons_of_mem _ hz)) (mergeInto g h)
    rw [List.foldl_cons, List.flatMap_cons]
    rw [mergeInto_of_commitSet (hall h List.mem_cons_self)] at hart hev ⊢
    refine ⟨hart, hev.trans ?_⟩
    -- the ids seen after the step are those before it and those of its new events
    have hseen : ∀ k, k ∈ (sortEvents (g.events ++ keepNew (·.externalId)
          (g.events.map (·.externalId)) h.events)).map (·.externalId) ↔
        k ∈ g.events.map (·.externalId) ++ (keepNew (·.externalId)
          (g.events.map (·.externalId)) h.events).map (·.externalId) := fun k => by
      rw [((sortEvents_perm _).map _).mem_iff, List.map_append]
    rw [keepNew_append, ← List.append_assoc, keepNew_congr hseen]
    exact (sortEvents_perm _).append_right _

/-- A merged group has no event when the groups that went into it have none, where
every group that can replace another one has some. -/
theorem foldl_mergeInto_events_eq_nil
    (h : ∀ x ∈ rest, isCommitSet x.artifact = false → x.events ≠ []) (g : RolledUpArtifact) :
    (rest.foldl mergeInto g).events = [] ↔ g.events = [] ∧ ∀ x ∈ rest, x.events = [] := by
  induction rest generalizing g with
  | nil => simp
  | cons x rest ih =>
    rw [List.foldl_cons, ih (fun y hy => h y (List.mem_cons_of_mem _ hy)), List.forall_mem_cons,
      ← and_assoc]
    refine and_congr_left fun _ => ?_
    cases hx : isCommitSet x.artifact with
    | true =>
      rw [mergeInto_of_commitSet hx]
      show sortEvents _ = [] ↔ _
      rw [← List.isEmpty_iff, (sortEvents_perm _).isEmpty_eq, List.isEmpty_iff,
        List.append_eq_nil_iff]
      refine and_congr_right fun hg => ?_
      rw [hg]
      cases hxe : x.events with
      | nil => exact iff_of_true rfl rfl
      | cons e es =>
        rw [List.map_nil, keepNew_cons_of_notMem List.not_mem_nil]
        exact iff_of_false (List.cons_ne_nil _ _) (List.cons_ne_nil _ _)
    | false =>
      rw [mergeInto_of_other hx]
      have hne := h x List.mem_cons_self hx
      exact iff_of_false hne fun hc => hne hc.2

/-- A merged group is built around the artifact of one of the groups in it. -/
theorem foldl_mergeInto_artifact (rest : List RolledUpArtifact) (g : RolledUpArtifact) :
    ∃ z ∈ g :: rest, (rest.foldl mergeInto g).artifact = z.artifact := by
  induction rest generalizing g with
  | nil => exact ⟨g, List.mem_cons_self, rfl⟩
  | cons x rest ih =>
    obtain ⟨z, hz, hart⟩ := ih (mergeInto g x)
    rw [List.foldl_cons, hart]
    rcases List.mem_cons.mp hz with rfl | hz
    · cases hx : isCommitSet x.artifact with
      | true =>
        rw [mergeInto_of_commitSet hx]
        exact ⟨g, List.mem_cons_self, rfl⟩
      | false =>
        rw [mergeInto_of_other hx]
        exact ⟨x, List.mem_cons_of_mem _ List.mem_cons_self, rfl⟩
    · exact ⟨z, List.mem_cons_of_mem _ (List.mem_cons_of_mem _ hz), rfl⟩

/-! ### Groups -/

/-- Groups that share a slot are commit sets. -/
def Separate (groups : List RolledUpArtifact) : Prop :=
  groups.Pairwise fun g h => groupSlot g = groupSlot h →
    isCommitSet g.artifact = true ∧ isCommitSet h.artifact = true

/-- The groups that are no commit sets come out as they are, and every repository
and day of a commit set has a commit set in the result. -/
structure GroupsKept (groups out : List RolledUpArtifact) : Prop where
  others : (out.filter fun g => !isCommitSet g.artifact).Perm
    (groups.filter fun g => !isCommitSet g.artifact)
  commitSets : ∀ g ∈ groups, isCommitSet g.artifact = true →
    ∃ h ∈ out, isCommitSet h.artifact = true ∧ groupSlot h = groupSlot g

/-- A slot of separate groups holds one group, or commit sets. -/
theorem Separate.fibre (hs : Separate groups)
    (hf : groups.filter (groupSlot · = s) = g :: rest) :
    rest = [] ∨ isCommitSet g.artifact = true ∧ ∀ h ∈ rest, isCommitSet h.artifact = true := by
  have hsub : (groups.filter (groupSlot · = s)).Pairwise _ := hs.sublist List.filter_sublist
  have hslot : ∀ z ∈ g :: rest, groupSlot z = s := fun z hz => by
    rw [← hf] at hz
    exact of_decide_eq_true (List.mem_filter.mp hz).2
  rw [hf] at hsub
  obtain ⟨hg, -⟩ := List.pairwise_cons.mp hsub
  have hboth : ∀ h ∈ rest, isCommitSet g.artifact = true ∧ isCommitSet h.artifact = true :=
    fun h hh => hg h hh ((hslot g List.mem_cons_self).trans
      (hslot h (List.mem_cons_of_mem _ hh)).symm)
  cases rest with
  | nil => exact Or.inl rfl
  | cons z rest =>
    exact Or.inr ⟨(hboth z List.mem_cons_self).1, fun h hh => (hboth h hh).2⟩

/-- The slot of a group that is no commit set holds nothing else. -/
theorem Separate.fibre_other (hs : Separate groups) (hv : v ∈ groups)
    (hc : isCommitSet v.artifact = false) : groups.filter (groupSlot · = groupSlot v) = [v] := by
  have hmem : v ∈ groups.filter (groupSlot · = groupSlot v) :=
    List.mem_filter.mpr ⟨hv, by simp⟩
  cases hf : groups.filter (groupSlot · = groupSlot v) with
  | nil => rw [hf] at hmem; exact absurd hmem List.not_mem_nil
  | cons g rest =>
    rw [hf] at hmem
    rcases hs.fibre hf with rfl | ⟨hg, hrest⟩
    · rw [List.mem_singleton.mp hmem]
    · rcases List.mem_cons.mp hmem with rfl | hmem
      · rw [hg] at hc; cases hc
      · rw [hrest v hmem] at hc; cases hc

theorem distinct_merged (groups : List RolledUpArtifact) :
    Distinct groupSlot (mergeDuplicateCommitSets groups) :=
  distinct_mergeBy mergeInto_keeps groups

/-- Where a group that is no commit set stands, the groups before it in its slot do
not matter. -/
theorem merged_of_other {l r : List RolledUpArtifact} (hc : isCommitSet g.artifact = false)
    (hv : v ∈ mergeDuplicateCommitSets (l ++ g :: r)) (hs : groupSlot v = groupSlot g) :
    v = (r.filter (groupSlot · = groupSlot g)).foldl mergeInto g := by
  obtain ⟨x, rest, hf, rfl⟩ := (mem_mergeBy_iff mergeInto_keeps).mp hv
  rw [hs, List.filter_append, List.filter_cons_of_pos (by simp)] at hf
  cases hl : l.filter (groupSlot · = groupSlot g) with
  | nil =>
    rw [hl, List.nil_append] at hf
    obtain ⟨rfl, rfl⟩ := List.cons.inj hf
    rfl
  | cons y ys =>
    rw [hl, List.cons_append] at hf
    obtain ⟨rfl, rfl⟩ := List.cons.inj hf
    rw [List.foldl_append, List.foldl_cons, mergeInto_of_other hc]

/-- A group that is no commit set comes out when it went in. -/
theorem Separate.mem_merged_other (hs : Separate groups) (hc : isCommitSet v.artifact = false) :
    v ∈ mergeDuplicateCommitSets groups ↔ v ∈ groups := by
  constructor
  · intro hv
    obtain ⟨g, rest, hf, rfl⟩ := (mem_mergeBy_iff mergeInto_keeps).mp hv
    have hg : g ∈ groups := List.mem_of_mem_filter (hf ▸ List.mem_cons_self)
    rcases hs.fibre hf with rfl | ⟨hcg, hrest⟩
    · exact hg
    · rw [(foldl_mergeInto hrest g).1, hcg] at hc
      cases hc
  · intro hv
    exact (mem_mergeBy_iff mergeInto_keeps).mpr ⟨v, [], hs.fibre_other hv hc, rfl⟩

/-- Two groups of one slot, one of which is no commit set, are not both kept. -/
theorem GroupsKept.separate (hk : GroupsKept groups (mergeDuplicateCommitSets groups)) :
    Separate groups := by
  have hd := distinct_merged groups
  have hother : ∀ z ∈ groups, isCommitSet z.artifact = false →
      z ∈ mergeDuplicateCommitSets groups := fun z hz hc =>
    List.mem_of_mem_filter (hk.others.mem_iff.mpr (List.mem_filter.mpr ⟨hz, by simp [hc]⟩))
  have hclash : ∀ z ∈ groups, ∀ w ∈ groups, groupSlot z = groupSlot w →
      isCommitSet z.artifact = false → isCommitSet w.artifact = true → False := by
    intro z hz w hw hslot hcz hcw
    obtain ⟨u, hu, hcu, hsu⟩ := hk.commitSets w hw hcw
    rw [hd.eq_of_slot_eq hu (hother z hz hcz) (hsu.trans hslot.symm), hcz] at hcu
    cases hcu
  refine List.pairwise_iff_forall_sublist.mpr ?_
  intro g h hsub hslot
  have hg : g ∈ groups := hsub.subset (by simp)
  have hh : h ∈ groups := hsub.subset (by simp)
  cases hcg : isCommitSet g.artifact <;> cases hch : isCommitSet h.artifact
  · -- both are the one group that comes out in the slot, which comes out once
    have heq : g = h := hd.eq_of_slot_eq (hother g hg hcg) (hother h hh hch) hslot
    subst heq
    have hnodup : (groups.filter fun z => !isCommitSet z.artifact).Nodup := by
      refine hk.others.nodup_iff.mp ((hd.imp ?_).sublist List.filter_sublist)
      intro a b hne hab
      exact hne (congrArg groupSlot hab)
    have htwo := hnodup.sublist (hsub.filter fun z => !isCommitSet z.artifact)
    simp [hcg] at htwo
  · exact (hclash g hg h hh hslot hcg hch).elim
  · exact (hclash h hh g hg hslot.symm hch hcg).elim
  · exact ⟨rfl, rfl⟩

theorem Separate.groupsKept (hs : Separate groups) :
    GroupsKept groups (mergeDuplicateCommitSets groups) where
  others := by
    have hin : (groups.filter fun z => !isCommitSet z.artifact).Nodup := by
      refine (hs.sublist List.filter_sublist).imp_of_mem ?_
      rintro a b ha - hab rfl
      have hc := (List.mem_filter.mp ha).2
      rw [(hab rfl).1] at hc
      cases hc
    have hout : ((mergeDuplicateCommitSets groups).filter fun z =>
        !isCommitSet z.artifact).Nodup := by
      refine ((distinct_merged groups).imp ?_).sublist List.filter_sublist
      intro a b hne hab
      exact hne (congrArg groupSlot hab)
    refine (List.perm_ext_iff_of_nodup hout hin).mpr ?_
    intro v
    rw [List.mem_filter, List.mem_filter]
    refine and_congr_left fun hc => hs.mem_merged_other ?_
    simpa using hc
  commitSets := by
    intro g hg hc
    obtain ⟨v, hv, hslot⟩ := exists_mem_mergeBy mergeInto_keeps hg
    refine ⟨v, hv, ?_, hslot⟩
    by_contra hcv
    -- what comes out in the slot went in, and then it shares the slot with the commit set
    have hcv : isCommitSet v.artifact = false := by simpa using hcv
    have hfibre := hs.fibre_other ((hs.mem_merged_other hcv).mp hv) hcv
    have hmem : g ∈ groups.filter (groupSlot · = groupSlot v) :=
      List.mem_filter.mpr ⟨hg, by simp [hslot]⟩
    rw [hfibre] at hmem
    rw [List.mem_singleton.mp hmem, hcv] at hc
    cases hc

/-- **The groups are kept when they are separate.** -/
theorem groupsKept_iff :
    GroupsKept groups (mergeDuplicateCommitSets groups) ↔ Separate groups :=
  ⟨GroupsKept.separate, Separate.groupsKept⟩

/-! ### Events -/

/-- Where the events lie: `home` is the slot of the group that holds an event, and
`later` says that an earlier group has its slot. -/
structure Layout (events : List ActivityEvent) (groups : List RolledUpArtifact)
    (home : ActivityEvent → List PathComponent × NaiveDate) (later : ActivityEvent → Prop) :
    Prop where
  nodup : (events.map (·.id)).Nodup
  perm : (groups.flatMap (·.events)).Perm events
  place : ∀ e ∈ events, ∃ l g r, groups = l ++ g :: r ∧ e ∈ g.events ∧ groupSlot g = home e ∧
    (later e ↔ ∃ h ∈ l, groupSlot h = groupSlot g)

namespace Layout

variable {home : ActivityEvent → List PathComponent × NaiveDate} {later : ActivityEvent → Prop}

theorem nodup_groups (hl : Layout events groups home later) :
    (groups.flatMap (·.events)).Nodup :=
  hl.perm.nodup_iff.mpr (List.Nodup.of_map _ hl.nodup)

/-- An event lies in groups of one slot. -/
theorem groupSlot_eq (hl : Layout events groups home later) (hg : g ∈ groups)
    (he : e ∈ g.events) : groupSlot g = home e := by
  have hmem : e ∈ events := hl.perm.mem_iff.mp (List.mem_flatMap.mpr ⟨g, hg, he⟩)
  obtain ⟨l, h, r, rfl, heh, hslot, -⟩ := hl.place e hmem
  rw [← hslot]
  by_contra hne
  obtain ⟨-, hdisj⟩ := List.nodup_flatMap.mp hl.nodup_groups
  have hsymm : Std.Symm (Function.onFun List.Disjoint fun z : RolledUpArtifact => z.events) :=
    ⟨fun _ _ hab => List.Disjoint.symm hab⟩
  exact hdisj.forall hg (List.mem_append_right l List.mem_cons_self)
    (fun h => hne (congrArg groupSlot h)) he heh

/-- An event that is not later lies in the first group of its slot, a later one in
another group of it. -/
theorem fibre (hl : Layout events groups home later)
    (hf : groups.filter (groupSlot · = s) = g :: rest) :
    (e ∈ g.events ↔ e ∈ events ∧ home e = s ∧ ¬later e) ∧
      (e ∈ rest.flatMap (·.events) ↔ e ∈ events ∧ home e = s ∧ later e) := by
  have hsub : ((g :: rest).flatMap (·.events)).Sublist (groups.flatMap (·.events)) := by
    rw [← hf]
    exact List.filter_sublist.flatMap _
  have hin : ∀ z ∈ g :: rest, z ∈ groups ∧ groupSlot z = s := fun z hz => by
    rw [← hf] at hz
    obtain ⟨hz, hs⟩ := List.mem_filter.mp hz
    exact ⟨hz, of_decide_eq_true hs⟩
  have hfacts : e ∈ (g :: rest).flatMap (·.events) → e ∈ events ∧ home e = s := fun he => by
    obtain ⟨z, hz, hez⟩ := List.mem_flatMap.mp he
    exact ⟨hl.perm.mem_iff.mp (hsub.subset he), (hl.groupSlot_eq (hin z hz).1 hez).symm.trans
      (hin z hz).2⟩
  have hdisj : e ∈ g.events → e ∉ rest.flatMap (·.events) := by
    have hnodup := hl.nodup_groups.sublist hsub
    rw [List.flatMap_cons] at hnodup
    exact fun h h' => (List.nodup_append.mp hnodup).2.2 e h e h' rfl
  have hplace : e ∈ events → home e = s →
      (later e → e ∈ rest.flatMap (·.events)) ∧ (¬later e → e ∈ g.events) := by
    intro he hs
    obtain ⟨l, z, r, hgroups, hez, hslot, hlater⟩ := hl.place e he
    have hp : (decide (groupSlot z = s)) = true := by simp [hslot, hs]
    have hiff : (∃ y ∈ l, decide (groupSlot y = s) = true) ↔ later e := by
      rw [hlater, hslot, hs]
      simp
    constructor
    · intro hla
      have htail := mem_tail_filter (p := fun y => decide (groupSlot y = s)) (r := r) hp
        (hiff.mpr hla)
      rw [← hgroups, hf] at htail
      exact List.mem_flatMap.mpr ⟨z, htail, hez⟩
    · intro hnl
      have hhead := filter_append_cons (p := fun y => decide (groupSlot y = s)) (r := r) hp
        fun h => hnl (hiff.mp h)
      rw [← hgroups, hf] at hhead
      rw [(List.cons.inj hhead).1]
      exact hez
  constructor
  · constructor
    · intro he
      obtain ⟨hev, hs⟩ := hfacts (List.mem_append_left _ he)
      exact ⟨hev, hs, fun hla => hdisj he ((hplace hev hs).1 hla)⟩
    · rintro ⟨hev, hs, hnl⟩
      exact (hplace hev hs).2 hnl
  · constructor
    · intro he
      obtain ⟨hev, hs⟩ := hfacts (List.mem_append_right _ he)
      refine ⟨hev, hs, ?_⟩
      by_contra hnl
      exact hdisj ((hplace hev hs).2 hnl) he
    · rintro ⟨hev, hs, hla⟩
      exact (hplace hev hs).1 hla

/-- A group that comes out holds events of its own slot only. -/
theorem groupSlot_merged (hl : Layout events groups home later) (hs : Separate groups)
    (hv : v ∈ mergeDuplicateCommitSets groups) (he : e ∈ v.events) : groupSlot v = home e := by
  obtain ⟨g, rest, hf, rfl⟩ := (mem_mergeBy_iff mergeInto_keeps).mp hv
  have hsub : e ∈ (g :: rest).flatMap (·.events) := by
    rcases hs.fibre hf with rfl | ⟨-, hrest⟩
    · simpa using he
    · rw [(foldl_mergeInto hrest g).2.mem_iff] at he
      rw [List.flatMap_cons]
      exact ((keepNew_sublist _ _ _).append_left _).subset he
  obtain ⟨z, hz, hez⟩ := List.mem_flatMap.mp hsub
  rw [← hf, List.mem_filter] at hz
  rw [← hl.groupSlot_eq hz.1 hez]
  exact (of_decide_eq_true hz.2).symm

/-- An event comes out when it is in the first group of its slot, or its upstream
id is not there and it is the first with it in the others. -/
theorem mem_merged_iff (hl : Layout events groups home later) (hs : Separate groups)
    (he : e ∈ events) (hf : groups.filter (groupSlot · = home e) = g :: rest) :
    e ∈ (mergeDuplicateCommitSets groups).flatMap (·.events) ↔
      ¬later e ∨ e.externalId ∉ g.events.map (·.externalId) ∧
        (rest.flatMap (·.events)).find? (·.externalId = e.externalId) = some e := by
  have hbody : e ∈ (rest.foldl mergeInto g).events ↔ ¬later e ∨
      e.externalId ∉ g.events.map (·.externalId) ∧
        (rest.flatMap (·.events)).find? (·.externalId = e.externalId) = some e := by
    rcases hs.fibre hf with rfl | ⟨-, hrest⟩
    · rw [List.foldl_nil, (hl.fibre hf).1]
      simp [he]
    · rw [(foldl_mergeInto hrest g).2.mem_iff, List.mem_append, mem_keepNew_iff, (hl.fibre hf).1]
      simp [he]
  rw [← hbody]
  obtain ⟨hmem, hslot⟩ := foldl_mem_mergeBy mergeInto_keeps hf
  constructor
  · intro hout
    obtain ⟨v, hv, hev⟩ := List.mem_flatMap.mp hout
    have heq : v = rest.foldl mergeInto g := (distinct_merged groups).eq_of_slot_eq hv hmem
      ((hl.groupSlot_merged hs hv hev).trans hslot.symm)
    exact heq ▸ hev
  · intro hev
    exact List.mem_flatMap.mpr ⟨_, hmem, hev⟩

/-- Every event has a first group of its slot. -/
theorem exists_fibre (hl : Layout events groups home later) (he : e ∈ events) :
    ∃ g rest, groups.filter (groupSlot · = home e) = g :: rest := by
  obtain ⟨g, hg, heg⟩ := List.mem_flatMap.mp (hl.perm.mem_iff.mpr he)
  have hmem : g ∈ groups.filter (groupSlot · = home e) :=
    List.mem_filter.mpr ⟨hg, by simp [hl.groupSlot_eq hg heg]⟩
  cases hf : groups.filter (groupSlot · = home e) with
  | nil => rw [hf] at hmem; exact absurd hmem List.not_mem_nil
  | cons g rest => exact ⟨g, rest, rfl⟩

/-- Where a slot has later events, a commit set comes out. -/
theorem isCommitSet_merged (hl : Layout events groups home later) (hs : Separate groups)
    (he : e ∈ events) (hla : later e) (hv : v ∈ mergeDuplicateCommitSets groups)
    (hslot : groupSlot v = home e) : isCommitSet v.artifact = true := by
  obtain ⟨g, rest, hf⟩ := hl.exists_fibre he
  obtain ⟨hmem, hfold⟩ := foldl_mem_mergeBy mergeInto_keeps hf
  rw [(distinct_merged groups).eq_of_slot_eq hv hmem (hslot.trans hfold.symm)]
  have hrest := (hl.fibre hf).2.mpr ⟨he, rfl, hla⟩
  rcases hs.fibre hf with rfl | ⟨hg, hall⟩
  · exact absurd hrest (by simp)
  · rw [(foldl_mergeInto hall g).1]
    exact hg

end Layout

/-- A repeated upstream id is that of a commit: a later event with the upstream id
of another event of its slot is a commit, and so is one of those that come out. -/
def RepeatsAreCommits (events : List ActivityEvent)
    (home : ActivityEvent → List PathComponent × NaiveDate) (later : ActivityEvent → Prop) :
    Prop :=
  ∀ e ∈ events, ∀ f ∈ events, later e → f ≠ e → home f = home e →
    f.externalId = e.externalId → e.kind = .commitAuthored ∧
      ((∃ g ∈ events, ¬later g ∧ home g = home e ∧ g.externalId = e.externalId ∧
          g.kind = .commitAuthored) ∨
        f.kind = .commitAuthored ∧ ∀ g ∈ events, ¬later g → home g = home e →
          g.externalId ≠ e.externalId)

/-- An event that does not come out is a commit, and so is one with its upstream
id that comes out in the commit set of its slot. -/
def Replaced (out : List RolledUpArtifact)
    (home : ActivityEvent → List PathComponent × NaiveDate) (e : ActivityEvent) : Prop :=
  e.kind = .commitAuthored ∧ ∃ g ∈ out, isCommitSet g.artifact = true ∧ groupSlot g = home e ∧
    ∃ f ∈ g.events, f.kind = .commitAuthored ∧ f.externalId = e.externalId

/-- The occurrences of an event in groups. -/
def occurrences (groups : List RolledUpArtifact) (e : ActivityEvent) : List ActivityEvent :=
  (groups.flatMap (·.events)).filter (·.id = e.id)

/-- Every event comes out once, but for those that are replaced. -/
def EventsKept (events : List ActivityEvent) (out : List RolledUpArtifact)
    (home : ActivityEvent → List PathComponent × NaiveDate) : Prop :=
  ∀ e ∈ events, occurrences out e = [e] ∨ occurrences out e = [] ∧ Replaced out home e

namespace Layout

variable {home : ActivityEvent → List PathComponent × NaiveDate} {later : ActivityEvent → Prop}

theorem merged_subperm (hl : Layout events groups home later) :
    ((mergeDuplicateCommitSets groups).flatMap (·.events)).Subperm events :=
  (flatMap_mergeBy_subperm events_mergeInto_subperm groups).trans hl.perm.subperm

/-- An event comes out once or not at all. -/
theorem occurrences_merged (hl : Layout events groups home later) (he : e ∈ events) :
    (e ∈ (mergeDuplicateCommitSets groups).flatMap (·.events) →
      occurrences (mergeDuplicateCommitSets groups) e = [e]) ∧
    (e ∉ (mergeDuplicateCommitSets groups).flatMap (·.events) →
      occurrences (mergeDuplicateCommitSets groups) e = []) := by
  have hsub := hl.merged_subperm
  have hdist : Distinct (·.id) ((mergeDuplicateCommitSets groups).flatMap (·.events)) := by
    obtain ⟨l, hperm, hsubl⟩ := hsub
    have hnodup := hl.nodup.sublist (hsubl.map (·.id))
    rw [distinct_iff_nodup_map]
    exact (hperm.map (·.id)).nodup_iff.mp hnodup
  refine ⟨hdist.filter_eq, ?_⟩
  intro hout
  refine List.filter_eq_nil_iff.mpr ?_
  intro x hx hid
  have hid : x.id = e.id := by simpa using hid
  have hx' : x ∈ events := hsub.subset hx
  rw [(distinct_iff_nodup_map.mpr hl.nodup).eq_of_slot_eq hx' he hid] at hx
  exact hout hx

theorem eventsKept_of_repeats (hl : Layout events groups home later) (hs : Separate groups)
    (hr : RepeatsAreCommits events home later) :
    EventsKept events (mergeDuplicateCommitSets groups) home := by
  intro e he
  by_cases hout : e ∈ (mergeDuplicateCommitSets groups).flatMap (·.events)
  · exact Or.inl ((hl.occurrences_merged he).1 hout)
  refine Or.inr ⟨(hl.occurrences_merged he).2 hout, ?_⟩
  obtain ⟨g, rest, hf⟩ := hl.exists_fibre he
  have hdrop := mt (hl.mem_merged_iff hs he hf).mpr hout
  have hla : later e := by
    by_contra h
    exact hdrop (Or.inl h)
  -- a commit that comes out with the upstream id replaces the event
  have hrep : ∀ f ∈ (mergeDuplicateCommitSets groups).flatMap (·.events), home f = home e →
      f.externalId = e.externalId → f.kind = .commitAuthored → e.kind = .commitAuthored →
      Replaced (mergeDuplicateCommitSets groups) home e := by
    intro f hfo hh hx hcf hce
    obtain ⟨v, hv, hfv⟩ := List.mem_flatMap.mp hfo
    have hslot := (hl.groupSlot_merged hs hv hfv).trans hh
    exact ⟨hce, v, hv, hl.isCommitSet_merged hs he hla hv hslot, hslot, f, hfv, hcf, hx⟩
  by_cases hseen : e.externalId ∈ g.events.map (·.externalId)
  · -- the first group of the slot has the upstream id
    obtain ⟨f, hfg, hx⟩ := List.mem_map.mp hseen
    obtain ⟨hfe, hh, hnl⟩ := (hl.fibre hf).1.mp hfg
    have hne : f ≠ e := fun h => hnl (h ▸ hla)
    obtain ⟨hce, ⟨z, hz, hnz, hhz, hxz, hcz⟩ | ⟨-, hnone⟩⟩ := hr e he f hfe hla hne hh hx
    · refine hrep z ?_ hhz hxz hcz hce
      rw [← hhz] at hf
      exact (hl.mem_merged_iff hs hz hf).mpr (Or.inl hnz)
    · exact absurd hx (hnone f hfe hnl hh)
  · -- an earlier event of the other groups has it
    have hrest := (hl.fibre hf).2.mpr ⟨he, rfl, hla⟩
    cases hfind : (rest.flatMap (·.events)).find? (·.externalId = e.externalId) with
    | none => exact absurd (List.find?_eq_none.mp hfind e hrest) (by simp)
    | some f =>
      have hx : f.externalId = e.externalId := by simpa using List.find?_some hfind
      obtain ⟨hfe, hh, -⟩ := (hl.fibre hf).2.mp (List.mem_of_find?_eq_some hfind)
      have hne : f ≠ e := fun h => hdrop (Or.inr ⟨hseen, h ▸ hfind⟩)
      obtain ⟨hce, ⟨z, hz, hnz, hhz, hxz, -⟩ | ⟨hcf, -⟩⟩ := hr e he f hfe hla hne hh hx
      · exact absurd (List.mem_map.mpr ⟨z, (hl.fibre hf).1.mpr ⟨hz, hhz, hnz⟩, hxz⟩) hseen
      · refine hrep f ?_ hh hx hcf hce
        rw [← hh] at hf
        rw [← hx] at hseen hfind
        exact (hl.mem_merged_iff hs hfe hf).mpr (Or.inr ⟨hseen, hfind⟩)

theorem repeats_of_eventsKept (hl : Layout events groups home later) (hs : Separate groups)
    (hk : EventsKept events (mergeDuplicateCommitSets groups) home) :
    RepeatsAreCommits events home later := by
  intro e he f hfe hla hne hh hx
  obtain ⟨g, rest, hf⟩ := hl.exists_fibre he
  -- what an event that does not come out is replaced by
  have hdrop : ∀ z ∈ events, home z = home e → z.externalId = e.externalId →
      ¬(¬later z ∨ z.externalId ∉ g.events.map (·.externalId) ∧
        (rest.flatMap (·.events)).find? (·.externalId = z.externalId) = some z) →
      z.kind = .commitAuthored ∧ ∃ w ∈ events, home w = home e ∧ w.externalId = e.externalId ∧
        w.kind = .commitAuthored ∧ (¬later w ∨ e.externalId ∉ g.events.map (·.externalId) ∧
          (rest.flatMap (·.events)).find? (·.externalId = e.externalId) = some w) := by
    intro z hz hhz hxz hout
    rw [← hhz] at hf
    have hnot := mt (hl.mem_merged_iff hs hz hf).mp hout
    rcases hk z hz with hone | ⟨-, hcz, v, hv, -, hslot, w, hw, hcw, hxw⟩
    · rw [(hl.occurrences_merged hz).2 hnot] at hone
      cases hone
    · have hwe : w ∈ events := hl.merged_subperm.subset (List.mem_flatMap.mpr ⟨v, hv, hw⟩)
      have hhw : home w = home z := (hl.groupSlot_merged hs hv hw).symm.trans hslot
      have hfw := hf
      rw [← hhw] at hfw
      have hin := (hl.mem_merged_iff hs hwe hfw).mp (List.mem_flatMap.mpr ⟨v, hv, hw⟩)
      rw [hxw, hxz] at hin
      exact ⟨hcz, w, hwe, hhw.trans hhz, hxw.trans hxz, hcw, hin⟩
  by_cases hseen : e.externalId ∈ g.events.map (·.externalId)
  · obtain ⟨hce, w, hwe, hhw, hxw, hcw, hw | hw⟩ := hdrop e he rfl rfl
      fun h => h.elim (absurd hla) fun h => h.1 hseen
    · exact ⟨hce, Or.inl ⟨w, hwe, hw, hhw, hxw, hcw⟩⟩
    · exact absurd hseen hw.1
  · have hnone : ∀ z ∈ events, ¬later z → home z = home e → z.externalId ≠ e.externalId :=
      fun z hz hnz hhz hxz => hseen (List.mem_map.mpr ⟨z, (hl.fibre hf).1.mpr ⟨hz, hhz, hnz⟩, hxz⟩)
    have hlf : later f := by
      by_contra h
      exact hnone f hfe h hh hx
    suffices hboth : e.kind = .commitAuthored ∧ f.kind = .commitAuthored from
      ⟨hboth.1, Or.inr ⟨hboth.2, hnone⟩⟩
    -- the first event with the upstream id comes out, the others are replaced by it
    have hfirst : ∀ w ∈ events, home w = home e → w.externalId = e.externalId →
        (¬later w ∨ e.externalId ∉ g.events.map (·.externalId) ∧
          (rest.flatMap (·.events)).find? (·.externalId = e.externalId) = some w) →
        (rest.flatMap (·.events)).find? (·.externalId = e.externalId) = some w :=
      fun w hwe hhw hxw hw => hw.elim (fun h => absurd hxw (hnone w hwe h hhw)) (·.2)
    have hrest := (hl.fibre hf).2.mpr ⟨he, rfl, hla⟩
    cases hfind : (rest.flatMap (·.events)).find? (·.externalId = e.externalId) with
    | none => exact absurd (List.find?_eq_none.mp hfind e hrest) (by simp)
    | some z =>
      have hother : ∀ u ∈ events, home u = home e → u.externalId = e.externalId → later u →
          u ≠ z → u.kind = .commitAuthored ∧ z.kind = .commitAuthored := by
        intro u hu hhu hxu hlu hne
        obtain ⟨hcu, w, hwe, hhw, hxw, hcw, hw⟩ := hdrop u hu hhu hxu fun h =>
          h.elim (absurd hlu) fun h => hne (by
            have h2 := h.2
            rw [hxu, hfind] at h2
            exact (Option.some.inj h2).symm)
        have hwz := hfirst w hwe hhw hxw hw
        rw [hfind] at hwz
        rw [Option.some.inj hwz]
        exact ⟨hcu, hcw⟩
      by_cases hez : e = z
      · obtain ⟨hcf, hcz⟩ := hother f hfe hh hx hlf fun h => hne (h.trans hez.symm)
        exact ⟨hez ▸ hcz, hcf⟩
      · obtain ⟨hce, hcz⟩ := hother e he rfl rfl hla hez
        by_cases hfz : f = z
        · exact ⟨hce, hfz ▸ hcz⟩
        · exact ⟨hce, (hother f hfe hh hx hlf hfz).1⟩

/-- **The events are kept when the repeats are commits.** -/
theorem eventsKept_iff (hl : Layout events groups home later) (hs : Separate groups) :
    EventsKept events (mergeDuplicateCommitSets groups) home ↔
      RepeatsAreCommits events home later :=
  ⟨hl.repeats_of_eventsKept hs, hl.eventsKept_of_repeats hs⟩

end Layout

end Report
end Dayseam
