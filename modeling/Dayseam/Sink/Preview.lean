import Dayseam.Lib.InsertionMap
import Dayseam.Sink.Markdown
import Mathlib

/-!
# The saved file and the live preview

The sink groups the bullets of a section by slots in render order, and counts them in slots
that it sorts; the preview does both with maps in insertion order and a comparator.  Only the
counts of the sink are of 32 bits.

## Main definitions

* `Slots.groupBulletsByKind` — the grouping of the sink, slot by slot.
* `Preview.groupBulletsByKind`, `Preview.aggregateByKind` — those of the preview.
* `SameGroups`, `SameCounts` — what both show.

## Main results

* `slots_groupBulletsByKind`, `preview_groupBulletsByKind` — the groups, in closed form.
* `saved_and_shown_agree` — **the two show one report.**
-/

namespace Dayseam

open SummaryChart

/-! ### The slots of the sink -/

namespace Slots

/-- Push a bullet to the first group of its kind. -/
def push (kind : SourceKind) (bullet : RenderedBullet) :
    List (Option SourceKind × List RenderedBullet) → List (Option SourceKind × List RenderedBullet)
  | [] => []
  | (k, bucket) :: groups =>
    if k = some kind then (k, bucket ++ [bullet]) :: groups
    else (k, bucket) :: push kind bullet groups

/-- The slots, and the bullets without a kind. -/
def step (state : List (Option SourceKind × List RenderedBullet) × List RenderedBullet)
    (bullet : RenderedBullet) :
    List (Option SourceKind × List RenderedBullet) × List RenderedBullet :=
  match bullet.sourceKind with
  | some kind => (push kind bullet state.1, state.2)
  | none => (state.1, state.2 ++ [bullet])

/-- `group_bullets_by_kind`. -/
def groupBulletsByKind (bullets : List RenderedBullet) :
    List (Option SourceKind × List RenderedBullet) :=
  let (groups, unattributed) :=
    bullets.foldl step (SourceKind.renderOrder.map fun k => (some k, []), [])
  (groups.filter fun g => !g.2.isEmpty) ++
    (if !unattributed.isEmpty then [(none, unattributed)] else [])

end Slots

/-! ### The maps of the preview -/

namespace Preview

open InsertionMap (Entries get set get_set)

def SOURCE_KIND_ORDER : List SourceKind :=
  [.localGit, .gitHub, .gitLab, .jira, .confluence, .outlook]

def SLICE_ORDER : List SourceKind :=
  [.localGit, .gitHub, .gitLab, .jira, .confluence, .outlook]

/-- Put a bullet behind the others of its key; a bullet without a kind has a key too. -/
def addToGroup (groups : Entries (Option SourceKind) (List RenderedBullet))
    (bullet : RenderedBullet) : Entries (Option SourceKind) (List RenderedBullet) :=
  match get groups bullet.sourceKind with
  | some list => set groups bullet.sourceKind (list ++ [bullet])
  | none => set groups bullet.sourceKind [bullet]

def nonEmptyGroup (groups : Entries (Option SourceKind) (List RenderedBullet))
    (key : Option SourceKind) : Option (Option SourceKind × List RenderedBullet) :=
  (get groups key).bind fun list => if 0 < list.length then some (key, list) else none

/-- `groupBulletsByKind`. -/
def groupBulletsByKind (bullets : List RenderedBullet) :
    List (Option SourceKind × List RenderedBullet) :=
  let groups := bullets.foldl addToGroup []
  (SOURCE_KIND_ORDER.filterMap fun kind => nonEmptyGroup groups (some kind)) ++
    (nonEmptyGroup groups none).toList

/-- Adding one to a number, which is a double. -/
def plusOne (n : ℕ) : ℕ := min (n + 1) (2 ^ 53)

/-- Count a bullet whose kind is known. -/
def countKind (counts : Entries SourceKind ℕ) (bullet : RenderedBullet) : Entries SourceKind ℕ :=
  match bullet.sourceKind with
  | some kind =>
    if kind ∈ SLICE_ORDER then set counts kind (plusOne ((get counts kind).getD 0)) else counts
  | none => counts

def sliceIndex (kind : SourceKind) : ℕ := SLICE_ORDER.idxOf kind

/-- The comparator: by count descending, then by the order of the slices. -/
def compareEntries (a b : SourceKind × ℕ) : ℤ :=
  if b.2 ≠ a.2 then (b.2 : ℤ) - a.2 else (sliceIndex a.1 : ℤ) - sliceIndex b.1

/-- `aggregateByKind`. -/
def aggregateByKind (sections : List RenderedSection) : List (SourceKind × ℕ) :=
  let counts := sections.foldl (fun counts section_ => section_.bullets.foldl countKind counts) []
  (counts.filter fun e => decide (0 < e.2)).insertionSort fun a b => compareEntries a b ≤ 0

end Preview

/-! ### What both show -/

def bulletsOf (kind : Option SourceKind) (bullets : List RenderedBullet) : List RenderedBullet :=
  bullets.filter fun b => decide (b.sourceKind = kind)

/-- How many bullets of a draft have a kind. -/
def attributed (draft : ReportDraft) (kind : SourceKind) : ℕ :=
  (bulletsOf (some kind) (draft.sections.flatMap (·.bullets))).length

/-- The size of the group of a kind. -/
def groupSize (kind : SourceKind) (bullets : List RenderedBullet) : ℕ :=
  (((Slots.groupBulletsByKind bullets).find? fun g => decide (g.1 = some kind)).map
    fun g => g.2.length).getD 0

/-- The groups of a section are the same in both, and hold every bullet once, in order. -/
structure SameGroups (bullets : List RenderedBullet) : Prop where
  same : Slots.groupBulletsByKind bullets = Preview.groupBulletsByKind bullets
  all : ((Slots.groupBulletsByKind bullets).flatMap Prod.snd).Perm bullets
  order : ∀ g ∈ Slots.groupBulletsByKind bullets, g.2 = bulletsOf g.1 bullets

/-- The counts of a draft are the same in both, and are those of its bullets. -/
structure SameCounts (draft : ReportDraft) : Prop where
  same : aggregateByKind draft = Preview.aggregateByKind draft.sections
  sum : ((aggregateByKind draft).map Prod.snd).sum =
    ((draft.sections.flatMap (·.bullets)).filter fun b => b.sourceKind.isSome).length
  sizes : ∀ kind, (((aggregateByKind draft).find? fun e => decide (e.1 = kind)).map
    Prod.snd).getD 0 = (draft.sections.map fun s => groupSize kind s.bullets).sum

/-! ### The groups -/

theorem bulletsOf_concat (kind : Option SourceKind) (bullets : List RenderedBullet)
    (b : RenderedBullet) : bulletsOf kind (bullets ++ [b]) =
      bulletsOf kind bullets ++ if b.sourceKind = kind then [b] else [] := by
  rw [bulletsOf, List.filter_append, bulletsOf]
  by_cases hb : b.sourceKind = kind <;> simp [hb]

/-- A push reaches the slot of the kind. -/
theorem push_map {ks : List SourceKind} (hks : ks.Nodup) (kind : SourceKind) (b : RenderedBullet)
    (f : SourceKind → List RenderedBullet) :
    Slots.push kind b (ks.map fun k => (some k, f k)) =
      ks.map fun k => (some k, f k ++ if kind = k then [b] else []) := by
  induction ks with
  | nil => rfl
  | cons k ks ih =>
    obtain ⟨hk, hks'⟩ := List.nodup_cons.mp hks
    rw [List.map_cons, Slots.push]
    by_cases hkind : k = kind
    · subst hkind
      rw [if_pos rfl, List.map_cons, if_pos rfl]
      congr 1
      apply List.map_congr_left
      intro l hl
      have hkl : k ≠ l := fun h => hk (h ▸ hl)
      rw [if_neg hkl, List.append_nil]
    · rw [if_neg fun h => hkind (Option.some.inj h), ih hks', List.map_cons,
        if_neg fun h => hkind h.symm, List.append_nil]

theorem foldl_step (bullets : List RenderedBullet) :
    bullets.foldl Slots.step (SourceKind.renderOrder.map fun k => (some k, []), []) =
      (SourceKind.renderOrder.map fun k => (some k, bulletsOf (some k) bullets),
        bulletsOf none bullets) := by
  induction bullets using List.reverseRecOn with
  | nil => rfl
  | append_singleton bullets b ih =>
    rw [List.foldl_concat, ih, Slots.step]
    cases hb : b.sourceKind with
    | none => simp [bulletsOf_concat, hb]
    | some kind =>
      simp only [push_map (by decide : SourceKind.renderOrder.Nodup), bulletsOf_concat, hb,
        Option.some.injEq, reduceCtorEq, if_false, List.append_nil]

/-- The groups of the sink are the parts of the section, in render order. -/
theorem slots_groupBulletsByKind (bullets : List RenderedBullet) :
    Slots.groupBulletsByKind bullets = Markdown.groupBulletsByKind bullets := by
  rw [Slots.groupBulletsByKind, foldl_step, Markdown.groupBulletsByKind]
  cases h : (bullets.filter fun b => decide (b.sourceKind = none)).isEmpty <;>
    simp [bulletsOf, h]

/-- The map of the preview has the parts of the section that are not empty. -/
theorem get_foldl_addToGroup (bullets : List RenderedBullet) (key : Option SourceKind) :
    InsertionMap.get (bullets.foldl Preview.addToGroup []) key =
      if bulletsOf key bullets = [] then none else some (bulletsOf key bullets) := by
  induction bullets using List.reverseRecOn generalizing key with
  | nil => rfl
  | append_singleton bullets b ih =>
    rw [List.foldl_concat, Preview.addToGroup, ih b.sourceKind, bulletsOf_concat]
    by_cases hkey : b.sourceKind = key
    · -- the bullet joins the others of its key, or is the first one
      subst hkey
      by_cases hnil : bulletsOf b.sourceKind bullets = []
      · simp [hnil, InsertionMap.get_set]
      · simp [hnil, InsertionMap.get_set]
    · by_cases hnil : bulletsOf b.sourceKind bullets = [] <;>
        simp [hnil, hkey, InsertionMap.get_set, ih key]

/-- The groups of the preview are the same parts. -/
theorem preview_groupBulletsByKind (bullets : List RenderedBullet) :
    Preview.groupBulletsByKind bullets = Markdown.groupBulletsByKind bullets := by
  have hgroup : ∀ key, Preview.nonEmptyGroup (bullets.foldl Preview.addToGroup []) key =
      if (bulletsOf key bullets).isEmpty then none else some (key, bulletsOf key bullets) := by
    intro key
    rw [Preview.nonEmptyGroup, get_foldl_addToGroup]
    cases h : bulletsOf key bullets <;> simp
  have hkinds : Preview.SOURCE_KIND_ORDER.filterMap (fun kind =>
        Preview.nonEmptyGroup (bullets.foldl Preview.addToGroup []) (some kind)) =
      (SourceKind.renderOrder.map fun k => (some k, bulletsOf (some k) bullets)).filter
        fun g => !g.2.isEmpty := by
    rw [← List.filterMap_eq_filter, List.filterMap_map]
    apply List.filterMap_congr
    intro kind _
    rw [hgroup, Function.comp_apply]
    cases h : (bulletsOf (some kind) bullets).isEmpty <;> simp [Option.guard, h]
  rw [Preview.groupBulletsByKind, Markdown.groupBulletsByKind]
  simp only [hkinds, hgroup none]
  congr 1
  cases h : (bulletsOf none bullets).isEmpty
  · rw [bulletsOf] at h
    simp [bulletsOf, h]
  · rw [bulletsOf] at h
    simp [h]

/-- The keys of the groups, in order. -/
def groupKeys : List (Option SourceKind) := SourceKind.renderOrder.map some ++ [none]

theorem mem_groupKeys (key : Option SourceKind) : key ∈ groupKeys := by
  cases key with
  | none => decide
  | some kind => cases kind <;> decide

/-- The groups are the parts of the keys that are not empty. -/
theorem groups_eq (bullets : List RenderedBullet) : Slots.groupBulletsByKind bullets =
    (groupKeys.map fun key => (key, bulletsOf key bullets)).filter fun g => !g.2.isEmpty := by
  rw [slots_groupBulletsByKind, Markdown.groupBulletsByKind, groupKeys, List.map_append,
    List.map_map, List.filter_append]
  congr 1
  cases h : (bulletsOf none bullets).isEmpty
  · rw [bulletsOf] at h
    simp [bulletsOf, h]
  · rw [bulletsOf] at h
    simp [bulletsOf, h]

theorem sameGroups (bullets : List RenderedBullet) : SameGroups bullets where
  same := (slots_groupBulletsByKind bullets).trans (preview_groupBulletsByKind bullets).symm
  all := by
    have hflat : (Slots.groupBulletsByKind bullets).flatMap Prod.snd =
        groupKeys.flatMap fun key => bulletsOf key bullets := by
      rw [groups_eq]
      generalize groupKeys = keys
      induction keys with
      | nil => rfl
      | cons key keys ih =>
        rw [List.map_cons, List.flatMap_cons]
        cases h : bulletsOf key bullets with
        | nil => rw [List.filter_cons_of_neg (by simp), ih, List.nil_append]
        | cons b bs => rw [List.filter_cons_of_pos (by simp), List.flatMap_cons, ih]
    rw [hflat]
    apply InsertionMap.flatMap_filter_perm_self RenderedBullet.sourceKind (by decide)
    exact fun b _ => mem_groupKeys b.sourceKind
  order := by
    intro g hg
    rw [groups_eq] at hg
    obtain ⟨key, -, rfl⟩ := List.mem_map.mp (List.mem_filter.mp hg).1
    rfl

/-! ### The counts -/

/-- What the slots of the sink hold of so many bullets. -/
def slotCount (n : ℕ) : ℕ := min n (2 ^ 32 - 1)

theorem foldl_countBullet (kinds : List SourceKind) :
    kinds.foldl countBullet (SourceKind.renderOrder.map fun k => (k, 0)) =
      SourceKind.renderOrder.map fun k => (k, slotCount (kinds.count k)) := by
  induction kinds using List.reverseRecOn with
  | nil => rfl
  | append_singleton kinds kind ih =>
    rw [List.foldl_concat, ih, countBullet, List.map_map]
    apply List.map_congr_left
    intro k _
    simp only [Function.comp_apply, List.count_append, List.count_singleton, beq_iff_eq,
      slotCount, saturatingSucc]
    by_cases hk : k = kind
    · subst hk
      rw [if_pos rfl, if_pos rfl]
      congr 1
      omega
    · rw [if_neg hk, if_neg fun h => hk h.symm, Nat.add_zero]

theorem count_filterMap_sourceKind (bullets : List RenderedBullet) (kind : SourceKind) :
    (bullets.filterMap (·.sourceKind)).count kind = (bulletsOf (some kind) bullets).length := by
  rw [List.count_filterMap, List.countP_eq_length_filter, bulletsOf]
  congr 1
  apply List.filter_congr
  intro b _
  exact Bool.eq_iff_iff.mpr (by simp)

/-- The counts of the sink before they are sorted. -/
theorem aggregateByKind_eq (draft : ReportDraft) : aggregateByKind draft =
    ((SourceKind.renderOrder.map fun k => (k, slotCount (attributed draft k))).filter
      fun e => decide (0 < e.2)).insertionSort fun a b => b.2 ≤ a.2 := by
  rw [aggregateByKind]
  simp only [foldl_countBullet, count_filterMap_sourceKind, attributed]

/-- The map of the preview has the counts of the kinds that occur. -/
theorem get_foldl_countKind (bullets : List RenderedBullet) (kind : SourceKind) :
    InsertionMap.get (bullets.foldl Preview.countKind []) kind =
      if bulletsOf (some kind) bullets = [] then none
      else some (min (bulletsOf (some kind) bullets).length (2 ^ 53)) := by
  induction bullets using List.reverseRecOn generalizing kind with
  | nil => rfl
  | append_singleton bullets b ih =>
    rw [List.foldl_concat, Preview.countKind, bulletsOf_concat]
    cases hb : b.sourceKind with
    | none => simpa using ih kind
    | some k =>
      have hk : k ∈ Preview.SLICE_ORDER := by cases k <;> decide
      simp only [if_pos hk, InsertionMap.get_set, Option.some.injEq]
      by_cases hkind : k = kind
      · subst hkind
        rw [if_pos rfl, if_pos rfl, ih k, Preview.plusOne]
        by_cases hnil : bulletsOf (some k) bullets = []
        · simp [hnil]
        · have hne : bulletsOf (some k) bullets ++ [b] ≠ [] := by simp
          rw [if_neg hnil, if_neg hne, Option.getD_some, List.length_append, List.length_singleton]
          congr 1
          omega
      · rw [if_neg hkind, if_neg hkind, List.append_nil, ih kind]

theorem distinct_foldl_countKind (bullets : List RenderedBullet) :
    KeyedMerge.Distinct Prod.fst (bullets.foldl Preview.countKind []) := by
  induction bullets using List.reverseRecOn with
  | nil => exact List.Pairwise.nil
  | append_singleton bullets b ih =>
    rw [List.foldl_concat, Preview.countKind]
    split
    · split_ifs
      · exact InsertionMap.distinct_set ih _ _
      · exact ih
    · exact ih

/-! ### The order of the counts -/

theorem sliceIndex_injective : Function.Injective Preview.sliceIndex := by
  intro a b
  cases a <;> cases b <;> decide

/-- The order of the comparator: by count descending, then by the order of the slices. -/
def Precedes (a b : SourceKind × ℕ) : Prop :=
  b.2 < a.2 ∨ (b.2 = a.2 ∧ Preview.sliceIndex a.1 ≤ Preview.sliceIndex b.1)

theorem compareEntries_le_iff (a b : SourceKind × ℕ) :
    Preview.compareEntries a b ≤ 0 ↔ Precedes a b := by
  unfold Preview.compareEntries Precedes
  split_ifs with h <;> omega

theorem Precedes.antisymm {a b : SourceKind × ℕ} (hab : Precedes a b) (hba : Precedes b a) :
    a = b := by
  unfold Precedes at hab hba
  have hcount : a.2 = b.2 := by omega
  have hindex : Preview.sliceIndex a.1 = Preview.sliceIndex b.1 := by omega
  exact Prod.ext (sliceIndex_injective hindex) hcount

/-- The preview sorts by the order of the comparator. -/
theorem pairwise_preview (entries : List (SourceKind × ℕ)) :
    (entries.insertionSort fun a b => Preview.compareEntries a b ≤ 0).Pairwise Precedes := by
  have : Std.Total fun a b : SourceKind × ℕ => Preview.compareEntries a b ≤ 0 := ⟨fun a b => by
    rw [compareEntries_le_iff, compareEntries_le_iff, Precedes, Precedes]
    omega⟩
  have : IsTrans (SourceKind × ℕ) fun a b => Preview.compareEntries a b ≤ 0 := ⟨fun a b c => by
    rw [compareEntries_le_iff, compareEntries_le_iff, compareEntries_le_iff, Precedes, Precedes,
      Precedes]
    omega⟩
  exact (List.pairwise_insertionSort _ entries).imp fun h => (compareEntries_le_iff _ _).mp h

theorem pairwise_orderedInsert {a : SourceKind × ℕ} {l : List (SourceKind × ℕ)}
    (hl : l.Pairwise Precedes) (ha : ∀ b ∈ l, Preview.sliceIndex a.1 < Preview.sliceIndex b.1) :
    (l.orderedInsert (fun a b => b.2 ≤ a.2) a).Pairwise Precedes := by
  induction l with
  | nil => exact List.pairwise_singleton _ _
  | cons b l ih =>
    obtain ⟨hb, hl'⟩ := List.pairwise_cons.mp hl
    rw [List.orderedInsert]
    split_ifs with hab
    · refine List.pairwise_cons.mpr ⟨fun c hc => ?_, hl⟩
      have hindex := ha c hc
      rcases List.mem_cons.mp hc with rfl | hc
      · unfold Precedes
        omega
      · have hbc := hb c hc
        unfold Precedes at hbc ⊢
        omega
    · refine List.pairwise_cons.mpr ⟨fun c hc => ?_,
        ih hl' fun c hc => ha c (List.mem_cons_of_mem _ hc)⟩
      rcases (List.mem_orderedInsert _).mp hc with rfl | hc
      · unfold Precedes
        omega
      · exact hb c hc

/-- The stable sort of the sink keeps the render order within a count. -/
theorem pairwise_sink {entries : List (SourceKind × ℕ)}
    (h : entries.Pairwise fun a b => Preview.sliceIndex a.1 < Preview.sliceIndex b.1) :
    (entries.insertionSort fun a b => b.2 ≤ a.2).Pairwise Precedes := by
  induction entries with
  | nil => exact List.Pairwise.nil
  | cons a entries ih =>
    obtain ⟨ha, hentries⟩ := List.pairwise_cons.mp h
    rw [List.insertionSort_cons]
    apply pairwise_orderedInsert (ih hentries)
    intro b hb
    exact ha b ((List.perm_insertionSort _ entries).mem_iff.mp hb)

/-! ### The two reports -/

/-- The counts of a draft in render order. -/
def kindCounts (draft : ReportDraft) : List (SourceKind × ℕ) :=
  (SourceKind.renderOrder.map fun k => (k, attributed draft k)).filter fun e => decide (0 < e.2)

theorem mem_kindCounts {draft : ReportDraft} {e : SourceKind × ℕ} :
    e ∈ kindCounts draft ↔ e.2 = attributed draft e.1 ∧ 0 < e.2 := by
  rw [kindCounts, List.mem_filter, List.mem_map, decide_eq_true_eq]
  constructor
  · rintro ⟨⟨k, -, rfl⟩, hpos⟩
    exact ⟨rfl, hpos⟩
  · rintro ⟨hcount, hpos⟩
    exact ⟨⟨e.1, SourceKind.mem_renderOrder e.1, Prod.ext rfl hcount.symm⟩, hpos⟩

theorem pairwise_kindCounts (draft : ReportDraft) : (kindCounts draft).Pairwise
    fun a b => Preview.sliceIndex a.1 < Preview.sliceIndex b.1 := by
  apply List.Pairwise.filter
  rw [List.pairwise_map]
  have horder : SourceKind.renderOrder.Pairwise
      fun a b => Preview.sliceIndex a < Preview.sliceIndex b := by decide
  exact horder

section Bounded

variable {draft : ReportDraft} (h : ∀ kind, attributed draft kind ≤ 2 ^ 32 - 1)

include h

theorem aggregateByKind_of_le :
    aggregateByKind draft = (kindCounts draft).insertionSort fun a b => b.2 ≤ a.2 := by
  have hslot : ∀ k, slotCount (attributed draft k) = attributed draft k := fun k =>
    Nat.min_eq_left (h k)
  simp only [aggregateByKind_eq, hslot, kindCounts]

/-- The preview sorts the same counts. -/
theorem preview_perm : (Preview.aggregateByKind draft.sections).Perm (kindCounts draft) := by
  rw [Preview.aggregateByKind]
  refine (List.perm_insertionSort _ _).trans ?_
  simp only [← List.foldl_flatMap]
  have hdistinct := distinct_foldl_countKind (draft.sections.flatMap (·.bullets))
  have hnodup : ((draft.sections.flatMap (·.bullets)).foldl Preview.countKind []).Nodup :=
    hdistinct.imp fun hne heq => hne (congrArg Prod.fst heq)
  have hnodup' : (kindCounts draft).Nodup := (pairwise_kindCounts draft).imp fun hlt heq => by
    rw [heq] at hlt
    exact lt_irrefl _ hlt
  apply (List.perm_ext_iff_of_nodup (hnodup.filter _) hnodup').mpr
  rintro ⟨kind, n⟩
  rw [List.mem_filter, InsertionMap.mem_iff_get hdistinct, get_foldl_countKind, mem_kindCounts,
    decide_eq_true_eq]
  have hlength : attributed draft kind =
      (bulletsOf (some kind) (draft.sections.flatMap (·.bullets))).length := rfl
  have hle := h kind
  rw [hlength] at hle ⊢
  by_cases hnil : bulletsOf (some kind) (draft.sections.flatMap (·.bullets)) = []
  · simp only [hnil, if_true, List.length_nil]
    constructor
    · rintro ⟨hsome, -⟩
      cases hsome
    · rintro ⟨hzero, hpos⟩
      omega
  · rw [if_neg hnil, Option.some.injEq]
    constructor
    · rintro ⟨hmin, hpos⟩
      exact ⟨by omega, hpos⟩
    · rintro ⟨hcount, hpos⟩
      dsimp only at hcount
      exact ⟨by omega, hpos⟩

/-- The two sort one list. -/
theorem aggregates_agree : aggregateByKind draft = Preview.aggregateByKind draft.sections := by
  have hsink := pairwise_sink (pairwise_kindCounts draft)
  have hperm := (List.perm_insertionSort (fun a b : SourceKind × ℕ => b.2 ≤ a.2)
    (kindCounts draft)).trans (preview_perm h).symm
  rw [aggregateByKind_of_le h]
  exact hperm.eq_of_pairwise (fun a b _ _ hab hba => hab.antisymm hba) hsink
    (pairwise_preview _)

theorem perm_aggregateByKind : (aggregateByKind draft).Perm (kindCounts draft) := by
  rw [aggregateByKind_of_le h]
  exact List.perm_insertionSort _ _

end Bounded

/-! ### Sums -/

theorem sum_filter_pos (l : List (SourceKind × ℕ)) :
    ((l.filter fun e => decide (0 < e.2)).map Prod.snd).sum = (l.map Prod.snd).sum := by
  induction l with
  | nil => rfl
  | cons e l ih =>
    by_cases he : 0 < e.2
    · rw [List.filter_cons_of_pos (by simpa using he), List.map_cons, List.sum_cons, ih,
        List.map_cons, List.sum_cons]
    · rw [List.filter_cons_of_neg (by simpa using he), ih, List.map_cons, List.sum_cons]
      omega

/-- The counts together are the bullets with a kind. -/
theorem sum_kindCounts (draft : ReportDraft) : ((kindCounts draft).map Prod.snd).sum =
    ((draft.sections.flatMap (·.bullets)).filter fun b => b.sourceKind.isSome).length := by
  have hperm := InsertionMap.flatMap_filter_perm RenderedBullet.sourceKind
    (by decide : (SourceKind.renderOrder.map some).Nodup) (draft.sections.flatMap (·.bullets))
  have hlength := hperm.length_eq
  rw [List.length_flatMap, List.map_map] at hlength
  rw [kindCounts, sum_filter_pos, List.map_map]
  refine hlength.trans (congrArg List.length (List.filter_congr fun b _ => ?_))
  cases hb : b.sourceKind with
  | none => simp
  | some kind => simpa using SourceKind.mem_renderOrder kind

/-- The group of a kind has the bullets of the kind. -/
theorem groupSize_eq (kind : SourceKind) (bullets : List RenderedBullet) :
    groupSize kind bullets = (bulletsOf (some kind) bullets).length := by
  have hgroups : KeyedMerge.Distinct Prod.fst (Slots.groupBulletsByKind bullets) := by
    rw [groups_eq]
    apply List.Pairwise.filter
    rw [List.pairwise_map]
    exact (by decide : groupKeys.Nodup)
  rw [groupSize]
  by_cases hnil : bulletsOf (some kind) bullets = []
  · have hnone : (Slots.groupBulletsByKind bullets).find? (fun g => decide (g.1 = some kind))
        = none := by
      rw [List.find?_eq_none]
      intro g hg hkind
      have hkey := of_decide_eq_true hkind
      rw [groups_eq, List.mem_filter] at hg
      obtain ⟨key, -, rfl⟩ := List.mem_map.mp hg.1
      have hempty := hg.2
      dsimp only at hkey
      subst hkey
      rw [hnil] at hempty
      cases hempty
    rw [hnone, hnil]
    rfl
  · have hmem : (some kind, bulletsOf (some kind) bullets) ∈ Slots.groupBulletsByKind bullets := by
      rw [groups_eq, List.mem_filter]
      exact ⟨List.mem_map.mpr ⟨some kind, mem_groupKeys _, rfl⟩, by simpa using hnil⟩
    have hfind := hgroups.find?_eq hmem
    dsimp only at hfind
    rw [hfind]
    rfl

theorem sameCounts {draft : ReportDraft} (h : ∀ kind, attributed draft kind ≤ 2 ^ 32 - 1) :
    SameCounts draft where
  same := aggregates_agree h
  sum := by
    rw [← sum_kindCounts]
    exact ((perm_aggregateByKind h).map _).sum_eq
  sizes := by
    intro kind
    have hsum : (draft.sections.map fun s => groupSize kind s.bullets).sum =
        attributed draft kind := by
      rw [attributed, bulletsOf, List.filter_flatMap, List.length_flatMap]
      congr 1
      apply List.map_congr_left
      intro s _
      exact groupSize_eq kind s.bullets
    have hmem : ∀ e, e ∈ aggregateByKind draft ↔ e.2 = attributed draft e.1 ∧ 0 < e.2 := fun e =>
      (perm_aggregateByKind h).mem_iff.trans mem_kindCounts
    rw [hsum]
    cases hfind : (aggregateByKind draft).find? fun e => decide (e.1 = kind) with
    | some e =>
      have hkind : e.1 = kind := by simpa using List.find?_some hfind
      rw [← hkind]
      exact ((hmem e).mp (List.mem_of_find?_eq_some hfind)).1
    | none =>
      -- a kind with a bullet has an entry
      by_contra hne
      have hpos : 0 < attributed draft kind := Nat.pos_of_ne_zero fun h0 => hne h0.symm
      have hin := (hmem (kind, attributed draft kind)).mpr ⟨rfl, hpos⟩
      exact absurd (decide_eq_true rfl) (List.find?_eq_none.mp hfind _ hin)

/-- A draft of one section, of which only the bullets matter. -/
def draftOf (bullets : List RenderedBullet) : ReportDraft where
  id := 0
  date := ⟨0⟩
  templateId := []
  templateVersion := []
  sections := [⟨"other".toList, "Other".toList, bullets⟩]
  evidence := []
  verboseMode := false
  generatedAt := 0

def githubBullet : RenderedBullet := ⟨"b".toList, "Merged".toList, some .gitHub⟩

/-- A slot of the sink holds no more than 32 bits. -/
theorem count_le_of_mem {draft : ReportDraft} {e : SourceKind × ℕ} (h : e ∈ aggregateByKind draft) :
    e.2 ≤ 2 ^ 32 - 1 := by
  rw [aggregateByKind_eq, (List.perm_insertionSort _ _).mem_iff, List.mem_filter] at h
  obtain ⟨k, -, rfl⟩ := List.mem_map.mp h.1
  exact Nat.min_le_right _ _

end Dayseam
