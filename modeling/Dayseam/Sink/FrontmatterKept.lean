import Dayseam.Sink.FrontmatterEntries
import Mathlib

/-!
# The lines that a merge keeps

A line survives when the merge writes it back as it stands: a line that is no
pair does, and a pair does when it is already spelled `key: value` and, for the
first line of an owned key, already carries the value of the save.

## Main definitions

* `KeepsMetadata` — every line but `generated_at` survives in order, and the
  only additions are missing owned keys.
* `Settled` — the lines need no rewriting.

## Main results

* `settled_of_survive`, `keeps_of_settled` — **the lines survive exactly when
  they are settled.**
* `not_keeps_of_leftover`, `keeps_of_dropped_iff` — a piece left inside the
  block, and a block that is dropped whole.
-/

namespace Dayseam
namespace Frontmatter

/-! ### What is to be kept -/

/-- The key that every save rewrites. -/
def generatedAtKey : Text := "generated_at".toList

/-- The keys that the sink sets. -/
def ownedKeys : List Text :=
  ["date".toList, "template".toList, "template_version".toList, generatedAtKey]

/-- The lines that a merge has to leave alone. -/
def userLines (ls : List Text) : List Text := ls.filter (topKey · ≠ some generatedAtKey)

/-- The number of `generated_at` lines. -/
def stampCount (ls : List Text) : ℕ := ls.countP (topKey · = some generatedAtKey)

/-- The lines `after` keep the user's metadata of `before`: every line but
`generated_at` is there and in order, and all else is one line for each owned
key that was missing. -/
structure KeepsMetadata (before after : List Text) : Prop where
  survive : (userLines before).Sublist after
  added : ∃ added, (userLines after).Perm (userLines before ++ added) ∧
    (∀ l ∈ added, ∃ k ∈ ownedKeys, topKey l = some k ∧ some k ∉ before.map topKey) ∧
    (added.map topKey).Nodup
  stamped : stampCount after ≤ max 1 (stampCount before)
  owned : ∀ k ∈ ownedKeys, some k ∈ after.map topKey

/-- The lines need no rewriting: a pair is spelled `key: value`, and the first
line of each key of `kvs` has the value of `kvs`. -/
structure Settled (kvs : List (Text × Text)) (ls : List Text) : Prop where
  spelled : ∀ l ∈ userLines ls, ∀ kv, splitKeyValue l = some kv → l = pairLine kv
  current : ∀ kv ∈ kvs, ∀ l, ls.find? (lineKey · = some kv.1) = some l → l = pairLine kv

/-- The pairs that a merge can set: distinct barewords other than
`generated_at`, with values of one line and no blanks before them. -/
structure Lasting (kvs : List (Text × Text)) : Prop where
  good : ∀ kv ∈ kvs, GoodKey kv.1
  flat : ∀ kv ∈ kvs, kv.2.trimStart.content = kv.2
  nodup : (kvs.map Prod.fst).Nodup
  notStamp : ∀ kv ∈ kvs, kv.1 ≠ generatedAtKey

theorem goodKey_generatedAt : GoodKey generatedAtKey :=
  ⟨by decide, Text.bareword (by decide), by decide, by decide⟩

theorem lineKey_of_topKey {l k : Text} (h : topKey l = some k) : lineKey l = some k := by
  unfold topKey at h
  split at h
  · cases h
  · exact h

theorem filter_map_line {es : List Entry} (h : ∀ e ∈ es, e.Good) (key : Option Text) :
    (es.map Entry.line).filter (lineKey · = key) = (withKey key es).map Entry.line := by
  rw [List.filter_map]
  congr 1
  refine List.filter_congr ?_
  intro e he
  simp only [Function.comp_apply, lineKey_line (h e he)]

theorem withKey_map_parseLine (key : Option Text) (ls : List Text) :
    withKey key (ls.map parseLine) = (ls.filter (lineKey · = key)).map parseLine := by
  rw [withKey, List.filter_map]
  congr 1
  refine List.filter_congr ?_
  intro l _
  simp only [Function.comp_apply, parseLine_key]

theorem map_parseLine_good (ls : List Text) : ∀ e ∈ ls.map parseLine, e.Good := by
  intro e he
  obtain ⟨l, -, rfl⟩ := List.mem_map.mp he
  exact parseLine_good l

theorem filter_userLines {key : Option Text} (h : key ≠ some generatedAtKey) (ls : List Text) :
    (userLines ls).filter (lineKey · = key) = ls.filter (lineKey · = key) := by
  rw [userLines, List.filter_filter]
  refine List.filter_congr ?_
  intro l _
  by_cases hl : lineKey l = key
  · have : topKey l ≠ some generatedAtKey := fun ht => h (hl ▸ lineKey_of_topKey ht)
    simp [hl, this]
  · simp [hl]

theorem line_parseLine {l : Text} {kv : Text × Text} (h : splitKeyValue l = some kv) :
    (parseLine l).line = pairLine kv := by
  rw [parseLine, h]
  rfl

theorem line_parseLine_of_none {l : Text} (h : splitKeyValue l = none) : (parseLine l).line = l := by
  rw [parseLine, h]
  rfl

theorem userLines_map_line {es : List Entry} (h : ∀ e ∈ es, e.Good) :
    userLines (es.map Entry.line) =
      (es.filter fun e => e.key? ≠ some generatedAtKey).map Entry.line := by
  rw [userLines, List.filter_map]
  congr 1
  refine List.filter_congr ?_
  intro e he
  simp only [Function.comp_apply, topKey_line (h e he)]

theorem stampCount_map_line {es : List Entry} (h : ∀ e ∈ es, e.Good) :
    stampCount (es.map Entry.line) = (withKey (some generatedAtKey) es).length := by
  rw [stampCount, List.countP_eq_length_filter, List.filter_map, List.length_map, withKey]
  congr 1
  refine List.filter_congr ?_
  intro e he
  simp only [Function.comp_apply, topKey_line (h e he)]

/-- The stamp changes no other entry. -/
theorem filter_ne_upsert (k v : Text) (es : List Entry) :
    (upsert k v es).filter (fun e => e.key? ≠ some k) = es.filter fun e => e.key? ≠ some k := by
  induction es with
  | nil => simp [upsert, Entry.key?]
  | cons e es ih =>
    cases e with
    | pair k' v' =>
      rw [upsert]
      split
      · next hk => subst hk; simp [Entry.key?]
      · rw [List.filter_cons, List.filter_cons, ih]
    | other raw => rw [upsert, List.filter_cons, List.filter_cons, ih]

/-- No settled line is indented and a pair. -/
theorem Settled.topKey_eq {kvs : List (Text × Text)} {ls : List Text} (h : Settled kvs ls) :
    ∀ l ∈ ls, topKey l = lineKey l := by
  intro l hl
  by_cases hgen : topKey l = some generatedAtKey
  · rw [hgen, lineKey_of_topKey hgen]
  cases hs : splitKeyValue l with
  | none =>
    have hn : lineKey l = none := by rw [lineKey, hs]; rfl
    rw [hn, topKey_of_lineKey_none hn]
  | some kv =>
    have heq := h.spelled l (List.mem_filter.mpr ⟨hl, by simpa using hgen⟩) kv hs
    have hk' : lineKey l = some kv.1 := by rw [lineKey, hs]; rfl
    rw [hk', heq, topKey_pairLine (splitKeyValue_spec (k := kv.1) (v := kv.2) hs).1]

/-! ### Lines that survive -/

section
variable {kvs : List (Text × Text)} (hk : Lasting kvs) (stamp : Text)
include hk

theorem Lasting.good_stamp : ∀ kv ∈ kvs ++ [(generatedAtKey, stamp)], GoodKey kv.1 := by
  intro kv hkv
  rcases List.mem_append.mp hkv with h | h
  · exact hk.good kv h
  · rw [List.mem_singleton.mp h]
    exact goodKey_generatedAt

theorem Lasting.nodup_stamp : ((kvs ++ [(generatedAtKey, stamp)]).map Prod.fst).Nodup := by
  rw [List.map_append, List.nodup_append]
  refine ⟨hk.nodup, by simp, ?_⟩
  intro a ha b hb
  obtain ⟨kv, hkv, rfl⟩ := List.mem_map.mp ha
  rw [List.map_singleton, List.mem_singleton] at hb
  rw [hb]
  exact hk.notStamp kv hkv

/-- **Only settled lines survive.**  Setting keys changes the lines of each key
separately and never their number, so the lines of a key that survive in order
are all of them. -/
theorem settled_of_survive {ls : List Text}
    (h : (userLines ls).Sublist
      ((upsertAll (kvs ++ [(generatedAtKey, stamp)]) (ls.map parseLine)).map Entry.line)) :
    Settled kvs ls := by
  have hgood := upsertAll_good (hk.good_stamp stamp) (map_parseLine_good ls)
  -- the surviving lines of one key
  have hkey : ∀ key, ((userLines ls).filter (lineKey · = key)).Sublist ((withKey key
      (upsertAll (kvs ++ [(generatedAtKey, stamp)]) (ls.map parseLine))).map Entry.line) := by
    intro key
    rw [← filter_map_line hgood]
    exact h.filter _
  have hset : ∀ k v, (k, v) ∈ kvs → ∀ l rest, ls.filter (lineKey · = some k) = l :: rest →
      l = pairLine (k, v) ∧ rest = rest.map (Entry.line ∘ parseLine) := by
    intro k v hkv l rest hl
    have hne : some k ≠ some generatedAtKey := by
      simpa using hk.notStamp _ hkv
    have := hkey (some k)
    rw [filter_userLines hne, withKey_upsertAll_of_mem (hk.nodup_stamp stamp)
      (List.mem_append_left _ hkv), withKey_map_parseLine, hl] at this
    have heq := this.eq_of_length (by simp)
    simp only [List.map_cons, List.tail_cons, List.map_map, List.cons.injEq] at heq
    exact heq
  have hmem : ∀ {l} {key : Option Text}, l ∈ userLines ls → lineKey l = key →
      l ∈ ls.filter (lineKey · = key) := by
    intro l key hl hlk
    exact List.mem_filter.mpr ⟨(List.mem_filter.mp hl).1, by simpa using hlk⟩
  constructor
  · rintro l hl ⟨k, v⟩ hs
    have hlk : lineKey l = some k := by rw [lineKey, hs]; rfl
    have hfix : ∀ {rest : List Text}, l ∈ rest → rest = rest.map (Entry.line ∘ parseLine) →
        l = pairLine (k, v) := by
      intro rest hm hrest
      have : (Entry.line ∘ parseLine) l = id l :=
        List.map_inj_left.mp (by rw [List.map_id]; exact hrest.symm) l hm
      rw [← line_parseLine hs]
      exact this.symm
    by_cases hgen : k = generatedAtKey
    · -- an indented `generated_at` line: every stamp is written at the top level
      exfalso
      subst hgen
      have hsub := (hkey (some generatedAtKey)).subset
        (List.mem_filter.mpr ⟨hl, by simpa using hlk⟩)
      obtain ⟨e, he, rfl⟩ := List.mem_map.mp hsub
      obtain ⟨he, hek⟩ := List.mem_filter.mp he
      have htop := topKey_line (hgood e he)
      rw [of_decide_eq_true hek] at htop
      exact (by simpa using (List.mem_filter.mp hl).2 : ¬ _) htop
    · by_cases hown : ∃ w, (k, w) ∈ kvs
      · obtain ⟨w, hw⟩ := hown
        have hm := hmem hl hlk
        rcases hf : ls.filter (lineKey · = some k) with _ | ⟨l0, rest⟩
        · rw [hf] at hm; cases hm
        · obtain ⟨h0, hrest⟩ := hset k w hw l0 rest hf
          rw [hf] at hm
          rcases List.mem_cons.mp hm with rfl | hm
          · rw [h0, splitKeyValue_pairLine (hk.good _ hw), hk.flat _ hw] at hs
            cases hs
            exact h0
          · exact hfix hm hrest
      · have hnot : ∀ kv ∈ kvs ++ [(generatedAtKey, stamp)], some k ≠ some kv.1 := by
          rintro kv hkv he
          rcases List.mem_append.mp hkv with hkv | hkv
          · exact hown ⟨kv.2, by rw [Option.some.inj he]; exact hkv⟩
          · rw [List.mem_singleton.mp hkv] at he
            exact hgen (Option.some.inj he)
        have := hkey (some k)
        rw [filter_userLines (by simpa using hgen), withKey_upsertAll_of_notMem hnot,
          withKey_map_parseLine, List.map_map] at this
        exact hfix (hmem hl hlk) (this.eq_of_length (by simp))
  · rintro ⟨k, v⟩ hkv l hl
    rw [← List.head?_filter] at hl
    rcases hf : ls.filter (lineKey · = some k) with _ | ⟨l0, rest⟩
    · rw [hf] at hl; cases hl
    · rw [hf] at hl
      cases hl
      exact (hset k v hkv l rest hf).1

/-! ### Settled lines survive -/

theorem Settled.entries {ls : List Text} (h : Settled kvs ls) :
    ∀ kv ∈ kvs, withKey (some kv.1) (ls.map parseLine) = [] ∨
      (withKey (some kv.1) (ls.map parseLine)).head? = some (.pair kv.1 kv.2) := by
  intro kv hkv
  rw [withKey_map_parseLine]
  rcases hf : ls.filter (lineKey · = some kv.1) with _ | ⟨l, rest⟩
  · exact Or.inl rfl
  · right
    have hl := h.current kv hkv l (by rw [← List.head?_filter, hf]; rfl)
    have hs := splitKeyValue_pairLine (hk.good kv hkv) kv.2
    rw [hk.flat kv hkv] at hs
    simp [hl, parseLine, hs]

/-- Every owned key is set. -/
theorem owned_upsertAll {es : List Entry} (hes : ∀ e ∈ es, e.Good)
    (hkeys : kvs.map Prod.fst ++ [generatedAtKey] = ownedKeys) : ∀ k ∈ ownedKeys,
    some k ∈ ((upsertAll (kvs ++ [(generatedAtKey, stamp)]) es).map Entry.line).map topKey := by
  intro k hkm
  rw [← hkeys] at hkm
  obtain ⟨v, h⟩ : ∃ v, (k, v) ∈ kvs ++ [(generatedAtKey, stamp)] := by
    rcases List.mem_append.mp hkm with h | h
    · obtain ⟨kv, hkv, rfl⟩ := List.mem_map.mp h
      exact ⟨kv.2, List.mem_append_left _ hkv⟩
    · rw [List.mem_singleton.mp h]
      exact ⟨stamp, by simp⟩
  have hm : Entry.pair k v ∈
      withKey (some k) (upsertAll (kvs ++ [(generatedAtKey, stamp)]) es) := by
    rw [withKey_upsertAll_of_mem (hk.nodup_stamp stamp) h]
    simp
  obtain ⟨hm, -⟩ := List.mem_filter.mp hm
  have hg := upsertAll_good (hk.good_stamp stamp) hes _ hm
  rw [List.map_map, List.mem_map]
  exact ⟨_, hm, topKey_line hg⟩

/-- **Settled lines survive**, and only missing keys are added. -/
theorem keeps_of_settled {ls : List Text} (h : Settled kvs ls)
    (hkeys : kvs.map Prod.fst ++ [generatedAtKey] = ownedKeys) :
    KeepsMetadata ls
      ((upsertAll (kvs ++ [(generatedAtKey, stamp)]) (ls.map parseLine)).map Entry.line) := by
  have hgood := upsertAll_good (hk.good_stamp stamp) (map_parseLine_good ls)
  have htop := h.topKey_eq
  let added := (kvs.filter fun kv => withKey (some kv.1) (ls.map parseLine) = [])
  have hall : upsertAll (kvs ++ [(generatedAtKey, stamp)]) (ls.map parseLine) =
      upsert generatedAtKey stamp (ls.map parseLine ++ added.map fun kv => .pair kv.1 kv.2) := by
    rw [upsertAll_append, upsertAll_of_settled hk.nodup (h.entries hk)]
    rfl
  have haddmem : ∀ kv ∈ added, kv ∈ kvs := fun kv hkv => (List.mem_filter.mp hkv).1
  -- the lines of the user are those of the entries with another key
  have huser : userLines ((upsertAll (kvs ++ [(generatedAtKey, stamp)])
      (ls.map parseLine)).map Entry.line) = userLines ls ++ added.map pairLine := by
    rw [userLines_map_line hgood, hall, filter_ne_upsert, List.filter_append, List.map_append]
    congr 1
    · rw [List.filter_map, List.map_map, userLines]
      have hcond : ls.filter ((fun e => decide (e.key? ≠ some generatedAtKey)) ∘ parseLine) =
          ls.filter (topKey · ≠ some generatedAtKey) := by
        refine List.filter_congr ?_
        intro l hl
        simp only [Function.comp_apply, parseLine_key, htop l hl]
      rw [hcond]
      conv_rhs => rw [← List.map_id (ls.filter (topKey · ≠ some generatedAtKey))]
      refine List.map_inj_left.mpr ?_
      intro l hl
      cases hs : splitKeyValue l with
      | none => exact line_parseLine_of_none hs
      | some kv => exact (line_parseLine hs).trans (h.spelled l hl kv hs).symm
    · rw [List.filter_eq_self.mpr, List.map_map]
      · rfl
      · intro e he
        obtain ⟨kv, hkv, rfl⟩ := List.mem_map.mp he
        simpa [Entry.key?] using hk.notStamp kv (haddmem kv hkv)
  have htopAdded : ∀ kv ∈ added, topKey (pairLine kv) = some kv.1 :=
    fun kv hkv => topKey_pairLine (hk.good kv (haddmem kv hkv)) kv.2
  refine ⟨?_, ⟨added.map pairLine, ?_, ?_, ?_⟩, ?_, ?_⟩
  · refine List.Sublist.trans ?_ (List.filter_sublist (p := (topKey · ≠ some generatedAtKey)))
    change (userLines ls).Sublist (userLines _)
    rw [huser]
    exact List.sublist_append_left ..
  · rw [huser]
  · intro l hl
    obtain ⟨kv, hkv, rfl⟩ := List.mem_map.mp hl
    refine ⟨kv.1, ?_, htopAdded kv hkv, ?_⟩
    · rw [← hkeys]
      exact List.mem_append_left _ (List.mem_map.mpr ⟨kv, haddmem kv hkv, rfl⟩)
    · intro hm
      obtain ⟨l, hl, htl⟩ := List.mem_map.mp hm
      have habs : withKey (some kv.1) (ls.map parseLine) = [] := by
        simpa using (List.mem_filter.mp hkv).2
      rw [withKey_map_parseLine, List.map_eq_nil_iff] at habs
      have : l ∈ ls.filter (lineKey · = some kv.1) :=
        List.mem_filter.mpr ⟨hl, by simpa using lineKey_of_topKey htl⟩
      rw [habs] at this
      cases this
  · have : (added.map pairLine).map topKey = (added.map Prod.fst).map some := by
      rw [List.map_map, List.map_map]
      exact List.map_congr_left htopAdded
    rw [this]
    have hnd : (added.map Prod.fst).Nodup := hk.nodup.sublist (List.filter_sublist.map _)
    exact List.Nodup.map (fun _ _ => Option.some.inj) hnd
  · have hst : stampCount ((upsertAll (kvs ++ [(generatedAtKey, stamp)])
        (ls.map parseLine)).map Entry.line) = 1 + (stampCount ls - 1) := by
      rw [stampCount_map_line hgood, withKey_upsertAll_of_mem (hk.nodup_stamp stamp)
        (List.mem_append_right kvs (List.mem_singleton.mpr rfl)), withKey_map_parseLine]
      have : stampCount ls = (ls.filter (lineKey · = some generatedAtKey)).length := by
        rw [stampCount, List.countP_eq_length_filter]
        congr 1
        refine List.filter_congr ?_
        intro l hl
        rw [htop l hl]
      rw [this]
      simp only [List.length_cons, List.length_tail, List.length_map]
      omega
    omega
  · exact owned_upsertAll hk stamp (map_parseLine_good ls) hkeys

/-! ### Lines that are lost or left over -/

/-- A line left over that is no pair is an addition of nobody's. -/
theorem not_keeps_of_leftover {ls : List Text} {cut : Text} (hcut : splitKeyValue cut = none) :
    ¬ KeepsMetadata ls ((upsertAll (kvs ++ [(generatedAtKey, stamp)])
      ((ls ++ [cut]).map parseLine)).map Entry.line) := by
  intro h
  obtain ⟨added, hperm, hadd, -⟩ := h.added
  have hgood := upsertAll_good (hk.good_stamp stamp) (map_parseLine_good (ls ++ [cut]))
  have hnone : (none : Option Text) ≠ some generatedAtKey := by simp
  -- count the lines that are no pairs on both sides
  have hlen := (hperm.filter (lineKey · = none)).length_eq
  rw [filter_userLines hnone, filter_map_line hgood,
    withKey_upsertAll_of_notMem (fun _ _ => by simp), withKey_map_parseLine,
    List.filter_append, List.filter_append, filter_userLines hnone] at hlen
  have hc : [cut].filter (lineKey · = none) = [cut] := by simp [lineKey, hcut]
  have ha : added.filter (lineKey · = none) = [] := by
    rw [List.filter_eq_nil_iff]
    intro l hl
    obtain ⟨k, -, hkl, -⟩ := hadd l hl
    simp [lineKey_of_topKey hkl]
  rw [hc, ha] at hlen
  simp only [List.length_map, List.length_append, List.length_cons, List.length_nil] at hlen
  omega

theorem upsertAll_nil : upsertAll (kvs ++ [(generatedAtKey, stamp)]) [] =
    (kvs ++ [(generatedAtKey, stamp)]).map fun kv => .pair kv.1 kv.2 := by
  rw [upsertAll_of_settled (hk.nodup_stamp stamp) (fun _ _ => Or.inl rfl)]
  simp [withKey]

/-- **When every line is dropped**, the metadata are kept if the merge itself
writes all of them. -/
theorem keeps_of_dropped_iff {ls : List Text}
    (hkeys : kvs.map Prod.fst ++ [generatedAtKey] = ownedKeys) :
    KeepsMetadata ls ((upsertAll (kvs ++ [(generatedAtKey, stamp)]) []).map Entry.line) ↔
      (userLines ls).Sublist (kvs.map pairLine) := by
  have hgood := upsertAll_good (hk.good_stamp stamp) (fun e (he : e ∈ []) => by cases he)
  have htop : ∀ kv ∈ kvs, topKey (pairLine kv) = some kv.1 :=
    fun kv hkv => topKey_pairLine (hk.good kv hkv) kv.2
  have hlines : (upsertAll (kvs ++ [(generatedAtKey, stamp)]) []).map Entry.line =
      kvs.map pairLine ++ [pairLine (generatedAtKey, stamp)] := by
    rw [upsertAll_nil hk]
    simp only [List.map_map, List.map_append, List.map_cons, List.map_nil]
    rfl
  have huser : userLines (kvs.map pairLine ++ [pairLine (generatedAtKey, stamp)]) =
      kvs.map pairLine := by
    rw [userLines, List.filter_append, List.filter_eq_self.mpr]
    · simp [topKey_pairLine goodKey_generatedAt]
    · intro l hl
      obtain ⟨kv, hkv, rfl⟩ := List.mem_map.mp hl
      simpa [htop kv hkv] using hk.notStamp kv hkv
  constructor
  · intro h
    have := h.survive.filter (topKey · ≠ some generatedAtKey)
    rw [hlines] at this
    have hidem : userLines (userLines ls) = userLines ls := by simp [userLines]
    rw [← hidem, ← huser]
    exact this
  · intro h
    obtain ⟨added, hperm⟩ := h.exists_perm_append
    have hkeysnd : ((userLines ls ++ added).map topKey).Nodup := by
      refine ((hperm.map topKey).nodup_iff).mp ?_
      have : (kvs.map pairLine).map topKey = (kvs.map Prod.fst).map some := by
        rw [List.map_map, List.map_map]
        exact List.map_congr_left htop
      rw [this]
      exact List.Nodup.map (fun _ _ => Option.some.inj) hk.nodup
    rw [List.map_append, List.nodup_append] at hkeysnd
    have hmem : ∀ l ∈ added, ∃ kv ∈ kvs, pairLine kv = l :=
      fun l hl => List.mem_map.mp (hperm.mem_iff.mpr (List.mem_append_right _ hl))
    refine ⟨?_, ⟨added, ?_, ?_, hkeysnd.2.1⟩, ?_, ?_⟩
    · rw [hlines]
      exact h.trans (List.sublist_append_left ..)
    · rw [hlines, huser]
      exact hperm
    · intro l hl
      obtain ⟨kv, hkv, rfl⟩ := hmem l hl
      refine ⟨kv.1, ?_, htop kv hkv, ?_⟩
      · rw [← hkeys]
        exact List.mem_append_left _ (List.mem_map.mpr ⟨kv, hkv, rfl⟩)
      · intro hm
        obtain ⟨l, hl', htl⟩ := List.mem_map.mp hm
        have hu : l ∈ userLines ls :=
          List.mem_filter.mpr ⟨hl', by simpa [htl] using hk.notStamp kv hkv⟩
        exact hkeysnd.2.2 _ (List.mem_map.mpr ⟨l, hu, htl⟩) _
          (List.mem_map.mpr ⟨_, hl, htop kv hkv⟩) rfl
    · rw [stampCount_map_line hgood, withKey_upsertAll_of_mem (hk.nodup_stamp stamp)
        (List.mem_append_right kvs (List.mem_singleton.mpr rfl))]
      simp only [withKey, List.filter_nil, List.tail_nil, List.length_cons, List.length_nil]
      omega
    · exact owned_upsertAll hk stamp (fun _ h => by cases h) hkeys

end

end Frontmatter
end Dayseam
