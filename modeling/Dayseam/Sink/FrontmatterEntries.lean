import Dayseam.Sink.Frontmatter
import Mathlib

/-!
# The entries of a frontmatter block

How the lines of a block become entries and back, and what setting a key does
to them: it replaces the value of the first entry of that key, or adds one entry
at the end, and leaves the entries of every other key alone.

## Main definitions

* `lineKey`, `topKey` — the key that the merge reads in a line, and the key of a
  line that is not indented.
* `withKey` — the entries of one key.
* `upsertAll` — several keys set, in order.

## Main results

* `splitKeyValue_spec` — what is read as a pair.
* `withKey_upsertAll_of_mem`, `withKey_upsertAll_of_notMem` — the entries of one
  key after setting several.
* `upsertAll_of_settled` — setting keys that are settled or absent.
-/

namespace Dayseam
namespace Frontmatter

/-! ### Keys of lines -/

/-- The key that the merge reads in a line. -/
def lineKey (line : Text) : Option Text := (splitKeyValue line).map Prod.fst

/-- A bareword that `splitKeyValue` can return. -/
structure GoodKey (k : Text) : Prop where
  ne_nil : k ≠ []
  bare : ∀ c ∈ k, Text.isWhitespace c = false
  colon : ':' ∉ k
  hash : ¬ ['#'] <+: k

/-- The line `key: value`. -/
def pairLine (kv : Text × Text) : Text := kv.1 ++ ':' :: ' ' :: kv.2

theorem trimStart_of_bare {k : Text} (h : ∀ c ∈ k, Text.isWhitespace c = false) (hk : k ≠ [])
    (t : Text) : Text.trimStart (k ++ t) = k ++ t := by
  cases k with
  | nil => exact absurd rfl hk
  | cons c k => exact Text.trimStart_cons_of_not (h c (by simp)) _

/-- A pair is read back from its line. -/
theorem splitKeyValue_pairLine {k : Text} (hk : GoodKey k) (v : Text) :
    splitKeyValue (pairLine (k, v)) = some (k, v.trimStart.content) := by
  have htrim : Text.trimStart (pairLine (k, v)) = k ++ ':' :: ' ' :: v :=
    trimStart_of_bare hk.bare hk.ne_nil _
  have hne : k ++ ':' :: ' ' :: v ≠ [] := by simp
  have hhash : ['#'].isPrefixOf (k ++ ':' :: ' ' :: v) = false := by
    rw [Bool.eq_false_iff]
    intro h
    rw [List.isPrefixOf_iff_prefix] at h
    obtain ⟨c, k, rfl⟩ : ∃ c k', k = c :: k' := List.exists_cons_of_ne_nil hk.ne_nil
    apply hk.hash
    simpa using h
  have hblank : Text.trimStart (' ' :: v) = v.trimStart :=
    @Text.trimStart_append_of_all [' '] (List.all_eq_true.1 (by decide)) v
  have hany : k.any Text.isWhitespace = false := by simpa using hk.bare
  simp only [splitKeyValue, htrim, hhash, hne, Bool.false_eq_true, or_self, if_false,
    Text.splitFirst_append hk.colon, Text.trim_of_forall_not hk.bare, hk.ne_nil, hany, hblank]
  rfl

/-- What `splitKeyValue` returns: a bareword, and a value without blanks around it. -/
theorem splitKeyValue_spec {l k v : Text} (h : splitKeyValue l = some (k, v)) :
    GoodKey k ∧ v.trimStart.content = v ∧ (Text.NoNewline l → Text.NoNewline v) := by
  rw [splitKeyValue] at h
  split at h
  · cases h
  next hcond =>
  split at h
  · cases h
  next key rest hs =>
  simp only at h
  split at h
  · cases h
  next hkey =>
  simp only [Option.some.injEq, Prod.mk.injEq] at h
  obtain ⟨rfl, rfl⟩ := h
  simp only [not_or, Bool.not_eq_true] at hcond hkey
  obtain ⟨hcolon, ht⟩ := Text.splitFirst_eq_some_iff.mp hs
  refine ⟨⟨hkey.1, ?_, ?_, ?_⟩, ?_, ?_⟩
  · simpa using hkey.2
  · exact fun hc => hcolon (Text.mem_of_mem_trim hc)
  · -- the first character of the key is the first one of the trimmed line
    intro hhash
    have hpre : key.trim <+: key := by
      have := Text.trim_isPrefix key
      rwa [Text.trimStart_of_isPrefix (s := key) (t := l) ⟨_, ht.symm⟩] at this
    have := hhash.trans (hpre.trans ⟨_, ht.symm⟩)
    rw [← List.isPrefixOf_iff_prefix, hcond.1] at this
    cases this
  · have hpre : Text.content rest.trimStart <+: rest.trimStart := List.rdropWhile_prefix _ _
    change Text.content (Text.trimStart (Text.content rest.trimStart)) = _
    rw [Text.trimStart_of_isPrefix hpre]
    exact List.rdropWhile_idempotent _ _
  · intro hl hn
    have h1 : '\n' ∈ rest.trimStart := (List.rdropWhile_prefix _ _).subset hn
    have h2 : '\n' ∈ rest := (List.dropWhile_suffix _).subset h1
    have h3 : '\n' ∈ l.trimStart := by rw [ht]; simp [h2]
    exact hl ((List.dropWhile_suffix _).subset h3)

/-- The terminators at its end make no difference to the pair of a line. -/
theorem splitKeyValue_content (l : Text) : splitKeyValue l.content = splitKeyValue l := by
  obtain ⟨w, hw, hl⟩ := Text.exists_terminator l
  have hws : ∀ c ∈ w, Text.isWhitespace c = true :=
    fun c hc => Text.isWhitespace_of_isTerminator (hw c hc)
  have hcolon : ':' ∉ w := fun h => by have := hw _ h; revert this; decide
  have hhash : '#' ∉ w := fun h => by have := hw _ h; revert this; decide
  generalize l.content = u at hl
  subst hl
  by_cases hu : u.trimStart = []
  · have hall := Text.all_of_trimStart_eq_nil hu
    have : Text.trimStart (u ++ w) = [] := by
      rw [Text.trimStart_append_of_all hall]
      simpa [Text.trimStart] using hws
    simp [splitKeyValue, hu, this]
  · have ht : Text.trimStart (u ++ w) = u.trimStart ++ w :=
      Text.trimStart_append_of_ne_nil hu w
    have hpre : ['#'].isPrefixOf (u.trimStart ++ w) = ['#'].isPrefixOf u.trimStart := by
      cases hs : u.trimStart with
      | nil => exact absurd hs hu
      | cons c s => simp [List.isPrefixOf]
    have hne : u.trimStart ++ w ≠ [] := by simp [hu]
    simp only [splitKeyValue, ht, hpre, hu, hne, or_false]
    split
    · rfl
    cases hs : u.trimStart.splitFirst ':' with
    | none =>
      have hn := Text.splitFirst_eq_none_iff.mp hs
      have : (u.trimStart ++ w).splitFirst ':' = none :=
        Text.splitFirst_eq_none_iff.mpr (by simp [hn, hcolon])
      rw [this]
    | some p =>
      obtain ⟨a, b⟩ := p
      obtain ⟨ha, hab⟩ := Text.splitFirst_eq_some_iff.mp hs
      have hrest : (u.trimStart ++ w).splitFirst ':' = some (a, b ++ w) :=
        Text.splitFirst_eq_some_iff.mpr ⟨ha, by simp [hab]⟩
      have hval : Text.content (Text.trimStart (b ++ w)) = Text.content b.trimStart := by
        by_cases hb : b.trimStart = []
        · have : Text.trimStart (b ++ w) = [] := by
            rw [Text.trimStart_append_of_all (Text.all_of_trimStart_eq_nil hb)]
            simpa [Text.trimStart] using hws
          rw [this, hb]
        · rw [Text.trimStart_append_of_ne_nil hb, Text.content_append_of_all hw]
      rw [hrest]
      change _ = if _ then none else some (a.trim, Text.content (Text.trimStart (b ++ w)))
      rw [hval]
      rfl

/-! ### Entries and their keys -/

def Entry.key? : Entry → Option Text
  | .pair k _ => some k
  | .other _ => none

/-- The entry reads back with its own key. -/
def Entry.Good : Entry → Prop
  | .pair k _ => GoodKey k
  | .other raw => splitKeyValue raw = none

/-- The key of a line at the top level: an indented line has none. -/
def topKey (line : Text) : Option Text :=
  if line.head?.any Text.isWhitespace then none else lineKey line

theorem parseLine_good (l : Text) : (parseLine l).Good := by
  unfold parseLine
  cases h : splitKeyValue l with
  | none => exact h
  | some kv => exact (splitKeyValue_spec h).1

theorem parseLine_key (l : Text) : (parseLine l).key? = lineKey l := by
  unfold parseLine lineKey
  cases splitKeyValue l <;> rfl

theorem lineKey_line {e : Entry} (h : e.Good) : lineKey e.line = e.key? := by
  cases e with
  | pair k v => simp only [lineKey, Entry.line, ← pairLine.eq_1 (k, v), splitKeyValue_pairLine h]; rfl
  | other raw => simp only [lineKey, Entry.line, Entry.key?]; rw [h]; rfl

theorem topKey_of_lineKey_none {l : Text} (h : lineKey l = none) : topKey l = none := by
  unfold topKey
  split
  · rfl
  · exact h

theorem topKey_pairLine {k : Text} (hk : GoodKey k) (v : Text) :
    topKey (pairLine (k, v)) = some k := by
  obtain ⟨c, k, rfl⟩ : ∃ c k', k = c :: k' := List.exists_cons_of_ne_nil hk.ne_nil
  have hc : Text.isWhitespace c = false := hk.bare c (by simp)
  have hl : lineKey (pairLine (c :: k, v)) = some (c :: k) := by
    rw [lineKey, splitKeyValue_pairLine hk]
    rfl
  rw [topKey, hl]
  simp [pairLine, hc]

/-- An entry is written at the top level. -/
theorem topKey_line {e : Entry} (h : e.Good) : topKey e.line = e.key? := by
  cases e with
  | pair k v => exact topKey_pairLine h v
  | other raw => exact topKey_of_lineKey_none (lineKey_line h)

/-! ### Setting a key -/

/-- The entries with a given key. -/
def withKey (key : Option Text) (es : List Entry) : List Entry := es.filter (·.key? = key)

theorem withKey_append (key : Option Text) (es fs : List Entry) :
    withKey key (es ++ fs) = withKey key es ++ withKey key fs :=
  List.filter_append ..

/-- The entries of the other keys stay. -/
theorem withKey_upsert_of_ne {key : Option Text} {k : Text} (h : key ≠ some k) (v : Text)
    (es : List Entry) : withKey key (upsert k v es) = withKey key es := by
  induction es with
  | nil => simp [withKey, upsert, Entry.key?, Ne.symm h]
  | cons e es ih =>
    cases e with
    | pair k' v' =>
      rw [upsert]
      split
      · next hk => subst hk; simp [withKey, Entry.key?, Ne.symm h]
      · simp only [withKey, List.filter_cons] at ih ⊢
        rw [ih]
    | other raw =>
      simp only [upsert, withKey, List.filter_cons] at ih ⊢
      rw [ih]

/-- The first entry of the key is replaced. -/
theorem withKey_upsert_self (k v : Text) (es : List Entry) :
    withKey (some k) (upsert k v es) = .pair k v :: (withKey (some k) es).tail := by
  induction es with
  | nil => simp [withKey, upsert, Entry.key?]
  | cons e es ih =>
    cases e with
    | pair k' v' =>
      rw [upsert]
      split
      · next hk => subst hk; simp [withKey, Entry.key?]
      · next hk =>
        simp only [withKey, List.filter_cons, Entry.key?, Option.some.injEq, hk, decide_false,
          Bool.false_eq_true, if_false] at ih ⊢
        exact ih
    | other raw =>
      simp only [upsert, withKey, List.filter_cons, Entry.key?, reduceCtorEq, decide_false,
        Bool.false_eq_true, if_false] at ih ⊢
      exact ih

theorem upsert_good {k v : Text} (hk : GoodKey k) {es : List Entry} (h : ∀ e ∈ es, e.Good) :
    ∀ e ∈ upsert k v es, e.Good := by
  induction es with
  | nil =>
    intro e he
    rw [List.mem_singleton.mp he]
    exact hk
  | cons e es ih =>
    have he : e.Good := h e (by simp)
    have hes := ih fun e he => h e (by simp [he])
    cases e with
    | pair k' v' =>
      rw [upsert]
      split
      · intro e' he'
        rcases List.mem_cons.mp he' with rfl | he'
        · exact he
        · exact h e' (by simp [he'])
      · exact List.forall_mem_cons.mpr ⟨he, hes⟩
    | other raw => exact List.forall_mem_cons.mpr ⟨he, hes⟩

/-- Setting a key that no entry has adds the pair at the end. -/
theorem upsert_of_absent {k : Text} (v : Text) {es : List Entry} (h : withKey (some k) es = []) :
    upsert k v es = es ++ [.pair k v] := by
  induction es with
  | nil => rfl
  | cons e es ih =>
    simp only [withKey, List.filter_cons] at h ih
    split at h
    · cases h
    next hk =>
    cases e with
    | pair k' v' =>
      rw [upsert, if_neg (by simpa [Entry.key?] using hk), ih h]
      rfl
    | other raw => rw [upsert, ih h]; rfl

/-- Setting a key to the value that its first entry has changes nothing. -/
theorem upsert_of_settled {k v : Text} {es : List Entry}
    (h : (withKey (some k) es).head? = some (.pair k v)) : upsert k v es = es := by
  induction es with
  | nil => cases h
  | cons e es ih =>
    simp only [withKey, List.filter_cons] at h ih
    cases e with
    | pair k' v' =>
      rw [upsert]
      split
      · next hk =>
        subst hk
        have hv : v' = v := by simpa [Entry.key?] using h
        rw [hv]
      · next hk => rw [ih (by simpa [Entry.key?, hk] using h)]
    | other raw => rw [upsert, ih (by simpa [Entry.key?] using h)]

/-! ### Setting several keys -/

/-- The entries with every pair of `kvs` set, in order. -/
def upsertAll (kvs : List (Text × Text)) (es : List Entry) : List Entry :=
  kvs.foldl (fun es kv => upsert kv.1 kv.2 es) es

theorem upsertAll_cons (kv : Text × Text) (kvs : List (Text × Text)) (es : List Entry) :
    upsertAll (kv :: kvs) es = upsertAll kvs (upsert kv.1 kv.2 es) := rfl

theorem upsertAll_append (kvs kvs' : List (Text × Text)) (es : List Entry) :
    upsertAll (kvs ++ kvs') es = upsertAll kvs' (upsertAll kvs es) :=
  List.foldl_append ..

theorem upsertAll_good {kvs : List (Text × Text)} (hk : ∀ kv ∈ kvs, GoodKey kv.1)
    {es : List Entry} (h : ∀ e ∈ es, e.Good) : ∀ e ∈ upsertAll kvs es, e.Good := by
  induction kvs generalizing es with
  | nil => exact h
  | cons kv kvs ih =>
    exact ih (fun kv hkv => hk kv (by simp [hkv])) (upsert_good (hk kv (by simp)) h)

theorem withKey_upsertAll_of_notMem {kvs : List (Text × Text)} {key : Option Text}
    (h : ∀ kv ∈ kvs, key ≠ some kv.1) (es : List Entry) :
    withKey key (upsertAll kvs es) = withKey key es := by
  induction kvs generalizing es with
  | nil => rfl
  | cons kv kvs ih =>
    rw [upsertAll_cons, ih (fun kv hkv => h kv (by simp [hkv])),
      withKey_upsert_of_ne (h kv (by simp))]

theorem withKey_upsertAll_of_mem {kvs : List (Text × Text)} (hnd : (kvs.map Prod.fst).Nodup)
    {k v : Text} (h : (k, v) ∈ kvs) (es : List Entry) :
    withKey (some k) (upsertAll kvs es) = .pair k v :: (withKey (some k) es).tail := by
  induction kvs generalizing es with
  | nil => cases h
  | cons kv kvs ih =>
    rw [List.map_cons, List.nodup_cons] at hnd
    rw [upsertAll_cons]
    rcases List.mem_cons.mp h with rfl | h
    · have hrest : ∀ kv ∈ kvs, some k ≠ some kv.1 := by
        intro kv hkv he
        exact hnd.1 (List.mem_map.mpr ⟨kv, hkv, (Option.some.inj he).symm⟩)
      rw [withKey_upsertAll_of_notMem hrest, withKey_upsert_self]
    · have hne : some k ≠ some kv.1 := by
        intro he
        exact hnd.1 (List.mem_map.mpr ⟨(k, v), h, Option.some.inj he⟩)
      rw [ih hnd.2 h, withKey_upsert_of_ne hne]

/-- **Keys that are settled or absent**: the absent ones are added at the end. -/
theorem upsertAll_of_settled {kvs : List (Text × Text)} (hnd : (kvs.map Prod.fst).Nodup)
    {es : List Entry}
    (h : ∀ kv ∈ kvs, withKey (some kv.1) es = [] ∨
      (withKey (some kv.1) es).head? = some (.pair kv.1 kv.2)) :
    upsertAll kvs es =
      es ++ (kvs.filter fun kv => withKey (some kv.1) es = []).map fun kv => .pair kv.1 kv.2 := by
  induction kvs generalizing es with
  | nil => simp [upsertAll]
  | cons kv kvs ih =>
    rw [List.map_cons, List.nodup_cons] at hnd
    rw [upsertAll_cons]
    rcases h kv (by simp) with h0 | h0
    · rw [upsert_of_absent kv.2 h0]
      have hsame : ∀ kv' ∈ kvs, withKey (some kv'.1) (es ++ [.pair kv.1 kv.2]) =
          withKey (some kv'.1) es := by
        intro kv' hkv'
        have hne : kv.1 ≠ kv'.1 := fun he => hnd.1 (List.mem_map.mpr ⟨kv', hkv', he.symm⟩)
        rw [withKey_append]
        simp [withKey, Entry.key?, hne]
      rw [ih hnd.2 (by
        intro kv' hkv'
        rw [hsame kv' hkv']
        exact h kv' (by simp [hkv']))]
      rw [List.filter_congr (fun kv' hkv' => by rw [hsame kv' hkv'])]
      simp [h0]
    · have hne : withKey (some kv.1) es ≠ [] := fun he => by rw [he] at h0; cases h0
      rw [upsert_of_settled h0, ih hnd.2 (fun kv' hkv' => h kv' (by simp [hkv']))]
      simp [hne]

end Frontmatter
end Dayseam
