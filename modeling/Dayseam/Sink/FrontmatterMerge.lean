import Dayseam.Sink.FrontmatterBlock
import Dayseam.Sink.FrontmatterKept
import Mathlib

/-!
# What a frontmatter merge keeps

The lines between the delimiters of a file, before and after a merge.  Beside the
lines themselves, the opening and the closing delimiter line matter: after
`---\r\n` the whole interior is lost, and a blank before the closing `---` leaves
a piece of it inside.

## Main definitions

* `Mergeable` — the block survives a save.

## Main results

* `interior_merge` — the lines that a merge writes.
* `merge_keeps_iff` — **exactly when a merge keeps the user's metadata.**
-/

namespace Dayseam
namespace Frontmatter

/-! ### Writing the entries -/

/-- `e` is written as one line with the content of `e'`. -/
structure Writes (e e' : Entry) : Prop where
  key : e.key? = e'.key?
  content : e.text.content = e'.line
  isLine : Text.IsLine e.text
  inside : isDelimLine e.text = false

theorem content_concat {u : Text} {c : Char} (h : Text.content (u ++ [c]) = u ++ [c]) :
    Text.isTerminator c = false := by
  rw [Bool.eq_false_iff]
  intro hc
  rw [Text.content_append_of_all (by simpa using hc)] at h
  have hle : (Text.content u).length ≤ u.length := (List.rdropWhile_prefix _ _).length_le
  rw [h, List.length_append, List.length_singleton] at hle
  omega

theorem content_pairLine (k : Text) {v : Text} (hv : v.content = v) :
    Text.content (pairLine (k, v)) = pairLine (k, v) := by
  rcases List.eq_nil_or_concat v with rfl | ⟨u, c, rfl⟩
  · have := @Text.content_eq_self ' ' (by decide) (k ++ [':'])
    simpa [pairLine] using this
  · rw [List.concat_eq_append] at hv ⊢
    have hc := content_concat hv
    have := Text.content_eq_self hc (k ++ ':' :: ' ' :: u)
    simpa [pairLine] using this

/-- A pair is written as its line. -/
theorem writes_pair {k v : Text} (hk : GoodKey k) (hv : v.content = v) (hn : Text.NoNewline v) :
    Writes (.pair k v) (.pair k v) := by
  have htext : Entry.text (.pair k v) = pairLine (k, v) ++ ['\n'] := by simp [Entry.text, pairLine]
  have hkn : '\n' ∉ k := fun h => by have := hk.bare _ h; revert this; decide
  refine ⟨rfl, ?_, ⟨pairLine (k, v), ?_, htext⟩, ?_⟩
  · rw [htext, Text.content_append_newline, content_pairLine k hv]
    rfl
  · intro hm
    simp only [pairLine, List.mem_append, List.mem_cons] at hm
    rcases hm with h | h | h | h
    · exact hkn h
    · revert h; decide
    · revert h; decide
    · exact hn h
  · -- a delimiter line has no colon
    rw [Bool.eq_false_iff]
    intro hd
    obtain ⟨a, b, ha, hb, hab⟩ := exists_of_isDelimLine hd
    have hm : ':' ∈ Entry.text (.pair k v) := by simp [Entry.text]
    rw [hab, List.mem_append, List.mem_append] at hm
    rcases hm with h | h | h
    · have := ha _ h; revert this; decide
    · revert h; decide
    · have := hb _ h; revert this; decide

theorem content_content (l : Text) : l.content.content = l.content :=
  List.rdropWhile_idempotent _ _

/-- A line of the block is written with its content. -/
theorem writes_parseLine {l : Text} (hn : Text.NoNewline l) (hd : isDelimLine l = false) :
    Writes (parseLine l) (parseLine l.content) := by
  cases h : splitKeyValue l with
  | some kv =>
    obtain ⟨k, v⟩ := kv
    have hc : splitKeyValue l.content = some (k, v) := by rw [splitKeyValue_content, h]
    obtain ⟨hk, hv, hvn⟩ := splitKeyValue_spec h
    rw [parseLine, h, parseLine, hc]
    refine writes_pair hk ?_ (hvn hn)
    rw [← hv]
    exact content_content _
  | none =>
    have hc : splitKeyValue l.content = none := by rw [splitKeyValue_content, h]
    rw [parseLine, h, parseLine, hc]
    have htext : Entry.text (.other l) = l ++ ['\n'] := by
      rw [Entry.text, if_neg]
      rw [List.isSuffixOf_iff_suffix]
      exact fun hs => hn (hs.subset (by simp))
    refine ⟨rfl, ?_, ⟨l, hn, htext⟩, ?_⟩
    · rw [htext, Text.content_append_newline]
      rfl
    · rw [htext, isDelimLine, Text.content_append_newline]
      exact hd

theorem writes_upsert {k v : Text} (h : Writes (.pair k v) (.pair k v)) {es es' : List Entry}
    (hes : List.Forall₂ Writes es es') :
    List.Forall₂ Writes (upsert k v es) (upsert k v es') := by
  induction hes with
  | nil => exact .cons h .nil
  | @cons e e' es es' he hes ih =>
    cases e with
    | pair k₁ v₁ =>
      cases e' with
      | other => cases he.key
      | pair k₂ v₂ =>
        cases he.key
        rw [upsert, upsert]
        split
        · next hk => subst hk; exact .cons h hes
        · exact .cons he ih
    | other r =>
      cases e' with
      | pair => cases he.key
      | other r' => exact .cons he ih

theorem writes_upsertAll {kvs : List (Text × Text)}
    (h : ∀ kv ∈ kvs, Writes (.pair kv.1 kv.2) (.pair kv.1 kv.2)) {es es' : List Entry}
    (hes : List.Forall₂ Writes es es') :
    List.Forall₂ Writes (upsertAll kvs es) (upsertAll kvs es') := by
  induction kvs generalizing es es' with
  | nil => exact hes
  | cons kv kvs ih =>
    exact ih (fun kv hkv => h kv (by simp [hkv])) (writes_upsert (h kv (by simp)) hes)

/-- The entries are the interior of the block that they are written to. -/
theorem interior_of_writes {es es' : List Entry} (h : List.Forall₂ Writes es es') :
    interior (delim ++ '\n' :: ((es.map Entry.text).flatten ++ delim ++ ['\n'])) =
      es'.map Entry.line := by
  have hline : ∀ l ∈ es.map Entry.text, Text.IsLine l ∧ isDelimLine l = false := by
    induction h with
    | nil => simp
    | cons he _ ih => exact List.forall_mem_cons.mpr ⟨⟨he.isLine, he.inside⟩, ih⟩
  have hd : Delimited (delim ++ '\n' :: ((es.map Entry.text).flatten ++ delim ++ ['\n'])) ['\n']
      (es.map Entry.text) (delim ++ ['\n']) [] := by
    refine ⟨Or.inl rfl, by simp, ?_, fun l hl => (hline l hl).2, by decide⟩
    refine .append (fun l hl => (hline l hl).1) (.cons ⟨delim, by decide, rfl⟩ .nil)
  rw [hd.interior_eq]
  clear hd hline
  induction h with
  | nil => rfl
  | cons he _ ih => simp only [List.map_cons, he.content, ih]

/-! ### The merge -/

/-- A value of one line without blanks before it or a terminator after it. -/
def PlainValue (v : Text) : Prop := v.trimStart.content = v ∧ Text.NoNewline v

/-- The template and its version are plain, as the engine's constants are. -/
structure FrontmatterFields.Plain (f : FrontmatterFields) : Prop where
  template : PlainValue f.template
  templateVersion : PlainValue f.templateVersion

section
variable (chrono : Chrono) (rfc : Rfc3339) (f : FrontmatterFields)

/-- The owned keys that keep their value from one save to the next. -/
def FrontmatterFields.lasting : List (Text × Text) :=
  [("date".toList, chrono.display f.date),
   ("template".toList, f.template),
   ("template_version".toList, f.templateVersion)]

theorem FrontmatterFields.owned_eq :
    f.owned chrono rfc = f.lasting chrono ++ [(generatedAtKey, rfc.toRfc3339 f.generatedAt)] := rfl

theorem plainValue_display (d : NaiveDate) : PlainValue (chrono.display d) := by
  have hchar : ∀ c ∈ chrono.display d, Text.isWhitespace c = false := by
    intro c hc
    rcases chrono.display_chars d c hc with h | rfl | rfl
    · exact Text.isWhitespace_of_isDigit h
    · decide
    · decide
  have hstart : Text.trimStart (chrono.display d) = chrono.display d := by
    rcases hd : chrono.display d with _ | ⟨c, t⟩
    · rfl
    · exact Text.trimStart_cons_of_not (hchar c (by rw [hd]; simp)) t
  refine ⟨?_, fun hm => ?_⟩
  · rw [hstart]
    refine Text.content_of_forall_not ?_
    intro c hc
    rw [Bool.eq_false_iff]
    intro ht
    have hw := hchar c hc
    rw [Text.isWhitespace_of_isTerminator ht] at hw
    cases hw
  · exact absurd (hchar _ hm) (by decide)

theorem goodKey_ownedKeys : ∀ k ∈ ownedKeys, GoodKey k := by
  simp only [ownedKeys, List.mem_cons, List.not_mem_nil, or_false, forall_eq_or_imp, forall_eq]
  refine ⟨?_, ?_, ?_, goodKey_generatedAt⟩
  all_goals exact ⟨by decide, Text.bareword (by decide), by decide, by decide⟩

theorem lasting_plain {f : FrontmatterFields} (hf : f.Plain) :
    ∀ kv ∈ f.lasting chrono, GoodKey kv.1 ∧ PlainValue kv.2 := by
  simp only [FrontmatterFields.lasting, List.mem_cons, List.not_mem_nil, or_false,
    forall_eq_or_imp, forall_eq]
  exact ⟨⟨goodKey_ownedKeys _ (by simp [ownedKeys]), plainValue_display chrono f.date⟩,
    ⟨goodKey_ownedKeys _ (by simp [ownedKeys]), hf.template⟩,
    ⟨goodKey_ownedKeys _ (by simp [ownedKeys]), hf.templateVersion⟩⟩

theorem lasting_lasting {f : FrontmatterFields} (hf : f.Plain) : Lasting (f.lasting chrono) where
  good kv hkv := (lasting_plain chrono hf kv hkv).1
  flat kv hkv := (lasting_plain chrono hf kv hkv).2.1
  nodup := by
    change ["date".toList, "template".toList, "template_version".toList].Nodup
    decide
  notStamp := by
    simp only [FrontmatterFields.lasting, List.mem_cons, List.not_mem_nil, or_false,
      forall_eq_or_imp, forall_eq]
    decide

/-- Every pair that the merge sets is written as its line. -/
theorem writes_owned {f : FrontmatterFields} (hf : f.Plain) :
    ∀ kv ∈ f.owned chrono rfc, Writes (.pair kv.1 kv.2) (.pair kv.1 kv.2) := by
  intro kv hkv
  rw [FrontmatterFields.owned_eq] at hkv
  rcases List.mem_append.mp hkv with h | h
  · obtain ⟨hk, hv, hn⟩ := lasting_plain chrono hf kv h
    refine writes_pair hk ?_ hn
    rw [← hv]
    exact content_content _
  · rw [List.mem_singleton.mp h]
    have ht := rfc.oneLine f.generatedAt
    refine writes_pair goodKey_generatedAt (Text.content_of_forall_not ht) ?_
    intro hm
    exact absurd (ht _ hm) (by decide)

/-- **The lines that a merge writes**, from the lines that it reads. -/
theorem interior_merge {f : FrontmatterFields} (hf : f.Plain) {block : Text} {raw : List Text}
    (hblock : parseFlat block = some (raw.map parseLine))
    (hraw : ∀ l ∈ raw, Text.NoNewline l ∧ isDelimLine l = false) :
    ∃ out, merge chrono rfc (some block) f = some out ∧
      interior out = (upsertAll (f.lasting chrono ++
        [(generatedAtKey, rfc.toRfc3339 f.generatedAt)])
          ((raw.map Text.content).map parseLine)).map Entry.line := by
  have hrel : List.Forall₂ Writes (raw.map parseLine) ((raw.map Text.content).map parseLine) := by
    rw [List.map_map, List.forall₂_map_left_iff, List.forall₂_map_right_iff, List.forall₂_same]
    exact fun l hl => writes_parseLine (hraw l hl).1 (hraw l hl).2
  have hall := writes_upsertAll (writes_owned chrono rfc hf) hrel
  refine ⟨delim ++ '\n' :: (((upsertAll (f.owned chrono rfc) (raw.map parseLine)).map
    Entry.text).flatten ++ delim ++ ['\n']), ?_, interior_of_writes hall⟩
  simp only [merge, hblock, Option.bind_eq_bind, Option.bind_some]
  rfl

/-- The block survives a save with the pairs of `kvs`: its lines are read and
settled, or the save writes all of them itself. -/
def Mergeable (kvs : List (Text × Text)) (t : Text) : Prop :=
  (delim ++ ['\n'] <+: t ∧ delim <+: closingLine t ∧ Settled kvs (interior t)) ∨
  (delim ++ ['\r', '\n'] <+: t ∧ (userLines (interior t)).Sublist (kvs.map pairLine))

theorem Delimited.lf_iff {t eol : Text} {ls : List Text} {close : Text} {post : List Text}
    (h : Delimited t eol ls close post) :
    (delim ++ ['\n'] <+: t ↔ eol = ['\n']) ∧
      (delim ++ ['\r', '\n'] <+: t ↔ eol = ['\r', '\n']) := by
  rw [h.text, List.prefix_append_right_inj, List.prefix_append_right_inj]
  rcases h.eol_cases with rfl | rfl <;> simp

/-- The inner lines without their terminators are no delimiter lines either. -/
theorem Delimited.stripped {t eol : Text} {ls : List Text} {close : Text} {post : List Text}
    (h : Delimited t eol ls close post) :
    ∀ l ∈ ls.map Text.stripTerminator, Text.NoNewline l ∧ isDelimLine l = false := by
  intro r hr
  obtain ⟨l, hl, rfl⟩ := List.mem_map.mp hr
  refine ⟨.stripTerminator (h.isLine l hl), ?_⟩
  rw [isDelimLine, Text.content_stripTerminator]
  exact h.inside l hl

/-- **Exactly when a merge keeps the user's metadata.** -/
theorem merge_keeps_iff {f : FrontmatterFields} (hf : f.Plain) {t block body : Text}
    (h : split t = some (some block, body)) :
    (∃ out, merge chrono rfc (some block) f = some out ∧
      KeepsMetadata (interior t) (interior out)) ↔ Mergeable (f.lasting chrono) t := by
  obtain ⟨eol, ls, close, post, tail, hd, hend, rfl⟩ := split_spec h
  have hk := lasting_lasting chrono hf
  have hmerge : ∀ {raw : List Text}, parseFlat (delim ++ (eol ++ (ls.flatten ++ tail))) =
      some (raw.map parseLine) → (∀ l ∈ raw, Text.NoNewline l ∧ isDelimLine l = false) →
      ((∃ out, merge chrono rfc (some (delim ++ (eol ++ (ls.flatten ++ tail)))) f = some out ∧
        KeepsMetadata (interior t) (interior out)) ↔
        KeepsMetadata (interior t) ((upsertAll (f.lasting chrono ++
          [(generatedAtKey, rfc.toRfc3339 f.generatedAt)])
            ((raw.map Text.content).map parseLine)).map Entry.line)) := by
    intro raw hblock hraw
    obtain ⟨out, hout, hint⟩ := interior_merge chrono rfc hf hblock hraw
    rw [hout, ← hint]
    simp
  have hstrip := hd.stripped
  have hcontent : (ls.map Text.stripTerminator).map Text.content = interior t := by
    rw [hd.interior_eq, List.map_map]
    exact List.map_congr_left fun l _ => Text.content_stripTerminator l
  rw [Mergeable, hd.lf_iff.1, hd.lf_iff.2, hd.closingLine_eq]
  rcases hd.eol_cases with rfl | rfl
  · cases hend with
    | closed hpre he =>
      -- the block ends with its delimiter: the merge reads the interior
      rw [hmerge (parseFlat_closed hd.isLine hd.inside he) hstrip, hcontent]
      have hkeys : (f.lasting chrono).map Prod.fst ++ [generatedAtKey] = ownedKeys := rfl
      constructor
      · intro hkeep
        exact Or.inl ⟨rfl, hpre, settled_of_survive hk _ hkeep.survive⟩
      · rintro (⟨-, -, hs⟩ | ⟨he, -⟩)
        · exact keeps_of_settled hk _ hs hkeys
        · cases he
    | cut hpre h0 hn hcolon htrim =>
      -- a piece of the closing line stays inside
      have hcut : splitKeyValue tail.content = none := by
        rw [splitKeyValue_content, splitKeyValue]
        have hfirst : tail.trimStart.splitFirst ':' = none :=
          Text.splitFirst_eq_none_iff.mpr fun hm => hcolon ((List.dropWhile_suffix _).subset hm)
        rw [hfirst]
        split <;> rfl
      have hraw : ∀ l ∈ (ls ++ [tail]).map Text.stripTerminator,
          Text.NoNewline l ∧ isDelimLine l = false := by
        rw [List.map_append]
        refine List.forall_mem_append.mpr ⟨hstrip, ?_⟩
        have htail : tail.stripTerminator = tail := by
          rw [Text.stripTerminator, if_neg]
          rw [List.isSuffixOf_iff_suffix]
          exact fun hs => hn (hs.subset (by simp))
        simp only [List.map_cons, List.map_nil, List.mem_singleton, forall_eq, htail]
        refine ⟨hn, ?_⟩
        rw [Bool.eq_false_iff]
        exact fun hdl => htrim (isDelimLine_iff.mp hdl)
      rw [hmerge (parseFlat_cut hd.isLine hd.inside h0 hn htrim) hraw, List.map_append,
        List.map_append, hcontent]
      constructor
      · intro hkeep
        exact absurd hkeep (not_keeps_of_leftover hk _
          (by rw [Text.content_stripTerminator]; exact hcut))
      · rintro (⟨-, hp, -⟩ | ⟨he, -⟩)
        · exact absurd hp hpre
        · cases he
  · -- nothing of the block is read
    rw [@hmerge [] (parseFlat_crlf _) (fun _ h => by cases h), List.map_nil, List.map_nil,
      keeps_of_dropped_iff hk _ rfl]
    simp

end

/-! ### A block that is kept and one that is not -/

def sampleFields : FrontmatterFields :=
  ⟨⟨20561⟩, "dayseam.dev_eod".toList, "2026-04-18".toList, 1776550509000000000⟩

theorem plain_sampleFields : sampleFields.Plain := by
  refine ⟨⟨?_, ?_⟩, ⟨?_, ?_⟩⟩
  · decide
  · exact .literal (by decide)
  · decide
  · exact .literal (by decide)

/-- A file with one line of the user's in its block. -/
def taggedFile : Text := "---\ntags: [daily]\n---\n# Journal\n".toList

/-- The user's line of a well spelled block is kept. -/
theorem tagged_kept : ∃ out,
    merge Chrono.iso Rfc3339.utc (some "---\ntags: [daily]\n---\n".toList) sampleFields = some out ∧
      KeepsMetadata (interior taggedFile) (interior out) := by
  have hint : interior taggedFile = ["tags: [daily]".toList] := by decide +kernel
  refine (@merge_keeps_iff Chrono.iso Rfc3339.utc _ plain_sampleFields taggedFile _
    "# Journal\n".toList (by decide +kernel)).mpr (Or.inl ⟨?_, ?_, ?_, ?_⟩)
  · exact List.isPrefixOf_iff_prefix.mp (by decide +kernel)
  · exact List.isPrefixOf_iff_prefix.mp (by decide +kernel)
  · intro l hl kv hkv
    rw [hint] at hl
    rw [List.mem_singleton.mp (List.mem_filter.mp hl).1] at hkv ⊢
    have hs : splitKeyValue "tags: [daily]".toList = some ("tags".toList, "[daily]".toList) := by
      decide +kernel
    cases hs.symm.trans hkv
    decide +kernel
  · intro kv hkv l hl
    have hnone : ∀ kv ∈ sampleFields.lasting Chrono.iso,
        (interior taggedFile).find? (lineKey · = some kv.1) = none := by decide +kernel
    rw [hnone kv hkv] at hl
    cases hl

/-- A file with a pair that has no blank after its colon. -/
def unspacedFile : Text := "---\ntags:daily\n---\n".toList

/-- **A pair without a blank is respelled.** -/
theorem unspaced_pair_lost : split unspacedFile = some (some unspacedFile, []) ∧
    ¬ ∃ out, merge Chrono.iso Rfc3339.utc (some unspacedFile) sampleFields = some out ∧
      KeepsMetadata (interior unspacedFile) (interior out) := by
  have hlost : ((merge Chrono.iso Rfc3339.utc (some unspacedFile) sampleFields).all fun out =>
      "tags:daily".toList ∉ interior out) = true := by decide +kernel
  refine ⟨by decide +kernel, ?_⟩
  rintro ⟨out, hout, hkeep⟩
  have hmem : "tags:daily".toList ∈ userLines (interior unspacedFile) := by decide +kernel
  rw [hout, Option.all_some, decide_eq_true_eq] at hlost
  exact hlost (hkeep.survive.subset hmem)

end Frontmatter
end Dayseam
