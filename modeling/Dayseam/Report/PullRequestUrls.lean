import Dayseam.Connectors.Github
import Dayseam.Lib.Occurrences
import Dayseam.Report.Enrich
import Mathlib

/-!
# Pull request URLs in a text

The scanner looks for `/pull/` and reads the host, the owner and the repository
backwards from there.  It never looks at what is before the host, and it names a pull
request by its repository alone; the connector names it by the owner as well.

A match of `/pull/` may start with the slash that another one ends with.  The scanner
passes a match that it rejects as a whole, so of overlapping matches it takes every
other one.

## Main definitions

* `PrUrl` — a path `<host>/<owner>/<repo>/pull/<number>` in a text.
* `PrUrl.Formed`, `PrUrl.HasScheme` — the grammar of a pull request URL.
* `UrlRound` — one round of the scan.
* `ReadsUrls` — a reference for each URL, that joins with the connector's entity.

## Main results

* `UrlRound.finds` — a round passes at most one reference, which it answers with.
* `references_found` — what the scanner answers with on any text.
* `readsUrls_iff` — the texts whose URLs are read as they should be.
-/

namespace Dayseam
namespace Report

/-! ### The grammar -/

/-- A path `<host>/<owner>/<repo>/pull/<number>` in a text. -/
structure PrUrl where
  before : Text
  host : Text
  owner : Text
  repo : Text
  number : Text
  after : Text

def IsSegment (t : Text) : Prop := t ≠ [] ∧ ∀ c ∈ t, isUrlIdent c = true

instance : DecidablePred IsSegment := fun t =>
  decidable_of_iff (t ≠ [] ∧ t.all isUrlIdent = true) (and_congr_right fun _ => List.all_eq_true)

namespace PrUrl

/-- What is before `/pull/`. -/
def lead (o : PrUrl) : Text :=
  o.before ++ (o.host ++ '/' :: (o.owner ++ '/' :: o.repo))

/-- The place from `/pull/` to the end of the number. -/
def occurrence (o : PrUrl) : Occurrence Char := ⟨o.lead, PULL_NEEDLE ++ o.number, o.after⟩

def text (o : PrUrl) : Text := o.occurrence.text

/-- A host that is `github.com`, names of the characters that GitHub allows, and a
number with all of its digits. -/
structure Formed (o : PrUrl) : Prop where
  host : o.host.map Char.toLower = "github.com".toList
  owner : IsSegment o.owner
  repo : IsSegment o.repo
  number_ne_nil : o.number ≠ []
  number : ∀ c ∈ o.number, c.isDigit = true
  after : HeadNot Char.isDigit o.after

/-- The scheme is directly before the host. -/
def HasScheme (o : PrUrl) : Prop :=
  "http://".toList <:+ o.before.map Char.toLower ∨ "https://".toList <:+ o.before.map Char.toLower

/-- All that the scanner asks for before the host. -/
def AfterSlash (o : PrUrl) : Prop := ['/'] <:+ o.before

/-- The reference that the scanner builds. -/
def reference (o : PrUrl) : Text × Option Text :=
  (o.repo ++ '#' :: o.number, some ('#' :: o.number))

end PrUrl

theorem toLower_eq_slash {c : Char} (h : c.toLower = '/') : c = '/' := by
  unfold Char.toLower at h
  split_ifs at h with hup
  · have hval : (c.val + 32).toNat = 47 := congrArg (fun d : Char => d.val.toNat) h
    have hlow : 65 ≤ c.val.toNat := hup.1
    have hhigh : c.val.toNat ≤ 90 := hup.2
    rw [UInt32.toNat_add, Nat.mod_eq_of_lt] at hval
    · change c.val.toNat + 32 = 47 at hval
      omega
    · change c.val.toNat + 32 < 2 ^ 32
      omega
  · exact h

theorem slash_notMem_host {t : Text} (h : t.map Char.toLower = "github.com".toList) : '/' ∉ t := by
  intro hc
  have hmem := List.mem_map_of_mem (f := Char.toLower) hc
  rw [h] at hmem
  exact absurd hmem (by decide)

theorem IsSegment.slash_notMem {t : Text} (h : IsSegment t) : '/' ∉ t := by
  intro hc
  exact absurd (h.2 _ hc) (by decide)

/-- A scheme ends in a slash. -/
theorem PrUrl.HasScheme.afterSlash {o : PrUrl} (h : o.HasScheme) : o.AfterSlash := by
  have hslash : ['/'] <:+ o.before.map Char.toLower := by
    rcases h with h | h
    · exact List.IsSuffix.trans (by decide) h
    · exact List.IsSuffix.trans (by decide) h
  rw [List.singleton_suffix_iff_getLast?_eq_some, List.getLast?_map,
    Option.map_eq_some_iff] at hslash
  obtain ⟨c, hc, hlower⟩ := hslash
  rw [toLower_eq_slash hlower] at hc
  exact List.singleton_suffix_iff_getLast?_eq_some.mpr hc

/-! ### Reading backwards -/

theorem headNot_slash (t : Text) : HeadNot (· != '/') ('/' :: t) := by
  rintro c ⟨⟩
  rfl

theorem ne_slash_of_notMem {seg : Text} (h : '/' ∉ seg) : ∀ c ∈ seg.reverse, (c != '/') = true := by
  intro c hc
  rw [bne_iff_ne]
  rintro rfl
  exact h (List.mem_reverse.mp hc)

theorem segmentBefore_eq_some_iff {before seg rest : Text} :
    segmentBefore before = some (seg, rest) ↔ '/' ∉ seg ∧ before = seg.reverse ++ '/' :: rest := by
  have hsplit := List.takeWhile_append_dropWhile (p := (· != '/')) (l := before)
  have hno : ∀ c ∈ before.takeWhile (· != '/'), (c != '/') = true :=
    fun c hc => List.mem_takeWhile_imp (p := (· != '/')) hc
  have hend := headNot_dropWhile (· != '/') before
  constructor
  · intro h
    unfold segmentBefore at h
    split at h
    · next rest' hdrop =>
      obtain ⟨rfl, rfl⟩ := Prod.mk.inj (Option.some.inj h)
      refine ⟨fun hc => ?_, ?_⟩
      · exact absurd (hno _ (List.mem_reverse.mp hc)) (by decide)
      · rw [List.reverse_reverse, ← hdrop, hsplit]
    · exact absurd h (by simp)
  · rintro ⟨hseg, rfl⟩
    obtain ⟨htake, hdrop⟩ :=
      run_unique hsplit hno hend (ne_slash_of_notMem hseg) (headNot_slash rest)
    rw [segmentBefore, htake, hdrop, List.reverse_reverse]
    rfl

theorem repoBefore_eq_some_iff {before host owner repo : Text} :
    repoBefore before = some (host, owner, repo) ↔
      '/' ∉ host ∧ '/' ∉ owner ∧ '/' ∉ repo ∧ ∃ rest, before =
        repo.reverse ++ '/' :: (owner.reverse ++ '/' :: (host.reverse ++ '/' :: rest)) := by
  simp only [repoBefore, Option.bind_eq_bind, Option.bind_eq_some_iff, Prod.exists,
    Option.some.injEq, Prod.mk.injEq, segmentBefore_eq_some_iff]
  constructor
  · rintro ⟨_, _, ⟨hrepo, rfl⟩, _, _, ⟨howner, rfl⟩, _, rest, ⟨hhost, rfl⟩, rfl, rfl, rfl⟩
    exact ⟨hhost, howner, hrepo, rest, rfl⟩
  · rintro ⟨hhost, howner, hrepo, rest, rfl⟩
    exact ⟨_, _, ⟨hrepo, rfl⟩, _, _, ⟨howner, rfl⟩, _, rest, ⟨hhost, rfl⟩, rfl, rfl, rfl⟩

namespace PrUrl

variable {o : PrUrl}

theorem reverse_lead (o : PrUrl) : o.lead.reverse =
    o.repo.reverse ++ '/' :: (o.owner.reverse ++ '/' :: (o.host.reverse ++ o.before.reverse)) := by
  simp [lead]

/-- The scanner reads the host, the owner and the repository of a path. -/
theorem Formed.repoBefore (ho : o.Formed) (hs : o.AfterSlash) :
    repoBefore o.lead.reverse = some (o.host, o.owner, o.repo) := by
  obtain ⟨b, hb⟩ := hs
  refine repoBefore_eq_some_iff.mpr ⟨slash_notMem_host ho.host, ho.owner.slash_notMem,
    ho.repo.slash_notMem, b.reverse, ?_⟩
  rw [reverse_lead, ← hb, List.reverse_append, List.reverse_singleton, List.singleton_append]

end PrUrl

/-! ### Overlapping matches -/

/-- `/pull/` at the end of `before`, reversed, is a match that the scanner stops at. -/
def visited : Text → Bool
  | 'l' :: 'l' :: 'u' :: 'p' :: '/' :: before => !visited before
  | _ => true

theorem visited_pull (before : Text) :
    visited ("/pull".toList.reverse ++ before) = !visited before := by
  show visited ('l' :: 'l' :: 'u' :: 'p' :: '/' :: before) = _
  rw [visited]

theorem visited_of_not {before : Text} (h : ¬"/pull".toList.reverse <+: before) :
    visited before = true := by
  unfold visited
  split
  · next t => exact absurd ⟨t, rfl⟩ h
  · rfl

/-- Behind a segment the scanner stops, save where the segment is `pull`. -/
theorem visited_segment {seg : Text} (hseg : '/' ∉ seg) (before : Text) :
    visited (seg.reverse ++ '/' :: before) =
      if seg = "pull".toList then !visited before else true := by
  split_ifs with h
  · rw [h, ← visited_pull]
    rfl
  · apply visited_of_not
    rintro ⟨t, ht⟩
    have hpull : ∀ c ∈ "pull".toList.reverse, (c != '/') = true := List.all_eq_true.mp rfl
    obtain ⟨heq, -⟩ := run_unique (l := "pull".toList.reverse) (r := '/' :: t) ht hpull
      (headNot_slash t) (ne_slash_of_notMem hseg) (headNot_slash before)
    exact h (List.reverse_injective heq).symm

/-- **The scanner stops at the match of a path**, save where the repository alone is
named `pull`. -/
theorem PrUrl.Formed.visited_iff {o : PrUrl} (ho : o.Formed) (hs : o.AfterSlash) :
    visited o.lead.reverse = true ↔ (o.repo = "pull".toList → o.owner = "pull".toList) := by
  obtain ⟨b, hb⟩ := hs
  have hhost : o.host ≠ "pull".toList := by
    intro h
    have h' := ho.host
    rw [h] at h'
    exact absurd h' (by decide)
  rw [reverse_lead, ← hb, List.reverse_append, List.reverse_singleton, List.singleton_append,
    visited_segment ho.repo.slash_notMem, visited_segment ho.owner.slash_notMem,
    visited_segment (slash_notMem_host ho.host), if_neg hhost]
  split_ifs with hrepo howner
  · exact iff_of_true rfl fun _ => howner
  · exact iff_of_false (by decide) fun h => howner (h hrepo)
  · exact iff_of_true rfl fun h => absurd h hrepo

/-! ### A round of the scan -/

/-- A path that the scanner stops at. -/
def IsReference (p : Occurrence Char) : Prop :=
  ∃ o : PrUrl, o.occurrence = p ∧ o.Formed ∧ o.AfterSlash ∧
    (o.repo = "pull".toList → o.owner = "pull".toList)

/-- A round at the place between `before` and `rest`: the path that it answers with,
and the place at which the scan resumes. -/
inductive UrlRound : Text → Text → Option PrUrl → Text → Text → Prop
  /-- No match starts here. -/
  | skip {before rest : Text} (c : Char) (h : ¬PULL_NEEDLE <+: c :: rest) :
      UrlRound before (c :: rest) none (before ++ [c]) rest
  /-- A match without a path around it. -/
  | reject {before after : Text}
      (h : ∀ o : PrUrl, o.Formed → o.AfterSlash → o.lead = before → o.number ++ o.after ≠ after) :
      UrlRound before (PULL_NEEDLE ++ after) none (before ++ PULL_NEEDLE) after
  /-- A match with a path around it. -/
  | accept (o : PrUrl) (ho : o.Formed) (hs : o.AfterSlash) :
      UrlRound o.lead (PULL_NEEDLE ++ (o.number ++ o.after)) (some o)
        (o.lead ++ (PULL_NEEDLE ++ o.number)) o.after

/-- No match that the scanner ought to stop at reaches over the place. -/
def Aligned (before rest : Text) : Prop :=
  ∀ b w w' : Text, before = b ++ w → w ≠ [] → w' ≠ [] → w ++ w' = PULL_NEEDLE → w' <+: rest →
    visited b.reverse = false

theorem aligned_nil (rest : Text) : Aligned [] rest := by
  intro b w w' hb hw
  exact absurd (List.append_eq_nil_iff.mp hb.symm).2 hw

/-- Matches overlap in a slash. -/
theorem pull_border {w : Text} (hpre : w <+: PULL_NEEDLE) (hsuf : w <:+ PULL_NEEDLE)
    (hne : w ≠ []) : w = PULL_NEEDLE ∨ w = ['/'] := by
  have h : ∀ w ∈ PULL_NEEDLE.inits, w ∈ PULL_NEEDLE.tails →
      w = [] ∨ w = PULL_NEEDLE ∨ w = ['/'] := by decide
  exact (h w ((List.mem_inits _ _).mpr hpre) ((List.mem_tails _ _).mpr hsuf)).resolve_left hne

/-- The scanner is right to stop at a match. -/
theorem Aligned.visited {before after : Text} (h : Aligned before (PULL_NEEDLE ++ after)) :
    visited before.reverse = true := by
  by_cases hpull : "/pull".toList.reverse <+: before.reverse
  · obtain ⟨b, hb⟩ := hpull
    have hbefore : before = b.reverse ++ "/pull".toList := by
      rw [← List.reverse_reverse before, ← hb, List.reverse_append, List.reverse_reverse]
    have hv := h b.reverse "/pull".toList ['/'] hbefore (by decide) (by decide) rfl ⟨_, rfl⟩
    rw [List.reverse_reverse] at hv
    rw [← hb, visited_pull, hv]
    rfl
  · exact visited_of_not hpull

/-- A match that starts in another one starts with it or with its last slash. -/
theorem pull_overlap {u after t : Text} (h : PULL_NEEDLE ++ after = u ++ (PULL_NEEDLE ++ t))
    (hlt : u.length < PULL_NEEDLE.length) : u = [] ∨ u = "/pull".toList := by
  obtain ⟨v, hv⟩ : u <+: PULL_NEEDLE := by
    refine List.prefix_of_prefix_length_le ?_ (List.prefix_append _ after) hlt.le
    rw [h]
    exact List.prefix_append _ _
  have hne : v ≠ [] := by
    rintro rfl
    rw [← hv, List.append_nil] at hlt
    exact Nat.lt_irrefl _ hlt
  have hpre : v <+: PULL_NEEDLE := by
    have hvt : v ++ after = PULL_NEEDLE ++ t := by
      rw [← hv, List.append_assoc] at h
      rw [List.append_cancel_left h, hv]
    refine List.prefix_of_prefix_length_le ⟨after, hvt⟩ (List.prefix_append _ _) ?_
    rw [← hv, List.length_append]
    exact Nat.le_add_left _ _
  rcases pull_border hpre ⟨u, hv⟩ hne with hfull | hslash
  · rw [hfull, List.append_left_eq_self] at hv
    exact .inl hv
  · right
    rw [hslash] at hv
    exact List.append_cancel_right (hv : u ++ ['/'] = "/pull".toList ++ ['/'])

/-- Where the scanner stops at a match, a path has this match or a later one. -/
theorem Aligned.start_eq {before after u t : Text} (ha : Aligned before (PULL_NEEDLE ++ after))
    {o : PrUrl} (ho : o.Formed) (hs : o.AfterSlash)
    (hpull : o.repo = "pull".toList → o.owner = "pull".toList) (hlead : o.lead = before ++ u)
    (h : PULL_NEEDLE ++ after = u ++ (PULL_NEEDLE ++ t)) (hlt : u.length < PULL_NEEDLE.length) :
    u = [] := by
  refine (pull_overlap h hlt).resolve_right ?_
  rintro rfl
  have hv := (ho.visited_iff hs).mpr hpull
  rw [hlead, List.reverse_append, visited_pull, ha.visited] at hv
  exact absurd hv (by decide)

namespace UrlRound

variable {before rest before' rest' : Text} {out : Option PrUrl}

/-- A round takes characters from what is to be read. -/
theorem exists_taken (h : UrlRound before rest out before' rest') :
    ∃ taken, taken ≠ [] ∧ before' = before ++ taken ∧ rest = taken ++ rest' := by
  cases h with
  | skip c => exact ⟨[c], List.cons_ne_nil _ _, rfl, rfl⟩
  | reject => exact ⟨PULL_NEEDLE, by decide, rfl, rfl⟩
  | accept o =>
    exact ⟨PULL_NEEDLE ++ o.number, List.cons_ne_nil _ _, rfl, (List.append_assoc _ _ _).symm⟩

theorem length_lt (h : UrlRound before rest out before' rest') : rest'.length < rest.length := by
  obtain ⟨taken, hne, -, rfl⟩ := h.exists_taken
  have hpos := List.length_pos_of_ne_nil hne
  rw [List.length_append]
  omega

/-- **A round keeps the scan aligned.** -/
theorem aligned (h : UrlRound before rest out before' rest') (ha : Aligned before rest) :
    Aligned before' rest' := by
  intro b w w' hb hw hw' hneedle hrest
  obtain ⟨v, c, rfl⟩ := (List.eq_nil_or_concat' w).resolve_left hw
  cases h with
  | skip d h =>
    rw [← List.append_assoc] at hb
    obtain ⟨rfl, hdc⟩ := List.append_inj' hb rfl
    obtain rfl : d = c := (List.cons.inj hdc).1
    have hstart : d :: w' <+: d :: rest' := List.cons_prefix_cons.mpr ⟨rfl, hrest⟩
    rw [List.append_assoc, List.singleton_append] at hneedle
    by_cases hv : v = []
    · rw [hv, List.nil_append] at hneedle
      exact absurd (hneedle ▸ hstart) h
    · exact ha b v (d :: w') rfl hv (List.cons_ne_nil _ _) hneedle hstart
  | reject h =>
    -- only the last slash of the match may start another one
    have hpre : v ++ [c] <+: PULL_NEEDLE := ⟨w', hneedle⟩
    have hsuf : v ++ [c] <:+ PULL_NEEDLE := by
      refine List.suffix_of_suffix_length_le ⟨b, hb.symm⟩ (List.suffix_append _ _) hpre.length_le
    rcases pull_border hpre hsuf hw with hfull | hslash
    · rw [hfull, List.append_right_eq_self] at hneedle
      exact absurd hneedle hw'
    · have hb' : b = before ++ "/pull".toList := by
        have h6 : before ++ "/pull".toList ++ ['/'] = b ++ ['/'] := by
          rw [List.append_assoc]
          rw [hslash] at hb
          exact hb
        exact (List.append_cancel_right h6).symm
      rw [hb', List.reverse_append, visited_pull, ha.visited]
      rfl
  | accept o ho hs =>
    -- the round ends with a digit, and no match has one
    exfalso
    obtain ⟨m, d, hm⟩ := (List.eq_nil_or_concat' o.number).resolve_left ho.number_ne_nil
    rw [hm, ← List.append_assoc, ← List.append_assoc, ← List.append_assoc] at hb
    obtain ⟨-, hdc⟩ := List.append_inj' hb rfl
    obtain rfl : d = c := (List.cons.inj hdc).1
    have hdigit : d.isDigit = true := ho.number d (by simp [hm])
    have hmem : d ∈ PULL_NEEDLE := by simp [← hneedle]
    have hnone : PULL_NEEDLE.all (fun c => !c.isDigit) = true := by decide
    have hd := List.all_eq_true.mp hnone d hmem
    rw [hdigit] at hd
    exact Bool.false_ne_true hd

/-- A path that a round passes is what it answers with. -/
theorem passed (h : UrlRound before rest out before' rest') (ha : Aligned before rest)
    {p : Occurrence Char} (htext : p.text = before ++ rest) (hp : IsReference p)
    (hle : before.length ≤ p.start) (hlt : p.start < before'.length) :
    ∃ o, out = some o ∧ p = o.occurrence := by
  obtain ⟨u, hlead, hrest⟩ := Occurrence.exists_of_le_start htext hle
  have hstart : p.start = before.length + u.length := by
    rw [Occurrence.start, hlead, List.length_append]
  obtain ⟨q, rfl, hq, hs, hpull⟩ := hp
  change q.lead = before ++ u at hlead
  change rest = u ++ (PULL_NEEDLE ++ q.number) ++ q.after at hrest
  rw [List.append_assoc, List.append_assoc] at hrest
  cases h with
  | skip c h =>
    -- a path here would have its match here
    rw [List.length_append, List.length_singleton] at hlt
    obtain rfl : u = [] := List.eq_nil_of_length_eq_zero (by omega)
    rw [List.nil_append] at hrest
    exact absurd ⟨_, hrest.symm⟩ h
  | reject h =>
    rw [List.length_append] at hlt
    obtain rfl := ha.start_eq hq hs hpull hlead hrest (by omega)
    rw [List.append_nil] at hlead
    exact absurd (List.append_cancel_left hrest).symm (h q hq hs hlead)
  | accept o ho hso =>
    refine ⟨o, rfl, ?_⟩
    rcases Nat.lt_or_ge u.length PULL_NEEDLE.length with hshort | hlong
    · obtain rfl := ha.start_eq hq hs hpull hlead hrest hshort
      rw [List.append_nil] at hlead
      obtain ⟨hnumber, hafter⟩ := run_unique (List.append_cancel_left hrest) ho.number ho.after
        hq.number hq.after
      rw [PrUrl.occurrence, PrUrl.occurrence, hlead, hnumber, hafter]
    · -- behind the match only its digits are passed
      exfalso
      obtain ⟨v, rfl⟩ : PULL_NEEDLE <+: u := by
        have hu : u <+: PULL_NEEDLE ++ (o.number ++ o.after) := ⟨_, hrest.symm⟩
        exact List.prefix_of_prefix_length_le (List.prefix_append _ _) hu hlong
      rw [List.append_assoc] at hrest
      have hdigits := List.append_cancel_left hrest
      have hv : v.length < o.number.length := by
        simp only [List.length_append] at hlt hstart
        omega
      have hpre : v ++ ['/'] <+: o.number := by
        refine List.prefix_of_prefix_length_le ⟨?_, ?_⟩ (List.prefix_append _ o.after) ?_
        · exact "pull/".toList ++ (q.number ++ q.after)
        · rw [hdigits, List.append_assoc]
          rfl
        · rw [List.length_append, List.length_singleton]
          exact hv
      exact absurd (ho.number '/' (hpre.subset (by simp))) (by decide)

/-- The path that a round answers with is one that it passes. -/
theorem answer {o : PrUrl} (h : UrlRound before rest (some o) before' rest') :
    o.Formed ∧ o.AfterSlash ∧ before = o.lead ∧ before' = o.lead ++ o.occurrence.token ∧
      rest = o.occurrence.token ++ o.after := by
  cases h with
  | accept _ ho hs => exact ⟨ho, hs, rfl, rfl, (List.append_assoc _ _ _).symm⟩

theorem text_eq (h : UrlRound before rest out before' rest') :
    before' ++ rest' = before ++ rest := by
  obtain ⟨taken, -, rfl, rfl⟩ := h.exists_taken
  exact List.append_assoc _ _ _

/-- **A round finds the path that it passes.** -/
theorem finds (h : UrlRound before rest out before' rest') (ha : Aligned before rest)
    {urls : List PrUrl}
    (hf : Finds IsReference (before' ++ rest') before'.length (urls.map PrUrl.occurrence)) :
    Finds IsReference (before ++ rest) before.length
      ((out.toList ++ urls).map PrUrl.occurrence) := by
  rw [h.text_eq] at hf
  rw [List.map_append, ← Option.toList_map]
  refine hf.round ?_ (fun p hp => ?_) fun p htext hp hle hlt => ?_
  · obtain ⟨taken, -, rfl, -⟩ := h.exists_taken
    rw [List.length_append]
    exact Nat.le_add_right _ _
  · obtain ⟨o, rfl, rfl⟩ := Option.map_eq_some_iff.mp hp
    obtain ⟨ho, hs, rfl, rfl, rfl⟩ := h.answer
    have hpull : o.repo = "pull".toList → o.owner = "pull".toList := by
      rw [← ho.visited_iff hs]
      rw [PrUrl.occurrence, List.append_assoc] at ha
      exact ha.visited
    exact ⟨List.append_assoc _ _ _, ⟨o, rfl, ho, hs, hpull⟩, le_rfl, (List.length_append).ge⟩
  · obtain ⟨o, rfl, rfl⟩ := h.passed ha htext hp hle hlt
    rfl

end UrlRound

/-! ### The scan -/

theorem scanGithubPrUrlsLoop_skip (fuel : ℕ) (before rest : Text) (c : Char)
    (h : ¬PULL_NEEDLE <+: c :: rest) :
    scanGithubPrUrlsLoop (fuel + 1) before (c :: rest) =
      scanGithubPrUrlsLoop fuel (c :: before) rest := by
  rw [scanGithubPrUrlsLoop, if_pos]
  rw [Bool.not_eq_true', ← Bool.not_eq_true, List.isPrefixOf_iff_prefix]
  exact h

/-- A match, as the loop takes it. -/
theorem scanGithubPrUrlsLoop_match (fuel : ℕ) (before after : Text) :
    scanGithubPrUrlsLoop (fuel + 1) before (PULL_NEEDLE ++ after) =
      match repoBefore before with
      | some (host, owner, repo) =>
        if host.map Char.toLower ≠ "github.com".toList ∨ owner.isEmpty ∨ repo.isEmpty ∨
            !owner.all isUrlIdent ∨ !repo.all isUrlIdent ∨
            (after.takeWhile Char.isDigit).isEmpty then
          scanGithubPrUrlsLoop fuel (PULL_NEEDLE.reverse ++ before) after
        else (repo ++ '#' :: after.takeWhile Char.isDigit,
            some ('#' :: after.takeWhile Char.isDigit)) ::
          scanGithubPrUrlsLoop fuel
            ((after.takeWhile Char.isDigit).reverse ++ (PULL_NEEDLE.reverse ++ before))
            (after.drop (after.takeWhile Char.isDigit).length)
      | none => scanGithubPrUrlsLoop fuel (PULL_NEEDLE.reverse ++ before) after := by
  show scanGithubPrUrlsLoop (fuel + 1) before ('/' :: ("pull/".toList ++ after)) = _
  have hmatch : PULL_NEEDLE.isPrefixOf ('/' :: ("pull/".toList ++ after)) = true :=
    List.isPrefixOf_iff_prefix.mpr ⟨after, rfl⟩
  rw [scanGithubPrUrlsLoop, if_neg (by rw [hmatch]; decide)]
  rfl

/-- What the scanner checks of a match. -/
theorem checks_iff {host owner repo digits : Text} :
    ¬(host.map Char.toLower ≠ "github.com".toList ∨ owner.isEmpty ∨ repo.isEmpty ∨
        !owner.all isUrlIdent ∨ !repo.all isUrlIdent ∨ digits.isEmpty) ↔
      host.map Char.toLower = "github.com".toList ∧ IsSegment owner ∧ IsSegment repo ∧
        digits ≠ [] := by
  simp only [not_or, ne_eq, not_not, List.isEmpty_iff, Bool.not_eq_true', Bool.not_eq_false,
    List.all_eq_true, IsSegment]
  tauto

/-- The path that the scanner reads at a match. -/
theorem exists_path {before after host owner repo : Text}
    (hread : repoBefore before.reverse = some (host, owner, repo))
    (hhost : host.map Char.toLower = "github.com".toList) (howner : IsSegment owner)
    (hrepo : IsSegment repo) (hne : after.takeWhile Char.isDigit ≠ []) :
    ∃ o : PrUrl, o.Formed ∧ o.AfterSlash ∧ o.lead = before ∧ o.repo = repo ∧
      o.number = after.takeWhile Char.isDigit ∧ o.number ++ o.after = after := by
  obtain ⟨-, -, -, lead, hbefore⟩ := repoBefore_eq_some_iff.mp hread
  let o : PrUrl := ⟨lead.reverse ++ ['/'], host, owner, repo, after.takeWhile Char.isDigit,
    after.dropWhile Char.isDigit⟩
  have hdigit : ∀ c ∈ o.number, c.isDigit = true :=
    fun c hc => List.mem_takeWhile_imp (p := Char.isDigit) hc
  have hlead : o.lead.reverse = before.reverse := by
    rw [hbefore, o.reverse_lead]
    simp [o]
  exact ⟨o, ⟨hhost, howner, hrepo, hne, hdigit, headNot_dropWhile _ _⟩, List.suffix_append _ _,
    List.reverse_injective hlead, rfl, rfl, List.takeWhile_append_dropWhile⟩

/-- The round of a match. -/
theorem scanGithubPrUrlsLoop_at (fuel : ℕ) (before after : Text) :
    ∃ out before' rest', UrlRound before (PULL_NEEDLE ++ after) out before' rest' ∧
      scanGithubPrUrlsLoop (fuel + 1) before.reverse (PULL_NEEDLE ++ after) =
        out.toList.map PrUrl.reference ++ scanGithubPrUrlsLoop fuel before'.reverse rest' := by
  rw [scanGithubPrUrlsLoop_match]
  have hreject (h : ∀ o : PrUrl, o.Formed → o.AfterSlash → o.lead = before →
      o.number ++ o.after ≠ after) :
      ∃ out before' rest', UrlRound before (PULL_NEEDLE ++ after) out before' rest' ∧
        scanGithubPrUrlsLoop fuel (PULL_NEEDLE.reverse ++ before.reverse) after =
          out.toList.map PrUrl.reference ++ scanGithubPrUrlsLoop fuel before'.reverse rest' := by
    refine ⟨none, _, _, .reject h, ?_⟩
    rw [List.reverse_append]
    rfl
  cases hread : repoBefore before.reverse with
  | none =>
    apply hreject
    intro o ho hs hlead
    have h := ho.repoBefore hs
    rw [hlead, hread] at h
    exact absurd h (by simp)
  | some found =>
    obtain ⟨host, owner, repo⟩ := found
    dsimp only
    split_ifs with hcond
    · apply hreject
      intro o ho hs hlead hafter
      have h := ho.repoBefore hs
      rw [hlead, hread] at h
      obtain ⟨rfl, rfl, rfl⟩ := by simpa using h
      rw [← hafter, takeWhile_append_of_headNot ho.number ho.after] at hcond
      exact checks_iff.mpr ⟨ho.host, ho.owner, ho.repo, ho.number_ne_nil⟩ hcond
    · obtain ⟨hhost, howner, hrepo, hne⟩ := checks_iff.mp hcond
      obtain ⟨o, ho, hs, rfl, rfl, hnumber, rfl⟩ := exists_path hread hhost howner hrepo hne
      refine ⟨some o, _, _, .accept o ho hs, ?_⟩
      rw [← hnumber, List.drop_left, List.reverse_append, List.reverse_append, List.append_assoc]
      rfl

/-- **The loop makes one round.** -/
theorem scanGithubPrUrlsLoop_round (fuel : ℕ) (before rest : Text) (hne : rest ≠ []) :
    ∃ out before' rest', UrlRound before rest out before' rest' ∧
      scanGithubPrUrlsLoop (fuel + 1) before.reverse rest =
        out.toList.map PrUrl.reference ++ scanGithubPrUrlsLoop fuel before'.reverse rest' := by
  by_cases hmatch : PULL_NEEDLE <+: rest
  · obtain ⟨after, rfl⟩ := hmatch
    exact scanGithubPrUrlsLoop_at fuel before after
  · obtain ⟨c, rest, rfl⟩ := List.exists_cons_of_ne_nil hne
    refine ⟨none, before ++ [c], rest, .skip c hmatch, ?_⟩
    rw [scanGithubPrUrlsLoop_skip fuel _ _ _ hmatch, List.reverse_append]
    rfl

/-- No path has its match at the end of a text. -/
theorem references_done (s : Text) : Finds IsReference s s.length [] := by
  refine Finds.done fun p htext hp => ?_
  obtain ⟨o, rfl, ho, -⟩ := hp
  have hpos := List.length_pos_of_ne_nil ho.number_ne_nil
  have hlen := congrArg List.length htext
  simp only [Occurrence.text, PrUrl.occurrence, List.length_append] at hlen
  show o.lead.length < s.length
  omega

/-- **A run of the loop answers with the paths in what it reads.** -/
theorem scanGithubPrUrlsLoop_finds {fuel : ℕ} {before rest : Text} (hfuel : rest.length ≤ fuel)
    (ha : Aligned before rest) :
    ∃ urls : List PrUrl,
      Finds IsReference (before ++ rest) before.length (urls.map PrUrl.occurrence) ∧
        (∀ o ∈ urls, o.Formed ∧ o.AfterSlash) ∧
          scanGithubPrUrlsLoop fuel before.reverse rest = urls.map PrUrl.reference := by
  induction fuel generalizing before rest with
  | zero =>
    obtain rfl : rest = [] := List.eq_nil_of_length_eq_zero (by omega)
    rw [List.append_nil]
    exact ⟨[], references_done before, by simp, rfl⟩
  | succ fuel ih =>
    by_cases hne : rest = []
    · subst hne
      rw [List.append_nil]
      exact ⟨[], references_done before, by simp, rfl⟩
    obtain ⟨out, before', rest', hround, hloop⟩ :=
      scanGithubPrUrlsLoop_round fuel before rest hne
    have hlt := hround.length_lt
    obtain ⟨urls, hfinds, hformed, hurls⟩ :=
      @ih before' rest' (by omega) (hround.aligned ha)
    refine ⟨out.toList ++ urls, hround.finds ha hfinds, fun o ho => ?_, ?_⟩
    · rcases List.mem_append.mp ho with hout | hin
      · rw [Option.mem_toList] at hout
        subst hout
        exact ⟨hround.answer.1, hround.answer.2.1⟩
      · exact hformed o hin
    · rw [hloop, hurls, List.map_append]

/-- **What the scanner answers with**: a reference for each path behind a slash, in order,
save where the repository alone is named `pull`. -/
theorem references_found (s : Text) :
    ∃ urls : List PrUrl, Finds IsReference s 0 (urls.map PrUrl.occurrence) ∧
      (∀ o ∈ urls, o.Formed ∧ o.AfterSlash) ∧ scanGithubPrUrls s = urls.map PrUrl.reference :=
  @scanGithubPrUrlsLoop_finds s.length [] s le_rfl (aligned_nil s)

/-! ### The connector's entity -/

/-- The pull request of the path, as an event of the connector has it. -/
def PrUrl.Names (o : PrUrl) (event : GithubEvent) (pr : GithubPullRequest) : Prop :=
  event.repo = o.owner ++ '/' :: o.repo ∧ pr.number = Nat.ofDigitChars 10 o.number 0

/-- The reference is the entity that the connector gives to the pull request. -/
def Joins (ref : Text × Option Text) (o : PrUrl) : Prop :=
  ∀ (newV5 : Uuid → List UInt8 → Uuid) (sourceId : Uuid) (event : GithubEvent)
    (kind : ActivityKind) (pr : GithubPullRequest) (metadata : Option Json), o.Names event pr →
    ((Github.composePrEvent newV5 sourceId event kind pr metadata).entity?
      .gitHubPullRequest).map EntityRef.externalId = some ref.1

/-- The URLs of a text are read, in order and each once, as the connector names them. -/
def ReadsUrls (s : Text) : Prop :=
  ∃ urls : List PrUrl, urls.Pairwise (fun o p => o.before.length < p.before.length) ∧
    (∀ o, o ∈ urls ↔ o.text = s ∧ o.Formed ∧ o.HasScheme) ∧
      List.Forall₂ Joins (scanGithubPrUrls s) urls

theorem joins_iff {ref : Text × Option Text} {o : PrUrl} :
    Joins ref o ↔
      ref.1 = Github.threadId (o.owner ++ '/' :: o.repo) (Nat.ofDigitChars 10 o.number 0) := by
  constructor
  · intro h
    have hid := h (fun u _ => u) ⟨0, by decide⟩ ⟨[], ⟨0, []⟩, o.owner ++ '/' :: o.repo, 0, .push⟩
      .gitHubPullRequestOpened ⟨Nat.ofDigitChars 10 o.number 0, [], [], false⟩ none ⟨rfl, rfl⟩
    exact (Option.some.inj hid).symm
  · rintro h newV5 sourceId event kind pr metadata ⟨hrepo, hnumber⟩
    show some (Github.threadId event.repo pr.number) = some ref.1
    rw [h, hrepo, hnumber]

/-- **No reference of the scanner joins**: it does not name the owner. -/
theorem PrUrl.Formed.not_joins {o : PrUrl} (ho : o.Formed) (p : PrUrl) : ¬Joins o.reference p := by
  intro h
  rw [joins_iff] at h
  have hslash : '/' ∈ o.reference.1 := by
    rw [h]
    simp [Github.threadId]
  rcases List.mem_append.mp hslash with hrepo | hnumber
  · exact ho.repo.slash_notMem hrepo
  · rcases List.mem_cons.mp hnumber with hhash | hnumber
    · exact absurd hhash (by decide)
    · exact absurd (ho.number _ hnumber) (by decide)

/-- The references of a text are of paths in it. -/
theorem scanGithubPrUrls_eq_nil_iff {s : Text} :
    scanGithubPrUrls s = [] ↔ ∀ p : Occurrence Char, p.text = s → ¬IsReference p := by
  obtain ⟨urls, hfinds, -, hscan⟩ := references_found s
  rw [hscan, List.map_eq_nil_iff]
  constructor
  · rintro rfl p htext hp
    exact absurd ((hfinds.mem_iff p).mpr ⟨htext, hp, Nat.zero_le _⟩) List.not_mem_nil
  · intro h
    rw [List.eq_nil_iff_forall_not_mem]
    intro o ho
    obtain ⟨htext, hp, -⟩ := (hfinds.mem_iff _).mp (List.mem_map_of_mem ho)
    exact h _ htext hp

/-- A text that is read as it should be has nothing to read. -/
theorem ReadsUrls.eq_nil {s : Text} (h : ReadsUrls s) :
    scanGithubPrUrls s = [] ∧ ∀ o : PrUrl, o.text = s → o.Formed → ¬o.HasScheme := by
  obtain ⟨urls, -, hmem, hjoins⟩ := h
  obtain ⟨found, -, hformed, hscan⟩ := references_found s
  have hnil : scanGithubPrUrls s = [] := by
    rw [hscan] at hjoins ⊢
    cases found with
    | nil => rfl
    | cons o found =>
      cases hjoins with
      | @cons _ p _ _ h _ => exact absurd h ((hformed o List.mem_cons_self).1.not_joins p)
  refine ⟨hnil, fun o htext ho hscheme => ?_⟩
  rw [hnil, List.forall₂_nil_left_iff] at hjoins
  exact absurd ((hmem o).mpr ⟨htext, ho, hscheme⟩) (by rw [hjoins]; exact List.not_mem_nil)

/-- The text has no pull request URL, and no other path that the scanner stops at. -/
def Quiet (s : Text) : Prop :=
  ∀ o : PrUrl, o.text = s → o.Formed → o.AfterSlash →
    ¬o.HasScheme ∧ o.repo = "pull".toList ∧ o.owner ≠ "pull".toList

/-- **The URLs of a text are read as they should be when there is nothing to read**, and
only then. -/
theorem readsUrls_iff (s : Text) : ReadsUrls s ↔ Quiet s := by
  constructor
  · intro h o htext ho hs
    obtain ⟨hnil, hscheme⟩ := h.eq_nil
    refine ⟨hscheme o htext ho, ?_⟩
    -- a path that the scanner stops at would be a reference
    by_contra hpull
    rw [not_and, not_ne_iff] at hpull
    exact scanGithubPrUrls_eq_nil_iff.mp hnil o.occurrence htext ⟨o, rfl, ho, hs, hpull⟩
  · intro hquiet
    have hnil : scanGithubPrUrls s = [] := by
      rw [scanGithubPrUrls_eq_nil_iff]
      rintro p htext ⟨o, rfl, ho, hs, hpull⟩
      obtain ⟨-, hrepo, howner⟩ := hquiet o htext ho hs
      exact howner (hpull hrepo)
    refine ⟨[], List.Pairwise.nil, fun o => ?_, by rw [hnil]; exact .nil⟩
    refine iff_of_false List.not_mem_nil ?_
    rintro ⟨htext, ho, hscheme⟩
    exact (hquiet o htext ho hscheme.afterSlash).1 hscheme

/-- The connector names the pull request `ada/engine#42`, and the scanner `engine#42`. -/
theorem owner_is_lost : ¬ReadsUrls "Mirrors https://github.com/ada/engine/pull/42".toList := by
  intro h
  let o : PrUrl := ⟨"Mirrors https://".toList, "github.com".toList, "ada".toList,
    "engine".toList, "42".toList, []⟩
  have ho : o.Formed := ⟨rfl, by decide, by decide, by decide, List.all_eq_true.mp rfl, nofun⟩
  exact h.eq_nil.2 o rfl ho (.inr (by decide))

end Report
end Dayseam
