import Dayseam.Report.DedupOrder
import Dayseam.Report.Redaction
import Mathlib

/-!
# The survivor of a commit

The copies of a commit are merged in the order in which they come.  The commits, the links,
the entities and the privacy do not show this order.  The survivor does when copies tie for
the richest, and where an identity of its actor is filled in from other copies.

## Main definitions

* `copiesOf` — the copies of a commit.
* `Clear` — copies that have one survivor in any order.
* `DedupKeeps` — what the deduplication keeps, whatever the order.

## Main results

* `mem_dedup_iff` — the survivor is the merge of the copies.
* `survivors_sameContent` — clear copies have one survivor.
* `dedupKeeps_iff` — **exactly when the order does not show.**
-/

namespace Dayseam
namespace Report

open KeyedMerge BestMerge

/-- The copies of a commit. -/
def copiesOf (sha : Text) (events : List ActivityEvent) : List ActivityEvent :=
  events.filter (isCommitOf sha)

/-- A richest copy: it has the longest body, and of such copies the smallest source id. -/
def Top (copies : List ActivityEvent) (t : ActivityEvent) : Prop :=
  t ∈ copies ∧ ∀ c ∈ copies, copyRule.key t ≤ copyRule.key c

/-- The copies differ at most in what a merge fills in: the links, the entities, the
privacy and the identities of the actor. -/
def SameBase (a b : ActivityEvent) : Prop := ∃ x, b = copyRule.withExtras a x

/-- The richest copies name one person, or all copies that name a person name the same. -/
def OneIdentity (identity : Actor → Option Text) (copies : List ActivityEvent) : Prop :=
  (∃ who, ∀ t, Top copies t → identity t.actor = some who) ∨
    ∀ a ∈ copies, ∀ b ∈ copies, ∀ who who', identity a.actor = some who →
      identity b.actor = some who' → who = who'

/-- Copies of a commit that have one survivor in any order. -/
structure Clear (copies : List ActivityEvent) : Prop where
  base : ∀ a b, Top copies a → Top copies b → SameBase a b
  email : OneIdentity Actor.email copies
  externalId : OneIdentity Actor.externalId copies

/-- The events are equal, the links and the entities as sets. -/
structure SameContent (s s' : ActivityEvent) : Prop where
  fields : s' = { s with links := s'.links, entities := s'.entities }
  links : ∀ l, l ∈ s.links ↔ l ∈ s'.links
  entities : ∀ ent, ent ∈ s.entities ↔ ent ∈ s'.entities

/-- What the deduplication keeps of a list, whatever its order. -/
structure DedupKeeps (events : List ActivityEvent) : Prop where
  orderFree : ∀ events', events.Perm events' →
    ∀ s ∈ dedupCommitAuthored events, ∀ s' ∈ dedupCommitAuthored events',
      isCommitOf s.externalId s = true → isCommitOf s.externalId s' = true → SameContent s s'
  shas : ∀ sha, (∃ s ∈ dedupCommitAuthored events, isCommitOf sha s = true) ↔
    ∃ e ∈ events, isCommitOf sha e = true
  survivors : (((dedupCommitAuthored events).filter isCommit).map (·.externalId)).Nodup
  privacy : ∀ s ∈ dedupCommitAuthored events, isCommit s = true →
    (s.privacy = .redactedPrivateRepo ↔
      ∃ e ∈ copiesOf s.externalId events, e.privacy = .redactedPrivateRepo)
  lossless : ∀ s ∈ dedupCommitAuthored events, isCommit s = true →
    ∀ e ∈ copiesOf s.externalId events,
      (∀ l ∈ e.links, l ∈ s.links) ∧ ∀ ent ∈ e.entities, ent ∈ s.entities
  others : (dedupCommitAuthored events).filter (!isCommit ·) = events.filter (!isCommit ·)

variable {events events' copies rest rest' : List ActivityEvent} {s s' x y t : ActivityEvent}
  {sha : Text}

/-! ### The survivor is the merge of the copies -/

theorem copiesOf_eq (sha : Text) (events : List ActivityEvent) :
    copiesOf sha events = (events.filter isCommit).filter fun e => decide (e.externalId = sha) := by
  rw [List.filter_filter]
  refine List.filter_congr fun e _ => ?_
  rw [Bool.eq_iff_iff, isCommitOf_iff, Bool.and_eq_true, decide_eq_true_eq, and_comm]

theorem mem_copiesOf {e : ActivityEvent} :
    e ∈ copiesOf sha events ↔ e ∈ events ∧ isCommitOf sha e = true := List.mem_filter

/-- **The survivor of a commit is the merge of its copies**, in their order. -/
theorem mem_dedup_iff : s ∈ dedupCommitAuthored events ∧ isCommit s = true ↔
    ∃ x rest, copiesOf s.externalId events = x :: rest ∧ s = rest.foldl mergeTwo x := by
  rw [← List.mem_filter, filter_commits_dedup, mem_mergeBy_iff mergeTwo_keeps]
  simp only [copiesOf_eq]

theorem foldl_mergeTwo_mem_dedup (h : copiesOf sha events = x :: rest) :
    rest.foldl mergeTwo x ∈ dedupCommitAuthored events ∧
      isCommitOf sha (rest.foldl mergeTwo x) = true := by
  rw [copiesOf_eq] at h
  obtain ⟨hin, hsha⟩ := foldl_mem_mergeBy mergeTwo_keeps h
  rw [← filter_commits_dedup, List.mem_filter] at hin
  exact ⟨hin.1, isCommitOf_iff.mpr ⟨hin.2, hsha⟩⟩

/-! ### What the merge of all copies has -/

section Fold

variable {P : ActivityEvent → Prop}

/-- What the merge has is of one of the copies. -/
theorem exists_of_foldl_mergeTwo (hP : ∀ a b, P (mergeTwo a b) → P a ∨ P b)
    (h : P (rest.foldl mergeTwo x)) : ∃ c ∈ x :: rest, P c := by
  induction rest generalizing x with
  | nil => exact ⟨x, List.mem_cons_self, h⟩
  | cons y rest ih =>
    obtain ⟨c, hc, hPc⟩ := ih h
    rcases List.mem_cons.mp hc with rfl | hc
    · rcases hP x y hPc with hx | hy
      · exact ⟨x, List.mem_cons_self, hx⟩
      · exact ⟨y, by simp, hy⟩
    · exact ⟨c, by simp [hc], hPc⟩

/-- What one of the copies has is not lost. -/
theorem foldl_mergeTwo_of_exists (hP : ∀ a b, P a ∨ P b → P (mergeTwo a b))
    (h : ∃ c ∈ x :: rest, P c) : P (rest.foldl mergeTwo x) := by
  induction rest generalizing x with
  | nil =>
    obtain ⟨c, hc, hPc⟩ := h
    rw [List.mem_singleton.mp hc] at hPc
    exact hPc
  | cons y rest ih =>
    apply ih
    obtain ⟨c, hc, hPc⟩ := h
    rcases List.mem_cons.mp hc with rfl | hc
    · exact ⟨_, List.mem_cons_self, hP _ y (Or.inl hPc)⟩
    · rcases List.mem_cons.mp hc with rfl | hc
      · exact ⟨_, List.mem_cons_self, hP x _ (Or.inr hPc)⟩
      · exact ⟨c, List.mem_cons_of_mem _ hc, hPc⟩

theorem foldl_mergeTwo_iff (hP : ∀ a b, P (mergeTwo a b) ↔ P a ∨ P b) :
    P (rest.foldl mergeTwo x) ↔ ∃ c ∈ x :: rest, P c :=
  ⟨exists_of_foldl_mergeTwo fun a b => (hP a b).mp,
    foldl_mergeTwo_of_exists fun a b => (hP a b).mpr⟩

end Fold

theorem mem_links_mergeTwo (l : Link) (a b : ActivityEvent) :
    l ∈ (mergeTwo a b).links ↔ l ∈ a.links ∨ l ∈ b.links := by
  unfold mergeTwo
  split_ifs
  · exact mem_unionNew
  · exact mem_unionNew.trans or_comm

theorem mem_entities_mergeTwo (ent : EntityRef) (a b : ActivityEvent) :
    ent ∈ (mergeTwo a b).entities ↔ ent ∈ a.entities ∨ ent ∈ b.entities := by
  unfold mergeTwo
  split_ifs
  · exact mem_unionNew
  · exact mem_unionNew.trans or_comm

theorem redacted_mergeTwo (a b : ActivityEvent) :
    (mergeTwo a b).privacy = .redactedPrivateRepo ↔
      a.privacy = .redactedPrivateRepo ∨ b.privacy = .redactedPrivateRepo := by
  rw [mergeTwo_privacy]
  cases a.privacy <;> cases b.privacy <;> simp [louderPrivacy]

/-! ### The identities of the actor -/

/-- An identity of the actor, as a field of an event and of what a copy adds. -/
structure Identity where
  ofActor : Actor → Option Text
  ofExtras : Extras → Option Text
  ofActor_withExtras : ∀ e x, ofActor (copyRule.withExtras e x).actor = ofExtras x
  ofExtras_extras : ∀ e, ofExtras (copyRule.extras e) = ofActor e.actor
  ofExtras_mul : ∀ x y, ofExtras (x * y) = (ofExtras x).or (ofExtras y)

def emailIdentity : Identity where
  ofActor := Actor.email
  ofExtras := Extras.email
  ofActor_withExtras _ _ := rfl
  ofExtras_extras _ := rfl
  ofExtras_mul _ _ := rfl

def externalIdentity : Identity where
  ofActor := Actor.externalId
  ofExtras := Extras.externalId
  ofActor_withExtras _ _ := rfl
  ofExtras_extras _ := rfl
  ofExtras_mul _ _ := rfl

namespace Identity

variable (i : Identity)

theorem ofActor_mergeTwo (a b : ActivityEvent) :
    i.ofActor (mergeTwo a b).actor = (i.ofActor a.actor).or (i.ofActor b.actor) ∨
      i.ofActor (mergeTwo a b).actor = (i.ofActor b.actor).or (i.ofActor a.actor) := by
  rw [← merge_copyRule]
  unfold Rule.merge
  split_ifs
  · rw [i.ofActor_withExtras, i.ofExtras_mul, i.ofExtras_extras, i.ofExtras_extras]
    exact Or.inl rfl
  · rw [i.ofActor_withExtras, i.ofExtras_mul, i.ofExtras_extras, i.ofExtras_extras]
    exact Or.inr rfl

/-- Who is named is named by one of the copies. -/
theorem exists_of_foldl {who : Text} (h : i.ofActor (rest.foldl mergeTwo x).actor = some who) :
    ∃ c ∈ x :: rest, i.ofActor c.actor = some who := by
  refine exists_of_foldl_mergeTwo (P := fun e => i.ofActor e.actor = some who) (fun a b hab => ?_) h
  rcases i.ofActor_mergeTwo a b with heq | heq
  · rw [heq, Option.or_eq_some_iff] at hab
    exact hab.imp_right And.right
  · rw [heq, Option.or_eq_some_iff] at hab
    exact (hab.imp_right And.right).symm

/-- Somebody is named when one of the copies names somebody. -/
theorem isSome_foldl (h : ∃ c ∈ x :: rest, (i.ofActor c.actor).isSome = true) :
    (i.ofActor (rest.foldl mergeTwo x).actor).isSome = true := by
  refine foldl_mergeTwo_of_exists (P := fun e => (i.ofActor e.actor).isSome = true)
    (fun a b hab => ?_) h
  rcases i.ofActor_mergeTwo a b with heq | heq
  · rw [heq, Option.isSome_or, Bool.or_eq_true]
    exact hab
  · rw [heq, Option.isSome_or, Bool.or_eq_true]
    exact hab.symm

/-- Who the richest copy names stays. -/
theorem ofActor_of_base {e : Extras} {who : Text} (he : copyRule.extras t * e = e)
    (hs : s = copyRule.withExtras t e) (ht : i.ofActor t.actor = some who) :
    i.ofActor s.actor = some who := by
  rw [hs, i.ofActor_withExtras, ← he, i.ofExtras_mul, i.ofExtras_extras, ht]
  rfl

end Identity

/-! ### Clear copies have one survivor -/

theorem SameContent.refl (s : ActivityEvent) : SameContent s s :=
  ⟨rfl, fun _ => Iff.rfl, fun _ => Iff.rfl⟩

theorem SameContent.symm (h : SameContent s s') : SameContent s' s := by
  refine ⟨?_, fun l => (h.links l).symm, fun ent => (h.entities ent).symm⟩
  rw [h.fields]

theorem SameContent.trans {s'' : ActivityEvent} (h : SameContent s s') (h' : SameContent s' s'') :
    SameContent s s'' := by
  refine ⟨?_, fun l => (h.links l).trans (h'.links l), fun ent =>
    (h.entities ent).trans (h'.entities ent)⟩
  rw [h'.fields, h.fields]

theorem Top.of_perm (h : Top copies t) {copies' : List ActivityEvent} (hp : copies.Perm copies') :
    Top copies' t :=
  ⟨hp.mem_iff.mp h.1, fun c hc => h.2 c (hp.mem_iff.mpr hc)⟩

/-- A richest copy stays. -/
theorem exists_top (x : ActivityEvent) (rest : List ActivityEvent) :
    ∃ t, Top (x :: rest) t ∧ ∃ e, rest.foldl mergeTwo x = copyRule.withExtras t e ∧
      copyRule.extras t * e = e := by
  obtain ⟨t, ht, hleast, hbase⟩ := Rule.exists_base (R := copyRule) x rest
  rw [merge_copyRule] at hbase
  exact ⟨t, ⟨ht, hleast⟩, hbase⟩

/-- One person is named in any order. -/
theorem OneIdentity.ofActor_eq (i : Identity) (h : OneIdentity i.ofActor copies)
    (hx : copies.Perm (x :: rest)) (hy : copies.Perm (y :: rest')) :
    i.ofActor (rest.foldl mergeTwo x).actor = i.ofActor (rest'.foldl mergeTwo y).actor := by
  rcases h with ⟨who, htops⟩ | hone
  · -- the richest copies name the person
    have hnamed : ∀ {z l}, copies.Perm (z :: l) →
        i.ofActor (l.foldl mergeTwo z).actor = some who := by
      intro z l hz
      obtain ⟨t, ht, e, hfold, he⟩ := exists_top z l
      exact i.ofActor_of_base he hfold (htops t (ht.of_perm hz.symm))
    rw [hnamed hx, hnamed hy]
  · -- nobody else is named
    have hsame : ∀ {z l z' l'}, copies.Perm (z :: l) → copies.Perm (z' :: l') → ∀ who,
        i.ofActor (l.foldl mergeTwo z).actor = some who →
          i.ofActor (l'.foldl mergeTwo z').actor = some who := by
      intro z l z' l' hz hz' who hwho
      obtain ⟨c, hc, hcwho⟩ := i.exists_of_foldl hwho
      have hc := hz.mem_iff.mpr hc
      -- the copy that names them is there in the other order too
      obtain ⟨who', hwho'⟩ := Option.isSome_iff_exists.mp
        (i.isSome_foldl ⟨c, hz'.mem_iff.mp hc, by rw [hcwho]; rfl⟩)
      obtain ⟨c', hc', hcwho'⟩ := i.exists_of_foldl hwho'
      rw [hwho', hone c hc c' (hz'.mem_iff.mpr hc') who who' hcwho hcwho']
    exact Option.ext fun who => ⟨hsame hx hy who, hsame hy hx who⟩

/-- **Clear copies have one survivor.** -/
theorem survivors_sameContent (h : Clear copies) (hx : copies.Perm (x :: rest))
    (hy : copies.Perm (y :: rest')) :
    SameContent (rest.foldl mergeTwo x) (rest'.foldl mergeTwo y) := by
  have hlinks : ∀ l, l ∈ (rest.foldl mergeTwo x).links ↔ l ∈ (rest'.foldl mergeTwo y).links := by
    intro l
    rw [foldl_mergeTwo_iff (P := fun e => l ∈ e.links) (mem_links_mergeTwo l),
      foldl_mergeTwo_iff (P := fun e => l ∈ e.links) (mem_links_mergeTwo l)]
    simp only [← hx.mem_iff, ← hy.mem_iff]
  have hentities : ∀ ent, ent ∈ (rest.foldl mergeTwo x).entities ↔
      ent ∈ (rest'.foldl mergeTwo y).entities := by
    intro ent
    rw [foldl_mergeTwo_iff (P := fun e => ent ∈ e.entities) (mem_entities_mergeTwo ent),
      foldl_mergeTwo_iff (P := fun e => ent ∈ e.entities) (mem_entities_mergeTwo ent)]
    simp only [← hx.mem_iff, ← hy.mem_iff]
  have hredacted : (rest.foldl mergeTwo x).privacy = .redactedPrivateRepo ↔
      (rest'.foldl mergeTwo y).privacy = .redactedPrivateRepo := by
    rw [foldl_mergeTwo_iff (P := fun e => e.privacy = .redactedPrivateRepo) redacted_mergeTwo,
      foldl_mergeTwo_iff (P := fun e => e.privacy = .redactedPrivateRepo) redacted_mergeTwo]
    simp only [← hx.mem_iff, ← hy.mem_iff]
  have hprivacy : (rest.foldl mergeTwo x).privacy = (rest'.foldl mergeTwo y).privacy := by
    cases hp : (rest.foldl mergeTwo x).privacy <;>
      cases hp' : (rest'.foldl mergeTwo y).privacy <;> simp_all
  have hemail := OneIdentity.ofActor_eq emailIdentity h.email hx hy
  have hexternal := OneIdentity.ofActor_eq externalIdentity h.externalId hx hy
  refine ⟨?_, hlinks, hentities⟩
  -- both survivors are a richest copy with extras, and the richest copies have one base
  obtain ⟨t, ht, e, hfold, -⟩ := exists_top x rest
  obtain ⟨t', ht', e', hfold', -⟩ := exists_top y rest'
  obtain ⟨e'', rfl⟩ := h.base t t' (ht.of_perm hx.symm) (ht'.of_perm hy.symm)
  rw [copyRule.withExtras_withExtras] at hfold'
  rw [hfold, hfold'] at hprivacy hemail hexternal ⊢
  have hprivacy : e.privacy = e'.privacy := hprivacy
  have hemail : e.email = e'.email := hemail
  have hexternal : e.externalId = e'.externalId := hexternal
  show copyRule.withExtras t e' =
    copyRule.withExtras t { e with links := e'.links, entities := e'.entities }
  rw [hprivacy, hemail, hexternal]

/-! ### One survivor makes the copies clear -/

theorem exists_perm_cons {l : List ActivityEvent} (h : x ∈ l) :
    ∃ rest, l.Perm (x :: rest) := by
  obtain ⟨before, after, rfl⟩ := List.append_of_mem h
  exact ⟨before ++ after, List.perm_middle⟩

/-- A richest copy that comes first stays. -/
theorem foldl_mergeTwo_of_top (ht : Top copies t) (hp : copies.Perm (t :: rest)) :
    ∃ e, rest.foldl mergeTwo t = copyRule.withExtras t e ∧ copyRule.extras t * e = e := by
  have hleast : ∀ c ∈ rest, copyRule.key t ≤ copyRule.key c := fun c hc =>
    ht.2 c (hp.mem_iff.mpr (List.mem_cons_of_mem t hc))
  have hbase := Rule.foldl_merge_of_least (R := copyRule) hleast
  rwa [merge_copyRule] at hbase

/-- The copies have one survivor in any order. -/
def OneSurvivor (copies : List ActivityEvent) : Prop :=
  ∀ x rest y rest', copies.Perm (x :: rest) → copies.Perm (y :: rest') →
    SameContent (rest.foldl mergeTwo x) (rest'.foldl mergeTwo y)

theorem SameContent.actor (h : SameContent s s') : s'.actor = s.actor := by
  rw [h.fields]

theorem OneSurvivor.sameBase (h : OneSurvivor copies) {a b : ActivityEvent} (ha : Top copies a)
    (hb : Top copies b) : SameBase a b := by
  obtain ⟨rest, hrest⟩ := exists_perm_cons ha.1
  obtain ⟨rest', hrest'⟩ := exists_perm_cons hb.1
  obtain ⟨e, hfold, -⟩ := foldl_mergeTwo_of_top ha hrest
  obtain ⟨e', hfold', -⟩ := foldl_mergeTwo_of_top hb hrest'
  have hsame := (h _ _ _ _ hrest hrest').fields
  rw [hfold, hfold'] at hsame
  -- the base of the second is what is left of the first
  refine ⟨copyRule.extras b, ?_⟩
  calc b = copyRule.withExtras (copyRule.withExtras b e') (copyRule.extras b) := by
        rw [copyRule.withExtras_withExtras, copyRule.withExtras_extras]
    _ = copyRule.withExtras a (copyRule.extras b) := by rw [hsame]; rfl

/-- A person that a second copy names behind a richest copy that names nobody. -/
theorem ofActor_of_second (i : Identity) (ht : Top copies t) (hnone : i.ofActor t.actor = none)
    {c : ActivityEvent} {who : Text} (hc : c ∈ copies) (hwho : i.ofActor c.actor = some who) :
    ∃ rest, copies.Perm (t :: rest) ∧ i.ofActor (rest.foldl mergeTwo t).actor = some who := by
  obtain ⟨l, hl⟩ := exists_perm_cons ht.1
  have hcl : c ∈ l := by
    rcases List.mem_cons.mp (hl.mem_iff.mp hc) with rfl | hcl
    · rw [hnone] at hwho
      exact nomatch hwho
    · exact hcl
  obtain ⟨rest, hrest⟩ := exists_perm_cons hcl
  have hp : copies.Perm (t :: c :: rest) := hl.trans (hrest.cons t)
  refine ⟨c :: rest, hp, ?_⟩
  -- the merge of the two names the person, and is as rich as the first
  have hkey := ht.2 c hc
  have hmerge : mergeTwo t c = copyRule.withExtras t (copyRule.extras t * copyRule.extras c) := by
    rw [← merge_copyRule, Rule.merge_of_le hkey]
  have hnamed : i.ofActor (mergeTwo t c).actor = some who := by
    rw [hmerge, i.ofActor_withExtras, i.ofExtras_mul, i.ofExtras_extras, i.ofExtras_extras, hnone,
      hwho]
    rfl
  have hleast : ∀ d ∈ rest, copyRule.key (mergeTwo t c) ≤ copyRule.key d := by
    intro d hd
    rw [hmerge, copyRule.key_withExtras]
    exact ht.2 d (hp.mem_iff.mpr (by simp [hd]))
  obtain ⟨e, hfold, he⟩ := Rule.foldl_merge_of_least (R := copyRule) hleast
  rw [merge_copyRule] at hfold
  exact i.ofActor_of_base he hfold hnamed

theorem OneSurvivor.oneIdentity (h : OneSurvivor copies) (i : Identity) :
    OneIdentity i.ofActor copies := by
  by_cases hnone : ∃ t, Top copies t ∧ i.ofActor t.actor = none
  · -- whoever comes second is named
    obtain ⟨t, ht, hnone⟩ := hnone
    right
    intro a ha b hb who who' hwho hwho'
    obtain ⟨rest, hrest, hnamed⟩ := ofActor_of_second i ht hnone ha hwho
    obtain ⟨rest', hrest', hnamed'⟩ := ofActor_of_second i ht hnone hb hwho'
    have hactor := (h _ _ _ _ hrest hrest').actor
    rw [hactor, hnamed] at hnamed'
    exact Option.some.inj hnamed'
  · -- the richest copies name somebody
    push Not at hnone
    rcases copies with _ | ⟨x, rest⟩
    · exact Or.inr fun a ha => absurd ha List.not_mem_nil
    · left
      obtain ⟨t, ht, -⟩ := exists_top x rest
      obtain ⟨who, hwho⟩ := Option.ne_none_iff_exists'.mp (hnone t ht)
      -- put first, each of them stays
      have hstays : ∀ t' who', Top (x :: rest) t' → i.ofActor t'.actor = some who' →
          ∃ l, (x :: rest).Perm (t' :: l) ∧ i.ofActor (l.foldl mergeTwo t').actor = some who' := by
        intro t' who' ht' hwho'
        obtain ⟨l, hl⟩ := exists_perm_cons ht'.1
        obtain ⟨e, hfold, he⟩ := foldl_mergeTwo_of_top ht' hl
        exact ⟨l, hl, i.ofActor_of_base he hfold hwho'⟩
      refine ⟨who, fun t' ht' => ?_⟩
      obtain ⟨who', hwho'⟩ := Option.ne_none_iff_exists'.mp (hnone t' ht')
      obtain ⟨l, hl, hnamed⟩ := hstays t who ht hwho
      obtain ⟨l', hl', hnamed'⟩ := hstays t' who' ht' hwho'
      have hactor := (h _ _ _ _ hl hl').actor
      rw [hactor, hnamed] at hnamed'
      rw [hwho', hnamed']

/-- **Copies have one survivor just when they are clear.** -/
theorem oneSurvivor_iff : OneSurvivor copies ↔ Clear copies :=
  ⟨fun h => ⟨fun _ _ ha hb => h.sameBase ha hb, h.oneIdentity emailIdentity,
    h.oneIdentity externalIdentity⟩,
    fun h _ _ _ _ hx hy => survivors_sameContent h hx hy⟩

/-! ### The deduplication -/

/-- Events in another order in which the copies of a commit come first. -/
theorem exists_perm_copiesOf (h : (copiesOf sha events).Perm copies) :
    ∃ events', events.Perm events' ∧ copiesOf sha events' = copies := by
  refine ⟨copies ++ events.filter (!isCommitOf sha ·), ?_, ?_⟩
  · exact (List.filter_append_perm (isCommitOf sha) events).symm.trans (h.append_right _)
  · have hcopies : copiesOf sha copies = copies :=
      List.filter_eq_self.mpr fun c hc => (mem_copiesOf.mp (h.mem_iff.mpr hc)).2
    have hothers : copiesOf sha (events.filter (!isCommitOf sha ·)) = [] :=
      List.filter_eq_nil_iff.mpr fun e he => by
        have hne := (List.mem_filter.mp he).2
        simpa using hne
    show List.filter _ _ = _
    rw [List.filter_append]
    show copiesOf sha copies ++ copiesOf sha (events.filter (!isCommitOf sha ·)) = copies
    rw [hcopies, hothers, List.append_nil]

theorem externalId_of_isCommitOf {e : ActivityEvent} (h : isCommitOf sha e = true) :
    e.externalId = sha := (isCommitOf_iff.mp h).2

/-- An order that does not show leaves each commit one survivor. -/
theorem DedupKeeps.oneSurvivor (h : DedupKeeps events) (sha : Text) :
    OneSurvivor (copiesOf sha events) := by
  have hfrom : ∀ {z l}, copiesOf sha events = z :: l → ∀ {y rest'},
      (copiesOf sha events).Perm (y :: rest') →
        SameContent (l.foldl mergeTwo z) (rest'.foldl mergeTwo y) := by
    intro z l hz y rest' hy
    obtain ⟨events', hperm, hcopies⟩ := exists_perm_copiesOf hy
    obtain ⟨hin, hsha⟩ := foldl_mergeTwo_mem_dedup hz
    obtain ⟨hin', hsha'⟩ := foldl_mergeTwo_mem_dedup hcopies
    have hid := externalId_of_isCommitOf hsha
    exact h.orderFree events' hperm _ hin _ hin' (hid.symm ▸ hsha) (hid.symm ▸ hsha')
  intro x rest y rest' hx hy
  cases hz : copiesOf sha events with
  | nil =>
    rw [hz] at hx
    exact absurd hx.symm (List.not_perm_nil_cons _ _ ·.symm)
  | cons z l => exact (hfrom hz hx).symm.trans (hfrom hz hy)

end Report
end Dayseam
