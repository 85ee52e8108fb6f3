import Dayseam.Core.Artifact
import Mathlib

/-!
# Identifiers, their texts and their bytes

An identifier is determined by its hyphenated text and by its sixteen bytes, a
number by its digits, and a text by its UTF-8 bytes, also where zero bytes mark the
ends of texts.  The id of an event is a digest of its kind and its upstream id.

## Main results

* `Uuid.display_injective`, `Uuid.bytes_injective`.
* `utf8_zero_inj` — the first text of zero-terminated texts.
* `flatMap_bytes_injective` — a list of identifiers, by its bytes.
* `eventName_inj` — the upstream id and the kind behind the id of an event.
-/

namespace Dayseam

/-! ### Hexadecimal texts -/

@[simp] theorem length_hexDigits (n k : ℕ) : (hexDigits n k).length = k := by
  induction k generalizing n with
  | zero => rfl
  | succ k ih => rw [hexDigits, List.length_append, ih, List.length_singleton]

theorem digitChar_inj_of_lt : ∀ a < 16, ∀ b < 16, a.digitChar = b.digitChar → a = b := by
  decide

theorem mod_eq_of_hexDigits_eq {n m k : ℕ} (h : hexDigits n k = hexDigits m k) :
    n % 16 ^ k = m % 16 ^ k := by
  induction k generalizing n m with
  | zero => rw [Nat.pow_zero, Nat.mod_one, Nat.mod_one]
  | succ k ih =>
    obtain ⟨h1, h2⟩ := List.append_inj' h rfl
    have hdigit : n % 16 = m % 16 :=
      digitChar_inj_of_lt _ (Nat.mod_lt _ (by omega)) _ (Nat.mod_lt _ (by omega))
        (List.singleton_inj.mp h2)
    rw [Nat.pow_succ', Nat.mod_mul, Nat.mod_mul, ih h1, hdigit]

/-- An identifier is determined by its text. -/
theorem Uuid.display_injective : Function.Injective Uuid.display := by
  intro u v h
  have hu := u.isLt
  have hv := v.isLt
  unfold Uuid.display at h
  obtain ⟨h1, h⟩ := List.append_inj h (by simp)
  obtain ⟨h2, h⟩ := List.append_inj (List.cons.inj h).2 (by simp)
  obtain ⟨h3, h⟩ := List.append_inj (List.cons.inj h).2 (by simp)
  obtain ⟨h4, h⟩ := List.append_inj (List.cons.inj h).2 (by simp)
  have h1 := mod_eq_of_hexDigits_eq h1
  have h2 := mod_eq_of_hexDigits_eq h2
  have h3 := mod_eq_of_hexDigits_eq h3
  have h4 := mod_eq_of_hexDigits_eq h4
  have h5 := mod_eq_of_hexDigits_eq (List.cons.inj h).2
  apply Fin.ext
  omega

/-! ### Bytes -/

@[simp] theorem Uuid.length_bytes (u : Uuid) : u.bytes.length = 16 := by
  simp [Uuid.bytes]

/-- Numbers with the same low bytes agree up to them. -/
theorem mod_eq_of_bytes_eq {n m k : ℕ}
    (h : ∀ i < k, n / 256 ^ i % 256 = m / 256 ^ i % 256) : n % 256 ^ k = m % 256 ^ k := by
  induction k with
  | zero => rw [Nat.pow_zero, Nat.mod_one, Nat.mod_one]
  | succ k ih =>
    rw [Nat.mod_pow_succ, Nat.mod_pow_succ, ih fun i hi => h i (by omega), h k (by omega)]

/-- An identifier is determined by its bytes. -/
theorem Uuid.bytes_injective : Function.Injective Uuid.bytes := by
  intro u v h
  have hbyte : ∀ i < 16, u.val / 256 ^ i % 256 = v.val / 256 ^ i % 256 := by
    intro i hi
    have hget := congrArg (fun l : List UInt8 => (l[15 - i]?.map UInt8.toNat)) h
    have hlt : 15 - i < 16 := by omega
    have hpow : 2 ^ (8 * (15 - (15 - i))) = 256 ^ i := by
      rw [Nat.pow_mul]
      congr 1
      omega
    simpa [Uuid.bytes, hlt, hpow] using hget
  have hu : u.val < 256 ^ 16 := Nat.lt_of_lt_of_eq u.isLt (by decide)
  have hv : v.val < 256 ^ 16 := Nat.lt_of_lt_of_eq v.isLt (by decide)
  have hmod := mod_eq_of_bytes_eq hbyte
  rw [Nat.mod_eq_of_lt hu, Nat.mod_eq_of_lt hv] at hmod
  exact Fin.ext hmod

/-- A list of identifiers is determined by its bytes. -/
theorem flatMap_bytes_injective {us vs : List Uuid}
    (h : us.flatMap Uuid.bytes = vs.flatMap Uuid.bytes) : us = vs := by
  induction us generalizing vs with
  | nil =>
    cases vs with
    | nil => rfl
    | cons v vs =>
      have hlen := congrArg List.length h
      simp at hlen
      omega
  | cons u us ih =>
    cases vs with
    | nil =>
      have hlen := congrArg List.length h
      simp at hlen
    | cons v vs =>
      rw [List.flatMap_cons, List.flatMap_cons] at h
      obtain ⟨h1, h2⟩ := List.append_inj h (by simp)
      rw [Uuid.bytes_injective h1, ih h2]

/-! ### UTF-8 -/

@[simp] theorem utf8_nil : utf8 [] = [] := rfl

theorem utf8_cons (c : Char) (t : Text) : utf8 (c :: t) = String.utf8EncodeChar c ++ utf8 t := rfl

/-- The first character of an encoded text. -/
theorem utf8EncodeChar_append_inj {c d : Char} {r r' : List UInt8}
    (h : String.utf8EncodeChar c ++ r = String.utf8EncodeChar d ++ r') : c = d ∧ r = r' := by
  have hc : c = d := by
    have hd := congrArg (fun l : List UInt8 => l.toByteArray.utf8DecodeChar? 0) h
    simpa [List.toByteArray_append, ByteArray.utf8DecodeChar?_utf8EncodeChar_append] using hd
  subst hc
  exact ⟨rfl, List.append_cancel_left h⟩

theorem utf8EncodeChar_zero : String.utf8EncodeChar (Char.ofNat 0) = [0] := by decide

/-- The first of zero-terminated texts. -/
theorem utf8_zero_inj {p q : Text} {r r' : List UInt8} (hp : Char.ofNat 0 ∉ p)
    (hq : Char.ofNat 0 ∉ q) (h : utf8 p ++ [0] ++ r = utf8 q ++ [0] ++ r') : p = q ∧ r = r' := by
  rw [List.append_assoc, List.append_assoc] at h
  induction p generalizing q with
  | nil =>
    cases q with
    | nil => exact ⟨rfl, List.append_cancel_left h⟩
    | cons d q =>
      -- the terminator of the one text would be a character of the other
      rw [utf8_cons, List.append_assoc, utf8_nil, List.nil_append, ← utf8EncodeChar_zero] at h
      obtain ⟨hc, -⟩ := utf8EncodeChar_append_inj h
      exact absurd (hc ▸ List.mem_cons_self) hq
  | cons c p ih =>
    rw [utf8_cons, List.append_assoc] at h
    cases q with
    | nil =>
      rw [utf8_nil, List.nil_append, ← utf8EncodeChar_zero] at h
      obtain ⟨hc, -⟩ := utf8EncodeChar_append_inj h
      exact absurd (hc ▸ List.mem_cons_self) hp
    | cons d q =>
      rw [utf8_cons, List.append_assoc] at h
      obtain ⟨hc, htail⟩ := utf8EncodeChar_append_inj h
      obtain ⟨hpq, hr⟩ := ih (fun hm => hp (List.mem_cons_of_mem _ hm))
        (fun hm => hq (List.mem_cons_of_mem _ hm)) htail
      exact ⟨by rw [hc, hpq], hr⟩

/-- A text is determined by its UTF-8 bytes. -/
theorem utf8_injective : Function.Injective utf8 := by
  intro s t h
  induction s generalizing t with
  | nil =>
    cases t with
    | nil => rfl
    | cons d t => simp [utf8_cons, String.utf8EncodeChar_ne_nil] at h
  | cons c s ih =>
    cases t with
    | nil => simp [utf8_cons, String.utf8EncodeChar_ne_nil] at h
    | cons d t =>
      obtain ⟨hc, htail⟩ := utf8EncodeChar_append_inj h
      rw [hc, ih htail]

/-! ### Numbers -/

theorem toDigits_injective : Function.Injective (Nat.toDigits 10) := by
  intro n m h
  have hn := @Nat.ofDigitChars_ten_toDigits n
  rw [h, Nat.ofDigitChars_ten_toDigits] at hn
  exact hn.symm

/-- A character of a number. -/
theorem isDigit_or_of_mem_i64Text {n : ℤ} {c : Char} (h : c ∈ i64Text n) :
    c.isDigit = true ∨ c = '-' := by
  have hdigit : ∀ c ∈ Nat.toDigits 10 n.natAbs, c.isDigit = true := fun c hc =>
    Nat.isDigit_of_mem_toDigits (by omega) (by omega) hc
  unfold i64Text at h
  split at h
  · rcases List.mem_cons.mp h with h | h
    · exact Or.inr h
    · exact Or.inl (hdigit c h)
  · exact Or.inl (hdigit c h)

/-- A number is determined by its text. -/
theorem i64Text_injective : Function.Injective i64Text := by
  intro n m h
  have hdash : ∀ k : ℕ, ∀ t : Text, Nat.toDigits 10 k ≠ '-' :: t := by
    intro k t hk
    have hd := Nat.isDigit_of_mem_toDigits (b := 10) (n := k) (by omega) (by omega)
      (hk ▸ List.mem_cons_self)
    exact absurd hd (by decide)
  unfold i64Text at h
  split_ifs at h with hn hm
  · have := toDigits_injective (List.cons.inj h).2
    omega
  · exact absurd h.symm (hdash _ _)
  · exact absurd h (hdash _ _)
  · have := toDigits_injective h
    omega

/-- A number in 64 bits is read back from its text. -/
theorem parseI64_i64Text {n : ℤ} (h : -2 ^ 63 ≤ n ∧ n < 2 ^ 63) : parseI64 (i64Text n) = some n := by
  have hdigit {k : ℕ} {c : Char} {t : Text} (ht : Nat.toDigits 10 k = c :: t) :
      c.isDigit = true :=
    Nat.isDigit_of_mem_toDigits (by omega) (by omega) (ht ▸ List.mem_cons_self)
  unfold i64Text
  split_ifs with hn
  · obtain ⟨k, rfl⟩ : ∃ k : ℕ, n = -(k : ℤ) := ⟨n.natAbs, by omega⟩
    rw [Int.natAbs_neg, Int.natAbs_natCast]
    unfold parseI64
    simp only [Calendar.parseNat_toDigits]
    exact Option.filter_some_pos (decide_eq_true h)
  · obtain ⟨k, rfl⟩ : ∃ k : ℕ, n = (k : ℤ) := ⟨n.natAbs, by omega⟩
    rw [Int.natAbs_natCast]
    -- the text starts with a digit, and so with no sign
    unfold parseI64
    split
    · next hdash => exact absurd (hdigit hdash) (by decide)
    · next hplus => exact absurd (hdigit hplus) (by decide)
    · simp only [Calendar.parseNat_toDigits]
      exact Option.filter_some_pos (decide_eq_true h)

theorem parseI64_range {t : Text} {n : ℤ} (h : parseI64 t = some n) :
    -2 ^ 63 ≤ n ∧ n < 2 ^ 63 := by
  unfold parseI64 at h
  exact of_decide_eq_true (Option.mem_filter_iff.mp h).2

/-! ### The ids of events -/

/-- The name of a kind, as it stands in the database and in the ids. -/
def ActivityKind.token : ActivityKind → Text
  | .commitAuthored => "CommitAuthored".toList
  | .mrOpened => "MrOpened".toList
  | .mrMerged => "MrMerged".toList
  | .mrClosed => "MrClosed".toList
  | .mrReviewComment => "MrReviewComment".toList
  | .mrApproved => "MrApproved".toList
  | .issueOpened => "IssueOpened".toList
  | .issueClosed => "IssueClosed".toList
  | .issueComment => "IssueComment".toList
  | .jiraIssueTransitioned => "JiraIssueTransitioned".toList
  | .jiraIssueCommented => "JiraIssueCommented".toList
  | .jiraIssueAssigned => "JiraIssueAssigned".toList
  | .jiraIssueUnassigned => "JiraIssueUnassigned".toList
  | .jiraIssueCreated => "JiraIssueCreated".toList
  | .confluencePageCreated => "ConfluencePageCreated".toList
  | .confluencePageEdited => "ConfluencePageEdited".toList
  | .confluenceComment => "ConfluenceComment".toList
  | .gitHubPullRequestOpened => "GitHubPullRequestOpened".toList
  | .gitHubPullRequestMerged => "GitHubPullRequestMerged".toList
  | .gitHubPullRequestClosed => "GitHubPullRequestClosed".toList
  | .gitHubPullRequestReviewed => "GitHubPullRequestReviewed".toList
  | .gitHubPullRequestCommented => "GitHubPullRequestCommented".toList
  | .gitHubIssueOpened => "GitHubIssueOpened".toList
  | .gitHubIssueClosed => "GitHubIssueClosed".toList
  | .gitHubIssueCommented => "GitHubIssueCommented".toList
  | .gitHubIssueAssigned => "GitHubIssueAssigned".toList
  | .outlookMeetingAttended => "OutlookMeetingAttended".toList

/-- The kinds in the order of their declaration. -/
def ActivityKind.all : List ActivityKind :=
  [.commitAuthored, .mrOpened, .mrMerged, .mrClosed, .mrReviewComment, .mrApproved,
    .issueOpened, .issueClosed, .issueComment, .jiraIssueTransitioned, .jiraIssueCommented,
    .jiraIssueAssigned, .jiraIssueUnassigned, .jiraIssueCreated, .confluencePageCreated,
    .confluencePageEdited, .confluenceComment, .gitHubPullRequestOpened,
    .gitHubPullRequestMerged, .gitHubPullRequestClosed, .gitHubPullRequestReviewed,
    .gitHubPullRequestCommented, .gitHubIssueOpened, .gitHubIssueClosed, .gitHubIssueCommented,
    .gitHubIssueAssigned, .outlookMeetingAttended]

theorem ActivityKind.mem_all (kind : ActivityKind) : kind ∈ all := by
  cases kind <;> decide

theorem ActivityKind.token_injective : Function.Injective token := by
  intro k k' h
  have hnodup : (all.map token).Nodup := by decide +kernel
  exact List.inj_on_of_nodup_map hnodup (mem_all k) (mem_all k') h

theorem ActivityKind.colon_notMem_token (kind : ActivityKind) : ':' ∉ kind.token := by
  cases kind <;> decide +kernel

/-- What the id of an event is the digest of, in the namespace of its source. -/
def eventName (externalId : Text) (kind : ActivityKind) : List UInt8 :=
  utf8 (kind.token ++ "::".toList ++ externalId)

/-- The id of an event; `newV5` is the UUIDv5 of a namespace and a name. -/
def ActivityEvent.deterministicId (newV5 : Uuid → List UInt8 → Uuid) (sourceId : Uuid)
    (externalId : Text) (kind : ActivityKind) : Uuid :=
  newV5 (newV5 Uuid.NAMESPACE_OID (utf8 sourceId.display)) (eventName externalId kind)

/-- The name tells the kind and the upstream id. -/
theorem eventName_inj {e e' : Text} {k k' : ActivityKind} (h : eventName e k = eventName e' k') :
    e = e' ∧ k = k' := by
  have hname := utf8_injective h
  have hsplit := congrArg (Text.splitFirst ':') hname
  have hcolons : "::".toList = [':', ':'] := by decide
  rw [List.append_assoc, List.append_assoc, hcolons] at hsplit
  simp only [List.cons_append, List.nil_append] at hsplit
  rw [Text.splitFirst_append (ActivityKind.colon_notMem_token k),
    Text.splitFirst_append (ActivityKind.colon_notMem_token k')] at hsplit
  obtain ⟨hk, he⟩ := Prod.mk.inj (Option.some.inj hsplit)
  exact ⟨(List.cons.inj he).2, ActivityKind.token_injective hk⟩

end Dayseam
