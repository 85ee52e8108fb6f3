import Dayseam.Core.Ids
import Mathlib

/-!
# Texts and their bytes

A scanner that runs over the bytes of a text and asks only for ASCII characters sees
what a scanner over its characters would see: an ASCII character is one byte, and the
bytes of any other character are none of those that it asks for.

## Main results

* `fromUtf8_utf8` — the bytes of a text decode to it.
* `utf8EncodeChar_ascii` — the bytes of an ASCII character, and of any other.
* `Agrees.takeWhile_utf8`, `Agrees.any_head?`, `Agrees.any_getLast?` — a test of bytes
  on the bytes of a text.
-/

namespace Dayseam

theorem utf8_append (s t : Text) : utf8 (s ++ t) = utf8 s ++ utf8 t := List.flatMap_append

theorem utf8_ne_nil {t : Text} (h : t ≠ []) : utf8 t ≠ [] := by
  obtain ⟨c, t, rfl⟩ := List.exists_cons_of_ne_nil h
  rw [utf8_cons]
  exact List.append_ne_nil_of_left_ne_nil String.utf8EncodeChar_ne_nil _

/-- `std::str::from_utf8`. -/
def fromUtf8 (bytes : List UInt8) : Option Text :=
  (String.fromUTF8? bytes.toByteArray).map String.toList

theorem fromUtf8_utf8 (t : Text) : fromUtf8 (utf8 t) = some t := by
  have h : (utf8 t).toByteArray = (String.ofList t).toByteArray := by
    rw [String.toByteArray_ofList]
    rfl
  unfold fromUtf8 String.fromUTF8?
  rw [h, dif_pos (String.ofList t).isValidUTF8]
  exact congrArg some String.toList_ofList

/-! ### ASCII characters -/

/-- A kind of ASCII characters, as a kind of bytes. -/
structure Agrees (q : UInt8 → Bool) (p : Char → Bool) : Prop where
  pos : ∀ c : Char, p c = true → ∃ b, String.utf8EncodeChar c = [b] ∧ q b = true
  neg : ∀ c : Char, p c = false → ∀ b ∈ String.utf8EncodeChar c, q b = false

theorem le_toNat_or {b mask : UInt8} (h : 128 ≤ mask.toNat) : 128 ≤ (b ||| mask).toNat := by
  rw [UInt8.toNat_or]
  exact h.trans Nat.right_le_or

/-- An ASCII character is one byte, and the bytes of any other character are beyond them. -/
theorem utf8EncodeChar_ascii (c : Char) :
    (c.toNat < 128 ∧ ∃ b : UInt8, String.utf8EncodeChar c = [b] ∧ b.toNat = c.toNat) ∨
      (128 ≤ c.toNat ∧ ∀ b ∈ String.utf8EncodeChar c, 128 ≤ b.toNat) := by
  rw [String.utf8EncodeChar_eq_utf8EncodeCharFast]
  unfold String.utf8EncodeCharFast
  dsimp only
  split_ifs with h
  · have hc : c.toNat ≤ 127 := h
    left
    refine ⟨by omega, _, rfl, ?_⟩
    rw [UInt32.toNat_toUInt8, Char.toNat_val, Nat.mod_eq_of_lt (by omega)]
  all_goals
    right
    refine ⟨Nat.lt_of_not_le h, fun b hb => ?_⟩
    simp only [List.mem_cons, List.not_mem_nil, or_false] at hb
  · rcases hb with rfl | rfl <;> exact le_toNat_or (by decide)
  · rcases hb with rfl | rfl | rfl <;> exact le_toNat_or (by decide)
  · rcases hb with rfl | rfl | rfl | rfl <;> exact le_toNat_or (by decide)

/-- Tests of a number below 128, on a character and on a byte. -/
theorem agrees_of {q : UInt8 → Bool} {p : Char → Bool} (r : ℕ → Bool)
    (hq : ∀ b, q b = r b.toNat) (hp : ∀ c, p c = r c.toNat) (hr : ∀ n, 128 ≤ n → r n = false) :
    Agrees q p where
  pos c hc := by
    rw [hp] at hc
    rcases utf8EncodeChar_ascii c with ⟨-, b, hb, hbc⟩ | ⟨hge, -⟩
    · exact ⟨b, hb, by rw [hq, hbc, hc]⟩
    · rw [hr _ hge] at hc
      exact absurd hc Bool.false_ne_true
  neg c hc b hb := by
    rw [hp] at hc
    rw [hq]
    rcases utf8EncodeChar_ascii c with ⟨-, b', hb', hbc⟩ | ⟨-, hge⟩
    · rw [hb', List.mem_singleton] at hb
      rw [hb, hbc, hc]
    · exact hr _ (hge b hb)

theorem Agrees.or {q q' : UInt8 → Bool} {p p' : Char → Bool} (h : Agrees q p) (h' : Agrees q' p') :
    Agrees (fun b => q b || q' b) (fun c => p c || p' c) where
  pos c hc := by
    rcases Bool.or_eq_true _ _ |>.mp hc with hc | hc
    · obtain ⟨b, hb, hq⟩ := h.pos c hc
      exact ⟨b, hb, by rw [hq, Bool.true_or]⟩
    · obtain ⟨b, hb, hq⟩ := h'.pos c hc
      exact ⟨b, hb, by rw [hq, Bool.or_true]⟩
  neg c hc b hb := by
    obtain ⟨hp, hp'⟩ := Bool.or_eq_false_iff.mp hc
    rw [h.neg c hp b hb, h'.neg c hp' b hb]
    rfl

namespace Agrees

variable {q : UInt8 → Bool} {p : Char → Bool}

theorem takeWhile_utf8 (h : Agrees q p) (t : Text) :
    (utf8 t).takeWhile q = utf8 (t.takeWhile p) := by
  induction t with
  | nil => rfl
  | cons c t ih =>
    rw [utf8_cons]
    by_cases hc : p c = true
    · obtain ⟨b, hb, hq⟩ := h.pos c hc
      rw [List.takeWhile_cons_of_pos hc, utf8_cons, hb, List.singleton_append,
        List.takeWhile_cons_of_pos hq, ih]
      rfl
    · rw [List.takeWhile_cons_of_neg hc]
      obtain ⟨b, bs, hbs⟩ := List.exists_cons_of_ne_nil (String.utf8EncodeChar_ne_nil (c := c))
      have hq := h.neg c (Bool.not_eq_true _ ▸ hc) b (by rw [hbs]; exact List.mem_cons_self)
      rw [hbs, List.cons_append, List.takeWhile_cons_of_neg (by rw [hq]; exact Bool.false_ne_true)]
      rfl

theorem any_head? (h : Agrees q p) (t : Text) : (utf8 t).head?.any q = t.head?.any p := by
  cases t with
  | nil => rfl
  | cons c t =>
    rw [utf8_cons]
    obtain ⟨b, bs, hbs⟩ := List.exists_cons_of_ne_nil (String.utf8EncodeChar_ne_nil (c := c))
    rw [hbs]
    show q b = p c
    cases hc : p c with
    | false => exact h.neg c hc b (by rw [hbs]; exact List.mem_cons_self)
    | true =>
      obtain ⟨b', hb', hq⟩ := h.pos c hc
      rw [hbs] at hb'
      rw [(List.cons.inj hb').1, hq]

theorem any_getLast? (h : Agrees q p) (t : Text) : (utf8 t).getLast?.any q = t.getLast?.any p := by
  rcases List.eq_nil_or_concat' t with rfl | ⟨t, c, rfl⟩
  · rfl
  obtain ⟨bs, b, hbs⟩ :=
    (List.eq_nil_or_concat' (String.utf8EncodeChar c)).resolve_left String.utf8EncodeChar_ne_nil
  rw [utf8, List.flatMap_append, List.flatMap_singleton, hbs, ← List.append_assoc,
    List.getLast?_concat, List.getLast?_concat]
  show q b = p c
  cases hc : p c with
  | false => exact h.neg c hc b (by rw [hbs]; simp)
  | true =>
    obtain ⟨b', hb', hq⟩ := h.pos c hc
    rw [hbs, ← List.nil_append [b']] at hb'
    obtain ⟨-, hbb⟩ := List.append_inj' hb' rfl
    rw [(List.cons.inj hbb).1, hq]

/-- Such characters are one byte each. -/
theorem length_utf8 (h : Agrees q p) {t : Text} (ht : ∀ c ∈ t, p c = true) :
    (utf8 t).length = t.length := by
  induction t with
  | nil => rfl
  | cons c t ih =>
    obtain ⟨b, hb, -⟩ := h.pos c (ht c List.mem_cons_self)
    rw [utf8_cons, hb, List.singleton_append, List.length_cons, List.length_cons,
      ih fun d hd => ht d (List.mem_cons_of_mem _ hd)]

end Agrees

end Dayseam
