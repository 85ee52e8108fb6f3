import Dayseam.Lib.Text
import Mathlib

/-!
# The form of a query

A query is a list of pairs of bytes.  It is written as `name=value` between ampersands, where
a byte that is no letter, digit or one of `*-._` is escaped, and a space is a plus sign.

## Main definitions

* `encode`, `decode` — one component.
* `percentDecode` — the escapes alone, where a plus sign stands for itself.
* `serialize`, `parse` — a query.

## Main results

* `decode_encode` — a component is read back.
* `parse_serialize` — **a query is read back.**
-/

namespace Urlencoded

/-! ### Escapes -/

def hexDigit (n : ℕ) : Char := if n < 10 then Char.ofNat (48 + n) else Char.ofNat (55 + n)

/-- The value of a hexadecimal digit of either case. -/
def hexValue (c : Char) : Option ℕ :=
  let n := c.toNat
  if 48 ≤ n ∧ n ≤ 57 then some (n - 48)
  else if 65 ≤ n ∧ n ≤ 70 then some (n - 55)
  else if 97 ≤ n ∧ n ≤ 102 then some (n - 87)
  else none

/-- The bytes that stand for themselves. -/
def isPlain (b : UInt8) : Bool :=
  (48 ≤ b && b ≤ 57) || (65 ≤ b && b ≤ 90) || (97 ≤ b && b ≤ 122) || b == 42 || b == 45 ||
    b == 46 || b == 95

def encodeByte (b : UInt8) : Text :=
  if isPlain b then [Char.ofNat b.toNat]
  else if b = 32 then ['+']
  else ['%', hexDigit (b.toNat / 16), hexDigit (b.toNat % 16)]

def encode (bytes : List UInt8) : Text := bytes.flatMap encodeByte

/-- Read the escapes of a text; a percent sign without two digits stands for itself. -/
def percentDecode : Text → List UInt8
  | [] => []
  | c :: t =>
    if c = '%' then
      match t with
      | a :: b :: rest =>
        match hexValue a, hexValue b with
        | some x, some y => UInt8.ofNat (16 * x + y) :: percentDecode rest
        | _, _ => 37 :: percentDecode (a :: b :: rest)
      | t => 37 :: percentDecode t
    else String.utf8EncodeChar c ++ percentDecode t

def plusToSpace (t : Text) : Text := t.map fun c => if c = '+' then ' ' else c

def decode (t : Text) : List UInt8 := percentDecode (plusToSpace t)

theorem percentDecode_cons {c : Char} (hc : c ≠ '%') (t : Text) :
    percentDecode (c :: t) = String.utf8EncodeChar c ++ percentDecode t := by
  rcases t with _ | ⟨a, _ | ⟨b, rest⟩⟩
  · simp [percentDecode, hc]
  · simp [percentDecode, hc]
  · simp [percentDecode, hc]

/-- A text without escapes stands for itself. -/
theorem percentDecode_of_notMem {t : Text} (h : '%' ∉ t) :
    percentDecode t = t.flatMap String.utf8EncodeChar := by
  induction t with
  | nil => simp [percentDecode]
  | cons c t ih =>
    rw [percentDecode_cons fun hc => h (hc ▸ List.mem_cons_self), List.flatMap_cons,
      ih fun hm => h (List.mem_cons_of_mem _ hm)]

/-- What the digits of a byte are, and what a plain byte is. -/
theorem byte_facts : ∀ b : UInt8,
    (isPlain b = true → Char.ofNat b.toNat ≠ '+' ∧ Char.ofNat b.toNat ≠ '%' ∧
      String.utf8EncodeChar (Char.ofNat b.toNat) = [b]) ∧
    hexDigit (b.toNat / 16) ≠ '+' ∧ hexDigit (b.toNat % 16) ≠ '+' ∧
    hexValue (hexDigit (b.toNat / 16)) = some (b.toNat / 16) ∧
    hexValue (hexDigit (b.toNat % 16)) = some (b.toNat % 16) := by
  have hall : ∀ n : Fin 256,
      (isPlain (UInt8.ofNat n) = true → Char.ofNat n ≠ '+' ∧ Char.ofNat n ≠ '%' ∧
        String.utf8EncodeChar (Char.ofNat n) = [UInt8.ofNat n]) ∧
      hexDigit (n / 16 : ℕ) ≠ '+' ∧ hexDigit (n % 16 : ℕ) ≠ '+' ∧
      hexValue (hexDigit (n / 16 : ℕ)) = some (n / 16 : ℕ) ∧
      hexValue (hexDigit (n % 16 : ℕ)) = some (n % 16 : ℕ) := by decide +kernel
  intro b
  have h := hall ⟨b.toNat, b.toNat_lt⟩
  simpa using h

theorem decode_encodeByte_append (b : UInt8) (t : Text) :
    decode (encodeByte b ++ t) = b :: decode t := by
  obtain ⟨hplain, hhi, hlo, hhiv, hlov⟩ := byte_facts b
  unfold encodeByte
  split_ifs with hp hs
  · obtain ⟨hplus, hpct, henc⟩ := hplain hp
    simp only [decode, plusToSpace, List.singleton_append, List.map_cons, if_neg hplus]
    rw [percentDecode_cons hpct, henc, List.singleton_append]
  · subst hs
    simp only [decode, plusToSpace, List.singleton_append, List.map_cons, if_true]
    rw [percentDecode_cons (by decide)]
    rfl
  · simp only [decode, plusToSpace, List.cons_append, List.nil_append, List.map_cons, if_neg hhi,
      if_neg hlo, show ¬ ('%' = '+') by decide, if_false]
    rw [percentDecode, if_pos rfl]
    simp only [hhiv, hlov]
    rw [show 16 * (b.toNat / 16) + b.toNat % 16 = b.toNat by omega, UInt8.ofNat_toNat]

/-- A component is read back. -/
theorem decode_encode (bytes : List UInt8) : decode (encode bytes) = bytes := by
  induction bytes with
  | nil => simp [decode, encode, plusToSpace, percentDecode]
  | cons b bytes ih =>
    rw [encode, List.flatMap_cons, decode_encodeByte_append]
    exact congrArg _ ih

/-- A component has no separator in it. -/
theorem notMem_encode (bytes : List UInt8) : '&' ∉ encode bytes ∧ '=' ∉ encode bytes := by
  have hbyte : ∀ n : Fin 256, '&' ∉ encodeByte (UInt8.ofNat n) ∧
      '=' ∉ encodeByte (UInt8.ofNat n) := by decide +kernel
  have hb : ∀ b : UInt8, '&' ∉ encodeByte b ∧ '=' ∉ encodeByte b := fun b => by
    simpa using hbyte ⟨b.toNat, b.toNat_lt⟩
  simp only [encode, List.mem_flatMap, not_exists, not_and]
  exact ⟨fun b _ => (hb b).1, fun b _ => (hb b).2⟩

/-! ### Queries -/

def serializePair (p : List UInt8 × List UInt8) : Text := encode p.1 ++ '=' :: encode p.2

def serialize (pairs : List (List UInt8 × List UInt8)) : Text :=
  List.intercalate ['&'] (pairs.map serializePair)

/-- A pair without an equals sign is a name with an empty value. -/
def parsePair (segment : Text) : List UInt8 × List UInt8 :=
  match segment.splitFirst '=' with
  | some (name, value) => (decode name, decode value)
  | none => (decode segment, [])

def parse (query : Text) : List (List UInt8 × List UInt8) :=
  ((query.splitOn '&').filter (· ≠ [])).map parsePair

theorem parsePair_serializePair (p : List UInt8 × List UInt8) :
    parsePair (serializePair p) = p := by
  rw [parsePair, serializePair, Text.splitFirst_append (notMem_encode p.1).2]
  simp only [decode_encode]

theorem notMem_serializePair (p : List UInt8 × List UInt8) : '&' ∉ serializePair p := by
  simp [serializePair, (notMem_encode p.1).1, (notMem_encode p.2).1]

/-- **A query is read back.** -/
theorem parse_serialize (pairs : List (List UInt8 × List UInt8)) :
    parse (serialize pairs) = pairs := by
  rcases List.eq_nil_or_concat pairs with rfl | ⟨init, last, hpairs⟩
  · rfl
  · have hne : pairs.map serializePair ≠ [] := by simp [hpairs]
    have hsep : ∀ s ∈ pairs.map serializePair, '&' ∉ s := by
      intro s hs
      obtain ⟨p, -, rfl⟩ := List.mem_map.mp hs
      exact notMem_serializePair p
    have hfilter : (pairs.map serializePair).filter (· ≠ []) = pairs.map serializePair := by
      refine List.filter_eq_self.mpr fun s hs => ?_
      obtain ⟨p, -, rfl⟩ := List.mem_map.mp hs
      simp [serializePair]
    rw [parse, serialize, List.splitOn_intercalate _ hsep hne, hfilter, List.map_map]
    have hid : parsePair ∘ serializePair = id := funext parsePair_serializePair
    rw [hid, List.map_id]

end Urlencoded
