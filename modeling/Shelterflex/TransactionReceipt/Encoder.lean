import Shelterflex.Lib.Numeral
import Shelterflex.TransactionReceipt.Metadata

/-! The decimal encoder of the payload with its loops over a buffer of 40 bytes. -/

namespace Shelterflex.TransactionReceipt.Encoder
open Lib
set_option autoImplicit true

/-- The loop that writes the digits of the magnitude into the buffer, last digit first. -/
def extractDigits (digits : Vector UInt8 40) (pos magnitude : Nat) :
    Result (Vector UInt8 40 × Nat) :=
  if 0 < magnitude then
    if h : pos < 40 then
      extractDigits (digits.set pos (UInt8.ofNat (magnitude % 10) + 48)) (pos + 1) (magnitude / 10)
    else .error (.trap (.panicked "index out of bounds"))
  else .ok (digits, pos)
termination_by magnitude
decreasing_by omega

/-- The loop that appends the digits below a position, from the highest position down. -/
def pushDigits (digits : Vector UInt8 40) : Nat → Bytes → Result Bytes
  | 0, combined => .ok combined
  | i + 1, combined => do
    let d ← expect digits[i]?
    pushDigits digits i (combined ++ [d])

/-- The magnitude is the `unsigned_abs` of the value, which is a `u128` also for the least one. -/
def appendI128Decimal (combined : Bytes) (value : I128) : Result Bytes :=
  if value.1 = 0 then return combined ++ [48]
  else do
    let combined := if value.1 < 0 then combined ++ [45] else combined
    let magnitude := value.1.natAbs
    let (digits, pos) ← extractDigits (.replicate 40 0) 0 magnitude
    pushDigits digits pos combined

theorem take_set (digits : Vector UInt8 40) (h : pos < 40) (b : UInt8) :
    (digits.set pos b).toList.take (pos + 1) = digits.toList.take pos ++ [b] := by
  have hlen : pos < (digits.toList.set pos b).length := by simpa using h
  rw [Vector.toList_set, List.take_succ_eq_append_getElem hlen, List.take_set_of_le le_rfl,
    List.getElem_set_self]

/-- With room for them, the digits are written behind what is in the buffer. -/
theorem extractDigits_eq (pos n : Nat) (digits : Vector UInt8 40)
    (hroom : pos + (Nat.digits 10 n).length ≤ 40) :
    ∃ digits' : Vector UInt8 40,
      extractDigits digits pos n = .ok (digits', pos + (Nat.digits 10 n).length) ∧
        digits'.toList.take (pos + (Nat.digits 10 n).length) =
          digits.toList.take pos ++ (Nat.digits 10 n).map digit := by
  induction n using Nat.strong_induction_on generalizing pos digits with
  | h n ih =>
    rw [extractDigits]
    rcases Nat.eq_zero_or_pos n with rfl | hpos
    · refine ⟨digits, rfl, ?_⟩
      rw [Nat.digits_zero, List.map_nil, List.append_nil]
      rfl
    · rw [Nat.digits_def' (by decide) hpos, List.length_cons] at hroom ⊢
      have hlt : pos < 40 := by omega
      obtain ⟨digits', hdigits, htake⟩ := ih (n / 10) (Nat.div_lt_self hpos (by decide))
        (pos + 1) (digits.set pos (digit (n % 10))) (by omega)
      rw [Nat.add_right_comm] at hdigits htake
      refine ⟨digits', ?_, ?_⟩
      · rw [if_pos hpos, dif_pos hlt]
        exact hdigits
      · rw [← Nat.add_assoc, htake, take_set digits hlt, List.append_assoc]
        rfl

theorem pushDigits_eq (digits : Vector UInt8 40) (hn : n ≤ 40) (combined : Bytes) :
    pushDigits digits n combined = .ok (combined ++ (digits.toList.take n).reverse) := by
  induction n generalizing combined with
  | zero => rw [pushDigits, List.take_zero, List.reverse_nil, List.append_nil]
  | succ n ih =>
    have hlen : n < digits.toList.length := by simpa using hn
    have hget : (expect digits[n]? : Result UInt8) = .ok digits.toList[n] := by
      rw [Vector.getElem?_eq_getElem hn]
      rfl
    rw [pushDigits, bind_of_ok hget, ih (Nat.le_of_succ_le hn),
      List.take_succ_eq_append_getElem hlen, List.reverse_concat, List.append_assoc]
    rfl

/-- The loops write no position outside of the buffer, and append the shortest text. -/
theorem appendI128Decimal_signed (combined : Bytes) (v : I128) :
    appendI128Decimal combined v = .ok (combined ++ signedDecimal v.1) := by
  rw [appendI128Decimal, signedDecimal]
  split
  · rfl
  · have hlt : v.1.natAbs < 10 ^ 40 := by
      obtain ⟨x, hl, hu⟩ := v
      change x.natAbs < 10 ^ 40
      omega
    have hroom : 0 + (Nat.digits 10 v.1.natAbs).length ≤ 40 := by
      rw [Nat.zero_add, Nat.digits_length_le_iff (by decide)]
      exact hlt
    obtain ⟨digits, hdigits, htake⟩ := extractDigits_eq 0 v.1.natAbs (.replicate 40 0) hroom
    rw [List.take_zero, List.nil_append] at htake
    simp only [hdigits, ok_bind]
    rw [pushDigits_eq _ hroom, htake, decimal]
    split
    · rw [List.append_assoc]
    · rfl

theorem appendI128Decimal_same (combined : Bytes) (v : I128) :
    appendI128Decimal combined v = TransactionReceipt.appendI128Decimal combined v := by
  rw [appendI128Decimal_signed, appendI128Decimal_eq]

/-- What the encoder does with a value. -/
structure Encodes (combined : Bytes) (v : I128) (t : Bytes) : Prop where
  appended : appendI128Decimal combined v = .ok (combined ++ t)
  shortest : ShortestDecimal v.1 t
  injective : ∀ w, appendI128Decimal combined w = .ok (combined ++ t) → w = v

theorem value_encoded (combined : Bytes) (v : I128) : ∃ t, Encodes combined v t := by
  refine ⟨signedDecimal v.1, appendI128Decimal_signed combined v, shortest_signedDecimal v.1, ?_⟩
  intro w hw
  rw [appendI128Decimal_signed] at hw
  have htext := List.append_cancel_left (Except.ok.inj hw)
  exact Subtype.ext (signedDecimal_inj htext)

end Shelterflex.TransactionReceipt.Encoder
