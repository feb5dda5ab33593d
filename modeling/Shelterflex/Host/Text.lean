import Shelterflex.Host.Basic
import Shelterflex.Lib.Code
import Shelterflex.Lib.Decimal

/-! Numbers and addresses as text. -/

namespace Shelterflex
open Lib
set_option autoImplicit true

/-- The loop that writes the digits of a number into a buffer, last digit first. -/
def fillDigits : Nat → Nat → Outcome ε Bytes
  | _, 0 => .ok []
  | 0, _ + 1 => .error (.trap (.panicked "index out of bounds"))
  | room + 1, n + 1 => do
    let digits ← fillDigits room ((n + 1) / 10)
    return (UInt8.ofNat ((n + 1) % 10) + 48) :: digits

theorem fillDigits_eq (h : n < 10 ^ room) :
    (fillDigits room n : Outcome ε Bytes) = .ok ((Nat.digits 10 n).map digit) := by
  induction room generalizing n with
  | zero =>
    cases n with
    | zero => rfl
    | succ n => omega
  | succ room ih =>
    cases n with
    | zero => rfl
    | succ n =>
      have hd : (n + 1) / 10 < 10 ^ room := by
        rw [Nat.pow_succ'] at h
        omega
      rw [fillDigits, ih hd, Nat.digits_def' (by decide) (Nat.succ_pos n)]
      rfl

/-- One bit of CRC-16 with the polynomial `x^16 + x^12 + x^5 + 1`. -/
def crcBit (crc : UInt16) : UInt16 := if 32768 ≤ crc then crc * 2 ^^^ 4129 else crc * 2

def crcByte (crc : UInt16) (b : UInt8) : UInt16 := crcBit^[8] (crc ^^^ b.toUInt16 * 256)

/-- A contract's version byte, its id and the checksum of both, low byte first. -/
def strkeyBytes (a : Address) : Bytes :=
  let payload := 16 :: bigEndian 32 a.id
  let crc := payload.foldl crcByte 0
  payload ++ [crc.toUInt8, (crc / 256).toUInt8]

def base32Char (d : Nat) : UInt8 := if d < 26 then UInt8.ofNat (65 + d) else UInt8.ofNat (24 + d)

/-- The 35 bytes in groups of five bits. -/
def strkeyText (a : Address) : Bytes :=
  let number := (strkeyBytes a).foldl (fun n b => n * 256 + b.toNat) 0
  (List.range 56).map fun i => base32Char (number / 32 ^ (55 - i) % 32)

theorem strkeyText_length (a : Address) : (strkeyText a).length = 56 := by
  rw [strkeyText, List.length_map, List.length_range]

theorem base32Char_ne_pipe : ∀ d < 32, base32Char d ≠ 124 := by decide

theorem pipe_notMem_strkeyText (a : Address) : 124 ∉ strkeyText a := by
  intro h
  obtain ⟨i, _, hc⟩ := List.mem_map.mp h
  exact base32Char_ne_pipe _ (Nat.mod_lt _ (by decide)) hc

end Shelterflex
