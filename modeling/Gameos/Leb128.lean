import Mathlib.Data.Nat.Bitwise
import Mathlib.Tactic.Ring

namespace Leb128

-- Numbers as groups of seven bits, lowest first; all bytes but the last have
-- their high bit set. Padding with empty groups is allowed.
def terminated : List UInt8 → Bool
  | [] => false
  | [byte] => byte.toNat < 128
  | byte :: bytes => 128 ≤ byte.toNat && terminated bytes

def unsignedValue : List UInt8 → Nat
  | [] => 0
  | byte :: bytes => byte.toNat % 128 + 128 * unsignedValue bytes

-- The sign is bit 6 of the last byte.
def negative (bytes : List UInt8) : Bool := 64 ≤ (bytes.getLastD 0).toNat % 128

def signedValue (bytes : List UInt8) : Int :=
  if negative bytes then (unsignedValue bytes : Int) - (128^bytes.length : Nat) else unsignedValue bytes

theorem unsignedValue_lt (bytes : List UInt8) : unsignedValue bytes < 128^bytes.length := by
  induction bytes with
  | nil => decide
  | cons byte bytes ih =>
      rw [unsignedValue,List.length_cons,Nat.pow_succ]
      have small := Nat.mod_lt byte.toNat (show 0 < 128 by decide)
      omega

theorem unsignedValue_append (one two : List UInt8) :
    unsignedValue (one ++ two) = unsignedValue one + 128^one.length * unsignedValue two := by
  induction one with
  | nil => simp [unsignedValue]
  | cons byte bytes ih =>
      rw [List.cons_append,unsignedValue,unsignedValue,ih,List.length_cons,Nat.pow_succ]
      ring

theorem pow_groups (n : Nat) : 128^n = 2^(7*n) := by
  rw [Nat.pow_mul]

-- One more group is or-ed in above the groups that are there.
theorem or_group (bytes : List UInt8) (byte : UInt8) :
    unsignedValue bytes % 2^64 ||| ((byte &&& 0x7f).toNat <<< (bytes.length * 7)) % 2^64 =
      unsignedValue (bytes ++ [byte]) % 2^64 := by
  have low : (byte &&& 0x7f).toNat = byte.toNat % 128 := by
    rw [UInt8.toNat_and]
    exact Nat.and_two_pow_sub_one_eq_mod byte.toNat 7
  have below : unsignedValue bytes < 2^(bytes.length * 7) := by
    rw [Nat.mul_comm,← pow_groups]
    exact unsignedValue_lt bytes
  rw [low,← Nat.or_mod_two_pow,Nat.or_comm,← Nat.shiftLeft_add_eq_or_of_lt below,unsignedValue_append,
    Nat.shiftLeft_eq,pow_groups,unsignedValue,unsignedValue,Nat.mul_comm bytes.length 7]
  congr 1
  ring

set_option maxRecDepth 4000 in
theorem continue_bit (byte : UInt8) : (byte &&& 0x80 = 0) ↔ byte.toNat < 128 := by
  have all : ∀ n < 256, n &&& 128 = 0 ↔ n < 128 := by decide
  rw [← UInt8.toNat_inj,UInt8.toNat_and]
  exact all byte.toNat byte.toNat_lt

set_option maxRecDepth 4000 in
theorem sign_bit (byte : UInt8) : (byte &&& 0x40 = 0) ↔ byte.toNat % 128 < 64 := by
  have all : ∀ n < 256, n &&& 64 = 0 ↔ n % 128 < 64 := by decide
  rw [← UInt8.toNat_inj,UInt8.toNat_and]
  exact all byte.toNat byte.toNat_lt

end Leb128
