import Mathlib.Data.Nat.Notation
import Mathlib.Logic.Function.Basic
import Mathlib.Tactic.Common

-- Shifts, rotations and odd products of machine words that lose no bit.
-- Nothing here is about a particular program.
namespace WordScrambles
variable {w : Nat}

-- A word equal to its own shift is zero: bit by bit from the low end.
theorem zero_of_shiftLeft {z : BitVec w} (positive : 0 < k) (same : z = z <<< k) : z = 0#w := by
  have bits : ∀ i,z.getLsbD i = false := by
    intro i
    induction i using Nat.strongRecOn with
    | ind i ih =>
        rw [same,BitVec.getLsbD_shiftLeft]
        by_cases low : i < k
        · simp [low]
        · simp [ih (i - k) (by omega)]
  exact BitVec.eq_of_getLsbD_eq fun i _ => by rw [bits i,BitVec.getLsbD_zero]

-- Likewise from the high end.
theorem zero_of_shiftRight {z : BitVec w} (positive : 0 < k) (same : z = z >>> k) : z = 0#w := by
  have bits : ∀ room i,w - i = room → z.getLsbD i = false := by
    intro room
    induction room using Nat.strongRecOn with
    | ind room ih =>
        intro i left
        by_cases inside : i < w
        · rw [same,BitVec.getLsbD_ushiftRight]
          exact ih (w - (k + i)) (by omega) (k + i) rfl
        · exact BitVec.getLsbD_of_ge z i (by omega)
  exact BitVec.eq_of_getLsbD_eq fun i _ => by rw [bits _ i rfl,BitVec.getLsbD_zero]

theorem xor_zero {x y : BitVec w} : x ^^^ y = 0#w ↔ x = y := BitVec.xor_eq_zero_iff

theorem zero_of_xor_shiftRight {z : BitVec w} (positive : 0 < k) (cancelled : z ^^^ (z >>> k) = 0#w) : z = 0#w :=
  zero_of_shiftRight positive (xor_zero.mp cancelled)

-- Three shifts undo x ^ (x << k) where four of them pass the width.
def unshift (k : Nat) (y : BitVec w) : BitVec w := y ^^^ (y <<< k) ^^^ (y <<< (2 * k)) ^^^ (y <<< (3 * k))

theorem unshift_step (k : Nat) (y : BitVec w) (wide : w ≤ 4 * k) : unshift k y ^^^ (unshift k y <<< k) = y := by
  unfold unshift
  simp only [BitVec.shiftLeft_xor_distrib,← BitVec.shiftLeft_add]
  rw [show k + k = 2 * k by omega,show 2 * k + k = 3 * k by omega,show 3 * k + k = 4 * k by omega,
    BitVec.shiftLeft_eq_zero wide]
  generalize y <<< k = a
  generalize y <<< (2 * k) = b
  generalize y <<< (3 * k) = c
  have cancel : ∀ p q : BitVec w,p ^^^ q ^^^ q = p := fun p q => by rw [BitVec.xor_assoc,BitVec.xor_self,BitVec.xor_zero]
  calc y ^^^ a ^^^ b ^^^ c ^^^ (a ^^^ b ^^^ c ^^^ 0#w)
      = y ^^^ a ^^^ b ^^^ c ^^^ (a ^^^ b ^^^ c) := by rw [BitVec.xor_zero]
    _ = y ^^^ (a ^^^ b ^^^ c) ^^^ (a ^^^ b ^^^ c) := by simp only [BitVec.xor_assoc]
    _ = y := cancel _ _

theorem xor_shiftLeft_injective {x y : BitVec w} (positive : 0 < k) (same : x ^^^ (x <<< k) = y ^^^ (y <<< k)) : x = y := by
  refine xor_zero.mp (zero_of_shiftLeft positive ?_)
  rw [BitVec.shiftLeft_xor_distrib]
  have both : x ^^^ (x <<< k) ^^^ (y ^^^ (y <<< k)) = 0#w := by rw [same,BitVec.xor_self]
  refine xor_zero.mp ?_
  calc x ^^^ y ^^^ (x <<< k ^^^ y <<< k)
      = x ^^^ (x <<< k) ^^^ (y ^^^ (y <<< k)) := by ac_rfl
    _ = 0#w := both

-- A rotation moves every bit to a place of its own.
def rotate (k : Nat) (x : BitVec w) : BitVec w := (x <<< k) ||| (x >>> (w - k))

theorem rotate_bit (k : Nat) (x : BitVec w) (inside : k ≤ w) (i : Nat) (small : i < w) :
    (rotate k x).getLsbD i = if k ≤ i then x.getLsbD (i - k) else x.getLsbD (i + (w - k)) := by
  unfold rotate
  rw [BitVec.getLsbD_or,BitVec.getLsbD_shiftLeft,BitVec.getLsbD_ushiftRight]
  by_cases low : k ≤ i
  · have high : x.getLsbD (w - k + i) = false := BitVec.getLsbD_of_ge x _ (by omega)
    simp [low,high,small,Nat.not_lt.mpr low]
  · have below : i < k := Nat.lt_of_not_le low
    simp [low,below,Nat.add_comm]

theorem rotate_back (k : Nat) (x : BitVec w) (inside : k ≤ w) : rotate (w - k) (rotate k x) = x := by
  refine BitVec.eq_of_getLsbD_eq fun i small => ?_
  rw [rotate_bit (w - k) _ (by omega) i small]
  by_cases high : w - k ≤ i
  · rw [if_pos high,rotate_bit k x inside _ (by omega),if_neg (by omega)]
    congr 1
    omega
  · rw [if_neg high,rotate_bit k x inside _ (by omega),if_pos (by omega)]
    congr 1
    omega

-- Multiplying by a factor with an inverse keeps everything but zero from zero.
theorem zero_of_product {x factor inverse : BitVec w} (unit : factor * inverse = 1#w) (none : x * factor = 0#w) :
    x = 0#w := by
  have product : x * (factor * inverse) = 0#w := by rw [← BitVec.mul_assoc,none,BitVec.zero_mul]
  rwa [unit,BitVec.mul_one] at product

end WordScrambles
