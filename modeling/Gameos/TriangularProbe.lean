import Mathlib.Data.Nat.Prime.Basic
import Mathlib.Data.Nat.ModEq
import Mathlib.Data.Fintype.EquivFin
import Mathlib.Tactic.Ring

namespace TriangularProbe

-- Quadratic probing by growing steps 1, 2, 3, .. visits the triangular numbers.
def triangle : Nat → Nat
  | 0 => 0
  | j+1 => triangle j + (j+1)

theorem twice_triangle (j : Nat) : 2 * triangle j = j * (j+1) := by
  induction j with
  | zero => rfl
  | succ j ih => rw [triangle,Nat.mul_add,ih]; ring

-- Twice the difference of two triangular numbers has an odd factor, so the
-- whole power of two has to divide the other one, which is too small.
theorem triangle_distinct (order : i < j) (bound : j < 2^k) : ¬ triangle i ≡ triangle j [MOD 2^k] := by
  intro same
  obtain ⟨d,rfl⟩ : ∃ d, j = i + d := ⟨j-i,by omega⟩
  have grows : triangle i ≤ triangle (i+d) := by
    have low := twice_triangle i
    have high := twice_triangle (i+d)
    have product : i * (i+1) ≤ (i+d) * (i+d+1) := Nat.mul_le_mul (by omega) (by omega)
    omega
  have divides : 2^k ∣ triangle (i+d) - triangle i := (Nat.modEq_iff_dvd' grows).mp same
  have difference : 2 * (triangle (i+d) - triangle i) = d * (2*i+d+1) := by
    rw [Nat.mul_sub,twice_triangle,twice_triangle]
    have expand : (i+d) * (i+d+1) = i * (i+1) + d * (2*i+d+1) := by ring
    omega
  have whole : 2^(k+1) ∣ d * (2*i+d+1) := by
    rw [← difference,Nat.pow_succ,Nat.mul_comm]
    exact Nat.mul_dvd_mul_left 2 divides
  have double : 2^(k+1) = 2^k + 2^k := by rw [Nat.pow_succ]; omega
  rcases Nat.even_or_odd d with even | odd
  · have coprime : Nat.Coprime (2^(k+1)) (2*i+d+1) := by
      apply Nat.Coprime.pow_left
      rw [Nat.coprime_two_left]
      obtain ⟨e,rfl⟩ := even
      exact ⟨i+e,by ring⟩
    have small := Nat.le_of_dvd (by omega) (coprime.dvd_of_dvd_mul_right whole)
    omega
  · have coprime : Nat.Coprime (2^(k+1)) d := by
      apply Nat.Coprime.pow_left
      rwa [Nat.coprime_two_left]
    have small := Nat.le_of_dvd (by omega) (coprime.dvd_of_dvd_mul_left whole)
    omega

-- So the first 2^k probes of a table of 2^k slots visit every slot once.
theorem triangle_covers (start k slot : Nat) (inside : slot < 2^k) :
    ∃ j < 2^k, (start + triangle j) % 2^k = slot := by
  let visit : Fin (2^k) → Fin (2^k) := fun j => ⟨(start + triangle j) % 2^k,Nat.mod_lt _ (Nat.two_pow_pos _)⟩
  have injective : Function.Injective visit := by
    intro i j same
    have equal : triangle i ≡ triangle j [MOD 2^k] := Nat.ModEq.add_left_cancel' start (Fin.mk.inj same)
    rcases Nat.lt_trichotomy i.val j.val with less | equal' | more
    · exact absurd equal (triangle_distinct less j.isLt)
    · exact Fin.ext equal'
    · exact absurd equal.symm (triangle_distinct more i.isLt)
  obtain ⟨j,reached⟩ := Finite.injective_iff_surjective.mp injective ⟨slot,inside⟩
  exact ⟨j.val,j.isLt,Fin.mk.inj reached⟩

end TriangularProbe
