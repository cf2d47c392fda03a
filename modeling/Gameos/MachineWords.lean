import Mathlib.Data.Nat.Bitwise
import Mathlib.Tactic.Ring

namespace MachineWords

-- Unsigned 64-bit arithmetic on natural numbers. Every operation reduces its
-- result, so a value below 2^64 stays one and overflow is explicit.
def add64 (a b : Nat) : Nat := (a + b) % 2^64
def sub64 (a b : Nat) : Nat := (a + (2^64 - b % 2^64)) % 2^64
def mul64 (a b : Nat) : Nat := (a * b) % 2^64
def not64 (a : Nat) : Nat := 2^64 - 1 - a % 2^64

abbrev S64 := {v : Int // -2^63 ≤ v ∧ v < 2^63}

-- A two's-complement conversion from the mathematical integer.
def toU64 (v : Int) : Nat := (v % 2^64).toNat
def toS64 (v : Int) : Int := (v + 2^63) % 2^64 - 2^63

theorem add64_of_lt (fits : a + b < 2^64) : add64 a b = a + b := Nat.mod_eq_of_lt fits

-- The overflow test the source writes after an addition is exact.
theorem add64_checked (small : b < 2^64) (kept : ¬ add64 a b < a) : add64 a b = a + b := by
  unfold add64 at *; omega

theorem sub64_of_le (le : b ≤ a) (small : a < 2^64) : sub64 a b = a - b := by
  unfold sub64; omega

theorem add64_lt : add64 a b < 2^64 := Nat.mod_lt _ (by decide)
theorem mul64_lt : mul64 a b < 2^64 := Nat.mod_lt _ (by decide)

theorem toU64_nat (n : Nat) (fits : n < 2^64) : toU64 (n : Int) = n := by
  unfold toU64; omega

theorem toS64_range (v : Int) : -2^63 ≤ toS64 v ∧ toS64 v < 2^63 := by
  unfold toS64; omega

theorem toS64_of_range (low : -2^63 ≤ v) (high : v < 2^63) : toS64 v = v := by
  unfold toS64; omega

def isPowerOfTwo (value : Int) : Bool :=
  decide (0 < value) && (value.toNat &&& (value.toNat - 1)) == 0

theorem isPowerOfTwo_exact : isPowerOfTwo value = true ↔ ∃ k : Nat, value = (2^k : Nat) := by
  rw [isPowerOfTwo,Bool.and_eq_true,decide_eq_true_eq,beq_iff_eq]
  constructor
  · rintro ⟨positive,disjoint⟩
    obtain ⟨k,pow⟩ := (Nat.ne_zero_and_sub_one_eq_zero_iff_isPowerOfTwo (n:=value.toNat)).mp
      ⟨by omega,disjoint⟩
    exact ⟨k,by omega⟩
  · rintro ⟨k,rfl⟩
    have nonzero : 0 < (2^k : Nat) := Nat.two_pow_pos _
    have disjoint := (Nat.ne_zero_and_sub_one_eq_zero_iff_isPowerOfTwo (n:=2^k)).mpr ⟨k,rfl⟩
    exact ⟨by omega,disjoint.2⟩

def alignDown (value alignment : Nat) : Nat := value &&& not64 (sub64 alignment 1)
def alignUp (value alignment : Nat) : Nat := alignDown (sub64 (add64 value alignment) 1) alignment

theorem mask_shift (k : Nat) (bound : k ≤ 64) : not64 (2^k - 1) = (2^(64-k) - 1) <<< k := by
  have split : (2:Nat)^64 = 2^k * 2^(64-k) := by rw [← Nat.pow_add]; congr 1; omega
  have positive : 0 < (2:Nat)^k := Nat.two_pow_pos _
  have whole : (2:Nat)^k ≤ 2^64 := Nat.pow_le_pow_right (by decide) bound
  have reduced : (2^k - 1) % 2^64 = 2^k - 1 := Nat.mod_eq_of_lt (by omega)
  have product : (2^(64-k) - 1) * 2^k = 2^64 - 2^k := by
    rw [Nat.sub_mul,split,Nat.one_mul,Nat.mul_comm (2^(64-k))]
  rw [not64,reduced,Nat.shiftLeft_eq,product]
  omega

theorem and_mask (value k : Nat) (small : value < 2^64) (bound : k ≤ 64) :
    value &&& not64 (2^k - 1) = value / 2^k * 2^k := by
  rw [mask_shift k bound,← Nat.shiftRight_eq_div_pow,← Nat.shiftLeft_eq]
  apply Nat.eq_of_testBit_eq
  intro i
  rw [Nat.testBit_and,Nat.testBit_shiftLeft,Nat.testBit_shiftLeft,Nat.testBit_shiftRight,
    Nat.testBit_two_pow_sub_one]
  by_cases low : k ≤ i
  · by_cases inside : i < 64
    · have shifted : i - k < 64 - k := by omega
      simp [low,shifted]
    · have absent : Nat.testBit value i = false :=
        Nat.testBit_lt_two_pow (Nat.lt_of_lt_of_le small (Nat.pow_le_pow_right (by decide) (by omega)))
      simp [absent,low]
  · simp [low]

theorem pred_pow (k : Nat) (bound : k < 64) : sub64 (2^k) 1 = 2^k - 1 := by
  have small : (2:Nat)^k < 2^64 := Nat.pow_lt_pow_right (by decide) bound
  exact sub64_of_le Nat.one_le_two_pow small

theorem alignDown_pow (value k : Nat) (small : value < 2^64) (bound : k < 64) :
    alignDown value (2^k) = value / 2^k * 2^k := by
  rw [alignDown,pred_pow k bound,and_mask value k small (by omega)]

-- The wrapped case is stated beside the ordinary one: the sum before masking
-- passes 2^64 and the result is the null address.
theorem alignUp_pow (value k : Nat) (bound : k < 64) (fits : value + 2^k ≤ 2^64) :
    alignUp value (2^k) = (value + 2^k - 1) / 2^k * 2^k := by
  have positive : 0 < (2:Nat)^k := Nat.two_pow_pos _
  have sum : sub64 (add64 value (2^k)) 1 = value + 2^k - 1 := by
    unfold sub64 add64; omega
  rw [alignUp,sum,alignDown_pow _ k (by omega) bound]

theorem alignUp_wraps (value k : Nat) (small : value < 2^64) (bound : k < 64)
    (wraps : 2^64 < value + 2^k) : alignUp value (2^k) = 0 := by
  have below : (2:Nat)^k < 2^64 := Nat.pow_lt_pow_right (by decide) bound
  have sum : sub64 (add64 value (2^k)) 1 = value + 2^k - 1 - 2^64 := by
    unfold sub64 add64; omega
  rw [alignUp,sum,alignDown_pow _ k (by omega) bound,Nat.div_eq_of_lt (by omega),Nat.zero_mul]

theorem alignUp_bounds (value k : Nat) (bound : k < 64) (fits : value + 2^k ≤ 2^64) :
    value ≤ alignUp value (2^k) ∧ alignUp value (2^k) < value + 2^k ∧
      2^k ∣ alignUp value (2^k) := by
  have positive : 0 < (2:Nat)^k := Nat.two_pow_pos _
  rw [alignUp_pow value k bound fits]
  have division := Nat.div_add_mod (value + 2^k - 1) (2^k)
  have remainder := Nat.mod_lt (value + 2^k - 1) positive
  rw [Nat.mul_comm] at division
  exact ⟨by omega,by omega,Dvd.intro_left _ rfl⟩

theorem alignDown_bounds (value k : Nat) (small : value < 2^64) (bound : k < 64) :
    alignDown value (2^k) ≤ value ∧ value < alignDown value (2^k) + 2^k ∧
      2^k ∣ alignDown value (2^k) := by
  have positive : 0 < (2:Nat)^k := Nat.two_pow_pos _
  rw [alignDown_pow value k small bound]
  have division := Nat.div_add_mod value (2^k)
  have remainder := Nat.mod_lt value positive
  rw [Nat.mul_comm] at division
  exact ⟨by omega,by omega,Dvd.intro_left _ rfl⟩

-- Least multiple above the value: any other multiple at or above it is no less.
theorem alignUp_least (value k other : Nat) (bound : k < 64) (fits : value + 2^k ≤ 2^64)
    (above : value ≤ other) (multiple : 2^k ∣ other) : alignUp value (2^k) ≤ other := by
  obtain ⟨_,close,q,exact⟩ := alignUp_bounds value k bound fits
  obtain ⟨r,rfl⟩ := multiple
  rw [exact] at close ⊢
  have strict : 2^k * q < 2^k * (r+1) := by rw [Nat.mul_add]; omega
  exact Nat.mul_le_mul_left _ (Nat.lt_succ_iff.mp (Nat.lt_of_mul_lt_mul_left strict))

def floorPow2 (n : Nat) : Nat :=
  if n = 0 then 0 else
    let n := n ||| n >>> 1
    let n := n ||| n >>> 2
    let n := n ||| n >>> 4
    let n := n ||| n >>> 8
    let n := n ||| n >>> 16
    let n := n ||| n >>> 32
    n &&& not64 (n >>> 1)

-- After the cascade of shifts a bit is set exactly when some bit of the input
-- stands at most 63 places above it.
def Smeared (n width m : Nat) : Prop :=
  ∀ i, m.testBit i = true ↔ ∃ j, j < width ∧ n.testBit (i+j) = true

theorem smeared_refl (n : Nat) : Smeared n 1 n := by
  intro i
  constructor
  · intro set; exact ⟨0,by omega,set⟩
  · rintro ⟨j,near,set⟩
    have zero : j = 0 := by omega
    simpa [zero] using set

theorem smeared_double (smeared : Smeared n width m) :
    Smeared n (width+width) (m ||| m >>> width) := by
  intro i
  rw [Nat.testBit_or,Nat.testBit_shiftRight,Bool.or_eq_true,smeared i,smeared (width+i)]
  constructor
  · rintro (⟨j,near,set⟩ | ⟨j,near,set⟩)
    · exact ⟨j,by omega,set⟩
    · exact ⟨width+j,by omega,by rwa [show i+(width+j) = width+i+j by omega]⟩
  · rintro ⟨j,near,set⟩
    by_cases close : j < width
    · exact .inl ⟨j,close,set⟩
    · exact .inr ⟨j-width,by omega,by rwa [show width+i+(j-width) = i+j by omega]⟩

theorem testBit_log2 (positive : n ≠ 0) : n.testBit n.log2 = true := by
  rw [Nat.testBit_eq_decide_div_mod_eq]
  have low := Nat.log2_self_le positive
  have high := Nat.lt_log2_self (n:=n)
  have one : n / 2^n.log2 = 1 := by
    apply Nat.div_eq_of_lt_le
    · omega
    · rw [Nat.pow_succ] at high; omega
  simp [one]

theorem smeared_ones (positive : n ≠ 0) (small : n < 2^64) (smeared : Smeared n 64 m) :
    m = 2^(n.log2+1) - 1 := by
  have width : n.log2 < 64 := (Nat.log2_lt positive).mpr small
  apply Nat.eq_of_testBit_eq
  intro i
  rw [Nat.testBit_two_pow_sub_one,Bool.eq_iff_iff,smeared i,decide_eq_true_eq]
  constructor
  · rintro ⟨j,_,set⟩
    have bound := Nat.ge_two_pow_of_testBit set
    have top := Nat.lt_of_le_of_lt bound (Nat.lt_log2_self (n:=n))
    have exponent := (Nat.pow_lt_pow_iff_right (by decide)).mp top
    omega
  · intro below
    exact ⟨n.log2-i,by omega,by rw [show i+(n.log2-i) = n.log2 by omega]; exact testBit_log2 positive⟩

theorem floorPow2_log2 (positive : n ≠ 0) (small : n < 2^64) : floorPow2 n = 2^n.log2 := by
  have smeared := smeared_double (smeared_double (smeared_double (smeared_double (smeared_double
    (smeared_double (smeared_refl n))))))
  have ones := smeared_ones positive small smeared
  have width : n.log2 < 64 := (Nat.log2_lt positive).mpr small
  rw [floorPow2,if_neg positive]
  change _ &&& not64 (_ >>> 1) = _
  rw [ones]
  have half : (2^(n.log2+1) - 1) >>> 1 = 2^n.log2 - 1 := by
    rw [Nat.shiftRight_eq_div_pow,Nat.pow_succ]; omega
  have bound : (2:Nat)^(n.log2+1) ≤ 2^64 := Nat.pow_le_pow_right (by decide) (by omega)
  have twice : (2:Nat)^(n.log2+1) = 2^n.log2 * 2 := Nat.pow_succ ..
  have unit : 0 < (2:Nat)^n.log2 := Nat.two_pow_pos _
  rw [half,and_mask _ _ (by omega) (by omega)]
  have quotient : (2^(n.log2+1) - 1) / 2^n.log2 = 1 := by
    apply Nat.div_eq_of_lt_le <;> omega
  rw [quotient,Nat.one_mul]

-- Flipping one bit of a multiple of 2^k moves to the neighbouring multiple.
theorem xor_pow (k b : Nat) (aligned : 2^k ∣ b) :
    b ^^^ 2^k = if b / 2^k % 2 = 0 then b + 2^k else b - 2^k := by
  obtain ⟨q,rfl⟩ := aligned
  have positive : 0 < (2:Nat)^k := Nat.two_pow_pos _
  have merged : 2^k * q ^^^ 2^k = (q ^^^ 1) * 2^k := by
    calc 2^k * q ^^^ 2^k = q <<< k ^^^ 1 <<< k := by
          rw [Nat.shiftLeft_eq,Nat.shiftLeft_eq,Nat.one_mul,Nat.mul_comm q]
      _ = (q ^^^ 1) * 2^k := by rw [← Nat.shiftLeft_xor_distrib,Nat.shiftLeft_eq]
  rw [merged,Nat.mul_div_cancel_left _ positive]
  split
  · rename_i even
    rw [Nat.xor_one_of_even (Nat.even_iff.mpr even)]; ring
  · rename_i odd
    rw [Nat.xor_one_of_odd (Nat.odd_iff.mpr (by omega)),Nat.sub_mul,Nat.mul_comm q,Nat.one_mul]

end MachineWords
