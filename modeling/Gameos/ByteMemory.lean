import Mathlib.Tactic.Ring

namespace ByteMemory

-- A byte-addressed store. Words are little-endian; nothing here knows which
-- addresses an owner may touch.
abbrev Memory := Nat → UInt8

def read (memory : Memory) (address : Nat) : Nat → Nat
  | 0 => 0
  | width+1 => (memory address).toNat + 256 * read memory (address+1) width

def write (memory : Memory) (address width value : Nat) : Memory := fun x =>
  if address ≤ x ∧ x < address+width then UInt8.ofNat (value / 256^(x-address)) else memory x

theorem write_outside (outside : x < address ∨ address+width ≤ x) :
    write memory address width value x = memory x := by
  rw [write,if_neg (by omega)]

theorem read_congr (same : ∀ x, address ≤ x → x < address+width → before x = after x) :
    read before address width = read after address width := by
  induction width generalizing address with
  | zero => rfl
  | succ width ih =>
    rw [read,read,same address (Nat.le_refl _) (by omega),
      ih (fun x low high => same x (by omega) (by omega))]

theorem read_write_outside (outside : other+span ≤ address ∨ address+width ≤ other) :
    read (write memory address width value) other span = read memory other span := by
  apply read_congr
  intro x low high
  exact write_outside (by omega)

-- Bytes of a value are read back from any store that agrees with its digits.
theorem read_digits (digits : ∀ i, i < width → memory (address+i) = UInt8.ofNat (value / 256^i))
    (fits : value < 256^width) : read memory address width = value := by
  induction width generalizing address value with
  | zero => rw [Nat.pow_zero] at fits; rw [read]; omega
  | succ width ih =>
    have first := digits 0 (by omega)
    rw [Nat.add_zero,Nat.pow_zero,Nat.div_one] at first
    have rest : read memory (address+1) width = value / 256 := by
      apply ih
      · intro i inside
        have digit := digits (i+1) (by omega)
        rw [show address+1+i = address+(i+1) by omega,digit,Nat.div_div_eq_div_mul,
          Nat.pow_succ,Nat.mul_comm (256^i)]
      · rw [Nat.pow_succ] at fits
        exact Nat.div_lt_of_lt_mul (by omega)
    rw [read,rest,first,UInt8.toNat_ofNat']
    omega

theorem read_write (fits : value < 256^width) :
    read (write memory address width value) address width = value := by
  apply read_digits _ fits
  intro i inside
  rw [write,if_pos (by omega),Nat.add_sub_cancel_left]

theorem read_lt (memory : Memory) (address width : Nat) : read memory address width < 256^width := by
  induction width generalizing address with
  | zero => simp [read]
  | succ width ih =>
    have byte := (memory address).toNat_lt
    have tail := ih (address+1)
    rw [read,Nat.pow_succ]
    omega

-- Forward byte copy. On overlapping ranges this is the machine's ascending
-- order, so only a destination at or below the source behaves as a move.
def copy (memory : Memory) (destination source : Nat) : Nat → Memory
  | 0 => memory
  | length+1 =>
    copy (write memory destination 1 (memory source).toNat) (destination+1) (source+1) length

theorem copy_outside (outside : x < destination ∨ destination+length ≤ x) :
    copy memory destination source length x = memory x := by
  induction length generalizing memory destination source with
  | zero => rfl
  | succ length ih => rw [copy,ih (by omega),write_outside (by omega)]

theorem copy_moves (order : destination ≤ source ∨ source+length ≤ destination)
    (inside : i < length) :
    copy memory destination source length (destination+i) = memory (source+i) := by
  induction length generalizing memory destination source i with
  | zero => omega
  | succ length ih =>
    rw [copy]
    cases i with
    | zero =>
      rw [copy_outside (by omega),write,if_pos (by omega)]
      simp
    | succ i =>
      rw [show destination+(i+1) = destination+1+i by omega,ih (by omega) (by omega),
        write_outside (by omega),show source+1+i = source+(i+1) by omega]

end ByteMemory
