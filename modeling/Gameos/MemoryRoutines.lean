import Gameos.ByteMemory

-- kstd_memcpy of the kernel: quadwords first, then the bytes that are left.
namespace MemoryRoutines
open ByteMemory

-- `rep movsq` reads all eight bytes before it writes any of them.
def moveQwords (memory : Memory) (destination source : Nat) : Nat → Memory
  | 0 => memory
  | qwords+1 => moveQwords (write memory destination 8 (read memory source 8)) (destination+8) (source+8) qwords

-- The loop over the remainder is the forward byte copy.
def memcpy (memory : Memory) (destination source : Nat) (length : Int) : Memory :=
  if length ≤ 0 then memory
  else
    let qwords := (length / 8).toNat
    let remainder := (length % 8).toNat
    copy (moveQwords memory destination source qwords) (destination + 8*qwords) (source + 8*qwords) remainder

section Copies
variable {memory : Memory} {destination source : Nat}

theorem read_digit (memory : Memory) (address : Nat) (inside : i < width) :
    UInt8.ofNat (read memory address width / 256^i) = memory (address+i) := by
  induction width generalizing address i with
  | zero => omega
  | succ width ih =>
      have byte := (memory address).toNat_lt
      rw [ByteMemory.read]
      cases i with
      | zero =>
          rw [Nat.pow_zero,Nat.div_one]
          show UInt8.ofNat _ = memory address
          apply UInt8.toNat_inj.mp
          rw [UInt8.toNat_ofNat']
          omega
      | succ i =>
          have shifted : ((memory address).toNat + 256 * read memory (address+1) width) / 256 = read memory (address+1) width := by omega
          rw [Nat.pow_succ',← Nat.div_div_eq_div_mul,shifted,ih (address+1) (by omega)]
          congr 1
          omega

theorem write_read (memory : Memory) (destination source : Nat) (inside : i < width) :
    write memory destination width (read memory source width) (destination+i) = memory (source+i) := by
  rw [write,if_pos (by omega),Nat.add_sub_cancel_left,read_digit memory source inside]

theorem copy_add (memory : Memory) (destination source first second : Nat) : copy memory destination source (first+second) =
    copy (copy memory destination source first) (destination+first) (source+first) second := by
  induction first generalizing memory destination source with
  | zero => rw [Nat.zero_add]; rfl
  | succ first ih =>
      have left : first+1+second = first+second+1 := by omega
      have here : destination+(first+1) = destination+1+first := by omega
      have there : source+(first+1) = source+1+first := by omega
      rw [left,copy,copy,ih,here,there]

-- A quadword is eight turns of the byte loop, unless a byte it writes is one it still has to read.
theorem quadword_copy (memory : Memory) (far : destination ≤ source ∨ source+8 ≤ destination) :
    write memory destination 8 (read memory source 8) = copy memory destination source 8 := by
  funext x
  by_cases inside : destination ≤ x ∧ x < destination+8
  · have offset : x = destination + (x-destination) := by omega
    rw [offset,write_read memory destination source (by omega),copy_moves far (by omega)]
  · rw [write_outside (by omega),copy_outside (by omega)]

theorem moveQwords_copy (memory : Memory) (far : destination ≤ source ∨ source+8 ≤ destination) (qwords : Nat) :
    moveQwords memory destination source qwords = copy memory destination source (8*qwords) := by
  induction qwords generalizing memory destination source with
  | zero => rfl
  | succ qwords ih =>
      have split : 8*(qwords+1) = 8+8*qwords := by omega
      rw [moveQwords,ih _ (by omega),quadword_copy memory far,split,copy_add]

theorem moveQwords_outside (outside : x < destination ∨ destination+8*qwords ≤ x) :
    moveQwords memory destination source qwords x = memory x := by
  induction qwords generalizing memory destination source with
  | zero => rfl
  | succ qwords ih => rw [moveQwords,ih (by omega),write_outside (by omega)]

theorem memcpy_outside (length : Int) (outside : x < destination ∨ destination+length.toNat ≤ x) :
    memcpy memory destination source length x = memory x := by
  unfold memcpy
  split
  case isTrue => rfl
  case isFalse => rw [copy_outside (by omega),moveQwords_outside (by omega)]

theorem memcpy_copy (memory : Memory) (length : Int) (far : destination ≤ source ∨ source+8 ≤ destination ∨ length < 8) :
    memcpy memory destination source length = copy memory destination source length.toNat := by
  unfold memcpy
  split
  case isTrue none =>
    rw [Int.toNat_of_nonpos none]
    rfl
  case isFalse =>
    have whole : length.toNat = 8*(length/8).toNat + (length%8).toNat := by omega
    dsimp only
    by_cases short : length < 8
    · have none : (length/8).toNat = 0 := by omega
      rw [whole,none]
      rw [Nat.mul_zero,Nat.zero_add,Nat.add_zero,Nat.add_zero]
      rfl
    · rw [whole,moveQwords_copy memory (by omega),copy_add]

-- The first quadword is read before anything is written.
theorem memcpy_head {length : Int} (long : 8 ≤ length) (inside : i < 8) :
    memcpy memory destination source length (destination+i) = memory (source+i) := by
  obtain ⟨qwords,more⟩ : ∃ qwords,(length/8).toNat = qwords+1 := ⟨(length/8).toNat-1,by omega⟩
  unfold memcpy
  rw [if_neg (by omega),more]
  rw [copy_outside (by omega),moveQwords,moveQwords_outside (by omega),write_read memory destination source inside]

-- The first byte is copied and stays, however the ranges lie.
theorem first_copied (some : 0 < 8*qwords+remainder) :
    copy (moveQwords memory destination source qwords) (destination+8*qwords) (source+8*qwords) remainder destination = memory source := by
  cases qwords with
  | zero =>
      cases remainder with
      | zero => omega
      | succ remainder =>
          rw [copy,copy_outside (by omega),write,if_pos (by omega)]
          simp [moveQwords]
  | succ qwords =>
      rw [copy_outside (by omega),moveQwords,moveQwords_outside (by omega)]
      exact write_read memory destination source (show 0 < 8 by omega)

-- The byte loop reads its own first byte again as soon as it gets to it.
theorem copy_repeats (memory : Memory) (above : source < destination) (near : destination < source+length) :
    copy memory destination source length (destination+(destination-source)) = memory source := by
  have split : length = (destination-source) + (length-(destination-source)) := by omega
  rw [split,copy_add]
  obtain ⟨rest,more⟩ : ∃ rest,length-(destination-source) = rest+1 := ⟨length-(destination-source)-1,by omega⟩
  have here : source+(destination-source) = destination+0 := by omega
  rw [more,copy,copy_outside (by omega),write,if_pos (by omega),here,copy_moves (by omega) (by omega)]
  simp

end Copies

def marked (address : Nat) : Memory := fun x => if x = address then 1 else 0

theorem marked_distinct (other : x ≠ address) : marked address address ≠ marked address x := by
  rw [marked,if_pos rfl,marked,if_neg other]
  decide

-- Where a quadword is at stake, the ninth byte is read after the first eight are written.
theorem memcpy_rereads {destination source : Nat} {length : Int} (above : source < destination) (near : destination < source+8)
    (long : 8 < length) : ∃ memory i,i < length.toNat ∧ memcpy memory destination source length (destination+i) ≠ memory (source+i) := by
  refine ⟨marked (source+8-(destination-source)),8,by omega,?_⟩
  obtain ⟨qwords,more⟩ : ∃ qwords,(length/8).toNat = qwords+1 := ⟨(length/8).toNat-1,by omega⟩
  unfold memcpy
  rw [if_neg (by omega),more]
  rw [moveQwords]
  have here : destination+8*(qwords+1) = destination+8+8*qwords := by omega
  have there : source+8*(qwords+1) = source+8+8*qwords := by omega
  rw [here,there,first_copied (by omega)]
  have again : source+8 = destination+(8-(destination-source)) := by omega
  have before : source+(8-(destination-source)) = source+8-(destination-source) := by omega
  have written := write_read (marked (source+8-(destination-source))) destination source (show 8-(destination-source) < 8 by omega)
  rw [← again,before] at written
  rw [written]
  exact marked_distinct (by omega)

theorem memcpy_repeats {destination source : Nat} {length : Int} (above : source < destination)
    (near : destination < source+length.toNat) (far : source+8 ≤ destination ∨ length < 8) :
    ∃ memory i,i < length.toNat ∧ memcpy memory destination source length (destination+i) ≠ memory (source+i) := by
  refine ⟨marked source,destination-source,by omega,?_⟩
  rw [memcpy_copy _ _ (by omega),copy_repeats _ above near]
  exact marked_distinct (by omega)

-- memcpy moves its source, whatever is in memory, unless it writes a byte before it reads it.
-- It is the byte loop that allocators and arrays are modelled with, unless the destination
-- starts within the first quadword.
theorem memcpy_exact (destination source : Nat) (length : Int) :
    ((∀ memory i,i < length.toNat → memcpy memory destination source length (destination+i) = memory (source+i)) ↔
      destination ≤ source ∨ source+length.toNat ≤ destination ∨ length = 8) ∧
    ((∀ memory,memcpy memory destination source length = copy memory destination source length.toNat) ↔
      destination ≤ source ∨ source+8 ≤ destination ∨ length < 8) ∧
    ∀ memory x,x < destination ∨ destination+length.toNat ≤ x → memcpy memory destination source length x = memory x := by
  refine ⟨⟨fun moves => ?_,fun far memory i inside => ?_⟩,⟨fun same => ?_,fun far memory => memcpy_copy memory length far⟩,
    fun memory x outside => memcpy_outside length outside⟩
  · by_contra near
    have wrong : ∃ memory i,i < length.toNat ∧ memcpy memory destination source length (destination+i) ≠ memory (source+i) := by
      by_cases far : source+8 ≤ destination ∨ length < 8
      · exact memcpy_repeats (by omega) (by omega) far
      · exact memcpy_rereads (by omega) (by omega) (by omega)
    obtain ⟨memory,i,inside,different⟩ := wrong
    exact different (moves memory i inside)
  · by_cases single : length = 8
    · exact memcpy_head (by omega) (by omega)
    · rw [memcpy_copy _ _ (by omega),copy_moves (by omega) inside]
  · by_contra near
    have again := copy_repeats (marked source) (show source < destination by omega) (show destination < source+length.toNat by omega)
    rw [← same,memcpy_head (by omega) (by omega)] at again
    exact marked_distinct (by omega) again.symm

end MemoryRoutines
