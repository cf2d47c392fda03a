import Gameos.ByteMemory
import Gameos.MachineWords

-- kstd/array.hh: a counted array with a header in front of its elements.
namespace ArrayAllocation
open MachineWords ByteMemory

-- A computation ends with a value, or an intermediate result leaves its type.
def s64 (value : Int) : Option Int :=
  if -9223372036854775808 ≤ value ∧ value < 9223372036854775808 then some value else none

def u64 (value : Nat) : Option Nat := if value < 18446744073709551616 then some value else none

def S64_MAX : Int := 9223372036854775807

-- sizeof(T) and alignof(T)
structure Element where
  size : Int
  alignment : Int
  sized : 0 < size ∧ size < 9223372036854775808
  aligned : ∃ k < 63, alignment = (2^k : Nat)

def headerSize : Nat := 16

def alloc_array_size (T : Element) (count alignment : Int) : Option Int :=
  if count = 0 then some 0
  else if count < 0 ∨ S64_MAX / T.size < count then some 0
  else
    let alignment := if alignment < T.alignment then T.alignment else alignment
    if isPowerOfTwo alignment = false then some 0
    else
      (s64 (count * T.size)).bind fun size =>
      if S64_MAX - headerSize < size then some 0
      else
        (s64 (size + headerSize)).bind fun size_with_header =>
        if S64_MAX - (alignment - 1) < size_with_header then some 0
        else (s64 (size_with_header + alignment)).bind fun sum => s64 (sum - 1)

def align_up (value alignment : Nat) : Option Nat :=
  (u64 (value + alignment)).map fun sum => alignDown (sum - 1) alignment

-- What an array needs of its allocator: a block is aligned to MAX_ALIGN and inside the
-- address space. The null pointer is the refusal.
structure Allocator where
  alloc : (size : Int) → Memory → Nat × Memory
  aligned : 16 ∣ (alloc size memory).1
  inside : (alloc size memory).1 ≠ 0 → (alloc size memory).1 + size ≤ 18446744073709551616

inductive Outcome where
  | view (size : Int) (data : Nat) (memory : Memory)
  | overflow

-- The header is two words, base and size.
def write_header (memory : Memory) (header base : Nat) (size : Int) : Memory :=
  write (write memory header 8 base) (header + 8) 8 (toU64 size)

def alloc_array (T : Element) (count alignment : Int) (allocator : Allocator) (memory : Memory) : Outcome :=
  let alignment := if alignment < T.alignment then T.alignment else alignment
  if count < 0 ∨ alignment ≤ 0 then .view 0 0 memory
  else
    match alloc_array_size T count alignment with
    | none => .overflow
    | some allocation_size =>
      if allocation_size = 0 then .view 0 0 memory
      else
        let (base,memory) := allocator.alloc allocation_size memory
        if base = 0 then .view 0 0 memory
        else
          match (u64 (base + headerSize)).bind (align_up · alignment.toNat) with
          | none => .overflow
          | some data => .view count data (write_header memory (data - headerSize) base allocation_size)

-- The call that free_array makes on the allocator.
def free_array (memory : Memory) (pointer : Nat) : Option (Nat × Int) :=
  if pointer = 0 then none
  else some (read memory (pointer - headerSize) 8,toS64 (read memory (pointer - headerSize + 8) 8))

def actualAlignment (T : Element) (alignment : Int) : Int := max alignment T.alignment

-- Header and elements lie inside the block, and the header gives the block back as
-- long as it is not written over.
structure Laid (T : Element) (count alignment : Int) (base : Nat) (allocation_size : Int) (data : Nat) (memory : Memory) : Prop where
  aligned : actualAlignment T alignment ∣ data
  header : base + headerSize ≤ data
  elements : (data : Int) + count * T.size ≤ base + allocation_size
  freed : ∀ later : Memory, (∀ x, data - headerSize ≤ x → x < data → later x = memory x) →
    free_array later data = some (base,allocation_size)

-- The view is empty, or it is laid out in the block that the allocator gave.
inductive Meets (T : Element) (count alignment : Int) (allocator : Allocator) (before : Memory) : Outcome → Prop where
  | empty : Meets T count alignment allocator before (.view 0 data memory)
  | laid : alloc_array_size T count alignment = some size →
      Laid T count alignment (allocator.alloc size before).1 size data memory →
      Meets T count alignment allocator before (.view count data memory)

-- The block that a count of elements takes.
def blockSize (T : Element) (count alignment : Int) : Int := count * T.size + 15 + actualAlignment T alignment

theorem s64_some (low : -9223372036854775808 ≤ value) (high : value < 9223372036854775808) :
    s64 value = some value := if_pos ⟨low,high⟩

theorem actual_eq (T : Element) (alignment : Int) :
    (if alignment < T.alignment then T.alignment else alignment) = actualAlignment T alignment := by
  unfold actualAlignment
  split <;> omega

theorem actual_again (T : Element) (alignment : Int) :
    actualAlignment T (actualAlignment T alignment) = actualAlignment T alignment := by
  unfold actualAlignment
  omega

theorem actual_positive (T : Element) (alignment : Int) : 0 < actualAlignment T alignment := by
  obtain ⟨k,_,power⟩ := T.aligned
  have positive : 0 < (2:Nat)^k := Nat.two_pow_pos k
  unfold actualAlignment
  omega

-- Too many elements, an alignment that is no power of two, or a block past s64.
theorem alloc_array_size_none (T : Element)
    (invalid : count < 0 ∨ isPowerOfTwo (actualAlignment T alignment) = false ∨ S64_MAX < blockSize T count alignment) :
    alloc_array_size T count alignment = some 0 := by
  unfold alloc_array_size
  by_cases empty : count = 0
  · exact if_pos empty
  rw [if_neg empty]
  by_cases many : count < 0 ∨ S64_MAX / T.size < count
  · exact if_pos many
  rw [if_neg many,actual_eq]
  dsimp only
  by_cases power : isPowerOfTwo (actualAlignment T alignment) = false
  · exact if_pos power
  rw [if_neg power]
  have positive := actual_positive T alignment
  have few : count ≤ S64_MAX / T.size := by omega
  have product : count * T.size ≤ S64_MAX := (Int.le_ediv_iff_mul_le T.sized.1).mp few
  have zero : 0 ≤ count * T.size := Int.mul_nonneg (by omega) (Int.le_of_lt T.sized.1)
  have large : S64_MAX < blockSize T count alignment := by
    rcases invalid with negative | invalid | large
    · omega
    · exact absurd invalid power
    · exact large
  unfold blockSize at large
  unfold S64_MAX at *
  rw [s64_some (by omega) (by omega)]
  unfold Option.bind
  dsimp only
  by_cases header : 9223372036854775807 - (headerSize : Int) < count * T.size
  · exact if_pos header
  unfold headerSize at *
  rw [if_neg header,s64_some (by omega) (by omega)]
  dsimp only
  exact if_pos (by omega)

-- Otherwise only the sum before the last decrement can leave s64.
theorem alloc_array_size_some (T : Element) (positive : 0 < count)
    (power : isPowerOfTwo (actualAlignment T alignment) = true) (fits : blockSize T count alignment ≤ S64_MAX) :
    alloc_array_size T count alignment =
      if blockSize T count alignment = S64_MAX then none else some (blockSize T count alignment) := by
  have least := actual_positive T alignment
  have zero : 0 ≤ count * T.size := Int.mul_nonneg (Int.le_of_lt positive) (Int.le_of_lt T.sized.1)
  have product : count * T.size ≤ S64_MAX := by
    unfold blockSize at fits
    omega
  have few : count ≤ S64_MAX / T.size := (Int.le_ediv_iff_mul_le T.sized.1).mpr product
  unfold alloc_array_size
  rw [if_neg (by omega),if_neg (by omega),actual_eq]
  dsimp only
  rw [if_neg (by rw [power]; exact Bool.noConfusion)]
  unfold blockSize at *
  unfold S64_MAX headerSize at *
  rw [s64_some (by omega) (by omega)]
  unfold Option.bind
  dsimp only
  rw [if_neg (by omega),s64_some (by omega) (by omega)]
  dsimp only
  rw [if_neg (by omega)]
  by_cases top : count * T.size + 15 + actualAlignment T alignment = 9223372036854775807
  · rw [if_pos top]
    have wide : s64 (count * T.size + (16 : Nat) + actualAlignment T alignment) = none := if_neg (by omega)
    rw [wide]
  · rw [if_neg top,s64_some (by omega) (by omega)]
    dsimp only
    rw [s64_some (by omega) (by omega)]
    congr 1
    omega

theorem read_header (fits : base < 18446744073709551616) :
    read (write_header memory header base size) header 8 = base := by
  unfold write_header
  rw [read_write_outside (.inl (Nat.le_refl _)),read_write fits]

theorem free_array_header (data : Nat) (later : headerSize ≤ data) (nonzero : data ≠ 0)
    (fits : base < 18446744073709551616) (low : -9223372036854775808 ≤ size) (high : size < 9223372036854775808) :
    free_array (write_header memory (data - headerSize) base size) data = some (base,size) := by
  have word : toU64 size < 18446744073709551616 := by
    unfold toU64
    omega
  have back : toS64 (toU64 size) = size := by
    unfold toS64 toU64
    omega
  unfold free_array
  rw [if_neg nonzero,read_header fits]
  unfold write_header
  rw [read_write word,back]

theorem free_array_congr (nonzero : data ≠ 0) (after : headerSize ≤ data)
    (same : ∀ x, data - headerSize ≤ x → x < data → later x = memory x) :
    free_array later data = free_array memory data := by
  unfold headerSize at *
  have base : read later (data - 16) 8 = read memory (data - 16) 8 :=
    read_congr fun x low high => same x low (by omega)
  have size : read later (data - 16 + 8) 8 = read memory (data - 16 + 8) 8 :=
    read_congr fun x low high => same x (by omega) (by omega)
  unfold free_array headerSize
  rw [base,size]


section Allocation
variable (T : Element) (alignment : Int) (allocator : Allocator) (memory : Memory)

-- The elements stand at the first aligned address that leaves room for the header.
theorem placed (base k : Nat) (bound : k < 63) (power : actualAlignment T alignment = (2^k : Nat))
    (sum : base + headerSize + 2^k < 18446744073709551616) :
    ∃ data, (u64 (base + headerSize)).bind (align_up · (actualAlignment T alignment).toNat) = some data ∧
      base + headerSize ≤ data ∧ data < base + headerSize + 2^k ∧ 2^k ∣ data := by
  have positive : 0 < (2:Nat)^k := Nat.two_pow_pos k
  have address : base + headerSize < 18446744073709551616 := by omega
  have small : base + headerSize + 2^k - 1 < 2^64 := by omega
  obtain ⟨below,close,divides⟩ := alignDown_bounds (base + headerSize + 2^k - 1) k small (by omega)
  refine ⟨alignDown (base + headerSize + 2^k - 1) (2^k),?_,by omega,by omega,divides⟩
  rw [power,Int.toNat_natCast]
  unfold u64 align_up u64
  rw [if_pos address]
  unfold Option.bind
  dsimp only
  rw [if_pos sum]
  rfl

theorem alloc_array_empty (empty : alloc_array_size T count (actualAlignment T alignment) = some 0) :
    alloc_array T count alignment allocator memory = .view 0 0 memory := by
  unfold alloc_array
  rw [actual_eq]
  dsimp only
  by_cases invalid : count < 0 ∨ actualAlignment T alignment ≤ 0
  · exact if_pos invalid
  · rw [if_neg invalid,empty]
    exact if_pos rfl

end Allocation

theorem block_again (T : Element) (count alignment : Int) :
    blockSize T count (actualAlignment T alignment) = blockSize T count alignment := by
  unfold blockSize
  rw [actual_again]

-- Neither of the two sums that stand before a decrement overflows.
def Fits (T : Element) (count alignment : Int) (allocator : Allocator) (memory : Memory) : Prop :=
  0 < count → isPowerOfTwo (actualAlignment T alignment) = true → blockSize T count alignment ≤ S64_MAX →
    blockSize T count alignment ≠ S64_MAX ∧
      ((allocator.alloc (blockSize T count alignment) memory).1 ≠ 0 →
        (allocator.alloc (blockSize T count alignment) memory).1 + headerSize + actualAlignment T alignment <
          18446744073709551616)

theorem alloc_array_exact (T : Element) (count : Nat) (alignment : Int) (allocator : Allocator) (memory : Memory) :
    Meets T count alignment allocator memory (alloc_array T count alignment allocator memory) ↔
      Fits T count alignment allocator memory := by
  by_cases some_elements : (0 : Int) < count
  case neg =>
    have empty : alloc_array_size T count (actualAlignment T alignment) = some 0 := if_pos (by omega)
    rw [alloc_array_empty T alignment allocator memory empty]
    exact ⟨fun _ positive => absurd positive some_elements,fun _ => .empty⟩
  by_cases valid : isPowerOfTwo (actualAlignment T alignment) = true ∧ blockSize T count alignment ≤ S64_MAX
  case neg =>
    have empty : alloc_array_size T count (actualAlignment T alignment) = some 0 := by
      apply alloc_array_size_none
      rw [actual_again,block_again]
      cases power : isPowerOfTwo (actualAlignment T alignment) with
      | false => exact .inr (.inl rfl)
      | true =>
          have large : ¬ blockSize T count alignment ≤ S64_MAX := fun fits => valid ⟨power,fits⟩
          exact .inr (.inr (by omega))
    rw [alloc_array_empty T alignment allocator memory empty]
    exact ⟨fun _ _ power fits => absurd ⟨power,fits⟩ valid,fun _ => .empty⟩
  obtain ⟨power,fits⟩ := valid
  have sized : alloc_array_size T count alignment =
      if blockSize T count alignment = S64_MAX then none else some (blockSize T count alignment) :=
    alloc_array_size_some T some_elements power fits
  have sized_again : alloc_array_size T count (actualAlignment T alignment) = alloc_array_size T count alignment := by
    rw [sized,alloc_array_size_some T some_elements (by rw [actual_again]; exact power) (by rw [block_again]; exact fits),
      block_again]
  have least := actual_positive T alignment
  have product : 0 < (count : Int) * T.size := Int.mul_pos some_elements T.sized.1
  obtain ⟨k,exact_power⟩ := isPowerOfTwo_exact.mp power
  have block : blockSize T count alignment = count * T.size + 15 + actualAlignment T alignment := rfl
  have bound : k < 63 := by
    by_contra wide
    have large : (2:Nat)^63 ≤ 2^k := Nat.pow_le_pow_right (by decide) (by omega)
    unfold S64_MAX at fits
    omega
  have nonempty : ¬ ((count : Int) < 0 ∨ actualAlignment T alignment ≤ 0) := by omega
  by_cases top : blockSize T count alignment = S64_MAX
  · rw [if_pos top] at sized
    have ends : alloc_array T count alignment allocator memory = .overflow := by
      unfold alloc_array
      simp only [actual_eq,if_neg nonempty,sized_again,sized]
    rw [ends]
    refine ⟨fun meets => ?_,fun inside => absurd top (inside some_elements power fits).1⟩
    cases meets
  rw [if_neg top] at sized
  have occupied : blockSize T count alignment ≠ 0 := by omega
  have granted : (allocator.alloc (blockSize T count alignment) memory).1 ≠ 0 →
      (allocator.alloc (blockSize T count alignment) memory).1 + blockSize T count alignment ≤ 18446744073709551616 :=
    allocator.inside
  cases given : allocator.alloc (blockSize T count alignment) memory with
  | mk base after =>
  have begun : alloc_array T count alignment allocator memory =
      if base = 0 then .view 0 0 after
      else
        match (u64 (base + headerSize)).bind (align_up · (actualAlignment T alignment).toNat) with
        | none => .overflow
        | some data => .view count data (write_header after (data - headerSize) base (blockSize T count alignment)) := by
    unfold alloc_array
    simp only [actual_eq,if_neg nonempty,sized_again,sized,if_neg occupied,given]
  rw [given] at granted
  rw [begun]
  by_cases null : base = 0
  · rw [if_pos null]
    refine ⟨fun _ _ _ _ => ⟨top,fun nonzero => ?_⟩,fun _ => .empty⟩
    rw [given] at nonzero
    exact absurd null nonzero
  rw [if_neg null]
  have extent := granted null
  by_cases sum : base + headerSize + 2^k < 18446744073709551616
  · refine ⟨fun _ _ _ _ => ⟨top,fun _ => ?_⟩,fun _ => ?_⟩
    · rw [given,exact_power]
      exact_mod_cast sum
    · obtain ⟨data,found,above,close,divides⟩ := placed T alignment base k bound exact_power sum
      have word : base < 18446744073709551616 := by omega
      have room : headerSize ≤ data := by omega
      have nonzero : data ≠ 0 := by
        unfold headerSize at room
        omega
      rw [found]
      refine .laid sized ?_
      rw [given]
      refine ⟨?_,above,?_,?_⟩
      · rw [exact_power]
        exact_mod_cast divides
      · unfold headerSize at close
        omega
      · intro later same
        rw [free_array_congr nonzero room same]
        unfold S64_MAX at fits
        exact free_array_header data room nonzero word (by omega) (by omega)
  · have wraps : (u64 (base + headerSize)).bind (align_up · (actualAlignment T alignment).toNat) = none := by
      rw [exact_power,Int.toNat_natCast]
      unfold u64 align_up u64
      split
      · unfold Option.bind
        dsimp only
        rw [if_neg sum]
        rfl
      · rfl
    rw [wraps]
    refine ⟨fun meets => ?_,fun inside => ?_⟩
    · cases meets
    · have below := (inside some_elements power fits).2
      rw [given,exact_power] at below
      exact absurd (by exact_mod_cast below null) sum

-- Words up to the last s64: size_with_header is S64_MAX - (alignment - 1), so the
-- check lets it through and the sum before the decrement is 2^63.
def word : Element := ⟨8,8,by decide,3,by decide,rfl⟩

def lowest : Allocator where
  alloc size memory := (if 16 + size ≤ 18446744073709551616 then 16 else 0,memory)
  aligned := by
    intro size memory
    dsimp only
    split <;> decide
  inside := by
    intro size memory given
    dsimp only at given ⊢
    split at given
    · rename_i room
      rw [if_pos room]
      exact room
    · exact absurd rfl given

theorem last_size_overflows : ¬ Meets word 1152921504606846972 16 lowest (fun _ => 0)
    (alloc_array word 1152921504606846972 16 lowest fun _ => 0) := by
  have ends : alloc_array word 1152921504606846972 16 lowest (fun _ => 0) = .overflow := rfl
  rw [ends]
  intro meets
  cases meets

end ArrayAllocation
