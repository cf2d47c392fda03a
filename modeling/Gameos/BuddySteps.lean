import Gameos.BuddyPartition

namespace BuddyAllocator
open MachineWords ByteMemory AllocatorTypes DyadicBlocks

theorem orderLoop_bounds (blockSize : Nat) (current : Int) (order : Nat) (low : order ≤ maxOrder) :
    order ≤ orderLoop blockSize current order ∧ orderLoop blockSize current order ≤ maxOrder := by
  induction current, order using orderLoop.induct blockSize with
  | case1 current order more ih =>
    rw [orderLoop,if_pos more]
    have deeper := ih (by omega)
    omega
  | case2 current order stop =>
    rw [orderLoop,if_neg stop]
    exact ⟨Nat.le_refl _,low⟩

theorem orderForBlockSize_bounds (blockSize : Nat) :
    minOrder ≤ orderForBlockSize blockSize ∧ orderForBlockSize blockSize ≤ maxOrder :=
  orderLoop_bounds blockSize 4096 minOrder (by decide)

-- The 32-bit counter turns negative at order 31, and as a u64 it is then above
-- every block size: no order beyond 31 is ever computed.
theorem orderForBlockSize_pow (small : k < 64) (page : minOrder ≤ k) :
    orderForBlockSize (2^k) = min k 31 := by
  have table : ∀ k < 64, minOrder ≤ k → orderForBlockSize (2^k) = min k 31 := by decide +kernel
  exact table k small page

theorem nextBlockLoop_page (requiredSize blockSize : Nat) (page : pageSize ≤ blockSize) :
    pageSize ≤ nextBlockLoop requiredSize blockSize := by
  induction blockSize using nextBlockLoop.induct requiredSize with
  | case1 blockSize more ih =>
    rw [nextBlockLoop,if_pos more]
    exact ih (by omega)
  | case2 blockSize stop => rwa [nextBlockLoop,if_neg stop]

theorem firstNonEmpty_spec (lists : Nat → List Nat) (order : Nat) :
    order ≤ firstNonEmpty lists order ∧
      (firstNonEmpty lists order ≤ maxOrder → lists (firstNonEmpty lists order) ≠ []) ∧
      ∀ o, order ≤ o → o < firstNonEmpty lists order → lists o = [] := by
  induction order using firstNonEmpty.induct lists with
  | case1 order more ih =>
    rw [firstNonEmpty,if_pos more]
    obtain ⟨above,present,empty⟩ := ih
    refine ⟨by omega,present,?_⟩
    intro o low high
    by_cases here : o = order
    · rw [here]; exact more.2
    · exact empty o (by omega) high
  | case2 order stop =>
    rw [firstNonEmpty,if_neg stop]
    exact ⟨Nat.le_refl _,fun bound empty => stop ⟨bound,empty⟩,fun o low high => by omega⟩

theorem readHeader_writeHeader (base : header.blockBase < 2^64) (order : header.order < 256)
    (state : header.state < 256) (size : header.requestedSize < 2^64)
    (alignment : header.requestedAlignment < 2^64) :
    readHeader (writeHeader memory address header) address = header := by
  have word : ∀ {v : Nat}, v < 2^64 → v < 256^8 := fun small => small
  have byte : ∀ {v : Nat}, v < 256 → v < 256^1 := fun small => small
  simp only [readHeader,writeHeader,stateOffset]
  rw [read_write (word alignment)]
  simp (disch := omega) only [read_write_outside]
  rw [read_write (word base),read_write (byte order),read_write (byte state),read_write (word size)]

theorem writeHeader_outside (outside : x < address ∨ address+headerSize ≤ x) :
    writeHeader memory address header x = memory x := by
  simp only [headerSize] at outside
  simp only [writeHeader,stateOffset]
  simp (disch := omega) only [write_outside]

section Holding
variable {hand : List Block} {state : State} {allocations : List Live} {cells : Set Nat} {b : Block}

-- Each turn cuts the block in hand and gives its upper half away.
theorem Holding.splitDown (holding : Holding (⟨base,order⟩ :: hand) state allocations cells)
    (small : minOrder ≤ target) (bound : target ≤ order) :
    (splitDown base target order state).1 = target ∧
      Holding (⟨base,target⟩ :: hand) (splitDown base target order state).2 allocations cells := by
  induction order, state using splitDown.induct base target with
  | case1 order state more ih =>
    rw [BuddyAllocator.splitDown,if_pos more]
    have range : pageSize ≤ base ∧ base + 2^order ≤ 2^64 - pageSize := holding.range (b:=⟨base,order⟩) (by simp)
    have halves := holding.split (by show minOrder < order; omega)
    have swapped := halves.hand_perm (List.Perm.swap _ _ _)
    have pushed := swapped.push
    have double : 2^order = 2^(order-1) + 2^(order-1) := by
      rw [← Nat.two_mul,← Nat.pow_succ',Nat.succ_eq_add_one,Nat.sub_add_cancel (by omega)]
    have half : 0 < 2^(order-1) := Nat.two_pow_pos _
    have address : add64 base (blockSizeForOrder (order-1)) = base + 2^(order-1) := by
      apply add64_of_lt
      simp only [pageSize,blockSizeForOrder] at range ⊢
      omega
    rw [address] at ih ⊢
    exact ih pushed (by omega)
  | case2 order state stop =>
    rw [BuddyAllocator.splitDown,if_neg stop]
    have equal : order = target := by omega
    subst equal
    exact ⟨rfl,holding⟩

theorem Holding.takeBlock (holding : Holding hand state allocations cells) (small : minOrder ≤ target)
    (taken : takeBlock state target = some (block,after)) :
    block.order = target ∧ Holding (block :: hand) after allocations cells := by
  obtain ⟨above,present,_⟩ := firstNonEmpty_spec state.freeLists target
  simp only [BuddyAllocator.takeBlock] at taken
  by_cases exhausted : maxOrder < firstNonEmpty state.freeLists target
  · simp [exhausted] at taken
  · rw [if_neg exhausted] at taken
    have bound : firstNonEmpty state.freeLists target ≤ maxOrder := by omega
    cases list : state.freeLists (firstNonEmpty state.freeLists target) with
    | nil => exact absurd list (present bound)
    | cons base next =>
      simp only [list,Option.some.injEq,Prod.mk.injEq] at taken
      obtain ⟨rfl,rfl⟩ := taken
      obtain ⟨order,split⟩ := (holding.pop bound list).splitDown small above
      rw [order]
      exact ⟨rfl,split⟩

-- The header is written inside the block in hand, or nothing is placed and the
-- block goes back to its list. `fits` is the sum align_up computes.
theorem Holding.placeBlock (holding : Holding (b :: hand) state allocations cells) (small : k < 63)
    (positive : 0 < size) (bound : size < 2^63) (fits : b.base + headerSize + 2^k ≤ 2^64) :
    (placeBlock state b size (2^k) = (failure .outOfMemory,pushFreeBlock state b.base b.order)) ∨
      ∃ pointer after, placeBlock state b size (2^k) = (success pointer,after) ∧ pointer ≠ 0 ∧
        after.freeLists = state.freeLists ∧ blockOf after.memory ⟨pointer,size,2^k⟩ = b ∧
        Holding hand after (⟨pointer,size,2^k⟩ :: allocations) cells := by
  have range := holding.range (b:=b) (by simp)
  have orders := holding.orders b (by simp)
  have power : (2:Nat)^k < 2^63 := Nat.pow_lt_pow_right (by decide) small
  have unit : 0 < 2^b.order := Nat.two_pow_pos _
  have header : add64 b.base headerSize = b.base + headerSize :=
    add64_of_lt (by simp only [pageSize,headerSize] at range ⊢; omega)
  have limit : add64 b.base (blockSizeForOrder b.order) = b.base + 2^b.order :=
    add64_of_lt (by simp only [pageSize,blockSizeForOrder] at range ⊢; omega)
  obtain ⟨low,high,multiple⟩ := alignUp_bounds (b.base+headerSize) k (by omega) fits
  simp only [BuddyAllocator.placeBlock,header,limit]
  generalize alignUp (b.base+headerSize) (2^k) = pointer at low high multiple ⊢
  by_cases refused : add64 pointer size < pointer ∨ b.base + 2^b.order < add64 pointer size
  · rw [if_pos refused]
    exact .inl rfl
  · rw [if_neg refused]
    have sum := add64_checked (a:=pointer) (b:=size) (by omega) (fun wrapped => refused (.inl wrapped))
    rw [sum] at refused
    have inside : pointer + size ≤ b.base + 2^b.order := by omega
    have pointerHeader : headerFromPointer pointer = pointer - headerSize := by
      simp only [pageSize] at range
      exact headerFromPointer_eq (by omega) (by omega)
    have placedHeader : headerOf (writeHeader state.memory (headerFromPointer pointer)
        ⟨b.base,b.order,live,size,2^k⟩) ⟨pointer,size,2^k⟩ = ⟨b.base,b.order,live,size,2^k⟩ := by
      simp only [pageSize,maxOrder] at range orders
      apply readHeader_writeHeader <;> simp only [live] <;> omega
    have block : blockOf (writeHeader state.memory (headerFromPointer pointer)
        ⟨b.base,b.order,live,size,2^k⟩) ⟨pointer,size,2^k⟩ = b := by
      rw [blockOf,placedHeader]
    refine .inr ⟨pointer,_,rfl,by simp only [headerSize] at low; omega,rfl,block,?_⟩
    have written := holding.overwrite (b:=b) (by simp) (writeHeader state.memory
      (headerFromPointer pointer) ⟨b.base,b.order,live,size,2^k⟩) (by
        intro x outside
        apply writeHeader_outside
        simp only [Block.Contains] at outside
        rw [pointerHeader]
        simp only [headerSize] at low ⊢
        omega)
    refine written.admit _ ?_ block
    refine ⟨by rw [placedHeader],by rw [placedHeader],by rw [placedHeader],⟨k,small,rfl⟩,⟨positive,bound⟩,
      multiple,?_,?_⟩ <;> rw [block]
    · exact low
    · exact inside

theorem payload_apart (holding : Holding hand state allocations cells) :
    allocations.Pairwise fun a b => a.pointer + a.size ≤ b.pointer ∨ b.pointer + b.size ≤ a.pointer := by
  have blocks : (allocations.map (blockOf state.memory)).Pairwise Block.Apart :=
    (List.pairwise_append.mp (List.pairwise_append.mp holding.tiling.apart).2.1).2.1
  rw [List.pairwise_map] at blocks
  refine blocks.imp_of_mem ?_
  intro a b inA inB apart
  have placedA := holding.placed a inA
  have placedB := holding.placed b inB
  have headerA := placedA.header
  have headerB := placedB.header
  have payloadA := placedA.payload
  have payloadB := placedB.payload
  have positiveA := placedA.positive.1
  have positiveB := placedB.positive.1
  by_contra overlap
  rcases Nat.le_total a.pointer b.pointer with le | le
  · exact apart b.pointer ⟨by omega,by omega⟩ ⟨by omega,by omega⟩
  · exact apart a.pointer ⟨by omega,by omega⟩ ⟨by omega,by omega⟩

end Holding

end BuddyAllocator
