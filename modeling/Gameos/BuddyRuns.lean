import Gameos.BuddyRegions
import Gameos.TransitionRuns

namespace BuddyAllocator
open MachineWords ByteMemory AllocatorTypes DyadicBlocks TransitionRuns

-- What callers may do. `store` is an owner writing a byte of its own payload:
-- payloads, headers and free-list links share one memory.
inductive Call where
  | allocate (size alignment : S64)
  | free (pointer : Nat)
  | store (address : Nat) (byte : UInt8)

structure Heap where
  state : State
  allocations : List Live

-- A successful null result gives the caller nothing to own.
def record (result : AllocatorResult) (size alignment : Nat) (allocations : List Live) : List Live :=
  if result.error = .none ∧ result.memory ≠ 0 then ⟨result.memory,size,alignment⟩ :: allocations
  else allocations

def Heap.allocated (heap : Heap) (size alignment : S64) : Heap where
  state := (allocate heap.state size.val alignment.val).2
  allocations := record (allocate heap.state size.val alignment.val).1 size.val.toNat alignment.val.toNat
    heap.allocations

inductive Step : Heap → Call → Heap → Prop where
  | allocated : Step heap (.allocate size alignment) (heap.allocated size alignment)
  | freed : a ∈ heap.allocations → a.pointer = pointer → free heap.state pointer = some (result,state) →
      Step heap (.free pointer) ⟨state,heap.allocations.erase a⟩
  | stored : a ∈ heap.allocations → a.pointer ≤ address → address < a.pointer + a.size →
      Step heap (.store address byte)
        ⟨{heap.state with memory := write heap.state.memory address 1 byte.toNat},heap.allocations⟩

-- The block the search finds: the head of the lowest nonempty list at or above
-- the order of the request.
def Found (lists : Nat → List Nat) (target base : Nat) : Prop :=
  ∃ order rest, target ≤ order ∧ order ≤ maxOrder ∧ lists order = base :: rest ∧
    ∀ o, target ≤ o → o < order → lists o = []

-- Rounding the user pointer up stays below the end of the address space.
def Unwrapped (state : State) (size alignment : Int) : Prop :=
  0 < size → isPowerOfTwo alignment = true →
    ∀ base, Found state.freeLists (targetOrderFor (requiredSizeFor (toU64 size) (toU64 alignment))) base →
      base + headerSize + toU64 alignment ≤ 2^64

def Admits (heap : Heap) : Call → Prop
  | .allocate size alignment => Unwrapped heap.state size.val alignment.val
  | _ => True

theorem targetOrderFor_bounds (requiredSize : Nat) :
    minOrder ≤ targetOrderFor requiredSize ∧ targetOrderFor requiredSize ≤ maxOrder :=
  orderForBlockSize_bounds _

theorem takeBlock_found (taken : takeBlock state target = some (block,after)) :
    Found state.freeLists target block.base := by
  obtain ⟨above,present,empty⟩ := firstNonEmpty_spec state.freeLists target
  simp only [takeBlock] at taken
  by_cases exhausted : maxOrder < firstNonEmpty state.freeLists target
  · simp [exhausted] at taken
  · rw [if_neg exhausted] at taken
    have bound : firstNonEmpty state.freeLists target ≤ maxOrder := by omega
    cases list : state.freeLists (firstNonEmpty state.freeLists target) with
    | nil => exact absurd list (present bound)
    | cons base next =>
      simp only [list,Option.some.injEq,Prod.mk.injEq] at taken
      obtain ⟨rfl,rfl⟩ := taken
      exact ⟨_,next,above,bound,list,empty⟩

theorem alignment_pow (power : isPowerOfTwo alignment = true) (bound : alignment < 2^63) :
    ∃ k < 63, alignment = ((2^k : Nat) : Int) ∧ toU64 alignment = 2^k := by
  obtain ⟨k,exact⟩ := isPowerOfTwo_exact.mp power
  have small : k < 63 := (Nat.pow_lt_pow_iff_right (a:=2) (by decide)).mp (by omega)
  have below : 2^k < 2^63 := Nat.pow_lt_pow_right (by decide) small
  exact ⟨k,small,exact,by rw [exact]; exact toU64_nat _ (by omega)⟩

-- A request that passes the argument checks, with the words it becomes.
structure Request (size alignment : S64) (n k : Nat) : Prop where
  sizeExact : size.val = ((n : Nat) : Int)
  positive : 0 < n
  bound : n < 2^63
  alignmentExact : alignment.val = ((2^k : Nat) : Int)
  small : k < 63
  sizeWord : toU64 size.val = n
  alignmentWord : toU64 alignment.val = 2^k

theorem request_of_valid (size alignment : S64) (positive : 0 < size.val)
    (power : isPowerOfTwo alignment.val = true) : ∃ n k, Request size alignment n k := by
  obtain ⟨k,small,exact,word⟩ := alignment_pow power alignment.property.2
  have limit := size.property.2
  have count : ((size.val.toNat : Nat) : Int) = size.val := Int.toNat_of_nonneg (by omega)
  have sizeWord := toU64_nat size.val.toNat (by omega)
  rw [count] at sizeWord
  exact ⟨size.val.toNat,k,count.symm,by omega,by omega,exact,small,sizeWord,word⟩

theorem requiredSizeFor_small (size : n < 2^63) (small : k < 63) :
    requiredSizeFor n (2^k) = n + 2^k + headerSize := by
  have power : (2:Nat)^k ≤ 2^62 := Nat.pow_le_pow_right (by decide) (by omega)
  rw [requiredSizeFor,headerSize,add64_of_lt (a:=n) (b:=2^k) (by omega),add64_of_lt (by omega)]

-- ALLOCATE either leaves the state alone or places the block it took. The two
-- checks between them never fail.
theorem allocate_cases (state : State) (size alignment : S64) :
    ((size.val < 0 ∨ isPowerOfTwo alignment.val = false) ∧
      allocate state size.val alignment.val = (failure .invalidArgument,state)) ∨
    (size.val = 0 ∧ allocate state size.val alignment.val = (success 0,state)) ∨
    (∃ n k, Request size alignment n k ∧
      ((takeBlock state (targetOrderFor (requiredSizeFor n (2^k))) = none ∧
          allocate state size.val alignment.val = (failure .outOfMemory,state)) ∨
        ∃ block mid, takeBlock state (targetOrderFor (requiredSizeFor n (2^k))) = some (block,mid) ∧
          allocate state size.val alignment.val = placeBlock mid block n (2^k))) := by
  simp only [allocate]
  by_cases invalid : size.val < 0 ∨ isPowerOfTwo alignment.val = false
  · rw [if_pos invalid]
    exact .inl ⟨invalid,rfl⟩
  rw [if_neg invalid]
  by_cases zero : size.val = 0
  · rw [if_pos zero]
    exact .inr (.inl ⟨zero,rfl⟩)
  rw [if_neg zero]
  obtain ⟨n,k,request⟩ := request_of_valid size alignment (by omega)
    (by simpa using (not_or.mp invalid).2)
  have required := requiredSizeFor_small request.bound request.small
  have unit : 0 < 2^k := Nat.two_pow_pos _
  have page : pageSize ≤ nextBlockSize (requiredSizeFor n (2^k)) := nextBlockLoop_page _ _ (Nat.le_refl _)
  rw [request.sizeWord,request.alignmentWord,if_neg (by omega),if_neg (by omega)]
  refine .inr (.inr ⟨n,k,request,?_⟩)
  cases taken : takeBlock state (targetOrderFor (requiredSizeFor n (2^k))) with
  | none => exact .inl ⟨rfl,rfl⟩
  | some result =>
    obtain ⟨block,mid⟩ := result
    exact .inr ⟨block,mid,rfl,rfl⟩

section Holding
variable {hand : List Block} {state : State} {allocations : List Live} {cells : Set Nat} {b : Block}

theorem record_failure (error : e ≠ .none) : record (failure e) size alignment allocations = allocations := by
  simp [record,AllocatorTypes.failure,error]

theorem record_null : record (success 0) size alignment allocations = allocations := by
  simp [record,AllocatorTypes.success]

theorem record_success (present : pointer ≠ 0) :
    record (success pointer) size alignment allocations = ⟨pointer,size,alignment⟩ :: allocations := by
  simp [record,AllocatorTypes.success,present]

theorem Request.power (request : Request size alignment n k) : isPowerOfTwo alignment.val = true :=
  isPowerOfTwo_exact.mpr ⟨k,request.alignmentExact⟩

theorem Holding.allocate {size alignment : S64} (holding : Holding hand state allocations cells)
    (unwrapped : Unwrapped state size.val alignment.val)
    (allocated : allocate state size.val alignment.val = (result,after)) :
    Holding hand after (record result size.val.toNat alignment.val.toNat allocations) cells := by
  rcases allocate_cases state size alignment with ⟨_,same⟩ | ⟨_,same⟩ |
    ⟨n,k,request,⟨_,same⟩ | ⟨block,mid,taken,same⟩⟩
  · rw [same] at allocated
    obtain ⟨rfl,rfl⟩ := Prod.mk.inj allocated
    rwa [record_failure (by decide)]
  · rw [same] at allocated
    obtain ⟨rfl,rfl⟩ := Prod.mk.inj allocated
    rwa [record_null]
  · rw [same] at allocated
    obtain ⟨rfl,rfl⟩ := Prod.mk.inj allocated
    rwa [record_failure (by decide)]
  · have fits := unwrapped (by rw [request.sizeExact]; exact Int.natCast_pos.mpr request.positive) request.power
      block.base (by rw [request.sizeWord,request.alignmentWord]; exact takeBlock_found taken)
    rw [request.alignmentWord] at fits
    obtain ⟨_,held⟩ := holding.takeBlock (targetOrderFor_bounds _).1 taken
    rw [same] at allocated
    rw [request.sizeExact,request.alignmentExact,Int.toNat_natCast,Int.toNat_natCast]
    rcases held.placeBlock request.small request.positive request.bound fits with
      refused | ⟨pointer,final,placed,nonzero,_,_,kept⟩
    · rw [refused] at allocated
      obtain ⟨rfl,rfl⟩ := Prod.mk.inj allocated
      rw [record_failure (by decide)]
      exact held.push
    · rw [placed] at allocated
      obtain ⟨rfl,rfl⟩ := Prod.mk.inj allocated
      rwa [record_success nonzero]

-- FREE of a live pointer never meets the double-free assertion.
theorem Holding.free (holding : Holding hand state allocations cells) (present : a ∈ allocations) :
    ∃ mid merged last, BuddyAllocator.free state a.pointer =
        some (success 0,pushFreeBlock last merged.base merged.order) ∧
      BuddyAllocator.mergeUp (blockOf state.memory a) mid = (merged,last) ∧
      mid = {state with memory := write state.memory (headerFromPointer a.pointer + stateOffset) 1 freed} ∧
      Holding (blockOf state.memory a :: hand) mid (allocations.erase a) cells := by
  have placed := holding.placed a present
  have range := holding.range (live_mem present)
  have header := placed.header
  have payload := placed.payload
  have nonzero : a.pointer ≠ 0 := by simp only [headerSize] at header; omega
  have pointerHeader : headerFromPointer a.pointer = a.pointer - headerSize := by
    simp only [pageSize] at range
    exact headerFromPointer_eq (by omega) (by omega)
  have isLive := placed.state
  rw [headerOf] at isLive
  refine ⟨_,_,_,?_,rfl,rfl,?_⟩
  · simp only [BuddyAllocator.free,if_neg nonzero,isLive,ne_eq,not_true_eq_false,if_false]
    rfl
  · apply (holding.release present).overwrite (b:=blockOf state.memory a) (by simp)
    intro x outside
    apply write_outside
    simp only [Block.Contains] at outside
    rw [pointerHeader]
    simp only [headerSize,stateOffset] at header ⊢
    have positive := placed.positive.1
    omega

theorem Holding.freed (holding : Holding hand state allocations cells) (present : a ∈ allocations)
    (done : BuddyAllocator.free state a.pointer = some (result,after)) :
    Holding hand after (allocations.erase a) cells := by
  obtain ⟨mid,merged,last,exact,up,_,held⟩ := holding.free present
  rw [exact] at done
  obtain ⟨rfl,rfl⟩ := Prod.mk.inj (Option.some.inj done)
  have whole := held.mergeUp.1
  rw [up] at whole
  exact whole.push

-- Everything an owner may write lies behind its header and in its own block.
theorem Holding.payload_inside (holding : Holding hand state allocations cells) (present : a ∈ allocations)
    (here : a.pointer ≤ x ∧ x < a.pointer + a.size) : (blockOf state.memory a).Contains x := by
  have placed := holding.placed a present
  have header := placed.header
  have payload := placed.payload
  exact ⟨by omega,by omega⟩

theorem Holding.touch_headers (holding : Holding hand state allocations cells) (present : a ∈ allocations)
    (after : Memory) (outside : ∀ x, ¬ (a.pointer ≤ x ∧ x < a.pointer + a.size) → after x = state.memory x) :
    ∀ c ∈ allocations, headerOf after c = headerOf state.memory c := by
  have placed := holding.placed a present
  have range := holding.range (live_mem present)
  have header := placed.header
  have payload := placed.payload
  have pointerHeader : headerFromPointer a.pointer = a.pointer - headerSize := by
    simp only [pageSize] at range
    exact headerFromPointer_eq (by omega) (by omega)
  intro c other
  by_cases same : blockOf state.memory c = blockOf state.memory a
  · have equal : c = a := by
      by_contra different
      have blocks : (allocations.map (blockOf state.memory)).Pairwise Block.Apart :=
        (List.pairwise_append.mp (List.pairwise_append.mp holding.tiling.apart).2.1).2.1
      rw [List.pairwise_map] at blocks
      have : Std.Symm fun c d => Block.Apart (blockOf state.memory c) (blockOf state.memory d) :=
        ⟨fun _ _ h => apart_symm h⟩
      exact apart_ne (blocks.forall other present different) same
    subst equal
    apply readHeader_congr
    intro x low high
    apply outside
    rw [pointerHeader] at high
    simp only [headerSize] at header high
    omega
  · apply holding.header_eq other
    intro x inC
    apply outside
    intro mine
    exact same (holding.tiling.unique (live_mem other) (live_mem present) inC (holding.payload_inside present mine))

theorem Holding.touch (holding : Holding hand state allocations cells) (present : a ∈ allocations)
    (after : Memory) (outside : ∀ x, ¬ (a.pointer ≤ x ∧ x < a.pointer + a.size) → after x = state.memory x) :
    Holding hand {state with memory := after} allocations cells := by
  apply holding.remember _ (holding.touch_headers present after outside)
  intro order bound
  apply linked_congr (holding.linked order bound)
  intro base free
  apply read_congr
  intro x low high
  apply outside
  intro mine
  exact holding.free_apart_live bound free present x (holding.word_inside bound free low high)
    (holding.payload_inside present mine)

theorem step_partition (partition : Partition heap.state heap.allocations cells)
    (admits : Admits heap call) (step : Step heap call next) : Partition next.state next.allocations cells := by
  cases step with
  | allocated => exact Holding.allocate partition admits rfl
  | freed present pointer result =>
      subst pointer
      exact Holding.freed partition present result
  | stored present low high =>
      apply Holding.touch partition present
      intro x outside
      apply write_outside
      omega

end Holding

theorem found_takeBlock (found : Found state.freeLists target base) :
    ∃ block mid, takeBlock state target = some (block,mid) ∧ block.base = base := by
  obtain ⟨order,rest,above,bound,list,empty⟩ := found
  obtain ⟨low,present,before⟩ := firstNonEmpty_spec state.freeLists target
  have same : firstNonEmpty state.freeLists target = order := by
    rcases Nat.lt_trichotomy (firstNonEmpty state.freeLists target) order with less | equal | more
    · exact absurd (empty _ low less) (present (by omega))
    · exact equal
    · have nothing := before order above more
      rw [list] at nothing
      cases nothing
  simp only [takeBlock,same,if_neg (Nat.not_lt.mpr bound),list]
  exact ⟨_,_,rfl,rfl⟩

-- Beyond the condition the pointer rounds up to null and the call succeeds.
theorem placeBlock_wraps (range : pageSize ≤ block.base ∧ block.base + 2^block.order ≤ 2^64 - pageSize)
    (small : k < 63) (bound : size < 2^63) (wraps : 2^64 < block.base + headerSize + 2^k) :
    placeBlock state block size (2^k) = (success 0,⟨state.freeLists,writeHeader state.memory
      (2^64 - headerSize) ⟨block.base,block.order,live,size,2^k⟩⟩) := by
  have power : (2:Nat)^k ≤ 2^62 := Nat.pow_le_pow_right (by decide) (by omega)
  have unit : 0 < 2^block.order := Nat.two_pow_pos _
  simp only [pageSize,headerSize] at range wraps ⊢
  have header : add64 block.base headerSize = block.base + 32 := add64_of_lt (by simp only [headerSize]; omega)
  have limit : add64 block.base (blockSizeForOrder block.order) = block.base + 2^block.order :=
    add64_of_lt (by simp only [blockSizeForOrder]; omega)
  have null : alignUp (block.base+32) (2^k) = 0 := alignUp_wraps _ k (by omega) (by omega) (by omega)
  have sum : add64 0 size = size := by unfold add64; omega
  simp only [placeBlock,header,limit,null,sum]
  rw [if_neg (by omega)]
  rfl

-- A block cannot be in hand and belong to the rest as well.
theorem Holding.lost (holding : Holding (b :: hand) state allocations cells)
    (whole : Holding hand state allocations cells) : False := by
  have inside := (holding.tiling.exact b.base).mpr ⟨b,by simp,contains_base b⟩
  obtain ⟨c,present,here⟩ := (whole.tiling.exact b.base).mp inside
  exact (List.pairwise_cons.mp holding.tiling.apart).1 c present b.base (contains_base b) here

-- The last header of the address space is in no block.
theorem Holding.write_last (holding : Holding hand state allocations cells) (header : AllocationHeader) :
    Holding hand {state with memory := writeHeader state.memory (2^64 - headerSize) header} allocations cells ∧
      ∀ a ∈ allocations, headerOf (writeHeader state.memory (2^64 - headerSize) header) a = headerOf state.memory a := by
  have hidden : ∀ c ∈ hand ++ allBlocks state allocations, ∀ x, c.Contains x →
      writeHeader state.memory (2^64 - headerSize) header x = state.memory x := by
    intro c present x inside
    have high := holding.range present
    have last := inside.2
    apply writeHeader_outside
    simp only [pageSize,headerSize] at high ⊢
    omega
  have headers : ∀ a ∈ allocations, headerOf (writeHeader state.memory (2^64 - headerSize) header) a =
      headerOf state.memory a := fun a present => holding.header_eq present (hidden _ (live_mem present))
  refine ⟨holding.remember _ headers ?_,headers⟩
  intro order bound
  apply linked_congr (holding.linked order bound)
  intro b present
  apply read_congr
  intro x low high
  exact hidden _ (free_mem bound present) x (holding.word_inside bound present low high)

-- The condition is exact: where it fails, the block that was taken is in no
-- list and behind no live pointer.
theorem allocate_keeps_exactly {state : State} {size alignment : S64}
    (partition : Partition state allocations cells) :
    Partition (allocate state size.val alignment.val).2
      (record (allocate state size.val alignment.val).1 size.val.toNat alignment.val.toNat allocations) cells ↔
      Unwrapped state size.val alignment.val := by
  constructor
  · intro kept positive power base found
    by_contra wraps
    obtain ⟨n,k,request⟩ := request_of_valid _ _ positive power
    rcases allocate_cases state size alignment with ⟨invalid,_⟩ | ⟨zero,_⟩ | ⟨n',k',request',cases⟩
    · rcases invalid with negative | odd
      · omega
      · rw [power] at odd; cases odd
    · omega
    rw [request'.sizeWord,request'.alignmentWord] at found
    obtain ⟨block,mid,taken,same⟩ := found_takeBlock found
    rcases cases with ⟨absent,_⟩ | ⟨block',mid',taken',placed⟩
    · rw [taken] at absent; cases absent
    rw [taken] at taken'
    obtain ⟨rfl,rfl⟩ := Prod.mk.inj (Option.some.inj taken')
    obtain ⟨_,held⟩ := partition.takeBlock (targetOrderFor_bounds _).1 taken
    have range := held.range (b:=block) (by simp)
    rw [request'.alignmentWord,← same] at wraps
    rw [placed,placeBlock_wraps range request'.small request'.bound (by omega),record_null] at kept
    exact Holding.lost (b:=block) (held.write_last _).1 kept
  · intro unwrapped
    exact partition.allocate unwrapped rfl

-- The state after boot; whatever the memory held before.
def booted (memory : Memory) (regions : List Region) : Heap :=
  ⟨addRegions ⟨fun _ => [],memory⟩ regions,[]⟩

theorem allocator_run_partition (admissible : Admissible regions) (memory : Memory)
    (run : Run Step Admits (booted memory regions) calls heap) :
    Partition heap.state heap.allocations (regionCells regions) ∧
      heap.allocations.Pairwise fun a b =>
        a.pointer + a.size ≤ b.pointer ∨ b.pointer + b.size ≤ a.pointer := by
  have kept : Partition heap.state heap.allocations (regionCells regions) :=
    run.keeps (fun h => Partition h.state h.allocations (regionCells regions))
      (fun _ _ _ partition admits step => step_partition partition admits step)
      (booted_partition admissible memory)
  exact ⟨kept,payload_apart kept⟩

def lowRegion : Region := ⟨2^20,2^16⟩
def lowHeap : Heap := booted (fun _ => 0) [lowRegion]

-- What the kernel computes of it, before and after 100 bytes are allocated.
theorem lowHeap_values :
    let heap := lowHeap.allocated ⟨100,by decide⟩ ⟨64,by decide⟩
    (∀ size ∈ lowRegion.pieces, size ≤ 2^31) ∧
    (∀ order < 64, ∀ base ∈ lowHeap.state.freeLists order, base + headerSize + toU64 64 ≤ 2^64) ∧
    (∀ b ∈ freeBlocks lowHeap.state.freeLists, b.buddy ∉ freeBlocks lowHeap.state.freeLists) ∧
    (allocate lowHeap.state 100 64).1.error = .none ∧
    heap.allocations = [⟨2^20+64,100,64⟩] ∧ heap.state.freeLists 16 = [] := by
  decide +kernel

theorem lowRegion_admissible : Admissible [lowRegion] where
  apart := List.pairwise_singleton _ _
  nonzero := by simp [lowRegion,Region.Contains]
  unwrapped := by simp [lowRegion]
  pieces := by simpa using lowHeap_values.1

theorem found_mem (found : Found lists target base) : ∃ order ≤ maxOrder, base ∈ lists order := by
  obtain ⟨order,rest,_,bound,list,_⟩ := found
  exact ⟨order,bound,by rw [list]; simp⟩

theorem lowHeap_admits : Admits lowHeap (.allocate ⟨100,by decide⟩ ⟨64,by decide⟩) := by
  intro _ _ base found
  obtain ⟨order,bound,present⟩ := found_mem found
  exact lowHeap_values.2.1 order (by simp only [maxOrder] at bound; omega) base present

theorem allocator_run_partition_low :
    let heap := lowHeap.allocated ⟨100,by decide⟩ ⟨64,by decide⟩
    heap.allocations = [⟨2^20+64,100,64⟩] ∧
      Partition heap.state heap.allocations (regionCells [lowRegion]) :=
  ⟨lowHeap_values.2.2.2.2.1,(allocator_run_partition lowRegion_admissible (fun _ => 0)
    (.single lowHeap_admits .allocated)).1⟩

-- A region just below the end of the address space. With an alignment of 2^32
-- the pointer rounds up to null: the call succeeds and no list keeps the block.
def highRegion : Region := ⟨2^64-2^32,2^31⟩
def highHeap : Heap := booted (fun _ => 0) [highRegion]

theorem highHeap_values :
    let heap := highHeap.allocated ⟨1,by decide⟩ ⟨2^32,by decide⟩
    (∀ size ∈ highRegion.pieces, size ≤ 2^31) ∧
    (∀ b ∈ freeBlocks highHeap.state.freeLists, b.buddy ∉ freeBlocks highHeap.state.freeLists) ∧
    2^64-2^32 ∈ highHeap.state.freeLists 31 ∧ (allocate highHeap.state 1 (2^32)).1.error = .none ∧
    (∀ order < 64, heap.state.freeLists order = []) ∧ heap.allocations = [] := by
  decide +kernel

theorem highRegion_admissible : Admissible [highRegion] where
  apart := List.pairwise_singleton _ _
  nonzero := by simp [highRegion,Region.Contains]
  unwrapped := by simp [highRegion]
  pieces := by simpa using highHeap_values.1

theorem highHeap_lists : ∀ order < 64,
    (highHeap.allocated ⟨1,by decide⟩ ⟨2^32,by decide⟩).state.freeLists order = [] := highHeap_values.2.2.2.2.1

theorem highHeap_unowned : (highHeap.allocated ⟨1,by decide⟩ ⟨2^32,by decide⟩).allocations = [] :=
  highHeap_values.2.2.2.2.2

theorem wrapped_run_loses_block : Admissible [highRegion] ∧ ∃ calls heap,
    Run Step (fun _ _ => True) (booted (fun _ => 0) [highRegion]) calls heap ∧
    ¬ Partition heap.state heap.allocations (regionCells [highRegion]) := by
  refine ⟨highRegion_admissible,[.allocate ⟨1,by decide⟩ ⟨2^32,by decide⟩],_,.single trivial .allocated,?_⟩
  intro partition
  obtain ⟨b,present,_⟩ := (partition.tiling.exact highRegion.base).mp
    ⟨highRegion,by simp,by decide,by decide⟩
  rw [List.nil_append,allBlocks,List.mem_append] at present
  rcases present with free | owned
  · obtain ⟨bound,here⟩ := mem_freeBlocks.mp free
    have nothing := highHeap_lists b.order (by simp only [maxOrder] at bound; omega)
    rw [show booted (fun _ => 0) [highRegion] = highHeap from rfl,nothing] at here
    simp at here
  · rw [show booted (fun _ => 0) [highRegion] = highHeap from rfl,highHeap_unowned] at owned
    simp at owned

end BuddyAllocator
