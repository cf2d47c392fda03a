import Gameos.BuddyFrames
import Gameos.BuddyRegionBlocks
import Gameos.BuddyRuns

-- Pointers that were freed, as the buddy allocator sees them later.
namespace BuddyAllocator
open MachineWords ByteMemory AllocatorTypes DyadicBlocks TransitionRuns

-- Any memory that does not reach into the last page. A block of more than 2^31 bytes
-- is pushed as one of 2^31; the rest of it is then in no list.
structure Bootable (regions : List Region) : Prop where
  apart : regions.Pairwise fun a b => ∀ x, a.Contains x → ¬ b.Contains x
  nonzero : ∀ r ∈ regions, ¬ r.Contains 0
  unwrapped : ∀ r ∈ regions, r.base + r.size < 2^64
  page : ∀ r ∈ regions, r.base + pageSize ≤ 2^64

-- The allocator writes a header in front of the pointer.
def Live.Occupies (a : Live) (x : Nat) : Prop := a.pointer - headerSize ≤ x ∧ x < a.pointer + a.size

-- No live allocation occupies a byte of the header in front of a pointer.
def Vacant (pointer : Nat) (heap : Heap) : Prop :=
  ∀ a ∈ heap.allocations, ∀ x, pointer - headerSize ≤ x → x < pointer → ¬ a.Occupies x

section Boot
variable {current fin : Nat} {hand : List Block} {state : State} {allocations : List Live} {cells : Set Nat} {b : Block}

structure Pushed (current fin : Nat) (b : Block) : Prop where
  aligned : b.Aligned
  orders : minOrder ≤ b.order ∧ b.order ≤ maxOrder
  low : current ≤ b.base
  high : b.base + 2^b.order ≤ fin

theorem pushed_blocks (small : fin < 2^64) (start : pageSize ∣ current) (stop : pageSize ∣ fin) :
    (∀ b ∈ pushedBlocks current fin, Pushed current fin b) ∧ (pushedBlocks current fin).Pairwise Block.Apart := by
  induction current using pushedBlocks.induct fin with
  | case1 current more ih =>
      obtain ⟨k,page,width,size,multiple,inside⟩ := regionBlockSize_spec more small start stop
      rw [pushedBlocks,if_pos more,size]
      rw [size] at ih
      have next : pageSize ∣ current + 2^k :=
        Nat.dvd_add start (Nat.dvd_trans (Nat.pow_dvd_pow 2 page) (Nat.dvd_refl _))
      obtain ⟨each,apart⟩ := ih next
      have order := orderForBlockSize_pow width page
      have narrow : orderForBlockSize (2^k) ≤ k := by omega
      have shorter : (2:Nat)^(orderForBlockSize (2^k)) ≤ 2^k := Nat.pow_le_pow_right (by decide) narrow
      have bounds := orderForBlockSize_bounds (2^k)
      refine ⟨?_,List.pairwise_cons.mpr ⟨?_,apart⟩⟩
      · intro b present
        rcases List.mem_cons.mp present with rfl | later
        · exact ⟨Nat.dvd_trans (Nat.pow_dvd_pow 2 narrow) multiple,bounds,Nat.le_refl _,
            Nat.le_trans (Nat.add_le_add_left shorter _) inside⟩
        · have pushed := each b later
          exact ⟨pushed.aligned,pushed.orders,Nat.le_trans (Nat.le_add_right _ _) pushed.low,pushed.high⟩
      · intro b later x here there
        have above := (each b later).low
        have last : x < current + 2^(orderForBlockSize (2^k)) := here.2
        have first := there.1
        omega
  | case2 current ends =>
      rw [pushedBlocks,if_neg ends]
      exact ⟨fun b present => absurd present List.not_mem_nil,.nil⟩

-- Pushing a block in hand is all that happens at boot.
theorem Holding.pushes (holding : Holding (blocks ++ hand) state allocations cells) :
    Holding hand (blocks.foldl BuddyAllocator.push state) allocations cells := by
  induction blocks generalizing state with
  | nil => exact holding
  | cons b rest ih =>
      rw [List.foldl_cons]
      exact ih holding.push

theorem addRegions_pushes (state : State) (regions : List Region) :
    addRegions state regions = (regions.flatMap Region.blocks).foldl push state := by
  unfold addRegions
  induction regions generalizing state with
  | nil => rfl
  | cons r rest ih =>
      rw [List.foldl_cons,List.flatMap_cons,List.foldl_append,← region_pushes]
      exact ih _

structure Inner (r : Region) (b : Block) : Prop where
  aligned : b.Aligned
  orders : minOrder ≤ b.order ∧ b.order ≤ maxOrder
  bounded : pageSize ≤ b.base ∧ b.base + 2^b.order ≤ 2^64 - pageSize
  inside : ∀ x, b.Contains x → r.Contains x

theorem region_blocks {r : Region} (nonzero : ¬ r.Contains 0) (bounded : r.base + r.size < 2^64) (low : r.base + pageSize ≤ 2^64) :
    (∀ b ∈ r.blocks, Inner r b) ∧ r.blocks.Pairwise Block.Apart := by
  obtain ⟨start,stop,above,below,_⟩ := region_bounds bounded low
  obtain ⟨each,apart⟩ := pushed_blocks (Nat.lt_of_le_of_lt below bounded) start stop
  refine ⟨fun b present => ?_,apart⟩
  have pushed := each b present
  have unit : 0 < 2^b.order := Nat.two_pow_pos _
  have bottom := pushed.low
  have top := pushed.high
  have inside : ∀ x, b.Contains x → r.Contains x := fun x here => by
    obtain ⟨first,last⟩ := here
    exact ⟨by omega,by omega⟩
  refine ⟨pushed.aligned,pushed.orders,⟨?_,?_⟩,inside⟩
  · have page : pageSize ∣ b.base := Nat.dvd_trans (Nat.pow_dvd_pow 2 pushed.orders.1) pushed.aligned
    have positive : b.base ≠ 0 := by
      intro zero
      have here := inside b.base (contains_base b)
      rw [zero] at here
      exact nonzero here
    exact Nat.le_of_dvd (Nat.pos_of_ne_zero positive) page
  · obtain ⟨q,whole⟩ := stop
    simp only [pageSize] at *
    omega

theorem Bootable.blocks (bootable : Bootable regions) :
    (∀ b ∈ regions.flatMap Region.blocks, ∃ r ∈ regions, Inner r b) ∧
      (regions.flatMap Region.blocks).Pairwise Block.Apart := by
  have each (r : Region) (present : r ∈ regions) := region_blocks (bootable.nonzero r present)
    (bootable.unwrapped r present) (bootable.page r present)
  constructor
  · intro b present
    obtain ⟨r,inRegions,here⟩ := List.mem_flatMap.mp present
    exact ⟨r,inRegions,(each r inRegions).1 b here⟩
  · refine List.pairwise_flatMap.mpr ⟨fun r present => (each r present).2,?_⟩
    refine bootable.apart.imp_of_mem ?_
    intro r s inR inS apart b inB c inC x here there
    exact apart x (((each r inR).1 b inB).inside x here) (((each s inS).1 c inC).inside x there)

theorem bootable_partition (bootable : Bootable regions) (memory : Memory) :
    Partition (booted memory regions).state [] {x | ∃ b ∈ regions.flatMap Region.blocks, b.Contains x} := by
  obtain ⟨each,apart⟩ := bootable.blocks
  have none : regions.flatMap Region.blocks ++ [] ++ allBlocks ⟨fun _ => [],memory⟩ [] = regions.flatMap Region.blocks := by
    simp [allBlocks,freeBlocks]
  show Holding [] (addRegions ⟨fun _ => [],memory⟩ regions) [] _
  rw [addRegions_pushes]
  apply Holding.pushes
  refine ⟨?_,?_,?_,fun a present => absurd present List.not_mem_nil,fun _ _ => trivial⟩
  · rintro x ⟨b,present,first,last⟩
    obtain ⟨r,_,inner⟩ := each b present
    have bounded := inner.bounded
    omega
  · rw [none]
    refine ⟨fun b present => ?_,apart,fun x => Iff.rfl⟩
    obtain ⟨r,_,inner⟩ := each b present
    exact inner.aligned
  · rw [none]
    intro b present
    obtain ⟨r,_,inner⟩ := each b present
    exact inner.orders

end Boot

section Steps
variable {hand : List Block} {heap next : Heap} {state : State} {allocations : List Live} {cells : Set Nat} {b : Block}

-- The pointer that ALLOCATE makes of the block and the alignment.
def Anchored (memory : Memory) (a : Live) : Prop :=
  a.pointer = alignUp ((blockOf memory a).base + headerSize) a.alignment

-- What any step leaves of the memory.
structure Moved (heap next : Heap) : Prop where
  headers : ∀ a ∈ next.allocations, (a ∈ heap.allocations ∧ headerOf next.state.memory a = headerOf heap.state.memory a) ∨
    Anchored next.state.memory a
  bytes : ∀ x, 8 ≤ x % pageSize → x < 2^64 - pageSize → (∀ a ∈ heap.allocations, ¬ a.Occupies x) →
    (∀ a ∈ next.allocations, ¬ a.Occupies x) → next.state.memory x = heap.state.memory x

theorem Kept.moved (kept : Kept heap.state.memory next.state.memory heap.allocations) (same : next.allocations = heap.allocations) :
    Moved heap next := by
  refine ⟨fun a present => ?_,fun x behind low _ _ => kept.bytes x behind low⟩
  rw [same] at present
  exact .inl ⟨present,kept.headers a present⟩

theorem placeBlock_placed (placed : placeBlock state b size alignment = (success pointer,after)) :
    pointer = alignUp (add64 b.base headerSize) alignment ∧
      after.memory = writeHeader state.memory (headerFromPointer pointer) ⟨b.base,b.order,live,size,alignment⟩ := by
  simp only [placeBlock] at placed
  split at placed
  · cases placed
  · cases placed
    exact ⟨rfl,rfl⟩

-- The header written for the block in hand, in front of a pointer into it.
theorem Holding.placed_moved (holding : Holding (b :: hand) state allocations cells) (low : b.base + headerSize ≤ pointer)
    (high : pointer ≤ b.base + 2^b.order) (header : AllocationHeader) :
    (∀ a ∈ allocations, headerOf (writeHeader state.memory (headerFromPointer pointer) header) a = headerOf state.memory a) ∧
      ∀ x, ¬ (pointer - headerSize ≤ x ∧ x < pointer) →
        writeHeader state.memory (headerFromPointer pointer) header x = state.memory x := by
  have range := holding.range (b:=b) (by simp)
  have place : headerFromPointer pointer = pointer - headerSize := by
    simp only [pageSize] at range
    exact headerFromPointer_eq (by omega) (by omega)
  have bytes : ∀ x, ¬ (pointer - headerSize ≤ x ∧ x < pointer) →
      writeHeader state.memory (headerFromPointer pointer) header x = state.memory x := by
    intro x outside
    apply writeHeader_outside
    rw [place]
    omega
  refine ⟨fun a present => ?_,bytes⟩
  apply holding.header_eq present
  intro x inside
  apply bytes
  intro here
  have live : blockOf state.memory a ∈ hand ++ allBlocks state allocations := live_mem present
  exact (List.pairwise_cons.mp holding.tiling.apart).1 _ live x ⟨by omega,by omega⟩ inside

-- An ALLOCATE that gives nothing, and where it may have worked on the lists.
theorem allocated_nothing {size alignment : S64} (allocated : allocate heap.state size.val alignment.val = (result,after))
    (none : record result size.val.toNat alignment.val.toNat heap.allocations = heap.allocations)
    (holding : Holding hand after heap.allocations cells) (kept : Kept heap.state.memory after.memory heap.allocations) :
    (∃ hand, Holding hand (heap.allocated size alignment).state (heap.allocated size alignment).allocations cells) ∧
      Moved heap (heap.allocated size alignment) := by
  have state : (heap.allocated size alignment).state = after := congrArg Prod.snd allocated
  have allocations : (heap.allocated size alignment).allocations = heap.allocations := by
    show record (allocate heap.state size.val alignment.val).1 _ _ _ = _
    rw [allocated]
    exact none
  rw [state,allocations]
  refine ⟨⟨hand,holding⟩,Kept.moved ?_ allocations⟩
  rw [state]
  exact kept

theorem allocated_moved (holding : Holding hand heap.state heap.allocations cells) (size alignment : S64) :
    (∃ hand, Holding hand (heap.allocated size alignment).state (heap.allocated size alignment).allocations cells) ∧
      Moved heap (heap.allocated size alignment) := by
  rcases allocate_cases heap.state size alignment with ⟨_,same⟩ | ⟨_,same⟩ |
    ⟨n,k,request,⟨_,same⟩ | ⟨block,mid,taken,same⟩⟩
  · exact allocated_nothing same (record_failure (by decide)) holding (.refl _ _)
  · exact allocated_nothing same record_null holding (.refl _ _)
  · exact allocated_nothing same (record_failure (by decide)) holding (.refl _ _)
  · have small := (targetOrderFor_bounds (requiredSizeFor n (2^k))).1
    obtain ⟨_,held⟩ := holding.takeBlock small taken
    have kept := holding.takeBlock_kept small taken
    have range := held.range (b:=block) (by simp)
    by_cases fits : block.base + headerSize + 2^k ≤ 2^64
    · rcases held.placeBlock request.small request.positive request.bound fits with
        refused | ⟨pointer,final,placed,nonzero,_,mine,whole⟩
      · exact allocated_nothing (same.trans refused) (record_failure (by decide)) held.push (kept.trans held.push_kept)
      · obtain ⟨anchor,written⟩ := placeBlock_placed placed
        have new := whole.placed _ List.mem_cons_self
        have above := new.header
        have inside := new.payload
        rw [mine] at above inside
        obtain ⟨headers,bytes⟩ := held.placed_moved above (Nat.le_of_add_right_le inside) ⟨block.base,block.order,live,n,2^k⟩
        rw [← written] at headers bytes
        have state : (heap.allocated size alignment).state = final := congrArg Prod.snd (same.trans placed)
        have allocations : (heap.allocated size alignment).allocations = ⟨pointer,n,2^k⟩ :: heap.allocations := by
          show record (allocate heap.state size.val alignment.val).1 _ _ _ = _
          rw [same,placed,record_success nonzero,request.sizeExact,request.alignmentExact]
          rfl
        refine ⟨⟨hand,?_⟩,fun a present => ?_,fun x behind low _ vacant => ?_⟩
        · rw [state,allocations]
          exact whole
        · rw [state]
          rw [allocations] at present
          rcases List.mem_cons.mp present with rfl | old
          · right
            have sum : add64 block.base headerSize = block.base + headerSize :=
              add64_of_lt (by simp only [pageSize,headerSize] at range ⊢; omega)
            rw [Anchored,mine,anchor,sum]
          · exact .inl ⟨old,(headers a old).trans (kept.headers a old)⟩
        · rw [state]
          refine (bytes x fun here => ?_).trans (kept.bytes x behind low)
          have mine := vacant ⟨pointer,n,2^k⟩ (by rw [allocations]; exact List.mem_cons_self)
          exact mine ⟨here.1,Nat.lt_of_lt_of_le here.2 (Nat.le_add_right _ _)⟩
    · have wrapped := same.trans (placeBlock_wraps range request.small request.bound (Nat.lt_of_not_le fits))
      obtain ⟨lost,headers⟩ := held.write_last ⟨block.base,block.order,live,n,2^k⟩
      refine allocated_nothing wrapped record_null lost (kept.trans ⟨headers,fun x _ low => ?_⟩)
      apply writeHeader_outside
      simp only [pageSize,headerSize] at low ⊢
      omega

theorem freed_moved (holding : Holding hand heap.state heap.allocations cells) (present : a ∈ heap.allocations)
    (done : free heap.state a.pointer = some (result,after)) :
    Holding hand after (heap.allocations.erase a) cells ∧ Moved heap ⟨after,heap.allocations.erase a⟩ ∧
      ∀ x, 8 ≤ x % pageSize → x < 2^64 - pageSize →
        after.memory x = write heap.state.memory (headerFromPointer a.pointer + stateOffset) 1 freed x := by
  obtain ⟨mid,merged,last,exact,up,marked,held⟩ := holding.free present
  have placed := holding.placed a present
  have range := holding.range (live_mem present)
  have header := placed.header
  have payload := placed.payload
  have place : headerFromPointer a.pointer = a.pointer - headerSize := by
    simp only [pageSize] at range
    exact headerFromPointer_eq (by omega) (by omega)
  have whole := held.mergeUp.1
  have links := held.mergeUp_kept
  rw [up] at whole links
  have kept := links.trans whole.push_kept
  rw [exact] at done
  obtain ⟨_,rfl⟩ := Prod.mk.inj (Option.some.inj done)
  have bytes : ∀ x, 8 ≤ x % pageSize → x < 2^64 - pageSize →
      (pushFreeBlock last merged.base merged.order).memory x =
        write heap.state.memory (headerFromPointer a.pointer + stateOffset) 1 freed x := by
    intro x behind low
    rw [kept.bytes x behind low,marked]
  refine ⟨whole.push,⟨fun c other => .inl ⟨List.mem_of_mem_erase other,?_⟩,fun x behind low vacant _ => ?_⟩,bytes⟩
  · have released := holding.release present
    have untouched : headerOf mid.memory c = headerOf heap.state.memory c := by
      rw [marked]
      apply released.header_eq other
      intro x inside
      apply write_outside
      have away : ¬ (blockOf heap.state.memory a).Contains x := by
        intro mine
        have live : blockOf heap.state.memory c ∈ hand ++ allBlocks heap.state (heap.allocations.erase a) := live_mem other
        exact (List.pairwise_cons.mp released.tiling.apart).1 _ live x mine inside
      simp only [Block.Contains] at away
      rw [place]
      simp only [headerSize,stateOffset] at header ⊢
      omega
    exact (kept.headers c other).trans untouched
  · rw [bytes x behind low]
    apply write_outside
    have away := vacant a present
    unfold Live.Occupies at away
    rw [place]
    simp only [headerSize,stateOffset] at header away ⊢
    omega

theorem stored_moved (holding : Holding hand heap.state heap.allocations cells) (present : a ∈ heap.allocations)
    (after : Memory) (outside : ∀ x, ¬ (a.pointer ≤ x ∧ x < a.pointer + a.size) → after x = heap.state.memory x) :
    Moved heap ⟨{heap.state with memory := after},heap.allocations⟩ := by
  refine ⟨fun c other => .inl ⟨other,?_⟩,fun x _ _ vacant _ => outside x fun mine => ?_⟩
  · exact holding.touch_headers present after outside c other
  · exact vacant a present ⟨Nat.le_trans (Nat.sub_le _ _) mine.1,mine.2⟩

-- A step keeps the blocks, up to those that a wrapped pointer loses.
theorem step_moved (holding : Holding hand heap.state heap.allocations cells) (step : Step heap call next) :
    (∃ hand, Holding hand next.state next.allocations cells) ∧ Moved heap next := by
  cases step with
  | allocated => exact allocated_moved holding _ _
  | freed present pointer done =>
      subst pointer
      obtain ⟨whole,moved,_⟩ := freed_moved holding present done
      exact ⟨⟨hand,whole⟩,moved⟩
  | stored present low high =>
      refine ⟨⟨hand,holding.touch present _ ?_⟩,stored_moved holding present _ ?_⟩
      all_goals
        intro x outside
        exact write_outside (by omega)

end Steps

section Runs
variable {heap next last : Heap}

-- The heap in a run: its blocks, and each live pointer where ALLOCATE puts it.
structure Sound (heap : Heap) : Prop where
  holding : ∃ hand cells, Holding hand heap.state heap.allocations cells
  anchored : ∀ a ∈ heap.allocations, Anchored heap.state.memory a

theorem Sound.step (sound : Sound heap) (step : Step heap call next) : Sound next := by
  obtain ⟨hand,cells,holding⟩ := sound.holding
  obtain ⟨⟨hand,kept⟩,moved⟩ := step_moved holding step
  refine ⟨⟨hand,cells,kept⟩,fun a present => ?_⟩
  rcases moved.headers a present with ⟨old,same⟩ | new
  · have anchored := sound.anchored a old
    rw [Anchored,blockOf] at anchored ⊢
    rw [same]
    exact anchored
  · exact new

theorem run_sound (bootable : Bootable regions) (memory : Memory)
    (run : Run Step (fun _ _ => True) (booted memory regions) calls heap) : Sound heap :=
  run.keeps Sound (fun _ _ _ sound _ step => sound.step step)
    ⟨⟨_,_,bootable_partition bootable memory⟩,fun _ present => absurd present List.not_mem_nil⟩

-- Pages are aligned to a header, so every pointer is.
theorem Sound.pointer_aligned (sound : Sound heap) (present : a ∈ heap.allocations) : headerSize ∣ a.pointer := by
  obtain ⟨hand,cells,holding⟩ := sound.holding
  have placed := holding.placed a present
  have range := holding.range (live_mem present)
  have page : 32 ∣ (blockOf heap.state.memory a).base + 32 :=
    Nat.dvd_add (Nat.dvd_trans (by decide) (holding.page_base (live_mem present))) (Nat.dvd_refl _)
  obtain ⟨k,small,power⟩ := placed.power
  by_cases wide : 5 ≤ k
  · have unit : headerSize ∣ 2^k := Nat.pow_dvd_pow 2 wide
    have aligned := placed.aligned
    rw [power] at aligned
    exact Nat.dvd_trans unit aligned
  · have narrow : (2:Nat)^k ≤ 2^5 := Nat.pow_le_pow_right (by decide) (by omega)
    have positive : 0 < 2^(blockOf heap.state.memory a).order := Nat.two_pow_pos _
    simp only [pageSize] at range
    have fits : (blockOf heap.state.memory a).base + 32 + 2^k ≤ 2^64 := by omega
    have least := alignUp_least _ k _ (by omega) fits (Nat.le_refl _)
      (Nat.dvd_trans (Nat.pow_dvd_pow 2 (by omega : k ≤ 5)) page)
    obtain ⟨above,_,_⟩ := alignUp_bounds _ k (by omega) fits
    have anchored := sound.anchored a present
    rw [Anchored,power] at anchored
    rw [anchored]
    have same : alignUp ((blockOf heap.state.memory a).base + headerSize) (2^k) =
        (blockOf heap.state.memory a).base + headerSize := Nat.le_antisymm least above
    rw [same]
    exact page

theorem Sound.live_facts (sound : Sound heap) (present : a ∈ heap.allocations) :
    info heap.state a.pointer = .ok ((a.size : Int),(a.alignment : Int)) ∧
      isThisYours heap.state a.pointer = success a.pointer := by
  obtain ⟨hand,cells,holding⟩ := sound.holding
  have placed := holding.placed a present
  have range := holding.range (live_mem present)
  have orders := holding.orders _ (live_mem present)
  have header := placed.header
  have payload := placed.payload
  have isLive := placed.state
  have size := placed.size
  have alignment := placed.alignment
  have anchored := sound.anchored a present
  obtain ⟨positive,bound⟩ := placed.positive
  obtain ⟨k,small,power⟩ := placed.power
  have nonzero : a.pointer ≠ 0 := by simp only [headerSize] at header; omega
  rw [headerOf] at isLive size alignment
  constructor
  · have below : (2:Nat)^k < 2^63 := Nat.pow_lt_pow_right (by decide) small
    simp only [info,if_neg nonzero,isLive,ne_eq,not_true_eq_false,if_false,size,alignment]
    rw [toS64_of_range (by omega) (by omega),toS64_of_range (by omega) (by omega)]
  · have unit : 0 < 2^(blockOf heap.state.memory a).order := Nat.two_pow_pos _
    have isPower : isPowerOfTwo (a.alignment : Int) = true := isPowerOfTwo_exact.mpr ⟨k,by rw [power]⟩
    have first : add64 (blockOf heap.state.memory a).base headerSize = (blockOf heap.state.memory a).base + headerSize :=
      add64_of_lt (by simp only [pageSize,headerSize] at range ⊢; omega)
    have limit : add64 a.pointer a.size = a.pointer + a.size :=
      add64_of_lt (by simp only [pageSize] at range; omega)
    have last : add64 (blockOf heap.state.memory a).base (blockSizeForOrder (blockOf heap.state.memory a).order) =
        (blockOf heap.state.memory a).base + 2^(blockOf heap.state.memory a).order :=
      add64_of_lt (by simp only [pageSize,blockSizeForOrder] at range ⊢; omega)
    rw [Anchored,← first] at anchored
    simp only [blockOf,headerOf] at first last payload orders anchored
    have regular : ¬ ((readHeader heap.state.memory (headerFromPointer a.pointer)).order < minOrder ∨
        maxOrder < (readHeader heap.state.memory (headerFromPointer a.pointer)).order ∨
        isPowerOfTwo (a.alignment : Int) = false) := by
      rw [isPower]
      rintro (less | more | odd)
      · omega
      · omega
      · cases odd
    have exact : ¬ (a.pointer ≠ a.pointer ∨ a.pointer + a.size < a.pointer ∨
        (readHeader heap.state.memory (headerFromPointer a.pointer)).blockBase +
          2^(readHeader heap.state.memory (headerFromPointer a.pointer)).order < a.pointer + a.size) := by
      omega
    simp only [isThisYours,if_neg nonzero,isLive,ne_eq,not_true_eq_false,if_false,size,alignment]
    rw [if_neg regular,← anchored,limit,last,if_neg exact]

-- The byte that says freed, where no link is written.
structure Stale (pointer : Nat) (heap : Heap) : Prop where
  aligned : headerSize ∣ pointer
  low : headerSize ≤ pointer
  high : pointer < 2^64 - pageSize
  state : heap.state.memory (pointer - headerSize + stateOffset) = 0x5A

theorem Stale.step (stale : Stale pointer heap) (sound : Sound heap) (vacant : Vacant pointer heap)
    (step : Step heap call next) (vacant' : Vacant pointer next) : Stale pointer next := by
  obtain ⟨hand,cells,holding⟩ := sound.holding
  obtain ⟨_,moved⟩ := step_moved holding step
  obtain ⟨q,multiple⟩ := stale.aligned
  have low := stale.low
  have high := stale.high
  simp only [headerSize,pageSize] at multiple low high
  refine ⟨stale.aligned,stale.low,stale.high,(moved.bytes _ ?_ ?_ ?_ ?_).trans stale.state⟩
  · simp only [headerSize,stateOffset,pageSize]
    omega
  · simp only [headerSize,stateOffset,pageSize]
    omega
  · exact fun a present => vacant a present _ (Nat.le_add_right _ _) (by simp only [headerSize,stateOffset]; omega)
  · exact fun a present => vacant' a present _ (Nat.le_add_right _ _) (by simp only [headerSize,stateOffset]; omega)

theorem Stale.facts (stale : Stale pointer heap) : free heap.state pointer = none ∧
    info heap.state pointer = .error .invalidPointer ∧ isThisYours heap.state pointer = success 0 := by
  have low := stale.low
  have high := stale.high
  have nonzero : pointer ≠ 0 := by simp only [headerSize] at low; omega
  have place : headerFromPointer pointer = pointer - headerSize :=
    headerFromPointer_eq low (by simp only [pageSize] at high; omega)
  have state : (readHeader heap.state.memory (headerFromPointer pointer)).state ≠ live := by
    have byte := stale.state
    rw [← place] at byte
    simp only [readHeader,ByteMemory.read,byte,live]
    decide
  refine ⟨?_,?_,?_⟩
  · simp only [free,if_neg nonzero,if_pos state]
  · simp only [info,if_neg nonzero,if_pos state]
  · simp only [isThisYours,if_neg nonzero,if_pos state]

-- FREE leaves its mark, whatever the merges and the push write.
theorem freed_stale (sound : Sound heap) (present : a ∈ heap.allocations)
    (done : free heap.state a.pointer = some (result,after)) : Stale a.pointer ⟨after,heap.allocations.erase a⟩ := by
  obtain ⟨hand,cells,holding⟩ := sound.holding
  obtain ⟨_,_,bytes⟩ := freed_moved holding present done
  have placed := holding.placed a present
  have range := holding.range (live_mem present)
  have header := placed.header
  have payload := placed.payload
  have positive := placed.positive.1
  obtain ⟨q,multiple⟩ := sound.pointer_aligned present
  have low : headerSize ≤ a.pointer := Nat.le_of_add_left_le header
  have place : headerFromPointer a.pointer = a.pointer - headerSize := by
    simp only [pageSize] at range
    exact headerFromPointer_eq low (by omega)
  refine ⟨sound.pointer_aligned present,low,by omega,?_⟩
  simp only [headerSize] at multiple
  rw [bytes _ (by simp only [headerSize,stateOffset,pageSize]; omega) (by simp only [headerSize,stateOffset]; omega),place]
  rw [write,if_pos ⟨Nat.le_refl _,Nat.lt_succ_self _⟩,Nat.sub_self]
  rfl

theorem run_stale (run : Run Step (fun heap _ => Vacant pointer heap) heap calls last) (sound : Sound heap)
    (stale : Stale pointer heap) (vacant : Vacant pointer last) : Stale pointer last := by
  induction run with
  | nil => exact stale
  | cons here moved later ih =>
      exact ih (sound.step moved) (stale.step sound here moved (later.begins vacant)) vacant

end Runs

-- Live pointers are told what they asked for; a freed one is refused for as long as no
-- allocation occupies its header, whatever is split, merged or linked in between.
theorem stale_pointers_detected (regions : List Region) (bootable : Bootable regions) (memory : Memory) (calls : List Call) (heap : Heap)
    (run : Run Step (fun _ _ => True) (booted memory regions) calls heap) :
    (∀ a ∈ heap.allocations, info heap.state a.pointer = .ok ((a.size : Int),(a.alignment : Int)) ∧
      isThisYours heap.state a.pointer = success a.pointer) ∧
    ∀ a ∈ heap.allocations, ∀ result state, free heap.state a.pointer = some (result,state) → ∀ later last,
      Run Step (fun heap _ => Vacant a.pointer heap) ⟨state,heap.allocations.erase a⟩ later last → Vacant a.pointer last →
        free last.state a.pointer = none ∧ info last.state a.pointer = .error .invalidPointer ∧
          isThisYours last.state a.pointer = success 0 := by
  have sound := run_sound bootable memory run
  refine ⟨fun a present => sound.live_facts present,fun a present result state done later last after vacant => ?_⟩
  have step : Step heap (.free a.pointer) ⟨state,heap.allocations.erase a⟩ := .freed present rfl done
  exact (run_stale after (sound.step step) (freed_stale sound present done) vacant).facts

theorem lowRegion_bootable : Bootable [lowRegion] where
  apart := List.pairwise_singleton _ _
  nonzero := by simp [lowRegion,Region.Contains]
  unwrapped := by simp [lowRegion]
  page := by simp [lowRegion,pageSize]

-- 100 bytes, freed at once: a second FREE is caught.
theorem stale_pointers_detected_low :
    let heap := lowHeap.allocated ⟨100,by decide⟩ ⟨64,by decide⟩
    info heap.state (2^20+64) = .ok (100,64) ∧ isThisYours heap.state (2^20+64) = success (2^20+64) ∧
      ∃ result state, free heap.state (2^20+64) = some (result,state) ∧ free state (2^20+64) = none := by
  intro heap
  have live : heap.allocations = [⟨2^20+64,100,64⟩] := lowHeap_values.2.2.2.2.1
  have present : (⟨2^20+64,100,64⟩ : Live) ∈ heap.allocations := by rw [live]; exact List.mem_cons_self
  have run : Run Step (fun _ _ => True) (booted (fun _ => 0) [lowRegion]) [.allocate ⟨100,by decide⟩ ⟨64,by decide⟩] heap :=
    .single trivial .allocated
  obtain ⟨facts,refused⟩ := stale_pointers_detected [lowRegion] lowRegion_bootable (fun _ => 0) _ heap run
  obtain ⟨hand,cells,holding⟩ := (run_sound lowRegion_bootable (fun _ => 0) run).holding
  obtain ⟨_,_,_,exact,_⟩ := holding.free present
  refine ⟨(facts _ present).1,(facts _ present).2,_,_,exact,?_⟩
  refine (refused _ present _ _ exact [] _ .nil fun a here => ?_).1
  rw [live] at here
  simp at here

end BuddyAllocator
