import Gameos.BootReservation
import Gameos.BuddyResize

-- gameos/memory.hh: from the boot information to whatever the heap does later.
namespace BuddyAllocator
open MachineWords ByteMemory AllocatorTypes DyadicBlocks TransitionRuns

section Confined
variable {heap next : Heap} {lost blocks : List Block} {cells : Set Nat} {state after : State} {a : Live} {result : AllocatorResult}

theorem pushes_outside (orders : ∀ b ∈ blocks,minOrder ≤ b.order) (away : ∀ b ∈ blocks,¬ b.Contains x) :
    (blocks.foldl push state).memory x = state.memory x := by
  induction blocks generalizing state with
  | nil => rfl
  | cons b rest ih =>
      have pages := page_le_block (orders b List.mem_cons_self)
      have out := away b List.mem_cons_self
      rw [List.foldl_cons,ih (fun c later => orders c (List.mem_cons_of_mem _ later)) fun c later => away c (List.mem_cons_of_mem _ later)]
      refine write_outside ?_
      simp only [Block.Contains,pageSize] at out pages
      omega

theorem Booked.own_confined (booked : Booked heap lost cells) (present : a ∈ heap.allocations) {memory : Memory}
    (outside : ∀ x,¬ (blockOf heap.state.memory a).Contains x → memory x = heap.state.memory x) :
    Confined cells heap.state.memory memory :=
  (booked.unseat present).own_confined outside

theorem allocate_confined (booked : Booked heap lost cells) (size alignment : S64) :
    Confined cells heap.state.memory (heap.allocated size alignment).state.memory := by
  unfold Heap.allocated
  rcases allocate_cases heap.state size alignment with ⟨_,same⟩ | ⟨_,same⟩ | ⟨n,k,request,⟨_,same⟩ | ⟨b,mid,taken,same⟩⟩
  · rw [same]
    exact .refl _ _
  · rw [same]
    exact .refl _ _
  · rw [same]
    exact .refl _ _
  · obtain ⟨order,held⟩ := booked.holding.takeBlock (targetOrderFor_bounds _).1 taken
    have confined := booked.holding.takeBlock_confined (targetOrderFor_bounds _).1 taken
    have range := held.range (b:=b) (by simp)
    have orders := held.orders b (by simp)
    rw [requiredSizeFor_small request.bound request.small] at order
    rw [same]
    have places := placeBlock_places held request.small request.positive request.bound order
    generalize placeBlock mid b n (2^k) = outcome at places ⊢
    cases places with
    | refused => exact confined.trans held.push_confined
    | wrapped header =>
        refine confined.trans fun x _ low => ?_
        exact writeHeader_outside (.inl low)
    | placed inside =>
        obtain ⟨_,outside⟩ := @header_written mid.memory _ _ _ _ live (by decide) range orders.2 request.small request.bound
          (Nat.add_le_add_left (Nat.le_max_left headerSize (2^k)) b.base) inside
        refine confined.trans (held.own_confined fun x out => outside x ?_)
        simp only [Block.Contains] at out
        omega

theorem free_confined (booked : Booked heap lost cells) (present : a ∈ heap.allocations)
    (done : free heap.state a.pointer = some (result,after)) : Confined cells heap.state.memory after.memory := by
  have held := booked.unseat present
  have range := booked.range present
  obtain ⟨place,above⟩ := (booked.seated a present).header range
  have payload := (booked.seated a present).payload
  have away : ∀ x,¬ (blockOf heap.state.memory a).Contains x →
      write heap.state.memory (headerFromPointer a.pointer + stateOffset) 1 freed x = heap.state.memory x := fun x out => by
    apply write_outside
    rw [place]
    simp only [Block.Contains,headerSize,stateOffset] at out above ⊢
    omega
  have marked := held.overwrite (b:=blockOf heap.state.memory a) (by simp) _ away
  rw [free_marks (booked.nonzero present) done]
  exact (held.own_confined away).trans (marked.mergeUp_confined.trans marked.mergeUp.1.push_confined)

theorem store_confined (booked : Booked heap lost cells) (present : a ∈ heap.allocations) (low : a.pointer ≤ address)
    (high : address < a.pointer + a.size) (byte : UInt8) :
    Confined cells heap.state.memory (write heap.state.memory address 1 byte.toNat) := by
  obtain ⟨_,above⟩ := (booked.seated a present).header (booked.range present)
  have payload := (booked.seated a present).payload
  refine booked.own_confined present fun x out => write_outside ?_
  simp only [Block.Contains] at out
  omega

theorem resize_confined (booked : Booked heap lost cells) (present : a ∈ heap.allocations) (size alignment : S64) :
    Confined cells heap.state.memory (heap.resized a size alignment).state.memory := by
  have range := booked.range present
  have seated := booked.seated a present
  obtain ⟨place,above⟩ := seated.header range
  have payload := seated.payload
  have resizes := resize_resizes booked present size alignment
  unfold Heap.resized
  generalize resize heap.state size.val alignment.val a.size a.pointer = outcome at resizes ⊢
  cases resizes with
  | refused => exact .refl _ _
  | nothing => exact .refl _ _
  | inPlace request same room =>
      refine booked.own_confined present fun x out => write_outside ?_
      rw [place]
      simp only [Block.Contains,headerSize] at out above ⊢
      omega
  | stranded request grown _ => exact grown.confined
  | moved request grown room =>
      obtain ⟨_,away,_⟩ := grown.moves booked present request room
      exact grown.confined.trans (grown.holding.own_confined away)

-- Whatever is called and whatever owners write, the rest of the memory stays as it is.
theorem operate_confined {operation : Operation} (booked : Booked heap lost cells) (step : Operates heap operation next) :
    Confined cells heap.state.memory next.state.memory := by
  cases step with
  | called step =>
      cases step with
      | allocated => exact allocate_confined booked _ _
      | freed present pointer done =>
          subst pointer
          exact free_confined booked present done
      | stored present low high => exact store_confined booked present low high _
  | resized present => exact resize_confined booked present _ _

theorem run_confined {start : Heap} (booked : Booked start lost cells)
    (run : Run Operates (fun _ _ => True) start operations heap) :
    (∃ lost,Booked heap lost cells) ∧ Confined cells start.state.memory heap.state.memory := by
  refine run.keeps (fun heap => (∃ lost,Booked heap lost cells) ∧ Confined cells start.state.memory heap.state.memory) ?_
    ⟨⟨lost,booked⟩,.refl _ _⟩
  rintro s operation t ⟨⟨lost,booked⟩,confined⟩ _ step
  exact ⟨(operate_booked booked step).1,confined.trans (operate_confined booked step)⟩

-- A live allocation and the header in front of it are in its block.
theorem Booked.occupied (booked : Booked heap lost cells) (present : a ∈ heap.allocations) (here : a.Occupies x) :
    (blockOf heap.state.memory a).Contains x := by
  have seated := booked.seated a present
  have anchored := seated.anchored
  have payload := seated.payload
  obtain ⟨low,high⟩ := here
  have most := Nat.le_max_left headerSize a.alignment
  exact ⟨by omega,by omega⟩

theorem Booked.apart (booked : Booked heap lost cells) :
    heap.allocations.Pairwise fun a b => ∀ x,a.Occupies x → ¬ b.Occupies x := by
  have blocks := (List.pairwise_append.mp (List.pairwise_append.mp booked.holding.tiling.apart).1).1
  rw [List.pairwise_map] at blocks
  exact blocks.imp_of_mem fun one two apart x here there => apart x (booked.occupied one here) (booked.occupied two there)

end Confined

end BuddyAllocator

namespace BootInformation
open MachineWords ByteMemory AddressWalks AllocatorTypes DyadicBlocks RegionCovers BuddyAllocator TransitionRuns

-- Usable memory that nothing from boot is in.
def Available (m : Memory) (mbi kernelStart kernelEnd : Nat) (usable : List MemoryRegion) (x : Nat) : Prop :=
  x ∈ covered MemoryRegion.cells usable ∧ ∀ range,Occupied m mbi kernelStart kernelEnd range → ¬ (range.1 ≤ x ∧ x < range.2)

structure BootDataKept (m : Memory) (mbi kernelStart kernelEnd : Nat) (usable : List MemoryRegion) (heap : Heap) : Prop where
  available : ∀ a ∈ heap.allocations,∀ x,a.Occupies x → Available m mbi kernelStart kernelEnd usable x
  apart : heap.allocations.Pairwise fun a b => ∀ x,a.Occupies x → ¬ b.Occupies x
  occupied : ∀ range,Occupied m mbi kernelStart kernelEnd range → ∀ x,range.1 ≤ x → x < range.2 → heap.state.memory x = m x
  elsewhere : ∀ x,¬ Available m mbi kernelStart kernelEnd usable x → x < 2^64 - headerSize → heap.state.memory x = m x

section Heap
variable {m : Memory} {turns mbi kernelStart kernelEnd : Nat} {lists : Nat → List Nat} {usable regions : List MemoryRegion}
  {buddy : State}

def regionOf (region : MemoryRegion) : Region := ⟨region.base,region.size⟩

theorem remains_bootable {ranges : List (Nat × Nat)} (remains : Remains usable (taken ranges) regions)
    (same : ∀ range,range ∈ ranges ↔ Occupied m mbi kernelStart kernelEnd range)
    (low : ∀ region ∈ usable,region.base + 4096 ≤ 2^64) : Bootable (regions.map regionOf) := by
  constructor
  · rw [List.pairwise_map]
    exact remains.separate.apart.imp fun apart x here there => Set.disjoint_left.mp apart here there
  · intro r member zero
    obtain ⟨region,inside,rfl⟩ := List.mem_map.mp member
    have left : 0 ∈ covered MemoryRegion.cells regions := ⟨region,inside,zero⟩
    rw [remains.exact] at left
    exact left.2 ⟨_,(same _).mpr .low,by decide,by decide,by decide⟩
  · intro r member
    obtain ⟨region,inside,rfl⟩ := List.mem_map.mp member
    exact remains.separate.unwrapped region inside
  · intro r member
    obtain ⟨region,inside,rfl⟩ := List.mem_map.mp member
    exact remains.pages low region inside

theorem booted_regions (m : Memory) (lists : Nat → List Nat) (regions : List MemoryRegion) :
    (⟨feedBuddy ⟨lists,m⟩ regions,[]⟩ : Heap) = booted m (regions.map regionOf) := by
  unfold feedBuddy booted addRegions
  rw [List.foldl_map]
  rfl

theorem sound_available {b : Block} (sound : Sound m mbi kernelStart kernelEnd usable b) (here : b.Contains x) :
    Available m mbi kernelStart kernelEnd usable x := by
  obtain ⟨region,member,inside⟩ := sound.inside
  exact ⟨⟨region,member,inside x here⟩,fun range occupied => sound.apart range occupied x here⟩

theorem booted_kept (bootable : Bootable (regions.map regionOf))
    (sound : ∀ b ∈ handed regions,Sound m mbi kernelStart kernelEnd usable b)
    (fits : ∀ range,Occupied m mbi kernelStart kernelEnd range → Fits range)
    (run : Run Operates (fun _ _ => True) (booted m (regions.map regionOf)) operations heap) :
    BootDataKept m mbi kernelStart kernelEnd usable heap := by
  have blocks : (regions.map regionOf).flatMap Region.blocks = handed regions := List.flatMap_map _ _ _
  obtain ⟨inner,_⟩ := bootable.blocks
  have booked : Booked (booted m (regions.map regionOf)) [] _ :=
    ⟨bootable_partition bootable m,fun _ present => absurd present List.not_mem_nil⟩
  obtain ⟨⟨lost,books⟩,confined⟩ := run_confined booked run
  rw [blocks] at inner books confined
  have free : ∀ x,¬ Available m mbi kernelStart kernelEnd usable x → ∀ b ∈ handed regions,¬ b.Contains x :=
    fun x away b present here => away (sound_available (sound b present) here)
  have elsewhere : ∀ x,¬ Available m mbi kernelStart kernelEnd usable x → x < 2^64 - headerSize → heap.state.memory x = m x := by
    intro x away low
    rw [confined x (fun ⟨b,present,here⟩ => free x away b present here) low]
    show (addRegions ⟨fun _ => [],m⟩ (regions.map regionOf)).memory x = m x
    rw [addRegions_pushes,blocks]
    refine pushes_outside (fun b present => ?_) (free x away)
    obtain ⟨_,_,inside⟩ := inner b present
    exact inside.orders.1
  refine ⟨fun a present x here => ?_,books.apart,fun range occupied x above below => ?_,elsewhere⟩
  · have whole := books.occupied present here
    obtain ⟨b,member,inside⟩ := books.holding.cell
      (List.mem_append_left _ (List.mem_append_left _ (List.mem_map_of_mem present))) whole
    exact sound_available (sound b member) inside
  · have fit := fits range occupied
    unfold Fits at fit
    exact elsewhere x (fun here => here.2 range occupied ⟨above,below⟩) (by simp only [headerSize]; omega)

end Heap

-- A block at 4096 that reports the memory from 2 MiB to 4 MiB.
def twoMegabytesBlock : Memory := fun x =>
  if 4096 ≤ x then
    ([56,0,0,0,0,0,0,0,6,0,0,0,40,0,0,0,24,0,0,0,0,0,0,0,0,0,32,0,0,0,0,0,0,0,32,0,0,0,0,0,1,0,0,0,0,0,0,0,
      0,0,0,0,8] : List UInt8).getD (x - 4096) 0
  else 0

def twoMegabytes : MemoryRegion := ⟨0x200000,0x200000⟩

theorem twoMegabytes_visits : Visits (moreTags twoMegabytesBlock 4096) (nextTag twoMegabytesBlock) (firstTag 4096) [4104,4144] :=
  .visit (by decide) (.visit (by decide) (.stop (by decide)))

theorem twoMegabytes_fits (occupied : Occupied twoMegabytesBlock 4096 0x100000 0x200000 range) : Fits range := by
  have plain : ∀ tag ∈ [4104,4144],typeOf twoMegabytesBlock tag ≠ moduleType ∧ textsOf twoMegabytesBlock tag = [] := by decide
  cases occupied with
  | low => decide
  | block => decide
  | kernel => decide
  | module visits here loaded =>
      rw [visits.unique twoMegabytes_visits] at here
      exact absurd loaded (plain _ here).1
  | text visits here listed ended =>
      rw [visits.unique twoMegabytes_visits] at here
      rw [(plain _ here).2] at listed
      cases listed

theorem twoMegabytes_reserved :
    (reserveMultiboot2Data twoMegabytesBlock 8 4096 0x100000 0x200000 [twoMegabytes]).result = .ok [twoMegabytes] := by
  decide +kernel

end BootInformation
