import Gameos.BuddySpares
import Gameos.BuddyStaleness

-- RESIZE of the buddy allocator, in runs of all of its modes.
namespace BuddyAllocator
open MachineWords ByteMemory AllocatorTypes DyadicBlocks TransitionRuns

inductive Operation where
  | call (call : Call)
  | resize (pointer : Nat) (size alignment : S64)

-- The pointer that a call gives back or moves.
def Operation.pointer : Operation → Option Nat
  | .call (.free pointer) => some pointer
  | .call _ => none
  | .resize pointer _ _ => some pointer

-- An owner passes the size it knows.
def Heap.resized (heap : Heap) (a : Live) (size alignment : S64) : Heap where
  state := (resize heap.state size.val alignment.val a.size a.pointer).2
  allocations :=
    let result := (resize heap.state size.val alignment.val a.size a.pointer).1
    if result.error = .none ∧ result.memory ≠ 0 then
      ⟨result.memory,size.val.toNat,alignment.val.toNat⟩ :: heap.allocations.erase a
    else heap.allocations

inductive Operates : Heap → Operation → Heap → Prop where
  | called : Step heap call next → Operates heap (.call call) next
  | resized : a ∈ heap.allocations → Operates heap (.resize a.pointer size alignment) (heap.resized a size alignment)

-- What every live allocation keeps, also one whose header says that it is freed.
structure Seated (memory : Memory) (a : Live) : Prop where
  size : (headerOf memory a).requestedSize = a.size
  alignment : (headerOf memory a).requestedAlignment = a.alignment
  power : ∃ k < 63, a.alignment = 2^k
  positive : 0 < a.size ∧ a.size < 2^63
  anchored : a.pointer = (blockOf memory a).base + max headerSize a.alignment
  payload : a.pointer + a.size ≤ (blockOf memory a).base + 2^(blockOf memory a).order

-- Every live allocation has its block, and some blocks are lost.
structure Booked (heap : Heap) (lost : List Block) (cells : Set Nat) : Prop where
  holding : Holding (heap.allocations.map (blockOf heap.state.memory) ++ lost) heap.state [] cells
  seated : ∀ a ∈ heap.allocations, Seated heap.state.memory a

section Numbers

theorem nextBlockLoop_pow (requiredSize : Nat) (low : j ≤ 63) : ∃ i, j ≤ i ∧ i ≤ 63 ∧ nextBlockLoop requiredSize (2^j) = 2^i ∧
    (requiredSize ≤ 2^i ∨ i = 63) := by
  obtain ⟨gap,split⟩ := Nat.exists_eq_add_of_le low
  induction gap generalizing j with
  | zero =>
      have top : j = 63 := by omega
      subst top
      rw [nextBlockLoop,if_neg (fun more => Nat.lt_irrefl _ more.2.2)]
      exact ⟨63,Nat.le_refl _,Nat.le_refl _,rfl,.inr rfl⟩
  | succ gap ih =>
      rw [nextBlockLoop]
      have below : (2:Nat)^j < 2^63 := Nat.pow_lt_pow_right (by decide) (by omega)
      by_cases small : 2^j < requiredSize
      · rw [if_pos ⟨Nat.two_pow_pos j,small,below⟩,← Nat.pow_succ]
        obtain ⟨i,above,rest⟩ := @ih (j+1) (by omega) (by omega)
        exact ⟨i,Nat.le_of_succ_le above,rest⟩
      · rw [if_neg fun more => small more.2.1]
        exact ⟨j,Nat.le_refl _,low,rfl,.inl (Nat.le_of_not_lt small)⟩

-- No order beyond 31 is ever asked for, and order 31 also where it does not suffice.
theorem targetOrderFor_cases (requiredSize : Nat) :
    (targetOrderFor requiredSize = 31 ∨ (targetOrderFor requiredSize < 31 ∧ requiredSize ≤ 2^targetOrderFor requiredSize)) ∧
      (2^31 < requiredSize → targetOrderFor requiredSize = 31) := by
  obtain ⟨i,page,low,next,enough⟩ := @nextBlockLoop_pow 12 requiredSize (by decide)
  have order : targetOrderFor requiredSize = min i 31 := by
    unfold targetOrderFor nextBlockSize
    have start : pageSize = 2^12 := by decide
    rw [start,next]
    exact orderForBlockSize_pow (by omega) page
  rw [order]
  by_cases narrow : i < 31
  · have same : min i 31 = i := by omega
    have half : (2:Nat)^i < 2^31 := Nat.pow_lt_pow_right (by decide) narrow
    rw [same]
    omega
  · have same : min i 31 = 31 := by omega
    rw [same]
    exact ⟨.inl rfl,fun _ => rfl⟩

-- The pointer in a block that is larger than its alignment.
theorem user_address {b : Block} (range : pageSize ≤ b.base ∧ b.base + 2^b.order ≤ 2^64 - pageSize) (aligned : b.Aligned)
    (page : minOrder ≤ b.order) (narrow : k ≤ b.order) (small : k < 63) :
    alignUp (add64 b.base headerSize) (2^k) = b.base + max headerSize (2^k) := by
  have pages := page_le_block page
  have fewer : (2:Nat)^k ≤ 2^b.order := Nat.pow_le_pow_right (by decide) narrow
  simp only [pageSize,headerSize] at range pages ⊢
  have sum : add64 b.base 32 = b.base + 32 := add64_of_lt (by omega)
  rw [sum]
  have fits : b.base + 32 + 2^k ≤ 2^64 := by
    rcases Nat.lt_or_ge k b.order with less | same
    · have half : (2:Nat)^k * 2 ≤ 2^b.order := by
        rw [← Nat.pow_succ]
        exact Nat.pow_le_pow_right (by decide) less
      omega
    · omega
  have multiple : 2^k ∣ b.base := Nat.dvd_trans (Nat.pow_dvd_pow 2 narrow) aligned
  obtain ⟨above,_,whole⟩ := alignUp_bounds (b.base + 32) k (by omega) fits
  by_cases wide : 5 ≤ k
  · have unit : (2:Nat)^5 ≤ 2^k := Nat.pow_le_pow_right (by decide) wide
    have least := alignUp_least (b.base + 32) k (b.base + 2^k) (by omega) fits (by omega) (Nat.dvd_add multiple (Nat.dvd_refl _))
    have gap : 2^k ≤ alignUp (b.base + 32) (2^k) - b.base := Nat.le_of_dvd (by omega) (Nat.dvd_sub whole multiple)
    omega
  · have unit : (2:Nat)^k ≤ 32 := Nat.pow_le_pow_right (by decide) (by omega : k ≤ 5)
    have divides : 2^k ∣ 32 := Nat.pow_dvd_pow 2 (by omega : k ≤ 5)
    have least := alignUp_least (b.base + 32) k (b.base + 32) (by omega) fits (Nat.le_refl _) (Nat.dvd_add multiple divides)
    omega

-- A multiple strictly inside a block is of something smaller than the block.
theorem narrow_of_inside {b : Block} (aligned : b.Aligned) (above : b.base < x) (below : x < b.base + 2^b.order) (multiple : 2^k ∣ x) :
    k < b.order := by
  by_contra wide
  have whole := Nat.dvd_sub (Nat.dvd_trans (Nat.pow_dvd_pow 2 (Nat.le_of_not_lt wide)) multiple) aligned
  have large := Nat.le_of_dvd (by omega) whole
  omega

end Numbers

section Books
variable {heap : Heap} {lost hand : List Block} {cells : Set Nat} {state after : State} {allocations others : List Live} {a : Live} {b : Block}

theorem Seated.header (seated : Seated memory a) (range : pageSize ≤ (blockOf memory a).base ∧
    (blockOf memory a).base + 2^(blockOf memory a).order ≤ 2^64 - pageSize) :
    headerFromPointer a.pointer = a.pointer - headerSize ∧ (blockOf memory a).base + headerSize ≤ a.pointer := by
  have anchored := seated.anchored
  have payload := seated.payload
  simp only [pageSize,headerSize] at range anchored ⊢
  exact ⟨headerFromPointer_eq (by simp only [headerSize]; omega) (by omega),by omega⟩

-- The header is in the block, so what spares the block spares it.
theorem Seated.spared {before after : Memory} (seated : Seated before a) (range : pageSize ≤ (blockOf before a).base ∧
    (blockOf before a).base + 2^(blockOf before a).order ≤ 2^64 - pageSize)
    (same : ∀ x, (blockOf before a).Contains x → after x = before x) : headerOf after a = headerOf before a := by
  obtain ⟨place,above⟩ := seated.header range
  have payload := seated.payload
  apply readHeader_congr
  intro x low high
  rw [place] at low high
  simp only [headerSize] at above low high
  exact same x ⟨by omega,by omega⟩

theorem Seated.congr {before after : Memory} (seated : Seated before a) (same : headerOf after a = headerOf before a) : Seated after a := by
  have block : blockOf after a = blockOf before a := by rw [blockOf,blockOf,same]
  exact ⟨by rw [same]; exact seated.size,by rw [same]; exact seated.alignment,seated.power,seated.positive,
    by rw [block]; exact seated.anchored,by rw [block]; exact seated.payload⟩

-- Allocations whose blocks a step spares are still on the books.
theorem booked_of_spared (holding : Holding (others.map (blockOf before) ++ lost) after [] cells)
    (seated : ∀ a ∈ others, Seated before a) (spared : Spared before after.memory (others.map (blockOf before))) :
    Booked ⟨after,others⟩ lost cells ∧ ∀ a ∈ others, headerOf after.memory a = headerOf before a := by
  have headers : ∀ a ∈ others, headerOf after.memory a = headerOf before a := by
    intro a present
    have block : blockOf before a ∈ others.map (blockOf before) := List.mem_map_of_mem present
    exact (seated a present).spared (holding.range (List.mem_append_left _ (List.mem_append_left _ block))) (spared _ block)
  refine ⟨⟨?_,fun a present => (seated a present).congr (headers a present)⟩,headers⟩
  rw [blocks_congr headers]
  exact holding

theorem Booked.range (booked : Booked heap lost cells) (present : a ∈ heap.allocations) :
    pageSize ≤ (blockOf heap.state.memory a).base ∧
      (blockOf heap.state.memory a).base + 2^(blockOf heap.state.memory a).order ≤ 2^64 - pageSize :=
  booked.holding.range (List.mem_append_left _ (List.mem_append_left _ (List.mem_map_of_mem present)))

theorem Booked.orders (booked : Booked heap lost cells) (present : a ∈ heap.allocations) :
    minOrder ≤ (blockOf heap.state.memory a).order ∧ (blockOf heap.state.memory a).order ≤ maxOrder :=
  booked.holding.orders _ (List.mem_append_left _ (List.mem_append_left _ (List.mem_map_of_mem present)))

theorem Booked.aligned (booked : Booked heap lost cells) (present : a ∈ heap.allocations) :
    (blockOf heap.state.memory a).Aligned :=
  booked.holding.tiling.aligned _ (List.mem_append_left _ (List.mem_append_left _ (List.mem_map_of_mem present)))

-- An allocation that is taken off the books leaves its block in hand.
theorem Booked.unseat (booked : Booked heap lost cells) (present : a ∈ heap.allocations) :
    Holding (blockOf heap.state.memory a :: ((heap.allocations.erase a).map (blockOf heap.state.memory) ++ lost)) heap.state [] cells := by
  apply booked.holding.hand_perm
  exact ((List.perm_cons_erase present).map (blockOf heap.state.memory)).append_right lost

theorem Booked.seat (booked : Booked ⟨state,allocations⟩ (b :: lost) cells) (seated : Seated state.memory a)
    (block : blockOf state.memory a = b) : Booked ⟨state,a :: allocations⟩ lost cells := by
  subst block
  refine ⟨booked.holding.hand_perm List.perm_middle,fun c present => ?_⟩
  rcases List.mem_cons.mp present with rfl | present
  · exact seated
  · exact booked.seated c present

theorem Booked.perm (booked : Booked ⟨state,allocations⟩ lost cells) (same : allocations.Perm others) : Booked ⟨state,others⟩ lost cells :=
  ⟨booked.holding.hand_perm ((same.map _).append_right _),fun a present => booked.seated a (same.mem_iff.mpr present)⟩

theorem Booked.seated_erase (booked : Booked heap lost cells) (a : Live) : ∀ c ∈ heap.allocations.erase a, Seated heap.state.memory c :=
  fun c present => booked.seated c (List.mem_of_mem_erase present)

theorem seated_new {memory : Memory} {b : Block} {q n k state : Nat} (small : k < 63) (positive : 0 < n) (bound : n < 2^63)
    (place : q = b.base + max headerSize (2^k)) (inside : q + n ≤ b.base + 2^b.order)
    (header : headerOf memory ⟨q,n,2^k⟩ = ⟨b.base,b.order,state,n,2^k⟩) :
    Seated memory ⟨q,n,2^k⟩ ∧ blockOf memory ⟨q,n,2^k⟩ = b := by
  have block : blockOf memory ⟨q,n,2^k⟩ = b := by rw [blockOf,header]
  exact ⟨⟨by rw [header],by rw [header],⟨k,small,rfl⟩,⟨positive,bound⟩,by rw [block]; exact place,by rw [block]; exact inside⟩,block⟩

theorem header_written {memory : Memory} {b : Block} {q n k : Nat} (state : Nat) (byte : state < 256)
    (range : pageSize ≤ b.base ∧ b.base + 2^b.order ≤ 2^64 - pageSize) (order : b.order ≤ maxOrder) (small : k < 63) (bound : n < 2^63)
    (low : b.base + headerSize ≤ q) (high : q + n ≤ b.base + 2^b.order) :
    headerOf (writeHeader memory (headerFromPointer q) ⟨b.base,b.order,state,n,2^k⟩) ⟨q,n,2^k⟩ = ⟨b.base,b.order,state,n,2^k⟩ ∧
      ∀ x, ¬ (q - headerSize ≤ x ∧ x < q) → writeHeader memory (headerFromPointer q) ⟨b.base,b.order,state,n,2^k⟩ x = memory x := by
  have power : (2:Nat)^k < 2^63 := Nat.pow_lt_pow_right (by decide) small
  simp only [pageSize,maxOrder,headerSize] at range order low
  have place : headerFromPointer q = q - headerSize :=
    headerFromPointer_eq (by simp only [headerSize]; omega) (by omega)
  constructor
  · apply readHeader_writeHeader <;> dsimp only <;> omega
  · intro x outside
    apply writeHeader_outside
    simp only [headerSize] at place outside ⊢
    omega

-- The end of ALLOCATE, with the block in hand.
inductive Places (state : State) (b : Block) (n k : Nat) : AllocatorResult × State → Prop where
  | refused : b.order = 31 → 2^31 < n + max headerSize (2^k) →
      Places state b n k (failure .outOfMemory,pushFreeBlock state b.base b.order)
  -- The pointer rounds up to null, and the header is written at the end of the address space.
  | wrapped (header : AllocationHeader) :
      Places state b n k (success 0,⟨state.freeLists,writeHeader state.memory (2^64 - headerSize) header⟩)
  | placed : b.base + max headerSize (2^k) + n ≤ b.base + 2^b.order →
      Places state b n k (success (b.base + max headerSize (2^k)),
        ⟨state.freeLists,writeHeader state.memory (headerFromPointer (b.base + max headerSize (2^k))) ⟨b.base,b.order,live,n,2^k⟩⟩)

theorem placeBlock_places (holding : Holding (b :: hand) state [] cells) (small : k < 63) (positive : 0 < n) (bound : n < 2^63)
    (order : b.order = targetOrderFor (n + 2^k + headerSize)) : Places state b n k (placeBlock state b n (2^k)) := by
  have range := holding.range (b:=b) (by simp)
  have orders := holding.orders b (by simp)
  have aligned := holding.tiling.aligned b (by simp)
  have power : (2:Nat)^k < 2^63 := Nat.pow_lt_pow_right (by decide) small
  have unit : 0 < 2^b.order := Nat.two_pow_pos _
  have one : 0 < 2^k := Nat.two_pow_pos _
  have header : headerSize = 32 := rfl
  have page : pageSize = 4096 := rfl
  obtain ⟨target,_⟩ := targetOrderFor_cases (n + 2^k + headerSize)
  rw [← order] at target
  have most : max headerSize (2^k) + n ≤ n + 2^k + headerSize := by omega
  by_cases wraps : 2^64 < b.base + headerSize + 2^k
  · rw [placeBlock_wraps range small bound wraps]
    exact .wrapped _
  · have sum : add64 b.base headerSize = b.base + headerSize :=
      add64_of_lt (by omega)
    have limit : add64 b.base (blockSizeForOrder b.order) = b.base + 2^b.order :=
      add64_of_lt (by simp only [blockSizeForOrder]; omega)
    by_cases narrow : k ≤ b.order
    · have user := user_address range aligned orders.1 narrow small
      have fewer : (2:Nat)^k ≤ 2^b.order := Nat.pow_le_pow_right (by decide) narrow
      simp only [placeBlock,user,limit]
      by_cases fits : b.base + max headerSize (2^k) + n ≤ b.base + 2^b.order
      · have added : add64 (b.base + max headerSize (2^k)) n = b.base + max headerSize (2^k) + n :=
          add64_of_lt (by omega)
        rw [added,if_neg (by omega)]
        exact .placed fits
      · rw [if_pos]
        · have top : b.order = 31 := by
            rcases target with top | ⟨_,enough⟩
            · exact top
            · exact absurd (Nat.add_le_add_left (most.trans enough) b.base) (by omega)
          rw [top] at fits
          exact .refused top (by omega)
        · by_contra kept
          have added := add64_checked (a:=b.base + max headerSize (2^k)) (b:=n) (by omega) fun wrapped => kept (.inl wrapped)
          omega
    · have wide : 2^(b.order+1) ≤ (2:Nat)^k := Nat.pow_le_pow_right (by decide) (by omega)
      have double : 2^(b.order+1) = 2^b.order + 2^b.order := by rw [Nat.pow_succ]; omega
      have top : b.order = 31 := by omega
      obtain ⟨above,_,whole⟩ := alignUp_bounds (b.base + headerSize) k (by omega) (by omega)
      have multiple : 2^b.order ∣ alignUp (b.base + headerSize) (2^k) - b.base :=
        Nat.dvd_sub (Nat.dvd_trans (Nat.pow_dvd_pow 2 (by omega)) whole) aligned
      have gap := Nat.le_of_dvd (by omega) multiple
      simp only [placeBlock,sum,limit]
      rw [if_pos]
      · rw [top] at wide
        exact .refused top (by omega)
      · by_contra kept
        have added := add64_checked (a:=alignUp (b.base + headerSize) (2^k)) (b:=n) (by omega) fun wrapped => kept (.inl wrapped)
        rw [added] at kept
        omega

end Books

section Calls
variable {heap next : Heap} {lost : List Block} {cells : Set Nat} {state after : State} {a c : Live}

def Stays (heap next : Heap) (c : Live) : Prop :=
  c ∈ next.allocations ∧ headerOf next.state.memory c = headerOf heap.state.memory c

-- ALLOCATE, with the block it takes off the lists.
theorem allocate_booked (booked : Booked heap lost cells) (size alignment : S64) :
    (∃ lost,Booked (heap.allocated size alignment) lost cells) ∧
      ∀ c ∈ heap.allocations,Stays heap (heap.allocated size alignment) c := by
  have nothing (result : AllocatorResult) (same : allocate heap.state size.val alignment.val = (result,heap.state))
      (none : record result size.val.toNat alignment.val.toNat heap.allocations = heap.allocations) :
      heap.allocated size alignment = heap := by
    unfold Heap.allocated
    rw [same]
    dsimp only
    rw [none]
  rcases allocate_cases heap.state size alignment with ⟨_,same⟩ | ⟨_,same⟩ | ⟨n,k,request,⟨_,same⟩ | ⟨b,mid,taken,same⟩⟩
  · rw [nothing _ same (record_failure (by decide))]
    exact ⟨⟨lost,booked⟩,fun c present => ⟨present,rfl⟩⟩
  · rw [nothing _ same record_null]
    exact ⟨⟨lost,booked⟩,fun c present => ⟨present,rfl⟩⟩
  · rw [nothing _ same (record_failure (by decide))]
    exact ⟨⟨lost,booked⟩,fun c present => ⟨present,rfl⟩⟩
  · obtain ⟨order,held⟩ := booked.holding.takeBlock (targetOrderFor_bounds _).1 taken
    have spared := booked.holding.takeBlock_spared (targetOrderFor_bounds _).1 taken
    have range := held.range (b:=b) (by simp)
    have orders := held.orders b (by simp)
    rw [requiredSizeFor_small request.bound request.small] at order
    have seated := fun c (present : c ∈ heap.allocations) => booked.seated c present
    unfold Heap.allocated
    rw [same]
    have places := placeBlock_places held request.small request.positive request.bound order
    generalize placeBlock mid b n (2^k) = outcome at places ⊢
    cases places with
    | refused =>
        dsimp only
        rw [record_failure (by decide)]
        obtain ⟨books,headers⟩ := booked_of_spared held.push seated
          ((spared.trans held.push_spared).mono fun _ => List.mem_append_left _)
        exact ⟨⟨lost,books⟩,fun c present => ⟨present,headers c present⟩⟩
    | wrapped header =>
        dsimp only
        rw [record_null]
        have outside : ∀ c ∈ b :: (heap.allocations.map (blockOf heap.state.memory) ++ lost),∀ x,c.Contains x →
            writeHeader mid.memory (2^64 - headerSize) header x = mid.memory x := fun c present x inside => by
          have high := held.range (List.mem_append_left _ present)
          have last := inside.2
          apply writeHeader_outside
          simp only [pageSize,headerSize] at high ⊢
          omega
        have kept : Spared mid.memory (writeHeader mid.memory (2^64 - headerSize) header)
            (heap.allocations.map (blockOf heap.state.memory) ++ lost) := fun c present => outside c (List.mem_cons_of_mem _ present)
        obtain ⟨books,headers⟩ := booked_of_spared ((held.write_last header).1.hand_perm List.perm_middle.symm) seated
          ((spared.trans kept).mono fun _ => List.mem_append_left _)
        exact ⟨⟨b :: lost,books⟩,fun c present => ⟨present,headers c present⟩⟩
    | placed inside =>
        have header : headerSize = 32 := rfl
        have page : pageSize = 4096 := rfl
        have nonzero : b.base + max headerSize (2^k) ≠ 0 := by omega
        dsimp only
        rw [record_success nonzero,request.sizeExact,request.alignmentExact,Int.toNat_natCast,Int.toNat_natCast]
        obtain ⟨written,outside⟩ := @header_written mid.memory _ _ _ _ live (by decide) range orders.2 request.small request.bound
          (Nat.add_le_add_left (Nat.le_max_left headerSize (2^k)) b.base) inside
        obtain ⟨new,block⟩ := seated_new request.small request.positive request.bound rfl inside written
        have away : ∀ x,¬ b.Contains x → writeHeader mid.memory (headerFromPointer (b.base + max headerSize (2^k)))
            ⟨b.base,b.order,live,n,2^k⟩ x = mid.memory x := fun x out => by
          apply outside
          simp only [Block.Contains] at out
          omega
        have overwritten := held.overwrite (b:=b) (by simp) _ away
        obtain ⟨books,headers⟩ := booked_of_spared (overwritten.hand_perm List.perm_middle.symm) seated
          ((spared.trans (held.others_spared away)).mono fun _ => List.mem_append_left _)
        exact ⟨⟨lost,books.seat new block⟩,fun c present => ⟨List.mem_cons_of_mem _ present,headers c present⟩⟩

theorem Booked.nonzero (booked : Booked heap lost cells) (present : a ∈ heap.allocations) : a.pointer ≠ 0 := by
  have anchored := (booked.seated a present).anchored
  have range := booked.range present
  simp only [pageSize] at range
  omega

theorem free_marks (nonzero : a.pointer ≠ 0) (done : free state a.pointer = some (result,after)) :
    let mid : State := {state with memory := write state.memory (headerFromPointer a.pointer + stateOffset) 1 freed}
    after = pushFreeBlock (mergeUp (blockOf state.memory a) mid).2 (mergeUp (blockOf state.memory a) mid).1.base
      (mergeUp (blockOf state.memory a) mid).1.order := by
  simp only [free,if_neg nonzero] at done
  split at done
  · cases done
  · cases done
    rfl

theorem free_booked (booked : Booked heap lost cells) (present : a ∈ heap.allocations) (done : free heap.state a.pointer = some (result,after)) :
    Booked ⟨after,heap.allocations.erase a⟩ lost cells ∧ ∀ c ∈ heap.allocations.erase a,headerOf after.memory c = headerOf heap.state.memory c := by
  have held := booked.unseat present
  have range := booked.range present
  obtain ⟨place,above⟩ := (booked.seated a present).header range
  have payload := (booked.seated a present).payload
  have away : ∀ x,¬ (blockOf heap.state.memory a).Contains x →
      write heap.state.memory (headerFromPointer a.pointer + stateOffset) 1 freed x = heap.state.memory x := fun x out => by
    apply write_outside
    rw [place]
    simp only [Block.Contains,headerSize,stateOffset] at out above ⊢
    omega
  have marked := held.overwrite (b:=blockOf heap.state.memory a) (by simp) _ away
  have merged := marked.mergeUp.1
  rw [free_marks (booked.nonzero present) done]
  exact booked_of_spared merged.push (booked.seated_erase a)
    (((held.others_spared away).trans (marked.mergeUp_spared.trans merged.push_spared)).mono fun _ => List.mem_append_left _)

-- An owner writes behind its header, in its own block.
theorem own_writes (booked : Booked heap lost cells) (present : a ∈ heap.allocations) (memory : Memory)
    (outside : ∀ x,¬ (blockOf heap.state.memory a).Contains x → memory x = heap.state.memory x)
    (seated : Seated memory c) (block : blockOf memory c = blockOf heap.state.memory a) :
    Booked ⟨{heap.state with memory := memory},c :: heap.allocations.erase a⟩ lost cells ∧
      ∀ d ∈ heap.allocations.erase a,headerOf memory d = headerOf heap.state.memory d := by
  have held := booked.unseat present
  have written := held.overwrite (b:=blockOf heap.state.memory a) (by simp) memory outside
  obtain ⟨books,headers⟩ := booked_of_spared (written.hand_perm List.perm_middle.symm) (booked.seated_erase a)
    ((held.others_spared outside).mono fun _ => List.mem_append_left _)
  exact ⟨books.seat seated block,headers⟩

theorem store_booked (booked : Booked heap lost cells) (present : a ∈ heap.allocations) (low : a.pointer ≤ address)
    (high : address < a.pointer + a.size) (byte : UInt8) :
    Booked ⟨{heap.state with memory := write heap.state.memory address 1 byte.toNat},heap.allocations⟩ lost cells ∧
      ∀ c ∈ heap.allocations,headerOf (write heap.state.memory address 1 byte.toNat) c = headerOf heap.state.memory c := by
  have range := booked.range present
  have seated := booked.seated a present
  obtain ⟨place,above⟩ := seated.header range
  have payload := seated.payload
  have mine : headerOf (write heap.state.memory address 1 byte.toNat) a = headerOf heap.state.memory a := by
    apply readHeader_congr
    intro x _ below
    apply write_outside
    rw [place] at below
    simp only [headerSize] at above below
    omega
  obtain ⟨books,headers⟩ := own_writes (c:=a) booked present (write heap.state.memory address 1 byte.toNat)
    (fun x out => by
      apply write_outside
      simp only [Block.Contains] at out
      omega)
    (seated.congr mine) (by rw [blockOf,blockOf,mine])
  refine ⟨books.perm (List.perm_cons_erase present).symm,fun c other => ?_⟩
  by_cases same : c = a
  · rw [same]
    exact mine
  · exact headers c ((List.mem_erase_of_ne same).mpr other)

theorem call_booked (booked : Booked heap lost cells) (step : Step heap call next) :
    (∃ lost,Booked next lost cells) ∧ ∀ c ∈ heap.allocations,(Operation.call call).pointer ≠ some c.pointer → Stays heap next c := by
  cases step with
  | allocated =>
      obtain ⟨books,stays⟩ := allocate_booked booked _ _
      exact ⟨books,fun c present _ => stays c present⟩
  | freed present pointer done =>
      subst pointer
      obtain ⟨books,headers⟩ := free_booked booked present done
      refine ⟨⟨lost,books⟩,fun c other different => ?_⟩
      have kept := (List.mem_erase_of_ne fun same => different (by rw [same]; rfl)).mpr other
      exact ⟨kept,headers c kept⟩
  | stored present low high =>
      obtain ⟨books,headers⟩ := store_booked booked present low high _
      exact ⟨⟨lost,books⟩,fun c other _ => ⟨other,headers c other⟩⟩

end Calls

-- RESIZE passes every check on its way to a block of 2 GiB, and that is too small.
structure Strands (state : State) (size alignment : Int) (pointer : Nat) : Prop where
  positive : 0 < size
  power : isPowerOfTwo alignment = true
  multiple : pointer % toU64 alignment = 0
  narrow : (readHeader state.memory (headerFromPointer pointer)).order < 31
  free : ∀ order,(readHeader state.memory (headerFromPointer pointer)).order ≤ order → order < 31 →
    ((⟨(readHeader state.memory (headerFromPointer pointer)).blockBase,
      (readHeader state.memory (headerFromPointer pointer)).order⟩ : Block).around order).buddy.base ∈ state.freeLists order
  large : 2^31 < toU64 size + max headerSize (toU64 alignment)

-- The block has grown to `c` by the buddies that were taken off the lists.
structure Grown (heap : Heap) (a : Live) (lost : List Block) (cells : Set Nat) (n k : Nat) (c : Block) (buddies : List Block)
    (after : State) : Prop where
  checked : checkBuddies heap.state c.order (blockOf heap.state.memory a) = some c.base
  wider : (blockOf heap.state.memory a).order < c.order
  target : c.order = targetOrderFor (n + 2^k + headerSize)
  multiple : 2^k ∣ a.pointer
  small : ¬ (a.pointer + n ≤ (blockOf heap.state.memory a).base + 2^(blockOf heap.state.memory a).order ∧ 2^k = a.alignment)
  holding : Holding (c :: ((heap.allocations.erase a).map (blockOf heap.state.memory) ++ lost)) after [] cells
  spared : Spared heap.state.memory after.memory
    (blockOf heap.state.memory a :: ((heap.allocations.erase a).map (blockOf heap.state.memory) ++ lost))
  confined : Confined cells heap.state.memory after.memory
  free : (freeBlocks heap.state.freeLists).Perm (buddies ++ freeBlocks after.freeLists)
  merges : Merges (blockOf heap.state.memory a) buddies c

def movedPointer (c : Block) (k : Nat) : Nat := c.base + max headerSize (2^k)

-- The new header, the copy, and last the mark on the old header.
def movedMemory (memory : Memory) (c : Block) (n k : Nat) (a : Live) : Memory :=
  let header := writeHeader memory (headerFromPointer (movedPointer c k)) ⟨c.base,c.order,live,n,2^k⟩
  let copied :=
    if movedPointer c k ≠ a.pointer ∧ 0 < a.size then copy header (movedPointer c k) a.pointer (if a.size < n then a.size else n)
    else header
  write copied (headerFromPointer a.pointer + stateOffset) 1 freed

inductive Resizes (heap : Heap) (a : Live) (lost : List Block) (cells : Set Nat) (size alignment : S64) :
    AllocatorResult × State → Prop where
  | refused : error ≠ .none → ¬ Strands heap.state size.val alignment.val a.pointer →
      Resizes heap a lost cells size alignment (failure error,heap.state)
  | nothing : size.val = 0 → Resizes heap a lost cells size alignment (success 0,heap.state)
  | inPlace : Request size alignment n k → 2^k = a.alignment →
      a.pointer + n ≤ (blockOf heap.state.memory a).base + 2^(blockOf heap.state.memory a).order →
      Resizes heap a lost cells size alignment
        (success a.pointer,{heap.state with memory := write heap.state.memory (headerFromPointer a.pointer + 16) 8 n})
  | stranded : Request size alignment n k → Grown heap a lost cells n k c buddies after →
      Strands heap.state size.val alignment.val a.pointer →
      Resizes heap a lost cells size alignment (failure .modeNotImplemented,after)
  | moved : Request size alignment n k → Grown heap a lost cells n k c buddies after →
      movedPointer c k + n ≤ c.base + 2^c.order →
      Resizes heap a lost cells size alignment (success (movedPointer c k),⟨after.freeLists,movedMemory after.memory c n k a⟩)

section Resize
variable {heap next : Heap} {lost buddies : List Block} {cells : Set Nat} {state after : State} {a : Live} {c : Block}

theorem Strands.target (strands : Strands state size.val alignment.val pointer) (request : Request size alignment n k) :
    targetOrderFor (n + 2^k + headerSize) = 31 := by
  have large := strands.large
  have one : 0 < 2^k := Nat.two_pow_pos k
  rw [request.sizeWord,request.alignmentWord] at large
  exact (targetOrderFor_cases _).2 (by omega)

theorem resize_resizes (booked : Booked heap lost cells) (present : a ∈ heap.allocations) (size alignment : S64) :
    Resizes heap a lost cells size alignment (resize heap.state size.val alignment.val a.size a.pointer) := by
  have range := booked.range present
  have orders := booked.orders present
  have aligned := booked.aligned present
  have seated := booked.seated a present
  obtain ⟨place,above⟩ := seated.header range
  have payload := seated.payload
  have header : headerSize = 32 := rfl
  have page : pageSize = 4096 := rfl
  unfold resize
  by_cases invalid : size.val < 0 ∨ isPowerOfTwo alignment.val = false
  · rw [if_pos invalid]
    refine .refused (by decide) fun strands => ?_
    have power := strands.power
    have positive := strands.positive
    rcases invalid with negative | odd
    · omega
    · rw [odd] at power
      cases power
  rw [if_neg invalid]
  by_cases zero : size.val = 0
  · rw [if_pos zero]
    exact .nothing zero
  rw [if_neg zero,if_neg (booked.nonzero present)]
  by_cases misplaced : a.pointer % toU64 alignment.val ≠ 0
  · rw [if_pos misplaced]
    exact .refused (by decide) fun strands => misplaced strands.multiple
  rw [if_neg misplaced]
  obtain ⟨n,k,request⟩ := request_of_valid size alignment (by omega) (by simpa using (not_or.mp invalid).2)
  have required := requiredSizeFor_small request.bound request.small
  have one : 0 < 2^k := Nat.two_pow_pos k
  have same : readHeader heap.state.memory (headerFromPointer a.pointer) = headerOf heap.state.memory a := rfl
  have block : (⟨(headerOf heap.state.memory a).blockBase,(headerOf heap.state.memory a).order⟩ : Block) = blockOf heap.state.memory a := rfl
  have base : (headerOf heap.state.memory a).blockBase = (blockOf heap.state.memory a).base := rfl
  have order : (headerOf heap.state.memory a).order = (blockOf heap.state.memory a).order := rfl
  have available : sub64 (add64 (blockOf heap.state.memory a).base (blockSizeForOrder (blockOf heap.state.memory a).order)) a.pointer =
      (blockOf heap.state.memory a).base + 2^(blockOf heap.state.memory a).order - a.pointer := by
    have sum : add64 (blockOf heap.state.memory a).base (blockSizeForOrder (blockOf heap.state.memory a).order) =
        (blockOf heap.state.memory a).base + 2^(blockOf heap.state.memory a).order :=
      add64_of_lt (by simp only [blockSizeForOrder]; omega)
    rw [sum]
    exact sub64_of_le (by omega) (by omega)
  dsimp only
  rw [same,block,base,order,available,request.sizeWord,request.alignmentWord,seated.alignment,required]
  by_cases fits : n ≤ (blockOf heap.state.memory a).base + 2^(blockOf heap.state.memory a).order - a.pointer ∧ 2^k = a.alignment
  · rw [if_pos fits]
    exact .inPlace request fits.2 (by omega)
  rw [if_neg fits,if_neg (by omega)]
  by_cases narrow : targetOrderFor (n + 2^k + headerSize) ≤ (blockOf heap.state.memory a).order ∨
      maxOrder < targetOrderFor (n + 2^k + headerSize)
  · rw [if_pos narrow]
    refine .refused (by decide) fun strands => ?_
    have target := strands.target request
    have less : (blockOf heap.state.memory a).order < 31 := strands.narrow
    simp only [maxOrder] at narrow
    omega
  rw [if_neg narrow]
  cases checked : checkBuddies heap.state (targetOrderFor (n + 2^k + headerSize)) (blockOf heap.state.memory a) with
  | none =>
      refine .refused (by decide) fun strands => ?_
      rw [strands.target request] at checked
      exact (checkBuddies_free aligned).mpr strands.free checked
  | some newBase =>
      have multiple : 2^k ∣ a.pointer := by
        rw [request.alignmentWord] at misplaced
        exact Nat.dvd_of_mod_eq_zero (Decidable.of_not_not misplaced)
      obtain ⟨after,buddies,done,held,⟨spared,confined⟩,free,merges,_⟩ :=
        (booked.unseat present).removeBuddies (by omega) (by omega) (fun o _ => (rfl : heap.state.freeLists o = heap.state.freeLists o)) checked
      have grown : Grown heap a lost cells n k ⟨newBase,targetOrderFor (n + 2^k + headerSize)⟩ buddies after :=
        ⟨checked,by dsimp only; omega,rfl,multiple,fun inside => fits ⟨by omega,inside.2⟩,held,spared,confined,free,merges⟩
      have positive := seated.positive.1
      have inner := narrow_of_inside aligned (by omega) (by omega) multiple
      have wide := held.range (b:=⟨newBase,targetOrderFor (n + 2^k + headerSize)⟩) (by simp)
      have whole := held.tiling.aligned (⟨newBase,targetOrderFor (n + 2^k + headerSize)⟩ : Block) (by simp)
      have bounds := held.orders (⟨newBase,targetOrderFor (n + 2^k + headerSize)⟩ : Block) (by simp)
      have user := user_address wide whole bounds.1 (by dsimp only; omega) request.small
      dsimp only at user wide bounds
      dsimp only
      rw [done]
      dsimp only
      unfold moveInto
      dsimp only
      rw [user]
      have limit : add64 newBase (blockSizeForOrder (targetOrderFor (n + 2^k + headerSize))) =
          newBase + 2^targetOrderFor (n + 2^k + headerSize) := add64_of_lt (by simp only [blockSizeForOrder]; omega)
      rw [limit]
      have bound := request.bound
      by_cases room : newBase + max headerSize (2^k) + n ≤ newBase + 2^targetOrderFor (n + 2^k + headerSize)
      · have sum : add64 (newBase + max headerSize (2^k)) n = newBase + max headerSize (2^k) + n := add64_of_lt (by omega)
        rw [sum,if_neg (by omega)]
        exact .moved request grown room
      · have most : max headerSize (2^k) + n ≤ n + 2^k + headerSize := by omega
        have target : targetOrderFor (n + 2^k + headerSize) = 31 := by
          rcases (targetOrderFor_cases (n + 2^k + headerSize)).1 with top | ⟨_,enough⟩
          · exact top
          · exact absurd (Nat.add_le_add_left (most.trans enough) newBase) (by omega)
        rw [if_pos]
        · refine .stranded request grown ⟨by omega,request.power,Decidable.of_not_not misplaced,?_,?_,?_⟩
          · have less := grown.wider
            dsimp only at less
            rw [target] at less
            exact less
          · rw [target] at checked
            exact (checkBuddies_free aligned).mp fun none => Option.some_ne_none _ (checked.symm.trans none)
          · rw [target] at room
            rw [request.sizeWord,request.alignmentWord]
            omega
        · by_contra kept
          have sum := add64_checked (a:=newBase + max headerSize (2^k)) (b:=n) (by omega) fun wrapped => kept (.inl wrapped)
          omega

-- One byte, or one word, of a header that is written anew.
theorem readHeader_mark (memory : Memory) (address : Nat) (byte : mark < 256) :
    readHeader (write memory (address + stateOffset) 1 mark) address = {readHeader memory address with state := mark} := by
  have fits : mark < 256^1 := byte
  simp only [readHeader,stateOffset]
  simp (disch := omega) only [read_write_outside]
  rw [read_write fits]

theorem readHeader_resized (memory : Memory) (address : Nat) (small : n < 2^64) :
    readHeader (write memory (address + 16) 8 n) address = {readHeader memory address with requestedSize := n} := by
  have fits : n < 256^8 := small
  simp only [readHeader,stateOffset]
  simp (disch := omega) only [read_write_outside]
  rw [read_write fits]

theorem max_multiple (k : Nat) : headerSize ∣ max headerSize (2^k) := by
  rcases Nat.le_total headerSize (2^k) with above | below
  · have wide : 5 ≤ k := (Nat.pow_le_pow_iff_right (a:=2) (by decide)).mp above
    rw [Nat.max_eq_right above]
    exact Nat.pow_dvd_pow 2 wide
  · rw [Nat.max_eq_left below]

-- The new pointer is not above the old one, and below it by whole headers.
theorem Grown.geometry (grown : Grown heap a lost cells n k c buddies after) (booked : Booked heap lost cells)
    (present : a ∈ heap.allocations) : movedPointer c k ≤ a.pointer ∧ (movedPointer c k = a.pointer ∨ movedPointer c k + headerSize ≤ a.pointer) ∧
      (c.base ≠ (blockOf heap.state.memory a).base →
        c.base + 2^(blockOf heap.state.memory a).order ≤ (blockOf heap.state.memory a).base ∧
          movedPointer c k + a.size ≤ (blockOf heap.state.memory a).base) ∧ k < (blockOf heap.state.memory a).order := by
  have orders := booked.orders present
  have aligned := booked.aligned present
  have seated := booked.seated a present
  have anchored := seated.anchored
  have payload := seated.payload
  have positive := seated.positive.1
  have header : headerSize = 32 := rfl
  have inner := narrow_of_inside aligned (by omega) (by omega) grown.multiple
  have whole := grown.holding.tiling.aligned c (by simp)
  have wider := grown.wider
  have base := grown.merges.base aligned
  have one : 0 < 2^k := Nat.two_pow_pos k
  have unit : 0 < 2^(blockOf heap.state.memory a).order := Nat.two_pow_pos _
  have gap : max headerSize (2^k) ≤ a.pointer - c.base := by
    have multiple : 2^k ∣ a.pointer - c.base :=
      Nat.dvd_sub grown.multiple (Nat.dvd_trans (Nat.pow_dvd_pow 2 (by omega)) whole)
    have large := Nat.le_of_dvd (by omega) multiple
    omega
  have steps : headerSize ∣ a.pointer - c.base - max headerSize (2^k) := by
    obtain ⟨j,_,power⟩ := seated.power
    have mine : headerSize ∣ a.pointer := by
      rw [anchored,power]
      exact Nat.dvd_add (Nat.dvd_trans (Nat.pow_dvd_pow 2 (show 5 ≤ _ by simp only [minOrder] at orders; omega)) aligned) (max_multiple j)
    exact Nat.dvd_sub (Nat.dvd_sub mine (Nat.dvd_trans (Nat.pow_dvd_pow 2 (show 5 ≤ c.order by simp only [minOrder] at orders; omega)) whole))
      (max_multiple k)
  obtain ⟨q,exact⟩ := steps
  rw [header] at exact
  unfold movedPointer
  refine ⟨by omega,by omega,fun lower => ?_,inner⟩
  have half : (2:Nat)^k * 2 ≤ 2^(blockOf heap.state.memory a).order := by
    rw [← Nat.pow_succ]
    exact Nat.pow_le_pow_right (by decide) inner
  have own : 2^k ∣ a.pointer - (blockOf heap.state.memory a).base :=
    Nat.dvd_sub grown.multiple (Nat.dvd_trans (Nat.pow_dvd_pow 2 (by omega)) aligned)
  have mine := Nat.le_of_dvd (by omega) own
  omega

-- The base goes down where the block did not lie on a multiple of the new size.
theorem Grown.lowered (grown : Grown heap a lost cells n k c buddies after) (booked : Booked heap lost cells)
    (present : a ∈ heap.allocations) : c.base < (blockOf heap.state.memory a).base ↔ ¬ 2^c.order ∣ (blockOf heap.state.memory a).base := by
  have whole := grown.holding.tiling.aligned c (by simp)
  have inside := grown.merges.inside (booked.aligned present)
  have below := inside _ (contains_base _)
  have rounded := congrArg Block.base (around_of_inside whole inside)
  simp only [Block.around] at rounded
  constructor
  · intro lower multiple
    rw [Nat.div_mul_cancel multiple] at rounded
    omega
  · intro cut
    refine Nat.lt_of_le_of_ne below.1 fun same => cut ?_
    rw [← same]
    exact whole

section Moved
variable {size alignment : S64} {n k : Nat}

-- What the three writes do, each in its place.
theorem Grown.moves (grown : Grown heap a lost cells n k c buddies after) (booked : Booked heap lost cells)
    (present : a ∈ heap.allocations) (request : Request size alignment n k) (room : movedPointer c k + n ≤ c.base + 2^c.order) :
    headerOf (movedMemory after.memory c n k a) ⟨movedPointer c k,n,2^k⟩ =
        ⟨c.base,c.order,if movedPointer c k = a.pointer then freed else live,n,2^k⟩ ∧
      (∀ x,¬ c.Contains x → movedMemory after.memory c n k a x = after.memory x) ∧
      ∀ i < a.size,i < n → movedMemory after.memory c n k a (movedPointer c k + i) =
        if movedPointer c k ≠ a.pointer ∧ movedPointer c k + i + 23 = a.pointer then UInt8.ofNat freed
        else heap.state.memory (a.pointer + i) := by
  have range := grown.holding.range (b:=c) (by simp)
  have orders := grown.holding.orders c (by simp)
  have aligned := booked.aligned present
  have seated := booked.seated a present
  obtain ⟨place,above⟩ := seated.header (booked.range present)
  have payload := seated.payload
  have positive := seated.positive.1
  have header : headerSize = 32 := rfl
  have offset : stateOffset = 9 := rfl
  obtain ⟨below,apart,_,_⟩ := grown.geometry booked present
  have low : c.base + headerSize ≤ movedPointer c k := Nat.add_le_add_left (Nat.le_max_left _ _) _
  have inside := grown.merges.inside aligned
  have first := inside _ (contains_base (blockOf heap.state.memory a))
  have last := inside (a.pointer + a.size - 1) ⟨by omega,by omega⟩
  obtain ⟨bottom,_⟩ := first
  obtain ⟨_,top⟩ := last
  obtain ⟨written,outside⟩ := @header_written after.memory _ _ _ _ live (by decide) range orders.2 request.small request.bound low room
  generalize written' : writeHeader after.memory (headerFromPointer (movedPointer c k)) ⟨c.base,c.order,live,n,2^k⟩ = headed at written outside
  have shorter : (if a.size < n then a.size else n) = min a.size n := by
    by_cases less : a.size < n
    · rw [if_pos less,Nat.min_eq_left (Nat.le_of_lt less)]
    · rw [if_neg less,Nat.min_eq_right (Nat.le_of_not_lt less)]
  have source : ∀ i < a.size,headed (a.pointer + i) = heap.state.memory (a.pointer + i) := by
    intro i less
    rw [outside _ (by omega)]
    exact grown.spared _ List.mem_cons_self _ ⟨by omega,by omega⟩
  unfold movedMemory
  dsimp only
  rw [written',shorter]
  by_cases same : movedPointer c k = a.pointer
  · rw [if_neg (fun moved => moved.1 same),if_pos same]
    refine ⟨?_,fun x away => ?_,fun i less _ => ?_⟩
    · show readHeader (write headed (headerFromPointer a.pointer + stateOffset) 1 freed) (headerFromPointer (movedPointer c k)) = _
      rw [same,readHeader_mark headed (headerFromPointer a.pointer) (by decide)]
      rw [headerOf] at written
      dsimp only at written
      rw [same] at written
      rw [written]
    · simp only [Block.Contains] at away
      rw [write_outside (by omega),outside x (by omega)]
    · rw [if_neg (fun hit => hit.1 same),same,write_outside (by omega),source i less]
  · rw [if_pos ⟨same,positive⟩,if_neg same]
    refine ⟨?_,fun x away => ?_,fun i less shorter => ?_⟩
    · rw [← written]
      apply readHeader_congr
      intro x low high
      have place' : headerFromPointer (movedPointer c k) = movedPointer c k - headerSize :=
        headerFromPointer_eq (by omega) (by simp only [pageSize] at range; omega)
      dsimp only at low high
      rw [place'] at low high
      rw [write_outside (by omega),copy_outside (by omega)]
    · simp only [Block.Contains] at away
      rw [write_outside (by omega),copy_outside (by omega),outside x (by omega)]
    · by_cases hit : movedPointer c k + i + 23 = a.pointer
      · rw [if_pos ⟨same,hit⟩,write,if_pos (by omega)]
        have here : movedPointer c k + i - (headerFromPointer a.pointer + stateOffset) = 0 := by omega
        rw [here]
        rfl
      · rw [if_neg (fun marked => hit marked.2),write_outside (by omega),
          copy_moves (.inl (Nat.le_of_lt (Nat.lt_of_le_of_ne below same))) (by omega),source i less]

-- Growing or shrinking in place writes one word of the header.
theorem grown_in_place (booked : Booked heap lost cells) (present : a ∈ heap.allocations) (request : Request size alignment n k)
    (same : 2^k = a.alignment)
    (room : a.pointer + n ≤ (blockOf heap.state.memory a).base + 2^(blockOf heap.state.memory a).order) :
    let memory := write heap.state.memory (headerFromPointer a.pointer + 16) 8 n
    Booked ⟨{heap.state with memory := memory},⟨a.pointer,n,2^k⟩ :: heap.allocations.erase a⟩ lost cells ∧
      headerOf memory ⟨a.pointer,n,2^k⟩ = {headerOf heap.state.memory a with requestedSize := n} ∧
      (∀ x,a.pointer ≤ x → memory x = heap.state.memory x) ∧
      Spared heap.state.memory memory ((heap.allocations.erase a).map (blockOf heap.state.memory)) ∧
      ∀ d ∈ heap.allocations.erase a,headerOf memory d = headerOf heap.state.memory d := by
  dsimp only
  have seated := booked.seated a present
  obtain ⟨place,above⟩ := seated.header (booked.range present)
  have bound := request.bound
  have header : headerSize = 32 := rfl
  have mine : headerOf (write heap.state.memory (headerFromPointer a.pointer + 16) 8 n) ⟨a.pointer,n,2^k⟩ =
      {headerOf heap.state.memory a with requestedSize := n} := readHeader_resized _ _ (by omega)
  have block : blockOf (write heap.state.memory (headerFromPointer a.pointer + 16) 8 n) ⟨a.pointer,n,2^k⟩ = blockOf heap.state.memory a := by
    rw [blockOf,mine]
    rfl
  have away : ∀ x,¬ (blockOf heap.state.memory a).Contains x →
      write heap.state.memory (headerFromPointer a.pointer + 16) 8 n x = heap.state.memory x := fun x out => by
    apply write_outside
    simp only [Block.Contains] at out
    omega
  have new : Seated (write heap.state.memory (headerFromPointer a.pointer + 16) 8 n) ⟨a.pointer,n,2^k⟩ := by
    refine ⟨by rw [mine],?_,⟨k,request.small,rfl⟩,⟨request.positive,request.bound⟩,?_,?_⟩
    · rw [mine]
      dsimp only
      rw [seated.alignment,same]
    · rw [block]
      dsimp only
      rw [same]
      exact seated.anchored
    · rw [block]
      exact room
  obtain ⟨books,headers⟩ := own_writes booked present _ away new block
  refine ⟨books,mine,fun x behind => write_outside (by omega),?_,headers⟩
  exact ((booked.unseat present).others_spared away).mono fun _ => List.mem_append_left _

theorem Grown.kept (grown : Grown heap a lost cells n k c buddies after) (booked : Booked heap lost cells)
    (present : a ∈ heap.allocations) (request : Request size alignment n k) (room : movedPointer c k + n ≤ c.base + 2^c.order) :
    Booked ⟨⟨after.freeLists,movedMemory after.memory c n k a⟩,⟨movedPointer c k,n,2^k⟩ :: heap.allocations.erase a⟩ lost cells ∧
      Spared heap.state.memory (movedMemory after.memory c n k a) ((heap.allocations.erase a).map (blockOf heap.state.memory)) ∧
      ∀ d ∈ heap.allocations.erase a,headerOf (movedMemory after.memory c n k a) d = headerOf heap.state.memory d := by
  obtain ⟨header,away,_⟩ := grown.moves booked present request room
  obtain ⟨new,block⟩ := seated_new request.small request.positive request.bound rfl room header
  have written := grown.holding.overwrite (b:=c) (by simp) _ away
  have spared := (grown.spared.mono fun _ => List.mem_cons_of_mem _).trans (grown.holding.others_spared away)
  have others : Spared heap.state.memory (movedMemory after.memory c n k a)
      ((heap.allocations.erase a).map (blockOf heap.state.memory)) := spared.mono fun _ => List.mem_append_left _
  obtain ⟨books,headers⟩ := booked_of_spared (written.hand_perm List.perm_middle.symm) (booked.seated_erase a) others
  exact ⟨books.seat new block,others,headers⟩

-- A failure after the buddies were taken loses them.
theorem Grown.loses (grown : Grown heap a lost cells n k c buddies after) (booked : Booked heap lost cells)
    (present : a ∈ heap.allocations) : Booked ⟨after,heap.allocations⟩ (buddies ++ lost) cells ∧
      Spared heap.state.memory after.memory (heap.allocations.map (blockOf heap.state.memory)) ∧
      ∀ d ∈ heap.allocations,headerOf after.memory d = headerOf heap.state.memory d := by
  have apart := grown.holding.unmerge grown.merges (booked.aligned present) (booked.orders present).1
  have blocks := (List.perm_cons_erase present).map (blockOf heap.state.memory)
  have spared : Spared heap.state.memory after.memory (heap.allocations.map (blockOf heap.state.memory)) := by
    refine grown.spared.mono fun b here => ?_
    rcases List.mem_cons.mp (blocks.mem_iff.mp here) with rfl | other
    · exact List.mem_cons_self
    · exact List.mem_cons_of_mem _ (List.mem_append_left _ other)
  have hand : (blockOf heap.state.memory a :: (buddies ++ ((heap.allocations.erase a).map (blockOf heap.state.memory) ++ lost))).Perm
      (heap.allocations.map (blockOf heap.state.memory) ++ (buddies ++ lost)) := by
    refine List.Perm.trans ?_ (blocks.symm.append_right _)
    refine List.Perm.cons _ ?_
    show (buddies ++ (_ ++ lost)).Perm ((heap.allocations.erase a).map (blockOf heap.state.memory) ++ (buddies ++ lost))
    rw [← List.append_assoc,← List.append_assoc]
    exact List.perm_append_comm.append_right lost
  obtain ⟨books,headers⟩ := booked_of_spared (apart.hand_perm hand) booked.seated spared
  exact ⟨books,spared,headers⟩

theorem resize_booked (booked : Booked heap lost cells) (present : a ∈ heap.allocations) (size alignment : S64) :
    (∃ lost,Booked (heap.resized a size alignment) lost cells) ∧
      ∀ d ∈ heap.allocations,d.pointer ≠ a.pointer → Stays heap (heap.resized a size alignment) d := by
  have erased (d : Live) (other : d ∈ heap.allocations) (different : d.pointer ≠ a.pointer) : d ∈ heap.allocations.erase a :=
    (List.mem_erase_of_ne fun same => different (congrArg Live.pointer same)).mpr other
  have resizes := resize_resizes booked present size alignment
  unfold Heap.resized
  generalize resize heap.state size.val alignment.val a.size a.pointer = outcome at resizes ⊢
  cases resizes with
  | refused error _ =>
      dsimp only
      rw [if_neg (fun gives => error gives.1)]
      exact ⟨⟨lost,booked⟩,fun d other _ => ⟨other,rfl⟩⟩
  | nothing =>
      dsimp only
      rw [if_neg (fun gives => gives.2 rfl)]
      exact ⟨⟨lost,booked⟩,fun d other _ => ⟨other,rfl⟩⟩
  | inPlace request same room =>
      obtain ⟨books,_,_,_,headers⟩ := grown_in_place booked present request same room
      dsimp only
      rw [if_pos ⟨rfl,booked.nonzero present⟩,request.sizeExact,request.alignmentExact,Int.toNat_natCast,Int.toNat_natCast]
      exact ⟨⟨lost,books⟩,fun d other different =>
        ⟨List.mem_cons_of_mem _ (erased d other different),headers d (erased d other different)⟩⟩
  | stranded request grown _ =>
      obtain ⟨books,_,headers⟩ := grown.loses booked present
      dsimp only
      rw [if_neg (fun gives => absurd gives.1 (by decide))]
      exact ⟨⟨_,books⟩,fun d other _ => ⟨other,headers d other⟩⟩
  | @moved n k c _ _ request grown room =>
      obtain ⟨books,_,headers⟩ := grown.kept booked present request room
      have header : headerSize = 32 := rfl
      have nonzero : movedPointer c k ≠ 0 := by
        unfold movedPointer
        omega
      dsimp only
      rw [if_pos ⟨rfl,nonzero⟩,request.sizeExact,request.alignmentExact,Int.toNat_natCast,Int.toNat_natCast]
      exact ⟨⟨lost,books⟩,fun d other different =>
        ⟨List.mem_cons_of_mem _ (erased d other different),headers d (erased d other different)⟩⟩

theorem operate_booked {operation : Operation} (booked : Booked heap lost cells) (step : Operates heap operation next) :
    (∃ lost,Booked next lost cells) ∧ ∀ d ∈ heap.allocations,operation.pointer ≠ some d.pointer → Stays heap next d := by
  cases step with
  | called step => exact call_booked booked step
  | resized present =>
      obtain ⟨books,stays⟩ := resize_booked booked present _ _
      exact ⟨books,fun d other different => stays d other fun same => different (congrArg some same.symm)⟩

end Moved

theorem run_booked (bootable : Bootable regions) (memory : Memory)
    (run : Run Operates (fun _ _ => True) (booted memory regions) operations heap) : ∃ lost cells,Booked heap lost cells := by
  refine run.keeps (fun heap => ∃ lost cells,Booked heap lost cells) ?_ ⟨[],_,bootable_partition bootable memory,fun _ present => ?_⟩
  · rintro s operation t ⟨lost,cells,booked⟩ _ step
    obtain ⟨lost,books⟩ := (operate_booked booked step).1
    exact ⟨lost,cells,books⟩
  · exact absurd present List.not_mem_nil

-- What is left alone by a run stays in its place.
theorem run_stays (booked : Booked heap lost cells) (present : a ∈ heap.allocations)
    (run : Run Operates (fun _ operation => operation.pointer ≠ some a.pointer) heap operations next) :
    (∃ lost,Booked next lost cells) ∧ Stays heap next a := by
  induction run generalizing lost with
  | nil => exact ⟨⟨lost,booked⟩,present,rfl⟩
  | cons other step _ ih =>
      obtain ⟨⟨lost,books⟩,stays⟩ := operate_booked booked step
      obtain ⟨here,same⟩ := stays a present other
      obtain ⟨last,there,still⟩ := ih books here
      exact ⟨last,there,still.trans same⟩

end Resize

end BuddyAllocator
