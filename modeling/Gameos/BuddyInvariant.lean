import Gameos.BuddyAllocator
import Gameos.TransitionRuns

namespace BuddyAllocator
open MachineWords ByteMemory AllocatorTypes DyadicBlocks

-- A live allocation as its owner knows it. Which block it holds is not kept
-- here: that is read from the header in front of the pointer.
structure Live where
  pointer : Nat
  size : Nat
  alignment : Nat
deriving DecidableEq, Repr

def headerOf (memory : Memory) (a : Live) : AllocationHeader :=
  readHeader memory (headerFromPointer a.pointer)

def blockOf (memory : Memory) (a : Live) : Block :=
  ⟨(headerOf memory a).blockBase,(headerOf memory a).order⟩

def freeBlocks (lists : Nat → List Nat) : List Block :=
  (List.range (maxOrder+1)).flatMap fun order => (lists order).map (⟨·,order⟩)

def allBlocks (state : State) (allocations : List Live) : List Block :=
  freeBlocks state.freeLists ++ allocations.map (blockOf state.memory)

structure Placed (memory : Memory) (a : Live) : Prop where
  state : (headerOf memory a).state = live
  size : (headerOf memory a).requestedSize = a.size
  alignment : (headerOf memory a).requestedAlignment = a.alignment
  power : ∃ k < 63, a.alignment = 2^k
  positive : 0 < a.size ∧ a.size < 2^63
  aligned : a.alignment ∣ a.pointer
  header : (blockOf memory a).base + headerSize ≤ a.pointer
  payload : a.pointer + a.size ≤ (blockOf memory a).base + 2^(blockOf memory a).order

-- The words the machine follows: each block's first word is the next address.
def Linked (memory : Memory) : List Nat → Prop
  | [] => True
  | base :: rest => read memory base 8 = headAddress rest ∧ Linked memory rest

-- The partition invariant while some blocks are in hand, taken from a list or
-- an allocation and not yet given to another.
structure Holding (hand : List Block) (state : State) (allocations : List Live) (cells : Set Nat) :
    Prop where
  bounded : ∀ x ∈ cells, pageSize ≤ x ∧ x < 2^64 - pageSize
  tiling : Tiling (hand ++ allBlocks state allocations) cells
  orders : ∀ b ∈ hand ++ allBlocks state allocations, minOrder ≤ b.order ∧ b.order ≤ maxOrder
  placed : ∀ a ∈ allocations, Placed state.memory a
  linked : ∀ order ≤ maxOrder, Linked state.memory (state.freeLists order)

abbrev Partition (state : State) (allocations : List Live) (cells : Set Nat) : Prop :=
  Holding [] state allocations cells

theorem mem_freeBlocks : b ∈ freeBlocks lists ↔ b.order ≤ maxOrder ∧ b.base ∈ lists b.order := by
  rw [freeBlocks,List.mem_flatMap]
  constructor
  · rintro ⟨order,inRange,present⟩
    obtain ⟨base,here,rfl⟩ := List.mem_map.mp present
    exact ⟨Nat.lt_succ_iff.mp (List.mem_range.mp inRange),here⟩
  · rintro ⟨bound,here⟩
    exact ⟨b.order,List.mem_range.mpr (Nat.lt_succ_iff.mpr bound),List.mem_map.mpr ⟨b.base,here,rfl⟩⟩

theorem setList_same : setList lists order list order = list := if_pos rfl
theorem setList_other (other : o ≠ order) : setList lists order list o = lists o := if_neg other

theorem range_update (n : Nat) (inside : order < n) (more : (after order).Perm (extra :: before order))
    (same : ∀ o, o ≠ order → after o = before o) :
    ((List.range n).flatMap after).Perm (extra :: (List.range n).flatMap before) := by
  induction n with
  | zero => omega
  | succ n ih =>
    rw [List.range_succ,List.flatMap_append,List.flatMap_append,List.flatMap_singleton,List.flatMap_singleton]
    by_cases last : order = n
    · subst last
      have below : (List.range order).flatMap after = (List.range order).flatMap before := by
        apply List.flatMap_congr
        intro o here
        exact same o (Nat.ne_of_lt (List.mem_range.mp here))
      rw [below]
      exact (more.append_left _).trans List.perm_middle
    · rw [same n (Ne.symm last)]
      exact (ih (by omega)).append_right _

-- The one fact every list operation uses: the block it moves is the difference.
theorem freeBlocks_update (lists : Nat → List Nat) (list : List Nat) (base : Nat) (bound : order ≤ maxOrder) (more : list.Perm (base :: lists order)) :
    (freeBlocks (setList lists order list)).Perm (⟨base,order⟩ :: freeBlocks lists) := by
  apply range_update _ (Nat.lt_succ_iff.mpr bound)
  · rw [setList_same]
    exact more.map (fun b => (⟨b,order⟩ : Block))
  · intro o other
    rw [setList_other other]

theorem headerFromPointer_eq (low : headerSize ≤ pointer) (high : pointer < 2^64) :
    headerFromPointer pointer = pointer - headerSize := sub64_of_le low high

theorem page_le_block (large : minOrder ≤ order) : pageSize ≤ 2^order :=
  Nat.pow_le_pow_right (by decide : 0 < 2) large

section Holding
variable {hand : List Block} {state : State} {allocations : List Live} {cells : Set Nat} {b : Block}

theorem Holding.range (holding : Holding hand state allocations cells)
    (present : b ∈ hand ++ allBlocks state allocations) :
    pageSize ≤ b.base ∧ b.base + 2^b.order ≤ 2^64 - pageSize := by
  have first := (holding.tiling.exact b.base).mpr ⟨b,present,contains_base b⟩
  have positive : 0 < 2^b.order := Nat.two_pow_pos _
  have last := (holding.tiling.exact (b.base + 2^b.order - 1)).mpr
    ⟨b,present,⟨by omega,by omega⟩⟩
  have low := holding.bounded _ first
  have high := holding.bounded _ last
  omega

theorem Holding.pages (holding : Holding hand state allocations cells)
    (present : b ∈ hand ++ allBlocks state allocations) : pageSize ≤ 2^b.order :=
  page_le_block (holding.orders b present).1

theorem free_mem (bound : order ≤ maxOrder) (present : base ∈ state.freeLists order) :
    (⟨base,order⟩ : Block) ∈ hand ++ allBlocks state allocations := by
  have free := mem_freeBlocks (b:=⟨base,order⟩).mpr ⟨bound,present⟩
  simp only [allBlocks,List.mem_append]
  exact .inr (.inl free)

theorem live_mem (present : a ∈ allocations) :
    blockOf state.memory a ∈ hand ++ allBlocks state allocations := by
  simp only [allBlocks,List.mem_append,List.mem_map]
  exact .inr (.inr ⟨a,present,rfl⟩)

theorem blocks_congr (headers : ∀ a ∈ allocations, headerOf after a = headerOf before a) :
    allocations.map (blockOf after) = allocations.map (blockOf before) := by
  apply List.map_congr_left
  intro a present
  rw [blockOf,blockOf,headers a present]

theorem Placed.congr (placed : Placed before a) (header : headerOf after a = headerOf before a) :
    Placed after a := by
  have block : blockOf after a = blockOf before a := by rw [blockOf,blockOf,header]
  exact ⟨by rw [header]; exact placed.state,by rw [header]; exact placed.size,
    by rw [header]; exact placed.alignment,placed.power,placed.positive,placed.aligned,
    by rw [block]; exact placed.header,by rw [block]; exact placed.payload⟩

-- Everything the invariant reads from memory: live headers and list links.
theorem Holding.remember (holding : Holding hand state allocations cells) (after : Memory)
    (headers : ∀ a ∈ allocations, headerOf after a = headerOf state.memory a)
    (linked : ∀ order ≤ maxOrder, Linked after (state.freeLists order)) :
    Holding hand {state with memory := after} allocations cells := by
  have same : allBlocks {state with memory := after} allocations = allBlocks state allocations := by
    rw [allBlocks,allBlocks,blocks_congr headers]
  exact ⟨holding.bounded,by rw [same]; exact holding.tiling,by rw [same]; exact holding.orders,
    fun a present => (holding.placed a present).congr (headers a present),linked⟩

theorem readHeader_congr (same : ∀ x, address ≤ x → x < address + headerSize → before x = after x) :
    readHeader before address = readHeader after address := by
  have fields : ∀ offset width, offset + width ≤ headerSize →
      read before (address+offset) width = read after (address+offset) width := by
    intro offset width inside
    exact read_congr (fun x low high => same x (by omega) (by omega))
  simp only [readHeader,stateOffset]
  rw [fields 8 1 (by decide),fields 9 1 (by decide),fields 16 8 (by decide),fields 24 8 (by decide)]
  congr 1
  exact fields 0 8 (by decide)

-- The header lies inside the block it describes.
theorem Holding.header_inside (holding : Holding hand state allocations cells) (present : a ∈ allocations)
    (low : headerFromPointer a.pointer ≤ x) (high : x < headerFromPointer a.pointer + headerSize) :
    (blockOf state.memory a).Contains x := by
  have placed := holding.placed a present
  have range := holding.range (live_mem present)
  have header := placed.header
  have payload := placed.payload
  have equal : headerFromPointer a.pointer = a.pointer - headerSize := headerFromPointer_eq (by omega)
    (by simp only [pageSize] at range; omega)
  rw [equal] at low high
  exact ⟨by omega,by omega⟩

theorem Holding.header_eq (holding : Holding hand state allocations cells) (present : a ∈ allocations)
    (outside : ∀ x, (blockOf state.memory a).Contains x → after x = state.memory x) :
    headerOf after a = headerOf state.memory a :=
  readHeader_congr (fun x low high => outside x (holding.header_inside present low high))

theorem linked_congr (linked : Linked before list)
    (same : ∀ base ∈ list, read after base 8 = read before base 8) : Linked after list := by
  induction list with
  | nil => trivial
  | cons base rest ih =>
    exact ⟨(same base (by simp)).trans linked.1,ih linked.2 (fun b present => same b (by simp [present]))⟩

-- Writes that stay inside a block in hand are invisible to the invariant.
theorem Holding.overwrite (holding : Holding hand state allocations cells) (held : b ∈ hand) (after : Memory)
    (outside : ∀ x, ¬ b.Contains x → after x = state.memory x) :
    Holding hand {state with memory := after} allocations cells := by
  have here : b ∈ hand ++ allBlocks state allocations := by simp [held]
  have elsewhere : ∀ c ∈ allBlocks state allocations, ∀ x, c.Contains x → after x = state.memory x := by
    intro c present x inside
    apply outside
    intro inB
    exact (List.pairwise_append.mp holding.tiling.apart).2.2 b held c present x inB inside
  apply holding.remember
  · intro a present
    apply holding.header_eq present
    exact elsewhere _ (by simp only [allBlocks,List.mem_append,List.mem_map]; exact .inr ⟨a,present,rfl⟩)
  · intro order bound
    apply linked_congr (holding.linked order bound)
    intro base present
    have free : (⟨base,order⟩ : Block) ∈ hand ++ allBlocks state allocations := free_mem bound present
    have pages := holding.pages free
    apply read_congr
    intro x low high
    refine elsewhere ⟨base,order⟩ ?_ x ⟨low,?_⟩
    · simp only [allBlocks,List.mem_append]
      exact .inl (mem_freeBlocks.mpr ⟨bound,present⟩)
    · simp only [pageSize] at pages ⊢; omega

theorem Holding.reorder (holding : Holding hand state allocations cells)
    (same : List.Perm (hand ++ allBlocks state allocations) (hand' ++ allBlocks state' allocations'))
    (placed : ∀ a ∈ allocations', Placed state'.memory a)
    (linked : ∀ order ≤ maxOrder, Linked state'.memory (state'.freeLists order)) :
    Holding hand' state' allocations' cells :=
  ⟨holding.bounded,holding.tiling.perm same,fun b present => holding.orders b (same.mem_iff.mpr present),
    placed,linked⟩

theorem headAddress_lt (holding : Holding hand state allocations cells) (bound : order ≤ maxOrder) :
    headAddress (state.freeLists order) < 256^8 := by
  cases list : state.freeLists order with
  | nil => simp [headAddress]
  | cons base rest =>
    have range := holding.range (free_mem bound (by rw [list]; simp : base ∈ state.freeLists order))
    have positive : 0 < 2^order := Nat.two_pow_pos _
    simp only [headAddress,List.headD_cons,pageSize] at *
    omega

theorem Holding.push (holding : Holding (b :: hand) state allocations cells) :
    Holding hand (pushFreeBlock state b.base b.order) allocations cells := by
  have here : b ∈ b :: hand ++ allBlocks state allocations := by simp
  have range := holding.range here
  have bound := (holding.orders b here).2
  have pages := holding.pages here
  have nonzero : b.base ≠ 0 := by simp only [pageSize] at range; omega
  have written := holding.overwrite (b:=b) (by simp)
    (write state.memory b.base 8 (headAddress (state.freeLists b.order))) (by
      intro x outside
      apply write_outside
      simp only [pageSize] at pages
      simp only [Block.Contains] at outside
      omega)
  refine written.reorder ?_ written.placed ?_
  · simp only [allBlocks,pushFreeBlock,if_neg nonzero]
    have moved := freeBlocks_update state.freeLists _ b.base bound
      (List.Perm.refl (b.base :: state.freeLists b.order))
    have front := (moved.append_right (allocations.map (blockOf (write state.memory b.base 8
      (headAddress (state.freeLists b.order)))))).symm.append_left hand
    have inHand : ∀ rest, (hand ++ b :: rest).Perm (b :: (hand ++ rest)) := fun _ => List.perm_middle
    exact (inHand _).symm.trans front
  · intro order limit
    simp only [pushFreeBlock,if_neg nonzero]
    by_cases same : order = b.order
    · subst same
      rw [setList_same]
      exact ⟨read_write (headAddress_lt holding bound),written.linked _ bound⟩
    · rw [setList_other same]
      exact written.linked order limit

theorem Holding.pop (holding : Holding hand state allocations cells) (bound : order ≤ maxOrder)
    (list : state.freeLists order = base :: next) :
    Holding (⟨base,order⟩ :: hand) {state with freeLists := setList state.freeLists order next}
      allocations cells := by
  have linked := holding.linked order bound
  rw [list] at linked
  refine holding.reorder ?_ holding.placed ?_
  · have restored : setList (setList state.freeLists order next) order (base :: next) = state.freeLists := by
      funext o
      by_cases same : o = order
      · rw [same,setList_same,list]
      · rw [setList_other same,setList_other same]
    have moved := freeBlocks_update (setList state.freeLists order next) (base :: next) base bound (by rw [setList_same])
    rw [restored] at moved
    have front := (moved.append_right (allocations.map (blockOf state.memory))).append_left hand
    exact front.trans List.perm_middle
  · intro o limit
    by_cases same : o = order
    · subst same
      simp only [setList_same]
      exact linked.2
    · simp only [setList_other same]
      exact holding.linked o limit

theorem Holding.split (holding : Holding (b :: hand) state allocations cells) (large : minOrder < b.order) :
    Holding (b.lower :: b.upper :: hand) state allocations cells := by
  have bound := (holding.orders b (by simp)).2
  refine ⟨holding.bounded,holding.tiling.split (by omega),?_,holding.placed,holding.linked⟩
  intro c present
  simp only [List.cons_append,List.mem_cons] at present
  rcases present with rfl | rfl | present
  · simp only [Block.lower]; omega
  · simp only [Block.upper]; omega
  · exact holding.orders c (by simp only [List.cons_append,List.mem_cons]; exact .inr present)

theorem Holding.merge (holding : Holding (b.buddy :: b :: hand) state allocations cells)
    (small : b.order < maxOrder) : Holding (b.parent :: hand) state allocations cells := by
  have bound := (holding.orders b (by simp)).1
  have swapped := holding.tiling.perm (List.Perm.swap b b.buddy (hand ++ allBlocks state allocations))
  refine ⟨holding.bounded,swapped.merge,?_,holding.placed,holding.linked⟩
  intro c present
  simp only [List.cons_append,List.mem_cons] at present
  rcases present with rfl | present
  · simp only [Block.parent]; omega
  · exact holding.orders c (by simp only [List.cons_append,List.mem_cons]; exact .inr (.inr present))

theorem Holding.admit (holding : Holding (b :: hand) state allocations cells) (a : Live)
    (placed : Placed state.memory a) (block : blockOf state.memory a = b) :
    Holding hand state (a :: allocations) cells := by
  refine holding.reorder ?_ ?_ holding.linked
  · simp only [allBlocks,List.map_cons,block]
    rw [List.cons_append,← List.append_assoc,← List.append_assoc]
    exact List.perm_middle.symm
  · intro c present
    rcases List.mem_cons.mp present with rfl | present
    · exact placed
    · exact holding.placed c present

theorem Holding.release (holding : Holding hand state allocations cells) (present : a ∈ allocations) :
    Holding (blockOf state.memory a :: hand) state (allocations.erase a) cells := by
  refine holding.reorder ?_ (fun c here => holding.placed c (List.mem_of_mem_erase here)) holding.linked
  have moved := (List.perm_cons_erase present).map (blockOf state.memory)
  simp only [allBlocks]
  rw [← List.append_assoc,List.cons_append,← List.append_assoc]
  exact (moved.append_left _).trans List.perm_middle

end Holding

end BuddyAllocator
