import Gameos.AllocatorTypes
import Gameos.ByteMemory
import Gameos.DyadicBlocks

namespace BuddyAllocator
open MachineWords ByteMemory AllocatorTypes DyadicBlocks

def features : AllocatorFeatures :=
  AllocatorFeatures.threadsafe ||| AllocatorFeatures.free ||| AllocatorFeatures.actuallyResize |||
    AllocatorFeatures.info ||| AllocatorFeatures.generalHeapAllocator

def minOrder : Nat := 12
def maxOrder : Nat := 63

-- Allocation_State is one byte of the header; any other byte is neither.
def live : Nat := 0xA5
def freed : Nat := 0x5A

structure AllocationHeader where
  blockBase : Nat
  order : Nat
  state : Nat
  requestedSize : Nat
  requestedAlignment : Nat
deriving DecidableEq, Repr

def headerSize : Nat := 32
def stateOffset : Nat := 9

-- Field offsets of the 32-byte header; offsets 14 and 15 are padding.
def writeHeader (memory : Memory) (address : Nat) (header : AllocationHeader) : Memory :=
  let memory := write memory address 8 header.blockBase
  let memory := write memory (address+8) 1 header.order
  let memory := write memory (address+stateOffset) 1 header.state
  let memory := write memory (address+10) 4 0
  let memory := write memory (address+16) 8 header.requestedSize
  write memory (address+24) 8 header.requestedAlignment

def readHeader (memory : Memory) (address : Nat) : AllocationHeader where
  blockBase := read memory address 8
  order := read memory (address+8) 1
  state := read memory (address+stateOffset) 1
  requestedSize := read memory (address+16) 8
  requestedAlignment := read memory (address+24) 8

-- A free list is kept as the addresses its links visit, head first. The links
-- are also written into memory, where every other write can reach them.
structure State where
  freeLists : Nat → List Nat
  memory : Memory

def blockSizeForOrder (order : Nat) : Nat := 2^order

-- `current` is a 32-bit int: it doubles modulo 2^32 and is converted to u64,
-- sign extended, by the comparison.
def toS32 (v : Int) : Int := (v + 2^31) % 2^32 - 2^31

def orderLoop (blockSize : Nat) (current : Int) (order : Nat) : Nat :=
  if toU64 current < blockSize ∧ order < maxOrder then
    orderLoop blockSize (toS32 (current*2)) (order+1)
  else order
termination_by maxOrder - order

def orderForBlockSize (blockSize : Nat) : Nat := orderLoop blockSize 4096 minOrder

-- The loop starts at one page; `0 < blockSize` is there for termination only.
def nextBlockLoop (requiredSize blockSize : Nat) : Nat :=
  if 0 < blockSize ∧ blockSize < requiredSize ∧ blockSize < 2^maxOrder then
    nextBlockLoop requiredSize (blockSize*2)
  else blockSize
termination_by 2^maxOrder - blockSize

def nextBlockSize (requiredSize : Nat) : Nat := nextBlockLoop requiredSize pageSize

def headerFromPointer (memory : Nat) : Nat := sub64 memory headerSize

def clear (state : State) : State := {state with freeLists := fun _ => []}

def setList (lists : Nat → List Nat) (order : Nat) (list : List Nat) : Nat → List Nat :=
  fun o => if o = order then list else lists o

def headAddress (list : List Nat) : Nat := list.headD 0

-- A block at address 0 makes the head the null pointer, which ends the list.
def pushFreeBlock (state : State) (base order : Nat) : State where
  freeLists := setList state.freeLists order
    (if base = 0 then [] else base :: state.freeLists order)
  memory := write state.memory base 8 (headAddress (state.freeLists order))

-- `link` is where the pointer to the visited block is stored: the list head
-- or the first word of the block before it.
def unlink (base : Nat) : Option Nat → List Nat → Memory → Option (List Nat × Memory)
  | _,[],_ => none
  | link,block :: rest,memory =>
    if block = base then
      match link with
      | none => some (rest,memory)
      | some owner => some (rest,write memory owner 8 (headAddress rest))
    else
      match unlink base (some block) rest memory with
      | none => none
      | some (rest,memory) => some (block :: rest,memory)

def removeFreeBlock (state : State) (order base : Nat) : Option State :=
  match unlink base none (state.freeLists order) state.memory with
  | none => none
  | some (list,memory) => some ⟨setList state.freeLists order list,memory⟩

def isFreeBlock (state : State) (order base : Nat) : Bool := (state.freeLists order).contains base

def shrinkBlock (current blockSize : Nat) : Nat :=
  if pageSize < blockSize ∧ current &&& (blockSize-1) ≠ 0 then shrinkBlock current (blockSize/2)
  else blockSize
termination_by blockSize
decreasing_by simp only [pageSize] at *; omega

def regionBlockSize (current fin : Nat) : Nat :=
  let blockSize := shrinkBlock current (floorPow2 (fin-current))
  if blockSize < pageSize then pageSize else blockSize

theorem regionBlockSize_page (current fin : Nat) : pageSize ≤ regionBlockSize current fin := by
  simp only [regionBlockSize]; split <;> omega

def addRegionLoop (current fin : Nat) (state : State) : State :=
  if current < fin then
    addRegionLoop (current + regionBlockSize current fin) fin
      (pushFreeBlock state current (orderForBlockSize (regionBlockSize current fin)))
  else state
termination_by fin - current
decreasing_by have := regionBlockSize_page current fin; simp only [pageSize] at *; omega

def addRegion (state : State) (base size : Nat) : State :=
  let start := alignUp base pageSize
  let fin := alignDown (add64 base size) pageSize
  if fin ≤ start then state else addRegionLoop start fin state

def firstNonEmpty (lists : Nat → List Nat) (order : Nat) : Nat :=
  if order ≤ maxOrder ∧ lists order = [] then firstNonEmpty lists (order+1) else order
termination_by maxOrder + 1 - order

def splitDown (base target order : Nat) (state : State) : Nat × State :=
  if target < order then
    splitDown base target (order-1)
      (pushFreeBlock state (add64 base (blockSizeForOrder (order-1))) (order-1))
  else (order,state)
termination_by order

def requiredSizeFor (size alignment : Nat) : Nat := add64 (add64 size alignment) headerSize

def targetOrderFor (requiredSize : Nat) : Nat := orderForBlockSize (nextBlockSize requiredSize)

-- The block in hand after the search and the split, before anything is placed.
def takeBlock (state : State) (targetOrder : Nat) : Option (Block × State) :=
  let order := firstNonEmpty state.freeLists targetOrder
  if maxOrder < order then none
  else
    match state.freeLists order with
    | [] => none
    | blockBase :: next =>
      let (order,state) := splitDown blockBase targetOrder order
        {state with freeLists := setList state.freeLists order next}
      some (⟨blockBase,order⟩,state)

def placeBlock (state : State) (block : Block) (size alignment : Nat) : AllocatorResult × State :=
  let blockSize := blockSizeForOrder block.order
  let userPointer := alignUp (add64 block.base headerSize) alignment
  if add64 userPointer size < userPointer ∨ add64 block.base blockSize < add64 userPointer size then
    (failure .outOfMemory,pushFreeBlock state block.base block.order)
  else
    let header : AllocationHeader := ⟨block.base,block.order,live,size,alignment⟩
    (success userPointer,
      {state with memory := writeHeader state.memory (headerFromPointer userPointer) header})

def allocate (state : State) (size alignment : Int) : AllocatorResult × State :=
  if size < 0 ∨ isPowerOfTwo alignment = false then (failure .invalidArgument,state)
  else if size = 0 then (success 0,state)
  else
    let requestedSize := toU64 size
    let requestedAlignment := toU64 alignment
    let requiredSize := requiredSizeFor requestedSize requestedAlignment
    if requiredSize < requestedSize then (failure .invalidArgument,state)
    else if nextBlockSize requiredSize < pageSize then (failure .outOfMemory,state)
    else
      match takeBlock state (targetOrderFor requiredSize) with
      | none => (failure .outOfMemory,state)
      | some (block,state) => placeBlock state block requestedSize requestedAlignment

def buddyBaseOf (block : Block) : Nat := block.base ^^^ blockSizeForOrder block.order

def mergedBlock (block : Block) : Block :=
  ⟨if buddyBaseOf block < block.base then buddyBaseOf block else block.base,block.order+1⟩

def mergeUp (block : Block) (state : State) : Block × State :=
  if block.order < maxOrder then
    match removeFreeBlock state block.order (buddyBaseOf block) with
    | none => (block,state)
    | some state =>
      mergeUp (mergedBlock block) state
  else (block,state)
termination_by maxOrder - block.order
decreasing_by simp only [mergedBlock]; omega

-- `none` is the failed assertion "Buddy allocator: double free".
def free (state : State) (oldMemory : Nat) : Option (AllocatorResult × State) :=
  if oldMemory = 0 then some (success 0,state)
  else
    let headerPointer := headerFromPointer oldMemory
    let header := readHeader state.memory headerPointer
    if header.state ≠ live then none
    else
      let state := {state with memory := write state.memory (headerPointer+stateOffset) 1 freed}
      let (block,state) := mergeUp ⟨header.blockBase,header.order⟩ state
      some (success 0,pushFreeBlock state block.base block.order)

-- Every buddy on the way up is free; the base of the merged block.
def checkBuddies (state : State) (target : Nat) (block : Block) : Option Nat :=
  if block.order < target then
    if isFreeBlock state block.order (buddyBaseOf block) then
      checkBuddies state target (mergedBlock block)
    else none
  else some block.base
termination_by target - block.order
decreasing_by simp only [mergedBlock]; omega

-- The result of remove_free_block is ignored here, as in the source.
def removeBuddies (target : Nat) (block : Block) (state : State) : Nat × State :=
  if block.order < target then
    removeBuddies target (mergedBlock block)
      ((removeFreeBlock state block.order (buddyBaseOf block)).getD state)
  else (block.base,state)
termination_by target - block.order
decreasing_by simp only [mergedBlock]; omega

def moveInto (state : State) (block : Block) (size alignment oldSize oldMemory : Nat) :
    AllocatorResult × State :=
  let newUserAddress := alignUp (add64 block.base headerSize) alignment
  if add64 newUserAddress size < newUserAddress ∨
      add64 block.base (blockSizeForOrder block.order) < add64 newUserAddress size then
    (failure .modeNotImplemented,state)
  else
    let header : AllocationHeader := ⟨block.base,block.order,live,size,alignment⟩
    let memory := writeHeader state.memory (headerFromPointer newUserAddress) header
    let memory :=
      if newUserAddress ≠ oldMemory ∧ 0 < oldSize then
        copy memory newUserAddress oldMemory (if oldSize < size then oldSize else size)
      else memory
    (success newUserAddress,
      {state with memory := write memory (headerFromPointer oldMemory + stateOffset) 1 freed})

def resize (state : State) (size alignment oldSize : Int) (oldMemory : Nat) :
    AllocatorResult × State :=
  if size < 0 ∨ isPowerOfTwo alignment = false then (failure .invalidArgument,state)
  else if size = 0 then (success 0,state)
  else if oldMemory = 0 then allocate state size alignment
  else if oldMemory % toU64 alignment ≠ 0 then (failure .modeNotImplemented,state)
  else
    let headerPointer := headerFromPointer oldMemory
    let header := readHeader state.memory headerPointer
    let oldBlockSize := blockSizeForOrder header.order
    let available := sub64 (add64 header.blockBase oldBlockSize) oldMemory
    if toU64 size ≤ available ∧ toU64 alignment = header.requestedAlignment then
      (success oldMemory,
        {state with memory := write state.memory (headerPointer+16) 8 (toU64 size)})
    else
      let requiredSize := requiredSizeFor (toU64 size) (toU64 alignment)
      if requiredSize < toU64 size then (failure .invalidArgument,state)
      else
        let targetOrder := targetOrderFor requiredSize
        if targetOrder ≤ header.order ∨ maxOrder < targetOrder then (failure .modeNotImplemented,state)
        else
          match checkBuddies state targetOrder ⟨header.blockBase,header.order⟩ with
          | none => (failure .modeNotImplemented,state)
          | some _ =>
            let (newBlockBase,state) := removeBuddies targetOrder ⟨header.blockBase,header.order⟩ state
            moveInto state ⟨newBlockBase,targetOrder⟩ (toU64 size) (toU64 alignment) oldSize.toNat oldMemory

def isThisYours (state : State) (oldMemory : Nat) : AllocatorResult :=
  if oldMemory = 0 then success 0
  else
    let header := readHeader state.memory (headerFromPointer oldMemory)
    if header.state ≠ live then success 0
    else if header.order < minOrder ∨ maxOrder < header.order ∨
        isPowerOfTwo header.requestedAlignment = false then success 0
    else
      let userAddress := alignUp (add64 header.blockBase headerSize) header.requestedAlignment
      let limit := add64 userAddress header.requestedSize
      if oldMemory ≠ userAddress ∨ limit < userAddress ∨
          add64 header.blockBase (blockSizeForOrder header.order) < limit then success 0
      else success oldMemory

-- INFO fills the caller's record with the requested size and alignment.
def info (state : State) (pointer : Nat) : Except AllocatorError (Int × Int) :=
  if pointer = 0 then .error .invalidArgument
  else
    let header := readHeader state.memory (headerFromPointer pointer)
    if header.state ≠ live then .error .invalidPointer
    else .ok (toS64 header.requestedSize,toS64 header.requestedAlignment)

end BuddyAllocator
