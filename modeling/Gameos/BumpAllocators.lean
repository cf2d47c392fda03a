import Gameos.AllocatorContract

-- The temporary allocator and the arena, allocator.hh from
-- Temporary_Allocator_State to Arena_Allocator_State.
namespace BumpAllocators
open MachineWords AllocatorTypes AllocatorCalls

-- A failed assertion, of the allocator itself or of the one it is backed by.
inductive Trap where
  | asserted
  | rejected
deriving DecidableEq, Repr

def underneath (result : Option α) : Except Trap α :=
  match result with
  | some value => .ok value
  | none => .error .rejected

def demand (condition : Bool) : Except Trap Unit := if condition then .ok () else .error .asserted

-- align_up of a signed number.
def alignUpSize (value : Int) (alignment : Nat) : Int := toS64 (alignUp (toU64 value) alignment)

-- Where an allocation behind `current` begins and ends.
def bump (current limit : Nat) (size alignment : Int) : Option (Nat × Nat) :=
  let aligned := alignUp current (toU64 alignment)
  let next := add64 aligned (toU64 size)
  if next < aligned ∨ limit < next then none else some (aligned,next)

-- Where the last allocation ends when it grows in its place.
def grow (current limit oldMemory : Nat) (oldSize size : Int) : Option Nat :=
  if oldMemory ≠ 0 ∧ oldMemory ≤ current ∧ add64 oldMemory (toU64 oldSize) = current then
    let next := add64 oldMemory (toU64 size)
    if oldMemory ≤ next ∧ next ≤ limit then some next else none
  else none

structure OverflowPage where
  address : Nat
  size : Int
deriving DecidableEq, Repr

def overflowPageHeaderSize : Int := 16

def OverflowPage.data (page : OverflowPage) : Nat := add64 page.address (toU64 overflowPageHeaderSize)

structure TemporaryMark where
  topOverflowPage : Nat
  currentPageBytesOccupied : Int
  totalBytesOccupied : Int
deriving DecidableEq, Repr

structure TemporaryState where
  originalData : Nat
  originalSize : Int
  data : Nat
  size : Int
  currentPageBytesOccupied : Int
  totalBytesOccupied : Int
  highWaterMark : Int
  -- from overflow_pages along next
  overflowPages : List OverflowPage
  -- whether there is a backing_allocator
  backed : Bool
deriving DecidableEq, Repr

namespace TemporaryState

def currentPoint (state : TemporaryState) : Nat := add64 state.data (toU64 state.currentPageBytesOccupied)
def limit (state : TemporaryState) : Nat := add64 state.data (toU64 state.size)
def topOverflowPage (state : TemporaryState) : Nat := (state.overflowPages.head?.map (·.address)).getD 0

def overMemory (memory : Nat) (size : Int) : Except Trap TemporaryState := do
  demand (memory ≠ 0)
  demand (0 < size)
  return ⟨memory,size,memory,size,0,0,0,[],false⟩

def backedBy (allocator : Allocator σ) (size : Int) (s : σ) : Except Trap (TemporaryState × σ) := do
  demand (0 < size)
  let (allocation,s) ← underneath (allocator.alloc size maxAlign s)
  demand (allocation.memory ≠ 0)
  demand (allocation.error = .none)
  return (⟨allocation.memory,size,allocation.memory,size,0,0,0,[],true⟩,s)

def mark (state : TemporaryState) : TemporaryMark :=
  ⟨state.topOverflowPage,state.currentPageBytesOccupied,state.totalBytesOccupied⟩

def updateHighWaterMark (state : TemporaryState) : TemporaryState :=
  if state.highWaterMark < state.totalBytesOccupied then {state with highWaterMark := state.totalBytesOccupied} else state

-- The bytes of the page behind the header, and with it.
def pageSize (state : TemporaryState) (minimumSize alignment : Int) : Int :=
  let defaultPageSize :=
    if overflowPageHeaderSize < state.originalSize then state.originalSize - overflowPageHeaderSize else 0
  if toS64 (minimumSize + alignment) < defaultPageSize then defaultPageSize else toS64 (minimumSize + alignment)

def pageBytes (pageSize : Int) : Int := alignUpSize (toS64 (overflowPageHeaderSize + pageSize)) maxAlign

def pushPage (state : TemporaryState) (page : OverflowPage) : TemporaryState :=
  { state with
    overflowPages := page :: state.overflowPages
    data := page.data
    size := page.size
    currentPageBytesOccupied := 0 }

def addNewOverflowPage (allocator : Allocator σ) (minimumSize alignment : Int) (state : TemporaryState) (s : σ) :
    Except Trap (AllocatorResult × TemporaryState × σ) := do
  let pageSize := state.pageSize minimumSize alignment
  let (pageAllocation,s) ← underneath (allocator.alloc (pageBytes pageSize) maxAlign s)
  if pageAllocation.memory = 0 then return (pageAllocation,state,s)
  else return (success pageAllocation.memory,state.pushPage ⟨pageAllocation.memory,pageSize⟩,s)

-- The current page up to `next`.
def occupy (state : TemporaryState) (next : Nat) : TemporaryState :=
  updateHighWaterMark { state with
    totalBytesOccupied := toS64 (state.totalBytesOccupied + toS64 (sub64 next state.currentPoint))
    currentPageBytesOccupied := toS64 (sub64 next state.data) }

def allocateFromCurrentPage (requestedSize alignment : Int) (state : TemporaryState) : AllocatorResult × TemporaryState :=
  match bump state.currentPoint state.limit requestedSize alignment with
  | none => (failure .outOfMemory,state)
  | some (aligned,next) => (success aligned,state.occupy next)

def allocate (allocator : Allocator σ) (size alignment : Int) (state : TemporaryState) (s : σ) :
    Except Trap (AllocatorResult × TemporaryState × σ) :=
  if state.data = 0 then .ok (failure .useOfUninitializedAllocator,state,s)
  else if size < 0 ∨ isPowerOfTwo alignment = false then .ok (failure .invalidArgument,state,s)
  else if size = 0 then .ok (success 0,state,s)
  else
    let (allocation,state) := state.allocateFromCurrentPage size alignment
    if allocation.memory ≠ 0 ∨ state.backed = false then .ok (allocation,state,s)
    else do
      let (pageAllocation,state,s) ← addNewOverflowPage allocator size alignment state s
      if pageAllocation.memory = 0 then return (pageAllocation,state,s)
      else
        let (allocation,state) := state.allocateFromCurrentPage size alignment
        return (allocation,state,s)

-- The last allocation up to `next`.
def extend (state : TemporaryState) (oldSize size : Int) (next : Nat) : TemporaryState :=
  updateHighWaterMark { state with
    totalBytesOccupied := toS64 (state.totalBytesOccupied + (size - oldSize))
    currentPageBytesOccupied := toS64 (sub64 next state.data) }

def resize (allocator : Allocator σ) (size alignment oldSize : Int) (oldMemory : Nat) (state : TemporaryState) (s : σ) :
    Except Trap (AllocatorResult × TemporaryState × σ) :=
  if size < 0 ∨ isPowerOfTwo alignment = false then .ok (failure .invalidArgument,state,s)
  else if oldMemory ≠ 0 ∧ oldMemory % toU64 alignment ≠ 0 then .ok (failure .modeNotImplemented,state,s)
  else if size = 0 ∨ size ≤ oldSize then .ok (success (if size = 0 then 0 else oldMemory),state,s)
  else
    match grow state.currentPoint state.limit oldMemory oldSize size with
    | some next => .ok (success oldMemory,state.extend oldSize size next,s)
    | none =>
      if oldMemory = 0 then allocate allocator size alignment state s
      else .ok (failure .modeNotImplemented,state,s)

-- The loop of free_overflow_pages. Its target is null, or a page that has to be
-- among them: "Temporary allocator mark belongs to another allocator."
def freePages (allocator : Allocator σ) (target : Nat) : List OverflowPage → σ → Except Trap (List OverflowPage × σ)
  | [], s => if target = 0 then .ok ([],s) else .error .asserted
  | page :: pages, s =>
    if page.address = target then .ok (page :: pages,s)
    else do
      let (_,s) ← underneath (allocator.free page.address (overflowPageHeaderSize + page.size) 0 s)
      freePages allocator target pages s

def currentPage (state : TemporaryState) : List OverflowPage → Nat × Int
  | [] => (state.originalData,state.originalSize)
  | page :: _ => (page.data,page.size)

def freeOverflowPages (allocator : Allocator σ) (target : Nat) (state : TemporaryState) (s : σ) :
    Except Trap (TemporaryState × σ) := do
  let (pages,s) ← freePages allocator target state.overflowPages s
  let (data,size) := state.currentPage pages
  return ({state with overflowPages := pages,data := data,size := size},s)

def rewind (allocator : Allocator σ) (markPoint : TemporaryMark) (state : TemporaryState) (s : σ) :
    Except Trap (TemporaryState × σ) := do
  let (state,s) ← freeOverflowPages allocator markPoint.topOverflowPage state s
  return ({ state with
    currentPageBytesOccupied := markPoint.currentPageBytesOccupied
    totalBytesOccupied := markPoint.totalBytesOccupied },s)

def reset (allocator : Allocator σ) (state : TemporaryState) (s : σ) : Except Trap (TemporaryState × σ) := do
  let (state,s) ← freeOverflowPages allocator 0 state s
  return ({ state with
    data := state.originalData
    size := state.originalSize
    currentPageBytesOccupied := 0
    totalBytesOccupied := 0
    highWaterMark := 0 },s)

def destroy (allocator : Allocator σ) (state : TemporaryState) (s : σ) : Except Trap σ := do
  let (state,s) ← freeOverflowPages allocator 0 state s
  if state.backed ∧ state.originalData ≠ 0 then
    let (_,s) ← underneath (allocator.free state.originalData state.originalSize 0 s)
    return s
  else return s

end TemporaryState

structure ArenaState where
  allocated : Int
  memoryBase : Nat
  currentPoint : Nat
  addressLimit : Nat
  -- whether there is a backing_allocator
  backed : Bool
deriving DecidableEq, Repr

namespace ArenaState

def overMemory (memory : Nat) (size : Int) : Except Trap ArenaState := do
  demand (memory ≠ 0)
  demand (0 < size)
  return ⟨size,memory,memory,add64 memory (toU64 size),false⟩

def backedBy (allocator : Allocator σ) (reserve : Int) (s : σ) : Except Trap (ArenaState × σ) := do
  let allocated := alignUpSize reserve pageSize
  let (allocation,s) ← underneath (allocator.alloc allocated maxAlign s)
  demand (allocation.memory ≠ 0)
  demand (allocation.error = .none)
  return (⟨allocated,allocation.memory,allocation.memory,add64 allocation.memory (toU64 allocated),true⟩,s)

def reset (state : ArenaState) : ArenaState := {state with currentPoint := state.memoryBase}

-- Without a backing_allocator the calls go to that of the context.
def resizeAndDontCopyOldMemory (allocator : Allocator σ) (reserve : Int) (state : ArenaState) (s : σ) :
    Except Trap (ArenaState × σ) := do
  let reserve := alignUpSize reserve pageSize
  let (allocation,s) ← underneath (allocator.alloc reserve maxAlign s)
  demand (allocation.memory ≠ 0)
  let (_,s) ← underneath (allocator.free state.memoryBase state.allocated 0 s)
  return ({ state with
    allocated := reserve
    memoryBase := allocation.memory
    currentPoint := allocation.memory
    addressLimit := add64 allocation.memory (toU64 reserve) },s)

def allocate (size alignment : Int) (state : ArenaState) : AllocatorResult × ArenaState :=
  if state.memoryBase = 0 then (failure .useOfUninitializedAllocator,state)
  else if size < 0 ∨ isPowerOfTwo alignment = false then (failure .invalidArgument,state)
  else if size = 0 then (success 0,state)
  else
    match bump state.currentPoint state.addressLimit size alignment with
    | none => (failure .outOfMemory,state)
    | some (aligned,next) => (success aligned,{state with currentPoint := next})

def resize (size alignment oldSize : Int) (oldMemory : Nat) (state : ArenaState) : AllocatorResult × ArenaState :=
  if size < 0 ∨ isPowerOfTwo alignment = false then (failure .invalidArgument,state)
  else if oldMemory ≠ 0 ∧ oldMemory % toU64 alignment ≠ 0 then (failure .modeNotImplemented,state)
  else if size = 0 ∨ size ≤ oldSize then (success (if size = 0 then 0 else oldMemory),state)
  else
    match grow state.currentPoint state.addressLimit oldMemory oldSize size with
    | some next => (success oldMemory,{state with currentPoint := next})
    | none =>
      if oldMemory = 0 then allocate size alignment state
      else (failure .modeNotImplemented,state)

def destroy (allocator : Allocator σ) (state : ArenaState) (s : σ) : Except Trap σ :=
  if state.backed then do
    let (_,s) ← underneath (allocator.free state.memoryBase state.allocated 0 s)
    return s
  else .ok s

end ArenaState

end BumpAllocators
