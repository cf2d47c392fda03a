import Gameos.AllocatorTypes

-- Allocators as their callers use them: allocator.hh from alloc to realloc.
namespace AllocatorCalls
open MachineWords AllocatorTypes

-- An Allocator by the modes of its proc. `none` is a failed assertion; what the
-- allocator writes for itself and the bytes of its blocks are in `σ`.
structure Allocator (σ : Type) where
  procAllocate : (size alignment : Int) → σ → Option (AllocatorResult × σ)
  procResize : (size alignment oldSize : Int) → (oldMemory : Nat) → σ → Option (AllocatorResult × σ)
  procFree : (alignment oldSize : Int) → (oldMemory : Nat) → σ → Option (AllocatorResult × σ)
  features : AllocatorFeatures
  memcpy : (destination source : Nat) → (length : Int) → σ → σ

namespace Allocator
variable (allocator : Allocator σ)

def alloc (size alignment : Int) (s : σ) : Option (AllocatorResult × σ) :=
  if size < 0 then some (failure .invalidArgument,s)
  else if isPowerOfTwo alignment = false then some (failure .invalidArgument,s)
  else allocator.procAllocate size alignment s

-- mem::free; without an alignment it passes 0.
def free (pointer : Nat) (size alignment : Int) (s : σ) : Option (AllocatorError × σ) :=
  if size < 0 ∨ alignment < 0 then some (.invalidArgument,s)
  else (allocator.procFree alignment size pointer s).map fun (result,s) => (result.error,s)

-- The end of realloc: the old block is freed, or else the new one.
def replace (pointer : Nat) (oldSize newSize alignment : Int) (allocation : AllocatorResult) (s : σ) :
    Option (AllocatorResult × σ) :=
  if hasFlag allocator.features AllocatorFeatures.free = false then some (allocation,s)
  else
    match allocator.free pointer oldSize alignment s with
    | none => none
    | some (error,s) =>
      if error ≠ .none then
        (allocator.free allocation.memory newSize alignment s).map fun (_,s) => (failure error,s)
      else some (allocation,s)

-- realloc where RESIZE is not implemented.
def moveBlock (pointer : Nat) (oldSize newSize alignment : Int) (direct : AllocatorResult) (s : σ) :
    Option (AllocatorResult × σ) :=
  if pointer ≠ 0 ∧ oldSize = 0 then some (failure .invalidArgument,s)
  else if newSize = 0 then
    if hasFlag allocator.features AllocatorFeatures.free = false then some (direct,s)
    else (allocator.free pointer oldSize alignment s).map fun (error,s) => (⟨0,error⟩,s)
  else if pointer ≠ 0 ∧ newSize ≤ oldSize ∧ hasFlag allocator.features AllocatorFeatures.resizeShrinkNoOp = true then
    some (success pointer,s)
  else
    match allocator.alloc newSize alignment s with
    | none => none
    | some (allocation,s) =>
      if allocation.memory = 0 then some (allocation,s)
      else
        let copySize := if oldSize < newSize then oldSize else newSize
        let s := if pointer ≠ 0 ∧ 0 < copySize then allocator.memcpy allocation.memory pointer copySize s else s
        allocator.replace pointer oldSize newSize alignment allocation s

def realloc (pointer : Nat) (oldSize newSize alignment : Int) (s : σ) : Option (AllocatorResult × σ) :=
  if oldSize < 0 ∨ newSize < 0 ∨ alignment < 0 then some (failure .invalidArgument,s)
  else if pointer = 0 ∧ newSize = 0 then some (success 0,s)
  else
    match allocator.procResize newSize alignment oldSize pointer s with
    | none => none
    | some (direct,s) =>
      if direct.error ≠ .modeNotImplemented then some (direct,s)
      else allocator.moveBlock pointer oldSize newSize alignment direct s

end Allocator

end AllocatorCalls
