import Gameos.MachineWords

namespace AllocatorTypes
open MachineWords

inductive AllocatorMode where
  | allocate
  | free
  | resize
  | features
  | isThisYours
  | info
deriving DecidableEq, Repr

-- Allocator_Features is a 32-bit flag set; the constants keep their bits.
abbrev AllocatorFeatures := Nat
namespace AllocatorFeatures

def none : AllocatorFeatures := 0b000000000000
def free : AllocatorFeatures := 0b000000000001
def resizeShrinkNoOp : AllocatorFeatures := 0b000000000010
def actuallyResize : AllocatorFeatures := 0b000000000100
def threadsafe : AllocatorFeatures := 0b000000001000
def isThisYours : AllocatorFeatures := 0b000000010000
def info : AllocatorFeatures := 0b000000100000
def fastBumpAllocator : AllocatorFeatures := 0b000001000000
def generalHeapAllocator : AllocatorFeatures := 0b000010000000
def perFrameTemporaryStorage : AllocatorFeatures := 0b000100000000
def debugAllocator : AllocatorFeatures := 0b001000000000

end AllocatorFeatures

def hasFlag (features flag : AllocatorFeatures) : Bool := decide (features &&& flag = flag)

inductive AllocatorError where
  | none
  | outOfMemory
  | useOfUninitializedAllocator
  | invalidPointer
  | invalidArgument
  | modeNotImplemented
deriving DecidableEq, Repr

-- Addresses are natural numbers and 0 is the null pointer.
structure AllocatorResult where
  memory : Nat
  error : AllocatorError
deriving DecidableEq, Repr

def success (memory : Nat) : AllocatorResult := ⟨memory,.none⟩
def failure (error : AllocatorError) : AllocatorResult := ⟨0,error⟩

def maxAlign : Nat := 16
def pageSize : Nat := 4096

end AllocatorTypes
