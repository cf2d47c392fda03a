import Gameos.TransitionRuns
import Mathlib.Logic.Function.Basic
import Mathlib.Tactic.Common

-- kstd/array.hh: Array<T> as an owner of elements and of the storage they are
-- in. Several arrays over several allocators share one memory.
namespace ArrayLifetimes
open Function

def SSIZE_MAX_VALUE : Int := 9223372036854775807

-- An element that was moved from is still there to be destroyed.
inductive Slot (T : Type) where
  | raw
  | moved
  | live (value : T)

structure Block (T : Type) where
  allocator : Nat
  bytes : Int
  slots : Nat → Slot T

-- The buffers in use, by address. Nothing is at the null pointer, 0.
abbrev Heap (T : Type) := Nat → Option (Block T)

inductive Fault where
  -- no buffer, or no element, where one is read, destroyed or freed
  | absent
  -- construction over an element, or past the end of a buffer
  | occupied
  | outside
  -- a buffer is freed with elements in it, to another allocator or as of another size
  | leaked
  | mismatched
  -- a loop that does not end
  | endless
deriving DecidableEq, Repr

inductive Stop where
  -- the call names an array that is not there, or constructs one that is
  | undeclared
  | asserted (message : String)
  -- signed overflow in a size
  | overflow
  | fault (fault : Fault)
deriving DecidableEq, Repr

-- `trivial` is std::is_trivially_copyable_v<T>.
structure Element where
  size : Nat
  positive : 0 < size
  trivial : Bool

def nullAllocator : Nat := 0

-- What the allocators hand out. mem::null_allocator hands out nothing.
structure Allocators (T : Type) where
  alloc : Nat → Heap T → Int → Option Nat
  unused : alloc allocator heap bytes = some buffer → heap buffer = none
  nonnull : alloc allocator heap bytes ≠ some 0
  null : alloc nullAllocator heap bytes = none

-- An allocator of `none` is the default one, not valid().
structure Object where
  allocator : Option Nat
  capacity : Nat
  size : Nat
  data : Nat
deriving DecidableEq, Repr

-- for (ssize i = index; i < index + count; ++i)
def forRange (body : Nat → S → Except Stop S) : Nat → Nat → S → Except Stop S
  | _, 0, s => .ok s
  | index, count + 1, s => (body index s).bind fun s => forRange body (index + 1) count s

section Elements
variable {T : Type} (K : Element)

def load (heap : Heap T) (buffer index : Nat) : Except Stop T :=
  match heap buffer with
  | none => .error (.fault .absent)
  | some block =>
    match block.slots index with
    | .live value => .ok value
    | _ => .error (.fault .absent)

def setSlot (heap : Heap T) (buffer : Nat) (block : Block T) (index : Nat) (slot : Slot T) : Heap T :=
  update heap buffer (some {block with slots := update block.slots index slot})

-- ::new (data + index) T(value)
def store (buffer index : Nat) (value : T) (heap : Heap T) : Except Stop (Heap T) :=
  match heap buffer with
  | none => .error (.fault .absent)
  | some block =>
    if block.bytes < K.size * (index + 1) then .error (.fault .outside)
    else
      match block.slots index with
      | .raw => .ok (setSlot heap buffer block index (.live value))
      | _ => .error (.fault .occupied)

-- data[index].~T()
def destroy (buffer index : Nat) (heap : Heap T) : Except Stop (Heap T) :=
  match heap buffer with
  | none => .error (.fault .absent)
  | some block =>
    match block.slots index with
    | .raw => .error (.fault .absent)
    | _ => .ok (setSlot heap buffer block index .raw)

-- std::move(data[index]), into what takes it
def take (buffer index : Nat) (heap : Heap T) : Except Stop (T × Heap T) :=
  match heap buffer with
  | none => .error (.fault .absent)
  | some block =>
    match block.slots index with
    | .live value => .ok (value,setSlot heap buffer block index .moved)
    | _ => .error (.fault .absent)

-- data[index] = value
def overwrite (buffer index : Nat) (value : T) (heap : Heap T) : Except Stop (Heap T) :=
  match heap buffer with
  | none => .error (.fault .absent)
  | some block =>
    match block.slots index with
    | .raw => .error (.fault .absent)
    | _ => .ok (setSlot heap buffer block index (.live value))

end Elements

section Storage
variable {T : Type} (K : Element) (A : Allocators T) (context : Option Nat)

def ensure_allocator (allocator : Option Nat) : Option Nat := allocator.orElse fun _ => context
def resolve_allocator (allocator : Option Nat) : Nat := (ensure_allocator context allocator).getD nullAllocator

def Slot.isRaw : Slot T → Bool
  | .raw => true
  | _ => false

-- mem::alloc refuses a negative size itself.
def allocate_storage (allocator : Option Nat) (count : Int) (heap : Heap T) : Except Stop (Nat × Heap T) :=
  if count = 0 then .ok (0,heap)
  else if SSIZE_MAX_VALUE < K.size * count ∨ K.size * count < -SSIZE_MAX_VALUE - 1 then .error .overflow
  else if K.size * count < 0 then .error (.asserted "Array allocation failed")
  else
    match A.alloc (resolve_allocator context allocator) heap (K.size * count) with
    | none => .error (.asserted "Array allocation failed")
    | some buffer => .ok (buffer,update heap buffer
        (some ⟨resolve_allocator context allocator,K.size * count,fun _ => .raw⟩))

-- A trivially copyable element may go with its storage.
def free_storage (allocator : Option Nat) (pointer count : Nat) (heap : Heap T) : Except Stop (Heap T) :=
  if pointer = 0 then .ok heap
  else
    match heap pointer with
    | none => .error (.fault .absent)
    | some block =>
      if block.allocator ≠ resolve_allocator context allocator ∨ block.bytes ≠ K.size * count then
        .error (.fault .mismatched)
      else if K.trivial || (List.range count).all (fun index => (block.slots index).isRaw) then
        .ok (update heap pointer none)
      else .error (.fault .leaked)

def destroy_elements (o : Object) (heap : Heap T) : Except Stop (Heap T) :=
  forRange (destroy o.data) 0 o.size heap

-- new_capacity *= 2, from at least 1
def doubling : Nat → Int → Int → Except Stop Int
  | 0, _, _ => .error (.fault .endless)
  | turns + 1, new_capacity, min_capacity =>
    if new_capacity < min_capacity then
      if SSIZE_MAX_VALUE < new_capacity * 2 then .error .overflow else doubling turns (new_capacity * 2) min_capacity
    else .ok new_capacity

-- An element goes from one buffer to another: by kstd_memcpy of them all, or
-- moved and destroyed one by one.
def relocate (source target index : Nat) (heap : Heap T) : Except Stop (Heap T) :=
  if K.trivial then (load heap source index).bind fun value => store K target index value heap
  else
    (take source index heap).bind fun (value,heap) =>
    (store K target index value heap).bind fun heap => destroy source index heap

def reserve (min_capacity : Int) (o : Object) (heap : Heap T) : Except Stop (Object × Heap T) :=
  if min_capacity ≤ o.capacity then .ok (o,heap)
  else
    let allocator := ensure_allocator context o.allocator
    (doubling 64 (if o.capacity = 0 then 16 else o.capacity) min_capacity).bind fun new_capacity =>
    (allocate_storage K A context allocator new_capacity heap).bind fun (new_data,heap) =>
    (forRange (relocate K o.data new_data) 0 o.size heap).bind fun heap =>
    (free_storage K context allocator o.data o.capacity heap).bind fun heap =>
    .ok ({o with allocator := allocator,data := new_data,capacity := new_capacity.toNat},heap)

-- The reference to the element is read after the reserve.
def push_back (element : Heap T → Except Stop T) (o : Object) (heap : Heap T) : Except Stop (Object × Heap T) :=
  if SSIZE_MAX_VALUE < o.size + 1 then .error .overflow
  else
    (reserve K A context (o.size + 1) o heap).bind fun (o,heap) =>
    (element heap).bind fun value =>
    (store K o.data o.size value heap).bind fun heap => .ok ({o with size := o.size + 1},heap)

-- An Array_View: some elements, or the address and size of one taken off an array.
inductive View (T : Type) where
  | values (elements : List T)
  | memory (data offset : Nat) (size : Int)

def View.size : View T → Int
  | .values elements => elements.length
  | .memory _ _ size => size

def View.read (index : Nat) (heap : Heap T) : View T → Except Stop T
  | .values elements => (elements[index]?).elim (.error (.fault .absent)) .ok
  | .memory data offset _ => load heap data (offset + index)

-- from.data == data
def View.isSelf (o : Object) : View T → Bool
  | .values _ => false
  | .memory data offset _ => data = o.data && offset = 0

def slice (index count : Int) (o : Object) : View T :=
  if index < 0 ∨ o.size ≤ index then .memory o.data 0 0
  else .memory o.data index.toNat (if o.size - index < count then o.size - index else count)

def ensure_space_for (new_elements_count : Int) (o : Object) (heap : Heap T) : Except Stop (Object × Heap T) :=
  if new_elements_count < 0 ∨ SSIZE_MAX_VALUE - o.size < new_elements_count then .error (.asserted "Array size overflow")
  else reserve K A context (o.size + new_elements_count) o heap

def extend (source : View T) (o : Object) (heap : Heap T) : Except Stop (Object × Heap T) :=
  let source_is_self := source.isSelf o
  (ensure_space_for K A context source.size o heap).bind fun (o,heap) =>
  forRange (fun index (o,heap) =>
      push_back K A context (fun heap => if source_is_self then load heap o.data index else source.read index heap) o heap)
    0 source.size.toNat (o,heap)

-- Array(ssize initial_capacity, mem::Allocator allocator)
def construct (initial_capacity : Int) (allocator : Option Nat) (heap : Heap T) : Except Stop (Object × Heap T) :=
  let allocator := some (resolve_allocator context allocator)
  let capacity := if initial_capacity = 0 then 1 else initial_capacity
  (allocate_storage K A context allocator capacity heap).bind fun (data,heap) =>
  .ok (⟨allocator,capacity.toNat,0,data⟩,heap)

-- Array(ssize initial_size, const T& initial_value, mem::Allocator allocator)
def construct_filled (initial_size : Int) (initial_value : T) (allocator : Option Nat) (heap : Heap T) :
    Except Stop (Object × Heap T) :=
  (construct K A context initial_size allocator heap).bind fun (o,heap) =>
  (forRange (fun index heap => store K o.data index initial_value heap) 0 initial_size.toNat heap).bind fun heap =>
  .ok ({o with size := initial_size.toNat},heap)

-- Array(const Array& from), and operator= once the old elements and storage are gone
def construct_copy (source : Object) (heap : Heap T) : Except Stop (Object × Heap T) :=
  let allocator := some (resolve_allocator context source.allocator)
  let capacity := if source.capacity = 0 then 1 else source.capacity
  (allocate_storage K A context allocator capacity heap).bind fun (data,heap) =>
  (forRange (fun index heap => (load heap source.data index).bind fun value => store K data index value heap)
    0 source.size heap).bind fun heap =>
  .ok (⟨allocator,capacity,source.size,data⟩,heap)

def destruct (o : Object) (heap : Heap T) : Except Stop (Heap T) :=
  (destroy_elements o heap).bind fun heap => free_storage K context o.allocator o.data o.capacity heap

def movedFrom : Object := ⟨none,0,0,0⟩

def pop_back (o : Object) (heap : Heap T) : Except Stop (T × Object × Heap T) :=
  if o.size = 0 then .error (.asserted "pop_back on empty Array")
  else
    (take o.data (o.size - 1) heap).bind fun (element,heap) =>
    (destroy o.data (o.size - 1) heap).bind fun heap =>
    .ok (element,{o with size := o.size - 1},heap)

def pop_front (o : Object) (heap : Heap T) : Except Stop (T × Object × Heap T) :=
  if o.size = 0 then .error (.asserted "pop_front on empty Array")
  else
    (take o.data 0 heap).bind fun (element,heap) =>
    (destroy o.data 0 heap).bind fun heap =>
    (forRange (fun index heap =>
        (take o.data index heap).bind fun (value,heap) =>
        (store K o.data (index - 1) value heap).bind fun heap => destroy o.data index heap)
      1 (o.size - 1) heap).bind fun heap =>
    .ok (element,{o with size := o.size - 1},heap)

def clear (o : Object) (heap : Heap T) : Except Stop (Object × Heap T) :=
  (destroy_elements o heap).bind fun heap => .ok ({o with size := 0},heap)

def at_index (index : Int) (o : Object) (act : Nat → Except Stop α) : Except Stop α :=
  if 0 ≤ index ∧ index < o.size then act index.toNat else .error (.asserted "index out of bounds")

end Storage

structure State (T : Type) where
  heap : Heap T
  objects : Nat → Option Object
  context : Option Nat

def initialState : State T := ⟨fun _ => none,fun _ => none,none⟩

-- What an argument of extend is taken from.
inductive Source (T : Type) where
  | values (elements : List T)
  | part (array : Nat) (index count : Int)

inductive Call (T : Type) where
  | set_allocator (allocator : Option Nat)
  | construct (array : Nat) (initial_capacity : Int) (allocator : Option Nat)
  | construct_filled (array : Nat) (initial_size : Int) (initial_value : T) (allocator : Option Nat)
  | construct_copy (array source : Nat)
  | construct_move (array source : Nat)
  | assign_copy (array source : Nat)
  | assign_move (array source : Nat)
  | destruct (array : Nat)
  | read (array : Nat) (index : Int)
  | write (array : Nat) (index : Int) (value : T)
  | reserve (array : Nat) (min_capacity : Int)
  | push_back (array : Nat) (value : T)
  | extend (array : Nat) (source : Source T)
  | pop_back (array : Nat)
  | pop_front (array : Nat)
  | clear (array : Nat)

section Execution
variable {T : Type} (K : Element) (A : Allocators T)

def declared (s : State T) (array : Nat) (act : Object → Except Stop α) : Except Stop α :=
  match s.objects array with
  | none => .error .undeclared
  | some o => act o

def undeclared (s : State T) (array : Nat) (act : Except Stop α) : Except Stop α :=
  match s.objects array with
  | none => act
  | some _ => .error .undeclared

def State.become (s : State T) (array : Nat) (made : Object × Heap T) : State T :=
  {s with heap := made.2,objects := update s.objects array (some made.1)}

def Source.view (s : State T) : Source T → Except Stop (View T)
  | .values elements => .ok (.values elements)
  | .part array index count => declared s array fun o => .ok (slice index count o)

abbrev Outcome (T : Type) := Except Stop (State T × Option T)

def silent (s : State T) (array : Nat) (made : Except Stop (Object × Heap T)) : Outcome T :=
  made.bind fun made => .ok (s.become array made,none)

def yields (s : State T) (array : Nat) (made : Except Stop (T × Object × Heap T)) : Outcome T :=
  made.bind fun made => .ok (s.become array made.2,some made.1)

-- `this == &from` comes first in both assignments.
def execute (s : State T) : Call T → Outcome T
  | .set_allocator allocator => .ok ({s with context := some (allocator.getD nullAllocator)},none)
  | .construct array initial_capacity allocator =>
    undeclared s array (silent s array (construct K A s.context initial_capacity allocator s.heap))
  | .construct_filled array initial_size initial_value allocator =>
    undeclared s array (silent s array (construct_filled K A s.context initial_size initial_value allocator s.heap))
  | .construct_copy array source =>
    undeclared s array (declared s source fun o => silent s array (construct_copy K A s.context o s.heap))
  | .construct_move array source =>
    undeclared s array (declared s source fun o =>
      .ok ({s with objects := update (update s.objects array (some o)) source (some movedFrom)},none))
  | .assign_copy array source =>
    declared s array fun this => declared s source fun o =>
      if array = source then .ok (s,none)
      else (destruct K s.context this s.heap).bind fun heap => silent s array (construct_copy K A s.context o heap)
  | .assign_move array source =>
    declared s array fun this => declared s source fun o =>
      if array = source then .ok (s,none)
      else (destruct K s.context this s.heap).bind fun heap =>
        .ok ({s with heap := heap,objects := update (update s.objects array (some o)) source (some movedFrom)},none)
  | .destruct array =>
    declared s array fun o => (destruct K s.context o s.heap).bind fun heap =>
      .ok ({s with heap := heap,objects := update s.objects array none},none)
  | .read array index =>
    declared s array fun o => at_index index o fun index => (load s.heap o.data index).bind fun value => .ok (s,some value)
  | .write array index value =>
    declared s array fun o => at_index index o fun index =>
      (overwrite o.data index value s.heap).bind fun heap => .ok ({s with heap := heap},none)
  | .reserve array min_capacity =>
    declared s array fun o => silent s array (reserve K A s.context min_capacity o s.heap)
  | .push_back array value =>
    declared s array fun o => silent s array (push_back K A s.context (fun _ => .ok value) o s.heap)
  | .extend array source =>
    declared s array fun o => (source.view s).bind fun source => silent s array (extend K A s.context source o s.heap)
  | .pop_back array => declared s array fun o => yields s array (pop_back o s.heap)
  | .pop_front array => declared s array fun o => yields s array (pop_front K o s.heap)
  | .clear array => declared s array fun o => silent s array (clear o s.heap)

end Execution

-- What the arrays are for: each name is a list, and nothing else is shared.
abbrev Lists (T : Type) := Nat → Option (List T)

section Meaning
variable {T : Type}

def sliced (index count : Int) (elements : List T) : Option (List T) :=
  if index < 0 ∨ elements.length ≤ index then some []
  else if count < 0 then none
  else some ((elements.drop index.toNat).take count.toNat)

def Source.list (m : Lists T) : Source T → Option (List T)
  | .values elements => some elements
  | .part array index count => (m array).bind (sliced index count)

def Lists.fresh (m : Lists T) (array : Nat) (elements : List T) : Option (Lists T × Option T) :=
  if (m array).isSome then none else some (update m array (some elements),none)

-- `none` where the call has no meaning: an array that is not there, an index or
-- a size out of range, nothing to pop.
def meaning (m : Lists T) : Call T → Option (Lists T × Option T)
  | .set_allocator _ => some (m,none)
  | .construct array initial_capacity _ => if initial_capacity < 0 then none else m.fresh array []
  | .construct_filled array initial_size initial_value _ =>
    if initial_size < 0 then none else m.fresh array (List.replicate initial_size.toNat initial_value)
  | .construct_copy array source => (m source).bind fun elements => m.fresh array elements
  | .construct_move array source =>
    (m source).bind fun elements => (m.fresh array elements).map fun n => (update n.1 source (some []),none)
  | .assign_copy array source =>
    (m array).bind fun _ => (m source).map fun elements => (update m array (some elements),none)
  | .assign_move array source =>
    (m array).bind fun _ => (m source).map fun elements =>
      if array = source then (m,none) else (update (update m array (some elements)) source (some []),none)
  | .destruct array => (m array).map fun _ => (update m array none,none)
  | .read array index =>
    (m array).bind fun elements => if index < 0 then none else (elements[index.toNat]?).map fun value => (m,some value)
  | .write array index value =>
    (m array).bind fun elements =>
      if 0 ≤ index ∧ index < elements.length then some (update m array (some (elements.set index.toNat value)),none)
      else none
  | .reserve array _ => (m array).map fun _ => (m,none)
  | .push_back array value => (m array).map fun elements => (update m array (some (elements ++ [value])),none)
  | .extend array source =>
    (m array).bind fun elements => (source.list m).bind fun more =>
      if SSIZE_MAX_VALUE < elements.length + more.length then none
      else some (update m array (some (elements ++ more)),none)
  | .pop_back array =>
    (m array).bind fun elements => (elements.getLast?).map fun last =>
      (update m array (some elements.dropLast),some last)
  | .pop_front array =>
    (m array).bind fun elements => (elements.head?).map fun first => (update m array (some elements.tail),some first)
  | .clear array => (m array).map fun _ => (update m array (some []),none)

end Meaning

end ArrayLifetimes
