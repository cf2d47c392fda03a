import Mathlib.Data.List.Basic
import Gameos.MachineWords

-- kstd/array.hh: the storage of an Array<T> and the calls that append to it.
namespace ArrayStorage
open MachineWords

-- A buffer that is freed, or was never there, has no slots; a slot without an
-- element is not initialised.
abbrev Memory (T : Type) := Nat → Option (Nat → Option T)

structure Pointer where
  buffer : Nat
  offset : Nat
deriving DecidableEq, Repr

inductive Outcome (α : Type) where
  | done (value : α)
  -- a read of freed or uninitialised memory
  | unreadable
  -- "Array allocation failed"
  | refused
  -- "Array size overflow"
  | overflow
  -- a loop that does not end
  | stuck

def Outcome.bind (outcome : Outcome α) (next : α → Outcome β) : Outcome β :=
  match outcome with
  | .done value => next value
  | .unreadable => .unreadable
  | .refused => .refused
  | .overflow => .overflow
  | .stuck => .stuck

def read (memory : Memory T) (pointer : Pointer) : Outcome T :=
  match memory pointer.buffer with
  | none => .unreadable
  | some slots =>
    match slots pointer.offset with
    | none => .unreadable
    | some element => .done element

def write (memory : Memory T) (pointer : Pointer) (element : T) : Memory T := fun buffer =>
  if buffer = pointer.buffer then
    (memory buffer).map fun slots offset => if offset = pointer.offset then some element else slots offset
  else memory buffer

-- The allocator behind an array: new storage never is a buffer that is in use.
structure Allocator (T : Type) where
  alloc : Memory T → (count : Nat) → Option Nat
  unused : alloc memory count = some buffer → memory buffer = none

structure Array where
  capacity : Nat
  size : Nat
  data : Nat
deriving DecidableEq, Repr

def allocate_storage (allocator : Allocator T) (count : Nat) (memory : Memory T) : Outcome (Nat × Memory T) :=
  match allocator.alloc memory count with
  | none => .refused
  | some buffer => .done (buffer,fun other => if other = buffer then some fun _ => none else memory other)

-- The null pointer is a buffer that never was there.
def free_storage (buffer : Nat) (memory : Memory T) : Memory T := fun other => if other = buffer then none else memory other

-- The doubling loop. 64 doublings make an s64 zero, and it stays zero.
def doubled : Nat → Int → Int → Outcome Int
  | 0, _, _ => .stuck
  | turns + 1, new_capacity, min_capacity =>
    if new_capacity < min_capacity then doubled turns (toS64 (new_capacity * 2)) min_capacity else .done new_capacity

-- The elements move over one by one; the old buffer goes afterwards.
def move_elements (source target : Nat) : Nat → Nat → Memory T → Outcome (Memory T)
  | _, 0, memory => .done memory
  | index, count + 1, memory =>
    (read memory ⟨source,index⟩).bind fun element =>
      move_elements source target (index + 1) count (write memory ⟨target,index⟩ element)

def reserve (allocator : Allocator T) (min_capacity : Int) (a : Array) (memory : Memory T) : Outcome (Array × Memory T) :=
  if min_capacity ≤ a.capacity then .done (a,memory)
  else
    (doubled 65 (if a.capacity = 0 then 16 else a.capacity) min_capacity).bind fun new_capacity =>
    (allocate_storage allocator new_capacity.toNat memory).bind fun (new_data,memory) =>
    (move_elements a.data new_data 0 a.size memory).bind fun memory =>
    .done ({a with data := new_data, capacity := new_capacity.toNat},free_storage a.data memory)

def ensure_space_for (allocator : Allocator T) (new_elements_count : Nat) (a : Array) (memory : Memory T) :
    Outcome (Array × Memory T) :=
  if 9223372036854775807 - (a.size : Int) < new_elements_count then .overflow
  else reserve allocator (a.size + new_elements_count) a memory

-- push_back of a const T&: the reference is read after the reserve.
def push_back (allocator : Allocator T) (element : Pointer) (a : Array) (memory : Memory T) : Outcome (Array × Memory T) :=
  (reserve allocator (toS64 (a.size + 1)) a memory).bind fun (a,memory) =>
  (read memory element).bind fun value =>
  .done ({a with size := a.size + 1},write memory ⟨a.data,a.size⟩ value)

structure View where
  data : Pointer
  size : Nat
deriving DecidableEq, Repr

def push_all (allocator : Allocator T) (source : View) (source_is_self : Bool) :
    Nat → Nat → Array → Memory T → Outcome (Array × Memory T)
  | _, 0, a, memory => .done (a,memory)
  | index, count + 1, a, memory =>
    let element : Pointer :=
      if source_is_self then ⟨a.data,index⟩ else ⟨source.data.buffer,source.data.offset + index⟩
    (push_back allocator element a memory).bind fun (a,memory) =>
      push_all allocator source source_is_self (index + 1) count a memory

def extend (allocator : Allocator T) (source : View) (a : Array) (memory : Memory T) : Outcome (Array × Memory T) :=
  let source_is_self := decide (source.data = ⟨a.data,0⟩)
  (ensure_space_for allocator source.size a memory).bind fun (a,memory) =>
    push_all allocator source source_is_self 0 source.size a memory

-- The array holds these values.
structure Holds (memory : Memory T) (a : Array) (values : List T) : Prop where
  size : a.size = values.length
  room : a.size ≤ a.capacity
  word : a.capacity < 9223372036854775808
  elements : ∀ index element, values[index]? = some element → read memory ⟨a.data,index⟩ = .done element

-- An array that owns its elements in memory.
structure Owner (T : Type) where
  memory : Memory T
  array : Array
  values : List T
  holds : Holds memory array values

-- The call ends with an array of these values, or stops where memory for it is refused.
inductive Appends (values : List T) : Outcome (Array × Memory T) → Prop where
  | done : Holds memory a values → Appends values (.done (a,memory))
  | refused : Appends values .refused

-- A sub-view of the elements of an array.
structure OwnView (o : Owner T) where
  start : Nat
  size : Nat
  inside : start + size ≤ o.values.length

def OwnView.view {o : Owner T} (v : OwnView o) : View := ⟨⟨o.array.data,v.start⟩,v.size⟩
def OwnView.values {o : Owner T} (v : OwnView o) : List T := (o.values.drop v.start).take v.size

-- The first capacity in the row of doublings, an s64 each, that reaches a minimum.
def GrowsTo (a : Array) (min_capacity new_capacity : Int) : Prop :=
  ∃ k < 65, new_capacity = toS64 ((if a.capacity = 0 then 16 else (a.capacity : Int)) * 2 ^ k) ∧ min_capacity ≤ new_capacity ∧
    ∀ j < k, toS64 ((if a.capacity = 0 then 16 else (a.capacity : Int)) * 2 ^ j) < min_capacity

-- Growing to a minimum is refused: the allocator has no memory of that capacity.
def Refused (allocator : Allocator T) (memory : Memory T) (a : Array) (min_capacity : Int) : Prop :=
  ∃ new_capacity, GrowsTo a min_capacity new_capacity ∧ allocator.alloc memory new_capacity.toNat = none

section Memory
variable {memory : Memory T} {pointer other : Pointer} {element : T}

theorem live_of_read (reads : read memory pointer = .done element) : ∃ slots, memory pointer.buffer = some slots := by
  unfold read at reads
  cases live : memory pointer.buffer with
  | none =>
      rw [live] at reads
      cases reads
  | some slots => exact ⟨slots,rfl⟩

theorem read_write_same (live : memory pointer.buffer = some slots) :
    read (write memory pointer element) pointer = .done element := by
  simp [read,write,live]

theorem read_write_other (apart : other ≠ pointer) : read (write memory pointer element) other = read memory other := by
  unfold read write
  by_cases same : other.buffer = pointer.buffer
  · have offset : other.offset ≠ pointer.offset := by
      intro equal
      obtain ⟨_,_⟩ := other
      obtain ⟨_,_⟩ := pointer
      cases same
      cases equal
      exact apart rfl
    rw [if_pos same]
    cases memory other.buffer with
    | none => rfl
    | some slots => simp [offset]
  · rw [if_neg same]

theorem write_live (live : memory buffer = some slots) : ∃ slots, write memory pointer element buffer = some slots := by
  unfold write
  split
  · rw [live]
    exact ⟨_,rfl⟩
  · exact ⟨slots,live⟩

end Memory

-- One element more, at the end.
theorem holds_snoc {memory : Memory T} {values : List T} (holds : Holds memory a values) (room : a.size < a.capacity)
    (live : memory a.data = some slots) (element : T) :
    Holds (write memory ⟨a.data,a.size⟩ element) {a with size := a.size + 1} (values ++ [element]) where
  size := by simp [holds.size]
  room := room
  word := holds.word
  elements index value found := by
    by_cases last : index = a.size
    · subst last
      rw [holds.size,List.getElem?_append_right (Nat.le_refl _),Nat.sub_self] at found
      cases found
      exact read_write_same live
    · have before : index < values.length := by
        have bound := (List.getElem?_eq_some_iff.mp found).1
        rw [List.length_append,List.length_singleton] at bound
        have size := holds.size
        omega
      rw [List.getElem?_append_left before] at found
      rw [read_write_other (fun same => last (congrArg Pointer.offset same))]
      exact holds.elements index value found

-- push_back where there is room.
theorem push_back_room {memory : Memory T} {values : List T} (allocator : Allocator T) (holds : Holds memory a values)
    (room : a.size < a.capacity) (live : memory a.data = some slots) (reads : read memory pointer = .done element) :
    push_back allocator pointer a memory =
      .done ({a with size := a.size + 1},write memory ⟨a.data,a.size⟩ element) := by
  have word := holds.word
  have exact_size : toS64 ((a.size : Int) + 1) = a.size + 1 := toS64_of_range (by omega) (by omega)
  unfold push_back reserve
  rw [exact_size,if_pos (by omega)]
  unfold Outcome.bind
  dsimp only
  rw [reads]

-- The loop of extend over elements of the array itself, from `start` on, in storage
-- that has room for all of them.
theorem push_all_own (allocator : Allocator T) (source : View) (self : Bool) (start index count : Nat)
    {memory : Memory T} {values : List T} (holds : Holds memory a values) (live : memory a.data = some slots)
    (own : (if self then ⟨a.data,0⟩ else source.data) = ⟨a.data,start⟩)
    (inside : start + index + count ≤ values.length) (room : a.size + count ≤ a.capacity) :
    ∃ after left, push_all allocator source self index count a memory = .done (after,left) ∧
      Holds left after (values ++ (values.drop (start + index)).take count) := by
  induction count generalizing index a memory slots values with
  | zero =>
      refine ⟨a,memory,rfl,?_⟩
      rw [List.take_zero,List.append_nil]
      exact holds
  | succ count ih =>
      have found := List.getElem?_eq_getElem (show start + index < values.length by omega)
      have reads := holds.elements _ _ found
      have pushed := push_back_room allocator holds (by omega) live reads
      have pointer : (if self then ⟨a.data,index⟩ else ⟨source.data.buffer,source.data.offset + index⟩ : Pointer) =
          ⟨a.data,start + index⟩ := by
        cases self with
        | true =>
            cases own
            rw [if_pos rfl,Nat.zero_add]
        | false =>
            rw [if_neg Bool.false_ne_true] at own
            rw [if_neg Bool.false_ne_true,own]
      obtain ⟨later,still⟩ := write_live live
      have grown := holds_snoc holds (by omega) live values[start + index]
      have inside_still : start + (index + 1) + count ≤ (values ++ [values[start + index]]).length := by
        rw [List.length_append]
        omega
      have room_still : a.size + 1 + count ≤ a.capacity := by omega
      obtain ⟨after,left,rest,ends⟩ := ih (index + 1) grown still own inside_still room_still
      refine ⟨after,left,?_,?_⟩
      · unfold push_all
        dsimp only
        rw [pointer,pushed]
        exact rest
      · have taken : (values.drop (start + index)).take (count + 1) =
            values[start + index] :: ((values ++ [values[start + index]]).drop (start + (index + 1))).take count := by
          rw [List.drop_eq_getElem_cons (by omega),List.take_succ_cons,List.drop_append_of_le_length (by omega),
            List.take_append_of_le_length (by rw [List.length_drop]; omega)]
          rfl
        rw [taken]
        rw [List.append_assoc] at ends
        exact ends

section Reserve
variable (allocator : Allocator T) {memory : Memory T} {a : Array} {values : List T} {min_capacity : Int}

theorem reserve_room (room : min_capacity ≤ a.capacity) : reserve allocator min_capacity a memory = .done (a,memory) :=
  if_pos room

-- Moving the elements over leaves the old buffer as it is.
theorem move_elements_done (source target : Nat) (apart : source ≠ target) (index count : Nat)
    (live : memory target = some slots)
    (reads : ∀ i, index ≤ i → i < index + count → ∃ element, values[i]? = some element ∧ read memory ⟨source,i⟩ = .done element)
    (moved : ∀ i element, i < index → values[i]? = some element → read memory ⟨target,i⟩ = .done element) :
    ∃ after, move_elements source target index count memory = .done after ∧
      (∃ slots, after target = some slots) ∧
      ∀ i element, i < index + count → values[i]? = some element → read after ⟨target,i⟩ = .done element := by
  induction count generalizing index memory slots with
  | zero => exact ⟨memory,rfl,⟨slots,live⟩,moved⟩
  | succ count ih =>
      obtain ⟨element,found,here⟩ := reads index (Nat.le_refl _) (by omega)
      obtain ⟨later,still⟩ : ∃ slots, write memory ⟨target,index⟩ element target = some slots := write_live live
      have unread : ∀ i, index + 1 ≤ i → i < index + 1 + count →
          ∃ element', values[i]? = some element' ∧
            read (write memory ⟨target,index⟩ element) ⟨source,i⟩ = .done element' := by
        intro i low high
        obtain ⟨value,known,old⟩ := reads i (by omega) (by omega)
        refine ⟨value,known,?_⟩
        rw [read_write_other (fun same => apart (congrArg Pointer.buffer same))]
        exact old
      have moved_still : ∀ i value, i < index + 1 → values[i]? = some value →
          read (write memory ⟨target,index⟩ element) ⟨target,i⟩ = .done value := by
        intro i value before known
        by_cases last : i = index
        · subst last
          rw [found] at known
          cases known
          exact read_write_same live
        · rw [read_write_other (fun same => last (congrArg Pointer.offset same))]
          exact moved i value (by omega) known
      obtain ⟨after,rest,ends⟩ := ih (index + 1) still unread moved_still
      refine ⟨after,?_,?_⟩
      · unfold move_elements
        rw [here]
        exact rest
      · rw [Nat.add_right_comm] at ends
        exact ends

theorem toS64_double (v : Int) (k : Nat) : toS64 (toS64 (v * 2) * 2 ^ k) = toS64 (v * 2 ^ (k + 1)) := by
  have wrapped : ∃ q, toS64 (v * 2) = v * 2 + 18446744073709551616 * q := ⟨-((v * 2 + 2^63) / 2^64),by unfold toS64; omega⟩
  obtain ⟨q,same⟩ := wrapped
  have product : (v * 2 + 18446744073709551616 * q) * 2 ^ k = v * 2 ^ (k + 1) + 18446744073709551616 * (q * 2 ^ k) := by
    ring
  rw [same,product]
  unfold toS64
  omega

-- The loop ends at the first doubling that reaches the minimum.
theorem doubled_exact (turns : Nat) (capacity : Int) (word : toS64 capacity = capacity) :
    doubled turns capacity min_capacity = .done c ↔
      ∃ k < turns, c = toS64 (capacity * 2 ^ k) ∧ min_capacity ≤ c ∧ ∀ j < k, toS64 (capacity * 2 ^ j) < min_capacity := by
  induction turns generalizing capacity with
  | zero =>
      refine ⟨fun reached => ?_,fun ⟨k,before,_⟩ => absurd before (Nat.not_lt_zero k)⟩
      cases reached
  | succ turns ih =>
      unfold doubled
      by_cases below : capacity < min_capacity
      · rw [if_pos below,ih _ (toS64_of_range (toS64_range _).1 (toS64_range _).2)]
        simp only [toS64_double]
        constructor
        · rintro ⟨k,inside,last,enough,before⟩
          refine ⟨k + 1,by omega,last,enough,?_⟩
          intro j earlier
          cases j with
          | zero =>
              rw [Int.pow_zero,Int.mul_one,word]
              exact below
          | succ j => exact before j (by omega)
        · rintro ⟨k,inside,last,enough,before⟩
          cases k with
          | zero =>
              rw [Int.pow_zero,Int.mul_one,word] at last
              omega
          | succ k => exact ⟨k,by omega,last,enough,fun j earlier => before (j + 1) (by omega)⟩
      · rw [if_neg below]
        constructor
        · intro ends
          cases ends
          refine ⟨0,by omega,?_,by omega,fun j before => absurd before (Nat.not_lt_zero j)⟩
          rw [Int.pow_zero,Int.mul_one,word]
        · rintro ⟨k,_,last,_,before⟩
          cases k with
          | zero =>
              rw [Int.pow_zero,Int.mul_one,word] at last
              rw [last]
          | succ k =>
              have first := before 0 (Nat.succ_pos k)
              rw [Int.pow_zero,Int.mul_one,word] at first
              exact absurd first below

theorem doubled_grows (word : a.capacity < 9223372036854775808) :
    doubled 65 (if a.capacity = 0 then 16 else a.capacity) min_capacity = .done c ↔ GrowsTo a min_capacity c := by
  unfold GrowsTo
  refine doubled_exact 65 _ ?_
  refine toS64_of_range ?_ ?_ <;> split <;> omega

theorem doubled_cases (turns : Nat) (capacity : Int) :
    (∃ c, doubled turns capacity min_capacity = .done c) ∨ doubled turns capacity min_capacity = .stuck := by
  induction turns generalizing capacity with
  | zero => exact .inr rfl
  | succ turns ih =>
      unfold doubled
      split
      · exact ih _
      · exact .inl ⟨_,rfl⟩

-- Growth moves the elements to the new buffer and frees the old one.
theorem reserve_grows (holds : Holds memory a values) (live : memory a.data = some old)
    (grows : (a.capacity : Int) < min_capacity)
    (reached : GrowsTo a min_capacity c)
    (granted : allocator.alloc memory c.toNat = some buffer) :
    ∃ left, reserve allocator min_capacity a memory = .done ({a with data := buffer, capacity := c.toNat},left) ∧
      Holds left {a with data := buffer, capacity := c.toNat} values ∧ (∃ slots, left buffer = some slots) ∧
      left a.data = none := by
  have apart : a.data ≠ buffer := by
    intro same
    have unused := allocator.unused granted
    rw [← same,live] at unused
    cases unused
  have loop := (doubled_grows holds.word).mpr reached
  have enough : min_capacity ≤ c ∧ c < 9223372036854775808 := by
    obtain ⟨k,_,last,enough,_⟩ := reached
    rw [last]
    rw [last] at enough
    exact ⟨enough,(toS64_range _).2⟩
  have room := holds.room
  have size := holds.size
  have begun : ∀ i, 0 ≤ i → i < 0 + a.size → ∃ element, values[i]? = some element ∧
      read (fun other => if other = buffer then some fun _ => none else memory other) ⟨a.data,i⟩ = .done element := by
    intro i _ inside
    have found := List.getElem?_eq_getElem (show i < values.length by omega)
    refine ⟨_,found,?_⟩
    unfold read
    dsimp only
    rw [if_neg apart]
    exact holds.elements i _ found
  obtain ⟨after,moved,⟨slots,there⟩,elements⟩ := move_elements_done a.data buffer apart 0 a.size
    (if_pos rfl) begun (fun i _ before => absurd before (Nat.not_lt_zero _))
  refine ⟨free_storage a.data after,?_,⟨size,?_,?_,?_⟩,⟨slots,?_⟩,if_pos rfl⟩
  · unfold reserve
    rw [if_neg (by omega),loop]
    unfold Outcome.bind allocate_storage
    dsimp only
    rw [granted]
    dsimp only
    rw [moved]
  · show a.size ≤ c.toNat
    omega
  · show c.toNat < 9223372036854775808
    omega
  · intro index element found
    have bound := (List.getElem?_eq_some_iff.mp found).1
    have here := elements index element (by omega) found
    unfold read free_storage
    dsimp only
    rw [if_neg apart.symm]
    exact here
  · unfold free_storage
    rw [if_neg apart.symm]
    exact there

-- Where the array has to grow: the doubling does not end, memory is refused, or the
-- array stands in a new buffer.
theorem reserve_cases (holds : Holds memory a values) (live : memory a.data = some old)
    (grows : (a.capacity : Int) < min_capacity) :
    (reserve allocator min_capacity a memory = .stuck ∧
        ¬ ∃ c, GrowsTo a min_capacity c) ∨
      (reserve allocator min_capacity a memory = .refused ∧ Refused allocator memory a min_capacity) ∨
      (¬ Refused allocator memory a min_capacity ∧
        (∃ c, GrowsTo a min_capacity c) ∧
        ∃ grown left, reserve allocator min_capacity a memory = .done (grown,left) ∧ Holds left grown values ∧
          (∃ slots, left grown.data = some slots) ∧ left a.data = none ∧ min_capacity ≤ grown.capacity ∧
          grown.size = a.size) := by
  rcases doubled_cases 65 (if a.capacity = 0 then 16 else a.capacity) with ⟨c,loop⟩ | endless
  · have reached := (doubled_grows holds.word).mp loop
    right
    cases granted : allocator.alloc memory c.toNat with
    | none =>
        refine .inl ⟨?_,c,reached,granted⟩
        unfold reserve
        rw [if_neg (by omega),loop]
        unfold Outcome.bind allocate_storage
        dsimp only
        rw [granted]
    | some buffer =>
        obtain ⟨left,reserves,ends,live,freed⟩ := reserve_grows allocator holds live grows reached granted
        have enough : min_capacity ≤ c := by
          obtain ⟨k,_,_,enough,_⟩ := reached
          exact enough
        refine .inr ⟨?_,⟨c,reached⟩,_,left,reserves,ends,live,freed,?_,rfl⟩
        · intro ⟨other,same,denied⟩
          have again := (doubled_grows holds.word).mpr same
          rw [loop] at again
          cases again
          rw [granted] at denied
          cases denied
        · show min_capacity ≤ (c.toNat : Int)
          omega
  · left
    refine ⟨?_,?_⟩
    · unfold reserve
      rw [if_neg (by omega),endless]
      rfl
    · intro ⟨c,reached⟩
      have loop := (doubled_grows holds.word).mpr reached
      rw [endless] at loop
      cases loop

end Reserve


section SelfAppend
variable (allocator : Allocator T) (o : Owner T)

theorem owner_live (inside : index < o.values.length) : ∃ slots, o.memory o.array.data = some slots := by
  have found := List.getElem?_eq_getElem inside
  exact live_of_read (o.holds.elements _ _ found)

-- push_back of an element of the array itself.
theorem push_back_own (i : Fin o.values.length) :
    Appends (o.values ++ [o.values[i]]) (push_back allocator ⟨o.array.data,i⟩ o.array o.memory) ↔
      o.array.size < o.array.capacity ∨
        (o.array.capacity : Int) < toS64 (o.array.size + 1) ∧
          Refused allocator o.memory o.array (toS64 (o.array.size + 1)) := by
  obtain ⟨slots,live⟩ := owner_live o i.2
  have reads := o.holds.elements i o.values[i] (List.getElem?_eq_getElem i.2)
  have room := o.holds.room
  have word := o.holds.word
  by_cases fits : o.array.size < o.array.capacity
  · refine ⟨fun _ => .inl fits,fun _ => ?_⟩
    rw [push_back_room allocator o.holds fits live reads]
    exact .done (holds_snoc o.holds fits live _)
  by_cases grows : (o.array.capacity : Int) < toS64 (o.array.size + 1)
  · rcases reserve_cases allocator o.holds live grows with ⟨stuck,endless⟩ | ⟨stops,refused⟩ |
      ⟨granted,_,grown,left,reserves,_,_,freed,_⟩
    · have ends : push_back allocator ⟨o.array.data,i⟩ o.array o.memory = .stuck := by
        unfold push_back
        rw [stuck]
        rfl
      rw [ends]
      constructor
      · intro appends
        cases appends
      · rintro (inside | ⟨_,c,reached,_⟩)
        · exact absurd inside fits
        · exact absurd ⟨c,reached⟩ endless
    · have ends : push_back allocator ⟨o.array.data,i⟩ o.array o.memory = .refused := by
        unfold push_back
        rw [stops]
        rfl
      rw [ends]
      exact ⟨fun _ => .inr ⟨grows,refused⟩,fun _ => .refused⟩
    · have ends : push_back allocator ⟨o.array.data,i⟩ o.array o.memory = .unreadable := by
        unfold push_back
        rw [reserves]
        unfold Outcome.bind read
        dsimp only
        rw [freed]
      rw [ends]
      constructor
      · intro appends
        cases appends
      · rintro (inside | ⟨_,refused⟩)
        · exact absurd inside fits
        · exact absurd refused granted
  · have ends : push_back allocator ⟨o.array.data,i⟩ o.array o.memory =
        .done ({o.array with size := o.array.size + 1},write o.memory ⟨o.array.data,o.array.size⟩ o.values[i]) := by
      unfold push_back
      rw [reserve_room allocator (by omega)]
      unfold Outcome.bind
      dsimp only
      rw [reads]
    rw [ends]
    constructor
    · intro appends
      cases appends with
      | done holds =>
          have past : o.array.size + 1 ≤ o.array.capacity := holds.room
          omega
    · rintro (inside | ⟨larger,_⟩)
      · exact absurd inside fits
      · exact absurd larger grows

-- extend by a sub-view of the array itself.
theorem extend_own (v : OwnView o) :
    Appends (o.values ++ v.values) (extend allocator v.view o.array o.memory) ↔
      o.array.size + v.size ≤ o.array.capacity ∨
        (v.start = 0 ∧ ∃ c, GrowsTo o.array (o.array.size + v.size) c) ∨
        Refused allocator o.memory o.array (o.array.size + v.size) := by
  have room := o.holds.room
  have word := o.holds.word
  have size := o.holds.size
  have inside := v.inside
  have begun : extend allocator v.view o.array o.memory =
      (ensure_space_for allocator v.size o.array o.memory).bind fun (a,memory) =>
        push_all allocator v.view (decide (v.view.data = ⟨o.array.data,0⟩)) 0 v.size a memory := rfl
  by_cases fits : o.array.size + v.size ≤ o.array.capacity
  · refine ⟨fun _ => .inl fits,fun _ => ?_⟩
    have kept : extend allocator v.view o.array o.memory =
        push_all allocator v.view (decide (v.view.data = ⟨o.array.data,0⟩)) 0 v.size o.array o.memory := by
      rw [begun]
      unfold ensure_space_for
      rw [if_neg (by omega),reserve_room allocator (by omega)]
      rfl
    rw [kept]
    cases count : v.size with
    | zero =>
        unfold OwnView.values
        rw [count,List.take_zero,List.append_nil]
        exact .done o.holds
    | succ rest =>
        obtain ⟨slots,live⟩ := owner_live o (show 0 < o.values.length by omega)
        have own : (if decide (v.view.data = ⟨o.array.data,0⟩) then ⟨o.array.data,0⟩ else v.view.data) =
            (⟨o.array.data,v.start⟩ : Pointer) := by
          by_cases self : v.view.data = ⟨o.array.data,0⟩
          · rw [if_pos (decide_eq_true self)]
            exact self.symm
          · rw [if_neg (by simpa using self)]
            rfl
        obtain ⟨after,left,pushed,ends⟩ := push_all_own allocator v.view _ v.start 0 (rest + 1) o.holds live own
          (by omega) (by omega)
        rw [pushed]
        unfold OwnView.values
        rw [count]
        exact .done ends
  · by_cases beyond : 9223372036854775807 - (o.array.size : Int) < v.size
    · have ends : extend allocator v.view o.array o.memory = .overflow := by
        rw [begun]
        unfold ensure_space_for
        rw [if_pos beyond]
        rfl
      have none_reaches : ∀ c, ¬ GrowsTo o.array (o.array.size + v.size) c := by
        rintro c ⟨k,_,last,enough,_⟩
        have bound := (toS64_range ((if o.array.capacity = 0 then 16 else (o.array.capacity : Int)) * 2 ^ k)).2
        rw [← last] at bound
        omega
      rw [ends]
      constructor
      · intro appends
        cases appends
      · rintro (inside | ⟨_,c,reached⟩ | ⟨c,reached,_⟩)
        · exact absurd inside fits
        · exact absurd reached (none_reaches c)
        · exact absurd reached (none_reaches c)
    · have grows : (o.array.capacity : Int) < (o.array.size : Int) + v.size := by omega
      obtain ⟨slots,live⟩ := owner_live o (show 0 < o.values.length by omega)
      have space : ensure_space_for allocator v.size o.array o.memory =
          reserve allocator ((o.array.size : Int) + v.size) o.array o.memory := if_neg beyond
      rcases reserve_cases allocator o.holds live grows with ⟨stuck,endless⟩ | ⟨stops,refused⟩ |
        ⟨granted,reaches,grown,left,reserves,holds,⟨moved,there⟩,freed,enough,same⟩
      · rw [begun,space,stuck]
        constructor
        · intro appends
          cases appends
        · rintro (inside | ⟨_,reached⟩ | ⟨c,reached,_⟩)
          · exact absurd inside fits
          · exact absurd reached endless
          · exact absurd ⟨c,reached⟩ endless
      · rw [begun,space,stops]
        exact ⟨fun _ => .inr (.inr refused),fun _ => .refused⟩
      · rw [begun,space,reserves]
        unfold Outcome.bind
        dsimp only
        by_cases first : v.start = 0
        · refine ⟨fun _ => .inr (.inl ⟨first,reaches⟩),fun _ => ?_⟩
          have self : v.view.data = ⟨o.array.data,0⟩ := by
            unfold OwnView.view
            rw [first]
          rw [decide_eq_true self]
          obtain ⟨after,later,pushed,ends⟩ := push_all_own allocator v.view true 0 0 v.size holds there
            rfl (by omega) (by omega)
          rw [pushed]
          unfold OwnView.values
          rw [first]
          exact .done ends
        · have other : decide (v.view.data = ⟨o.array.data,0⟩) = false := by
            refine decide_eq_false fun same => first ?_
            exact congrArg Pointer.offset same
          obtain ⟨rest,count⟩ : ∃ rest, v.size = rest + 1 := ⟨v.size - 1,by omega⟩
          have ends : push_all allocator v.view false 0 (rest + 1) grown left = .unreadable := by
            have exact_size : toS64 ((grown.size : Int) + 1) = grown.size + 1 := by
              have bound := holds.word
              exact toS64_of_range (by omega) (by omega)
            unfold push_all push_back
            dsimp only
            rw [exact_size,reserve_room allocator (by omega)]
            unfold Outcome.bind read
            dsimp only
            rw [if_neg Bool.false_ne_true]
            dsimp only [OwnView.view]
            rw [freed]
          rw [other,count,ends]
          constructor
          · intro appends
            cases appends
          · rintro (inside | ⟨zero,_⟩ | refused)
            · rw [← count] at inside
              exact absurd inside fits
            · exact absurd zero first
            · rw [← count] at refused
              exact absurd refused granted

-- An element of the array itself, or a view that does not start at its first element,
-- is appended only where the array does not have to grow.
theorem self_append_exact :
    (∀ i : Fin o.values.length,
      Appends (o.values ++ [o.values[i]]) (push_back allocator ⟨o.array.data,i⟩ o.array o.memory) ↔
        o.array.size < o.array.capacity ∨
          (o.array.capacity : Int) < toS64 (o.array.size + 1) ∧
            Refused allocator o.memory o.array (toS64 (o.array.size + 1))) ∧
    ∀ v : OwnView o,
      Appends (o.values ++ v.values) (extend allocator v.view o.array o.memory) ↔
        o.array.size + v.size ≤ o.array.capacity ∨
          (v.start = 0 ∧ ∃ c, GrowsTo o.array (o.array.size + v.size) c) ∨
          Refused allocator o.memory o.array (o.array.size + v.size) :=
  ⟨push_back_own allocator o,extend_own allocator o⟩

end SelfAppend

-- An allocator that always has memory left, in buffer 1.
def fresh : Allocator Nat where
  alloc memory _ := if (memory 1).isNone then some 1 else none
  unused := by
    intro memory count buffer granted
    split at granted
    · rename_i free
      cases granted
      exact Option.isNone_iff_eq_none.mp free
    · cases granted

theorem fresh_grants (memory : Memory Nat) (free : memory 1 = none) (a : Array) (min_capacity : Int) :
    ¬ Refused fresh memory a min_capacity := by
  rintro ⟨c,_,denied⟩
  simp [fresh,free] at denied

-- Two elements in an array that is full.
def full : Owner Nat where
  memory buffer := if buffer = 0 then some fun offset => [5,7][offset]? else none
  array := ⟨2,2,0⟩
  values := [5,7]
  holds := by
    refine ⟨rfl,Nat.le_refl 2,by decide,?_⟩
    intro index element found
    unfold read
    dsimp only
    rw [if_pos rfl]
    dsimp only
    rw [found]

theorem own_element_unread :
    ¬ Appends [5,7,7] (push_back fresh ⟨0,1⟩ full.array full.memory) ∧
    ¬ Appends [5,7,7] (extend fresh ⟨⟨0,1⟩,1⟩ full.array full.memory) := by
  constructor
  · intro appends
    rcases (push_back_own fresh full ⟨1,by decide⟩).mp appends with room | ⟨_,refused⟩
    · exact absurd room (by decide)
    · exact fresh_grants full.memory rfl _ _ refused
  · intro appends
    rcases (extend_own fresh full ⟨1,1,by decide⟩).mp appends with room | ⟨first,_⟩ | refused
    · exact absurd room (by decide)
    · cases first
    · exact fresh_grants full.memory rfl _ _ refused

end ArrayStorage
