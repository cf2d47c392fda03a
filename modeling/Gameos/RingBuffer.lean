import Mathlib.Data.List.Basic
import Mathlib.Data.List.Pairwise

-- A fixed-capacity queue over an array. The positions carry their own bounds,
-- so a buffer whose tail disagrees with its head and size cannot be built.
structure RingBuffer (α : Type) (n : Nat) where
  data : Nat → α
  head : Nat
  tail : Nat
  size : Nat
  head_lt : head < n
  size_le : size ≤ n
  tail_eq : tail = (head + size) % n

namespace RingBuffer
variable {α : Type} {n : Nat}

def empty [Inhabited α] (positive : 0 < n) : RingBuffer α n :=
  ⟨fun _ => default,0,0,0,positive,Nat.zero_le _,(Nat.zero_mod n).symm⟩

def isEmpty (buffer : RingBuffer α n) : Bool := buffer.size = 0
def full (buffer : RingBuffer α n) : Bool := buffer.size = n

def clear (buffer : RingBuffer α n) : RingBuffer α n :=
  ⟨buffer.data,0,0,0,Nat.lt_of_le_of_lt (Nat.zero_le _) buffer.head_lt,Nat.zero_le _,(Nat.zero_mod n).symm⟩

def setData (data : Nat → α) (index : Nat) (element : α) : Nat → α :=
  fun i => if i = index then element else data i

-- `none` is the failed assertion "push_back on full Ring_Buffer".
def pushBack (buffer : RingBuffer α n) (element : α) : Option (RingBuffer α n) :=
  if room : buffer.size < n then
    some ⟨setData buffer.data buffer.tail element,buffer.head,(buffer.tail+1)%n,buffer.size+1,
      buffer.head_lt,room,by rw [buffer.tail_eq,Nat.mod_add_mod,Nat.add_assoc]⟩
  else none

-- `none` is the failed assertion "pop_front on empty Ring_Buffer".
def popFront (buffer : RingBuffer α n) : Option (α × RingBuffer α n) :=
  if present : 0 < buffer.size then
    some (buffer.data buffer.head,⟨buffer.data,(buffer.head+1)%n,buffer.tail,buffer.size-1,
      Nat.mod_lt _ (Nat.lt_of_le_of_lt (Nat.zero_le _) buffer.head_lt),by have := buffer.size_le; omega,by
        rw [buffer.tail_eq,Nat.mod_add_mod,show buffer.head+1+(buffer.size-1) = buffer.head+buffer.size by omega]⟩)
  else none

-- The queue in logical order, as the format loop lists it.
def contents (buffer : RingBuffer α n) : List α :=
  (List.range buffer.size).map fun i => buffer.data ((buffer.head+i)%n)

theorem contents_length (buffer : RingBuffer α n) : buffer.contents.length = buffer.size := by
  simp [contents]

theorem contents_empty [Inhabited α] (positive : 0 < n) : (empty (α:=α) positive).contents = [] := rfl

theorem contents_clear (buffer : RingBuffer α n) : buffer.clear.contents = [] := rfl

theorem isEmpty_exact (buffer : RingBuffer α n) : buffer.isEmpty = true ↔ buffer.contents = [] := by
  rw [isEmpty,decide_eq_true_eq,← contents_length,List.length_eq_zero_iff]

theorem full_exact (buffer : RingBuffer α n) : buffer.full = true ↔ buffer.contents.length = n := by
  rw [full,decide_eq_true_eq,contents_length]

-- Positions before the end never meet the slot the next element goes to.
theorem position_ne_tail {head i size : Nat} (head_lt : head < n) (inside : i < size) (room : size < n) :
    (head+i)%n ≠ (head+size)%n := by
  have positive : 0 < n := Nat.lt_of_le_of_lt (Nat.zero_le _) head_lt
  have cases : ∀ j < n, (head+j)%n = if head+j < n then head+j else head+j-n := by
    intro j bound
    by_cases fits : head+j < n
    · rw [if_pos fits,Nat.mod_eq_of_lt fits]
    · rw [if_neg fits,Nat.mod_eq_sub_mod (by omega),Nat.mod_eq_of_lt (by omega)]
  rw [cases i (by omega),cases size room]
  split <;> split <;> omega

theorem pushBack_full {buffer : RingBuffer α n} : buffer.pushBack element = none ↔ buffer.full = true := by
  have bound := buffer.size_le
  simp only [pushBack,full,decide_eq_true_eq]
  by_cases room : buffer.size < n
  · simp [room]; omega
  · simp [room]; omega

theorem contents_pushBack {buffer : RingBuffer α n} (pushed : buffer.pushBack element = some after) :
    after.contents = buffer.contents ++ [element] := by
  unfold pushBack at pushed
  by_cases room : buffer.size < n
  · rw [dif_pos room] at pushed
    cases Option.some.inj pushed
    simp only [contents,List.range_succ,List.map_append,List.map_cons,List.map_nil]
    congr 1
    · apply List.map_congr_left
      intro i inside
      have apart := position_ne_tail buffer.head_lt (List.mem_range.mp inside) room
      rw [← buffer.tail_eq] at apart
      simp [setData,apart]
    · simp [setData,buffer.tail_eq]
  · rw [dif_neg room] at pushed
    cases pushed

theorem popFront_empty {buffer : RingBuffer α n} : buffer.popFront = none ↔ buffer.isEmpty = true := by
  simp only [popFront,isEmpty,decide_eq_true_eq]
  by_cases present : 0 < buffer.size
  · simp [present]; omega
  · simp [present]; omega

theorem contents_popFront {buffer : RingBuffer α n} (popped : buffer.popFront = some (element,after)) :
    buffer.contents = element :: after.contents := by
  unfold popFront at popped
  by_cases present : 0 < buffer.size
  · rw [dif_pos present] at popped
    cases Option.some.inj popped
    obtain ⟨size,exact⟩ : ∃ size, buffer.size = size+1 := ⟨buffer.size-1,by omega⟩
    simp only [contents,exact,Nat.add_sub_cancel,List.range_succ_eq_map,List.map_cons,List.map_map]
    congr 1
    · rw [Nat.add_zero,Nat.mod_eq_of_lt buffer.head_lt]
    · apply List.map_congr_left
      intro i _
      simp only [Function.comp,Nat.mod_add_mod]
      rw [Nat.succ_eq_add_one,show buffer.head+1+i = buffer.head+(i+1) by omega]
  · rw [dif_neg present] at popped
    cases popped

-- Taking an element out makes room to put one back.
theorem pushBack_after_pop {buffer : RingBuffer α n} (popped : buffer.popFront = some (element,after)) (x : α) :
    ∃ later, after.pushBack x = some later := by
  cases pushed : after.pushBack x with
  | some later => exact ⟨later,rfl⟩
  | none =>
    have full := (full_exact after).mp (pushBack_full.mp pushed)
    have length := congrArg List.length (contents_popFront popped)
    rw [List.length_cons,contents_length,full] at length
    have bound := buffer.size_le
    omega

end RingBuffer
