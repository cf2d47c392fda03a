import Gameos.RingBuffer

-- Runs of a ring buffer beside runs of the queue it stands for.
namespace RingBuffer
variable {α : Type} {n : Nat}

inductive Call (α : Type) where
  | pushBack (element : α)
  | popFront
  | clear

-- A call and what it returns; `none` is a failed assertion.
def call (buffer : RingBuffer α n) : Call α → Option (Option α × RingBuffer α n)
  | .pushBack element => (buffer.pushBack element).map fun after => (none,after)
  | .popFront => buffer.popFront.map fun (element,after) => (some element,after)
  | .clear => some (none,buffer.clear)

def run (buffer : RingBuffer α n) : List (Call α) → Option (List (Option α) × RingBuffer α n)
  | [] => some ([],buffer)
  | c :: rest => do
    let (returned,buffer) ← buffer.call c
    let (later,buffer) ← run buffer rest
    return (returned :: later,buffer)

-- The bounded queue: elements enter at the back and leave at the front.
def queueCall (capacity : Nat) (queue : List α) : Call α → Option (Option α × List α)
  | .pushBack element => if queue.length < capacity then some (none,queue ++ [element]) else none
  | .popFront =>
    match queue with
    | [] => none
    | oldest :: rest => some (some oldest,rest)
  | .clear => some (none,[])

def queueRun (capacity : Nat) (queue : List α) : List (Call α) → Option (List (Option α) × List α)
  | [] => some ([],queue)
  | c :: rest => do
    let (returned,queue) ← queueCall capacity queue c
    let (later,queue) ← queueRun capacity queue rest
    return (returned :: later,queue)

-- format(), given how an element is printed.
def format (print : α → List Char) (buffer : RingBuffer α n) : List Char :=
  '[' :: (List.range buffer.size).flatMap (fun index =>
    (if 0 < index then ", ".toList else []) ++ print (buffer.data ((buffer.head + index) % n))) ++ [']']

-- The text of a list of elements.
def listing (print : α → List Char) (elements : List α) : List Char :=
  '[' :: ", ".toList.intercalate (elements.map print) ++ [']']

-- What the three indices of a buffer say, beside its contents.
structure Indexed (buffer : RingBuffer α n) : Prop where
  head : buffer.head < n
  tail : buffer.tail < n
  size : buffer.size ≤ n
  tail_eq : buffer.tail = (buffer.head + buffer.size) % n
  contents : buffer.contents.length = buffer.size
  slot : ∀ i (inside : i < buffer.contents.length),buffer.contents[i] = buffer.data ((buffer.head + i) % n)
  isEmpty : buffer.isEmpty = true ↔ buffer.contents = []
  full : buffer.full = true ↔ buffer.contents.length = n
  format : ∀ print,buffer.format print = listing print buffer.contents

theorem call_refines (buffer : RingBuffer α n) (c : Call α) :
    (buffer.call c).map (fun (returned,after) => (returned,after.contents)) = queueCall n buffer.contents c := by
  cases c with
  | pushBack element =>
      rw [call,queueCall]
      cases pushed : buffer.pushBack element with
      | none =>
          have full := (full_exact buffer).mp (pushBack_full.mp pushed)
          rw [if_neg (by omega)]
          rfl
      | some after =>
          have room : buffer.contents.length < n := by
            refine Nat.lt_of_le_of_ne (contents_length buffer ▸ buffer.size_le) fun full => ?_
            rw [pushBack_full.mpr ((full_exact buffer).mpr full)] at pushed
            cases pushed
          rw [if_pos room,← contents_pushBack pushed]
          rfl
  | popFront =>
      rw [call]
      cases popped : buffer.popFront with
      | none =>
          rw [(isEmpty_exact buffer).mp (popFront_empty.mp popped)]
          rfl
      | some result =>
          obtain ⟨element,after⟩ := result
          rw [contents_popFront popped]
          rfl
  | clear => rfl

theorem run_refines (buffer : RingBuffer α n) (calls : List (Call α)) :
    (buffer.run calls).map (fun (returned,after) => (returned,after.contents)) = queueRun n buffer.contents calls := by
  induction calls generalizing buffer with
  | nil => rfl
  | cons c rest ih =>
      rw [run,queueRun,← call_refines buffer c]
      cases buffer.call c with
      | none => rfl
      | some result =>
          obtain ⟨returned,after⟩ := result
          show Option.map _ ((after.run rest).bind _) = Option.bind (queueRun n after.contents rest) _
          rw [← ih after]
          cases after.run rest <;> rfl

theorem format_tail (print : α → List Char) (element : Nat → α) (count start : Nat) (later : 0 < start) :
    (List.range' start count).flatMap (fun index => (if 0 < index then ", ".toList else []) ++ print (element index)) =
      (List.range' start count).flatMap fun index => ", ".toList ++ print (element index) := by
  refine List.flatMap_congr fun index member => ?_
  have after := (List.mem_range'_1.mp member).1
  rw [if_pos (by omega)]

theorem listing_cons (print : α → List Char) (first : α) (rest : List α) :
    ", ".toList.intercalate ((first :: rest).map print) = print first ++ rest.flatMap fun x => ", ".toList ++ print x := by
  induction rest generalizing first with
  | nil => simp [List.intercalate]
  | cons second rest ih =>
      have split : ", ".toList.intercalate ((first :: second :: rest).map print) =
          print first ++ (", ".toList ++ ", ".toList.intercalate ((second :: rest).map print)) := by
        simp [List.intercalate]
      rw [split,ih second,List.flatMap_cons,List.append_assoc]

theorem format_eq (print : α → List Char) (buffer : RingBuffer α n) :
    buffer.format print = listing print buffer.contents := by
  unfold format listing
  congr 2
  have listed : buffer.contents = (List.range' 0 buffer.size).map fun i => buffer.data ((buffer.head + i) % n) := by
    rw [contents,List.range_eq_range']
  rw [listed,List.range_eq_range']
  cases buffer.size with
  | zero => rfl
  | succ size =>
      rw [List.range'_succ,List.flatMap_cons,List.map_cons,listing_cons,format_tail print _ size _ (Nat.zero_lt_one),
        List.flatMap_map]
      rfl

theorem indexed (buffer : RingBuffer α n) : Indexed buffer where
  head := buffer.head_lt
  tail := by rw [buffer.tail_eq]; exact Nat.mod_lt _ (Nat.lt_of_le_of_lt (Nat.zero_le _) buffer.head_lt)
  size := buffer.size_le
  tail_eq := buffer.tail_eq
  contents := contents_length buffer
  slot i inside := by simp [contents]
  isEmpty := isEmpty_exact buffer
  full := full_exact buffer
  format print := format_eq print buffer

-- Every run of a new buffer is the run of a queue, call by call.
theorem bounded_fifo [Inhabited α] (positive : 0 < n) (calls : List (Call α)) :
    ((empty positive : RingBuffer α n).run calls).map (fun (returned,after) => (returned,after.contents)) =
        queueRun n [] calls ∧
      ∀ returned after,(empty positive : RingBuffer α n).run calls = some (returned,after) → Indexed after :=
  ⟨run_refines _ calls,fun _ after _ => indexed after⟩

-- An element pushed first, and not yet taken, is the one a pop returns.
theorem bounded_fifo_three : ((empty (Nat.succ_pos 2) : RingBuffer Nat 3).run
      [.pushBack 1,.pushBack 2,.popFront,.pushBack 3,.pushBack 4,.popFront]).map (fun (returned,after) =>
        (returned,after.contents)) = some ([none,none,some 1,none,none,some 2],[3,4]) :=
  (bounded_fifo (Nat.succ_pos 2) _).1

end RingBuffer
