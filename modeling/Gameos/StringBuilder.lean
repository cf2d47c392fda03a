import Gameos.ByteMemory
import Gameos.LinkedChains
import Gameos.MachineWords
import Mathlib.Data.List.Perm.Basic

-- kstd/string_builder.hh: an inline buffer, and a chain of buffers behind it.
namespace StringBuilder
open ByteMemory LinkedChains MachineWords

-- A Buffer and the bytes that follow it.
structure Buffer where
  count : Nat
  allocated : Nat
  next : Nat
  data : Nat → UInt8

-- size_of(Buffer)
def BUFFER_SIZE : Nat := 24
def STRING_BUILDER_BUFFER_SIZE : Nat := 512
def INITIAL_DATA_SIZE : Nat := STRING_BUILDER_BUFFER_SIZE - BUFFER_SIZE

-- What the builder asks of its allocator.
inductive HeapCall where
  | allocated (address : Nat) (size : Int)
  | refused (size : Int)
  | freed (address : Nat) (size : Int)
deriving DecidableEq, Repr

-- The blocks in use, latest call first. A block is freed as it was allocated.
def ledger : List HeapCall → Option (List (Nat × Int))
  | [] => some []
  | .allocated address size :: calls => (ledger calls).map fun blocks => (address,size) :: blocks
  | .refused _ :: calls => ledger calls
  | .freed address size :: calls =>
    (ledger calls).bind fun blocks => if (address,size) ∈ blocks then some (blocks.erase (address,size)) else none

-- Where the builder itself lies, and the allocator behind it. It may refuse, and
-- does not hand out the builder or a block that is in use.
structure Heap where
  base : Nat
  base_some : base ≠ 0
  allocate : List HeapCall → Int → Nat
  apart : allocate calls size ≠ 0 → allocate calls size ≠ base
  unused : ledger calls = some blocks → allocate calls size ≠ 0 → ∀ block ∈ blocks,block.1 ≠ allocate calls size

structure Builder where
  buffers : Nat → Buffer
  current_buffer : Nat
  subsequent_buffer_size : Int
  failed : Bool
  calls : List HeapCall

def memcpy (destination : Nat → UInt8) (start : Nat) (bytes : List UInt8) : Nat → UInt8 := fun i =>
  if start ≤ i then bytes.getD (i - start) (destination i) else destination i

def Buffer.bytes (buffer : Buffer) : List UInt8 := (List.range buffer.count).map buffer.data

def Builder.set (s : Builder) (address : Nat) (buffer : Buffer) : Builder :=
  {s with buffers := fun other => if other = address then buffer else s.buffers other}

def Builder.next (s : Builder) (address : Nat) : Nat := (s.buffers address).next

-- There are no more buffers than calls for them.
def Builder.chain (s : Builder) (address : Nat) : Option (List Nat) := chase s.next (s.calls.length + 1) address

section Calls
variable (heap : Heap)

-- The memory of the builder is as it was found.
def construct (buffer_size : S64) (buffers : Nat → Buffer) : Builder :=
  let s : Builder := ⟨buffers,0,if 0 < buffer_size.val then buffer_size.val else INITIAL_DATA_SIZE,false,[]⟩
  s.set heap.base {buffers heap.base with count := 0, allocated := INITIAL_DATA_SIZE, next := 0}

def get_current_buffer (s : Builder) : Nat := if s.current_buffer ≠ 0 then s.current_buffer else heap.base

def free_buffer (s : Builder) (buffer : Nat) : Builder :=
  {s with calls := .freed buffer (toS64 (BUFFER_SIZE + (s.buffers buffer).allocated)) :: s.calls}

def free_buffers (s : Builder) : Option Builder :=
  (s.chain (s.next heap.base)).map fun chain =>
    let s := chain.foldl free_buffer s
    s.set heap.base {s.buffers heap.base with next := 0}

def reset (s : Builder) : Option Builder :=
  (free_buffers heap s).map fun s =>
    {s.set heap.base {s.buffers heap.base with count := 0} with current_buffer := 0, failed := false}

def reset_if (do_reset : Bool) (s : Builder) : Option Builder := if do_reset then reset heap s else some s

-- mem::alloc
def alloc (calls : List HeapCall) (size : Int) : Nat := if size < 0 then 0 else heap.allocate calls size

def expand (s : Builder) : Bool × Builder :=
  let subsequent := if 0 < s.subsequent_buffer_size then s.subsequent_buffer_size else INITIAL_DATA_SIZE
  let block_size := toS64 (BUFFER_SIZE + subsequent)
  let buffer := alloc heap s.calls block_size
  if buffer = 0 then (false,{s with calls := .refused block_size :: s.calls})
  else
    let s := {s with calls := .allocated buffer block_size :: s.calls}
    let s := s.set buffer {s.buffers buffer with count := 0, allocated := subsequent.toNat, next := 0}
    let current := get_current_buffer heap s
    let s := s.set current {s.buffers current with next := buffer}
    (true,{s with current_buffer := buffer})

-- kstd_memcpy behind what the buffer holds, and the new count.
def Buffer.fill (buffer : Buffer) (bytes : List UInt8) : Buffer :=
  {buffer with data := memcpy buffer.data buffer.count bytes, count := buffer.count + bytes.length}

def Builder.fill (s : Builder) (buffer : Nat) (bytes : List UInt8) : Builder :=
  s.set buffer ((s.buffers buffer).fill bytes)

def Builder.room (s : Builder) (buffer : Nat) : Nat := (s.buffers buffer).allocated - (s.buffers buffer).count

-- The loop of append. Every turn copies a byte or more, or gives up; without
-- room after an expand it is "String_Builder expand produced empty buffer".
def append_loop : Nat → List UInt8 → Builder → Option Builder
  | _,[],s => some s
  | 0,_ :: _,_ => none
  | turns + 1,bytes,s =>
    let (expanded,s) := if s.room (get_current_buffer heap s) = 0 then expand heap s else (true,s)
    if expanded = false then some {s with failed := true}
    else
      let buffer := get_current_buffer heap s
      let length_max := s.room buffer
      if length_max = 0 then none
      else
        let to_copy := if bytes.length < length_max then bytes.length else length_max
        append_loop turns (bytes.drop to_copy) (s.fill buffer (bytes.take to_copy))

def append (bytes : List UInt8) (s : Builder) : Option Builder := append_loop heap bytes.length bytes s
def put_char (c : UInt8) (s : Builder) : Option Builder := append heap [c] s
def new_line (s : Builder) : Option Builder := append heap [10] s

def length (s : Builder) : Option Nat :=
  (s.chain heap.base).map fun chain => chain.foldl (fun bytes buffer => bytes + (s.buffers buffer).count) 0

def copy_buffer (s : Builder) (target : Nat × Memory) (buffer : Nat) : Nat × Memory :=
  let found := s.buffers buffer
  if 0 < found.count then (target.1 + found.count,memcpy target.2 target.1 found.bytes) else target

-- The copy onto the memory at `out`, and the cursor after it.
def copy_out (s : Builder) (out : Nat) (memory : Memory) : Option (Nat × Memory) :=
  (s.chain heap.base).map fun chain => chain.foldl (copy_buffer s) (out,memory)

structure View where
  data : Nat
  size : Nat
deriving DecidableEq, Repr

-- mem::alloc on the destination: its answer, unless it stops.
variable {σ : Type} (destination : Int → σ → Option (Nat × σ))

-- A string, the memory it lies in, the destination allocator and the builder.
def to_string (do_reset : Bool) (d : σ) (memory : Memory) (s : Builder) : Option (View × Memory × σ × Builder) := do
  let count ← length heap s
  if count = 0 then
    let s ← reset_if heap do_reset s
    return (⟨0,0⟩,memory,d,s)
  else
    let (out,d) ← destination count d
    -- "String_Builder::to_string allocation failed"
    if out = 0 then none
    else
      let (_,memory) ← copy_out heap s out memory
      let s ← reset_if heap do_reset s
      return (⟨out,count⟩,memory,d,s)

def to_c_string (do_reset : Bool) (d : σ) (memory : Memory) (s : Builder) : Option (Nat × Memory × σ × Builder) := do
  let count ← length heap s
  let (out,d) ← destination (toS64 (count + 1)) d
  -- "String_Builder::to_c_string allocation failed"
  if out = 0 then none
  else
    let (cursor,memory) ← copy_out heap s out memory
    let memory := memcpy memory cursor [0]
    let s ← reset_if heap do_reset s
    return (out,memory,d,s)

end Calls


section Bytes

theorem memcpy_nil (memory : Nat → UInt8) (start : Nat) : memcpy memory start [] = memory := by
  funext i
  rw [memcpy]
  split <;> rfl

theorem memcpy_before (memory : Nat → UInt8) {start i : Nat} (bytes : List UInt8) (before : i < start) :
    memcpy memory start bytes i = memory i := by
  rw [memcpy,if_neg (by omega)]

theorem memcpy_at (memory : Nat → UInt8) (start : Nat) (bytes : List UInt8) (i : Nat) :
    memcpy memory start bytes (start + i) = bytes.getD i (memory (start + i)) := by
  rw [memcpy,if_pos (by omega),Nat.add_sub_cancel_left]

-- Two copies, the second behind the first, are one.
theorem memcpy_append (memory : Nat → UInt8) (start : Nat) (first second : List UInt8) :
    memcpy (memcpy memory start first) (start + first.length) second = memcpy memory start (first ++ second) := by
  funext i
  rcases Nat.lt_or_ge i start with before | reached
  · rw [memcpy_before _ _ (by omega),memcpy_before _ _ before,memcpy_before _ _ before]
  · obtain ⟨k,rfl⟩ := Nat.exists_eq_add_of_le reached
    rw [memcpy_at memory start (first ++ second)]
    rcases Nat.lt_or_ge k first.length with inside | behind
    · rw [memcpy_before _ _ (by omega),memcpy_at,List.getD_append _ _ _ _ inside]
    · obtain ⟨j,rfl⟩ := Nat.exists_eq_add_of_le behind
      rw [← Nat.add_assoc,memcpy_at,Nat.add_assoc,memcpy_at,List.getD_append_right _ _ _ _ behind,
        Nat.add_sub_cancel_left,List.getD_eq_default _ _ behind]

-- What lies at an address.
def bytesAt (memory : Memory) (address size : Nat) : List UInt8 := (List.range size).map fun i => memory (address + i)

theorem bytesAt_memcpy (memory : Memory) (address : Nat) (bytes : List UInt8) :
    bytesAt (memcpy memory address bytes) address bytes.length = bytes := by
  refine List.ext_getElem (by rw [bytesAt,List.length_map,List.length_range]) fun i here there => ?_
  have found : (bytesAt (memcpy memory address bytes) address bytes.length)[i] =
      memcpy memory address bytes (address + i) := by simp [bytesAt]
  rw [found,memcpy_at,List.getD_eq_getElem _ _ there]

theorem Buffer.length_bytes (buffer : Buffer) : buffer.bytes.length = buffer.count := by
  rw [Buffer.bytes,List.length_map,List.length_range]

end Bytes

section Buffers
variable {heap : Heap} {s : Builder} {chain : List Nat}

-- The block a buffer was allocated in.
def Builder.block (s : Builder) (buffer : Nat) : Nat × Int :=
  (buffer,toS64 (BUFFER_SIZE + (s.buffers buffer).allocated))

-- The builder's buffers are its own and this chain, in use and in this order.
structure Holds (heap : Heap) (s : Builder) (chain : List Nat) : Prop where
  links : Links s.next heap.base (heap.base :: chain)
  apart : (heap.base :: chain).Nodup
  current : s.current_buffer = chain.getLast?.getD 0
  inside : ∀ a ∈ heap.base :: chain,(s.buffers a).count ≤ (s.buffers a).allocated
  books : ∃ blocks,ledger s.calls = some blocks ∧ blocks.Perm (chain.map s.block)
  turns : chain.length ≤ s.calls.length

def contents (s : Builder) (nodes : List Nat) : List UInt8 := nodes.flatMap fun a => (s.buffers a).bytes

-- No allocation of a buffer has failed.
def Granted (s : Builder) : Prop := ∀ size,.refused size ∉ s.calls

-- What buffers hold stays where it is.
def Keeps (s s' : Builder) (nodes : List Nat) : Prop := ∀ a ∈ nodes,(s.buffers a).bytes <+: (s'.buffers a).bytes

theorem Holds.chain_eq (holds : Holds heap s chain) : s.chain heap.base = some (heap.base :: chain) :=
  chase_links holds.links _ (Nat.succ_le_succ holds.turns)

-- The current buffer is the last one.
theorem Holds.last (holds : Holds heap s chain) :
    ∃ front,heap.base :: chain = front ++ [get_current_buffer heap s] := by
  rcases List.eq_nil_or_concat chain with none | ⟨front,last,split⟩
  · refine ⟨[],?_⟩
    rw [get_current_buffer,holds.current,none,List.getLast?_nil,Option.getD_none,if_neg (not_not.mpr rfl),List.nil_append]
  · have some : last ≠ 0 := holds.links.some last (by rw [split]; simp)
    refine ⟨heap.base :: front,?_⟩
    rw [get_current_buffer,holds.current,split,List.concat_eq_append,List.getLast?_append_of_ne_nil _ (List.cons_ne_nil _ _),
      List.getLast?_singleton,Option.getD_some,if_pos some,List.cons_append]

theorem set_same (s : Builder) (a : Nat) (buffer : Buffer) : (s.set a buffer).buffers a = buffer := if_pos rfl

theorem set_other (s : Builder) {a other : Nat} (buffer : Buffer) (different : other ≠ a) :
    (s.set a buffer).buffers other = s.buffers other := if_neg different

theorem set_next (s : Builder) (a : Nat) (buffer : Buffer) (same : buffer.next = s.next a) (other : Nat) :
    (s.set a buffer).next other = s.next other := by
  by_cases here : other = a
  · rw [here,← same]
    exact congrArg Buffer.next (set_same s a buffer)
  · exact congrArg Buffer.next (set_other s buffer here)

theorem set_block (s : Builder) (a : Nat) (buffer : Buffer) (same : buffer.allocated = (s.buffers a).allocated)
    (other : Nat) : (s.set a buffer).block other = s.block other := by
  rw [Builder.block,Builder.block]
  by_cases here : other = a
  · rw [here,set_same,same]
  · rw [set_other s buffer here]

theorem contents_congr {s' : Builder} {nodes : List Nat} (same : ∀ a ∈ nodes,s'.buffers a = s.buffers a) :
    contents s' nodes = contents s nodes := by
  rw [contents,contents,List.flatMap_def,List.flatMap_def]
  refine congrArg _ (List.map_congr_left fun a member => ?_)
  rw [same a member]

theorem contents_append (s : Builder) (front back : List Nat) :
    contents s (front ++ back) = contents s front ++ contents s back := List.flatMap_append

theorem contents_single (s : Builder) (a : Nat) : contents s [a] = (s.buffers a).bytes := List.flatMap_singleton ..

theorem length_contents (s : Builder) (nodes : List Nat) (start : Nat) :
    nodes.foldl (fun bytes buffer => bytes + (s.buffers buffer).count) start = start + (contents s nodes).length := by
  induction nodes generalizing start with
  | nil => rfl
  | cons a nodes ih =>
      rw [List.foldl_cons,ih,contents,contents,List.flatMap_cons,List.length_append,Buffer.length_bytes]
      omega

theorem Holds.length_eq (holds : Holds heap s chain) : length heap s = some (contents s (heap.base :: chain)).length := by
  rw [length,holds.chain_eq,Option.map_some,length_contents,Nat.zero_add]

theorem copied (s : Builder) (nodes : List Nat) (cursor : Nat) (memory : Memory) :
    nodes.foldl (copy_buffer s) (cursor,memory) =
      (cursor + (contents s nodes).length,memcpy memory cursor (contents s nodes)) := by
  induction nodes generalizing cursor memory with
  | nil => rw [List.foldl_nil,contents,List.flatMap_nil,List.length_nil,memcpy_nil,Nat.add_zero]
  | cons a nodes ih =>
      have split : contents s (a :: nodes) = (s.buffers a).bytes ++ contents s nodes := List.flatMap_cons
      have counted := Buffer.length_bytes (s.buffers a)
      have step : copy_buffer s (cursor,memory) a =
          (cursor + (s.buffers a).count,memcpy memory cursor (s.buffers a).bytes) := by
        by_cases some : 0 < (s.buffers a).count
        · exact if_pos some
        · have zero : (s.buffers a).count = 0 := by omega
          have empty : (s.buffers a).bytes = [] := List.eq_nil_of_length_eq_zero (counted.trans zero)
          rw [copy_buffer,if_neg some,empty,memcpy_nil,zero,Nat.add_zero]
      rw [List.foldl_cons,step,ih,split,List.length_append,counted,← counted,memcpy_append,Nat.add_assoc]

theorem Holds.copy_out_eq (holds : Holds heap s chain) (out : Nat) (memory : Memory) :
    copy_out heap s out memory = some (out + (contents s (heap.base :: chain)).length,
      memcpy memory out (contents s (heap.base :: chain))) := by
  rw [copy_out,holds.chain_eq,Option.map_some,copied]

end Buffers


section Steps
variable {heap : Heap} {s s' s'' : Builder} {chain chain' chain'' : List Nat} {added more : List UInt8}

-- What an append may do: the chain goes on, what is in it stays, and the bytes
-- are behind it unless memory for them was refused.
structure Grows (heap : Heap) (s : Builder) (chain : List Nat) (added : List UInt8) (s' : Builder) (chain' : List Nat) :
    Prop where
  holds : Holds heap s' chain'
  longer : chain <+: chain'
  keeps : Keeps s s' (heap.base :: chain)
  calls : s.calls <:+ s'.calls
  contents : Granted s' → contents s' (heap.base :: chain') = contents s (heap.base :: chain) ++ added

theorem Granted.before (granted : Granted s') (calls : s.calls <:+ s'.calls) : Granted s :=
  fun size member => granted size (calls.mem member)

theorem Grows.refl (holds : Holds heap s chain) : Grows heap s chain [] s chain :=
  ⟨holds,List.prefix_refl _,fun _ _ => List.prefix_refl _,List.suffix_refl _,fun _ => (List.append_nil _).symm⟩

theorem Grows.trans (first : Grows heap s chain added s' chain') (second : Grows heap s' chain' more s'' chain'') :
    Grows heap s chain (added ++ more) s'' chain'' := by
  refine ⟨second.holds,first.longer.trans second.longer,fun a member => ?_,first.calls.trans second.calls,fun granted => ?_⟩
  · have later : a ∈ heap.base :: chain' := by
      rcases List.mem_cons.mp member with rfl | member
      · exact List.mem_cons_self
      · exact List.mem_cons_of_mem _ (first.longer.mem member)
    exact (first.keeps a member).trans (second.keeps a later)
  · rw [second.contents granted,first.contents (granted.before second.calls),List.append_assoc]

theorem filled_bytes (buffer : Buffer) (bytes : List UInt8) : (buffer.fill bytes).bytes = buffer.bytes ++ bytes := by
  have counted : (buffer.fill bytes).count = buffer.count + bytes.length := rfl
  rw [Buffer.bytes,counted,List.range_add,List.map_append,List.map_map]
  refine congr (congrArg _ (List.map_congr_left fun i member => ?_)) ?_
  · exact memcpy_before _ _ (List.mem_range.mp member)
  · exact bytesAt_memcpy buffer.data buffer.count bytes

-- The last buffer takes what it has room for.
theorem Holds.fill (holds : Holds heap s chain) (bytes : List UInt8)
    (fits : bytes.length ≤ s.room (get_current_buffer heap s)) :
    Grows heap s chain bytes (s.fill (get_current_buffer heap s) bytes) chain := by
  obtain ⟨front,split⟩ := holds.last
  generalize current : get_current_buffer heap s = last at *
  have filled : (s.fill last bytes).buffers last = (s.buffers last).fill bytes := set_same ..
  have others : ∀ a,a ≠ last → (s.fill last bytes).buffers a = s.buffers a := fun a different => set_other s _ different
  refine ⟨⟨?_,holds.apart,holds.current,fun a member => ?_,?_,holds.turns⟩,
    List.prefix_refl _,fun a _ => ?_,List.suffix_refl _,fun _ => ?_⟩
  · exact holds.links.congr fun a _ => set_next s last ((s.buffers last).fill bytes) rfl a
  · have before := holds.inside a member
    by_cases same : a = last
    · rw [same,filled]
      show (s.buffers last).count + bytes.length ≤ (s.buffers last).allocated
      rw [Builder.room] at fits
      rw [same] at before
      omega
    · rw [others a same]
      exact before
  · obtain ⟨blocks,books,perm⟩ := holds.books
    refine ⟨blocks,books,?_⟩
    have same : chain.map (s.fill last bytes).block = chain.map s.block :=
      List.map_congr_left fun a _ => set_block s last ((s.buffers last).fill bytes) rfl a
    rw [same]
    exact perm
  · by_cases same : a = last
    · rw [same,filled,filled_bytes]
      exact List.prefix_append _ _
    · simp only [others a same,List.prefix_refl]
  · have apart := holds.apart
    rw [split] at apart
    have front_same : contents (s.fill last bytes) front = contents s front :=
      contents_congr fun a member => others a fun same =>
        (List.nodup_append.mp apart).2.2 a member last (List.mem_singleton.mpr rfl) same
    rw [split,contents_append,contents_append,contents_single,contents_single,filled,filled_bytes,front_same,
      List.append_assoc]

-- What an expand does where it is granted a block.
def Builder.extended (s : Builder) (last fresh : Nat) (size : Int) (allocated : Nat) : Builder :=
  let s := ({s with calls := .allocated fresh size :: s.calls} : Builder).set fresh
    {s.buffers fresh with count := 0, allocated := allocated, next := 0}
  {s.set last {s.buffers last with next := fresh} with current_buffer := fresh}

theorem extended_fresh (s : Builder) {last fresh : Nat} (different : last ≠ fresh) (size : Int) (allocated : Nat) :
    (s.extended last fresh size allocated).buffers fresh =
      {s.buffers fresh with count := 0, allocated := allocated, next := 0} :=
  (set_other _ _ different.symm).trans (set_same ..)

theorem extended_last (s : Builder) {last fresh : Nat} (different : last ≠ fresh) (size : Int) (allocated : Nat) :
    (s.extended last fresh size allocated).buffers last = {s.buffers last with next := fresh} := by
  refine (set_same ..).trans ?_
  rw [set_other _ _ different]

theorem extended_other (s : Builder) {last fresh a : Nat} (one : a ≠ last) (two : a ≠ fresh) (size : Int) (allocated : Nat) :
    (s.extended last fresh size allocated).buffers a = s.buffers a :=
  (set_other _ _ one).trans (set_other _ _ two)

theorem extended_room (s : Builder) {last fresh : Nat} (some : fresh ≠ 0) (different : last ≠ fresh) (size : Int)
    {allocated : Nat} (positive : 0 < allocated) : 0 < (s.extended last fresh size allocated).room
      (get_current_buffer heap (s.extended last fresh size allocated)) := by
  have current : get_current_buffer heap (s.extended last fresh size allocated) = fresh := if_pos some
  rw [current,Builder.room,extended_fresh s different]
  exact positive

theorem Holds.unused (holds : Holds heap s chain) (size : Int) (some : alloc heap s.calls size ≠ 0) :
    alloc heap s.calls size ∉ heap.base :: chain := by
  have asked : alloc heap s.calls size = heap.allocate s.calls size := by
    rw [alloc] at some ⊢
    split at some
    · exact absurd rfl some
    · rename_i positive
      exact if_neg positive
  obtain ⟨blocks,books,perm⟩ := holds.books
  rw [asked] at some ⊢
  intro member
  rcases List.mem_cons.mp member with base | member
  · exact heap.apart some base
  · have block := perm.mem_iff.mpr (List.mem_map_of_mem member)
    exact heap.unused books some _ block rfl

theorem Holds.extended (holds : Holds heap s chain) {fresh : Nat} (some : fresh ≠ 0)
    (unused : fresh ∉ heap.base :: chain) (allocated : Nat) :
    Grows heap s chain [] (s.extended (get_current_buffer heap s) fresh (toS64 (BUFFER_SIZE + allocated)) allocated)
      (chain ++ [fresh]) := by
  obtain ⟨front,split⟩ := holds.last
  generalize current : get_current_buffer heap s = last at *
  have apart := holds.apart
  have last_member : last ∈ heap.base :: chain := by rw [split]; simp
  have different : last ≠ fresh := fun same => unused (same ▸ last_member)
  have at_fresh := extended_fresh s different (toS64 (BUFFER_SIZE + allocated)) allocated
  have at_last := extended_last s different (toS64 (BUFFER_SIZE + allocated)) allocated
  have others : ∀ a,a ≠ last → a ≠ fresh → _ := fun a one two =>
    extended_other s (a:=a) one two (toS64 (BUFFER_SIZE + allocated)) allocated
  have calls : (s.extended last fresh (toS64 (BUFFER_SIZE + allocated)) allocated).calls =
      .allocated fresh (toS64 (BUFFER_SIZE + allocated)) :: s.calls := rfl
  have moved : (s.extended last fresh (toS64 (BUFFER_SIZE + allocated)) allocated).current_buffer = fresh := rfl
  generalize s.extended last fresh (toS64 (BUFFER_SIZE + allocated)) allocated = s' at *
  have old : ∀ a ∈ heap.base :: chain,(s'.buffers a).count = (s.buffers a).count ∧
      (s'.buffers a).allocated = (s.buffers a).allocated ∧ (s'.buffers a).bytes = (s.buffers a).bytes := by
    intro a member
    by_cases same : a = last
    · rw [same,at_last]
      exact ⟨rfl,rfl,rfl⟩
    · rw [others a same fun here => unused (here ▸ member)]
      exact ⟨rfl,rfl,rfl⟩
  have nodes : heap.base :: (chain ++ [fresh]) = front ++ [last,fresh] := by
    rw [← List.cons_append,split,List.append_assoc]
    rfl
  have kept : contents s' (heap.base :: chain) = contents s (heap.base :: chain) := by
    rw [contents,contents,List.flatMap_def,List.flatMap_def]
    exact congrArg _ (List.map_congr_left fun a member => (old a member).2.2)
  refine ⟨⟨?_,?_,?_,?_,?_,?_⟩,List.prefix_append _ _,fun a member => ?_,?_,fun _ => ?_⟩
  · rw [nodes]
    have links := holds.links
    rw [split] at links apart
    refine links.extend (fun a member => ?_) (congrArg Buffer.next at_last) some (congrArg Buffer.next at_fresh)
    refine congrArg Buffer.next (others a (fun same => ?_) fun same => unused ?_)
    · exact (List.nodup_append.mp apart).2.2 a member last (List.mem_singleton.mpr rfl) same
    · rw [split,← same]
      exact List.mem_append_left _ member
  · rw [← List.cons_append]
    refine List.nodup_append.mpr ⟨apart,List.pairwise_singleton _ fresh,fun a member b single same => unused ?_⟩
    rw [← List.mem_singleton.mp single,← same]
    exact member
  · rw [moved,List.getLast?_append_of_ne_nil _ (List.cons_ne_nil _ _)]
    rfl
  · rw [← List.cons_append]
    intro a member
    rcases List.mem_append.mp member with member | single
    · rw [(old a member).1,(old a member).2.1]
      exact holds.inside a member
    · rw [List.mem_singleton.mp single,at_fresh]
      exact Nat.zero_le _
  · obtain ⟨blocks,books,perm⟩ := holds.books
    refine ⟨(fresh,toS64 (BUFFER_SIZE + allocated)) :: blocks,?_,?_⟩
    · rw [calls,ledger,books,Option.map_some]
    · have added : s'.block fresh = (fresh,toS64 (BUFFER_SIZE + allocated)) := by rw [Builder.block,at_fresh]
      have same : chain.map s'.block = chain.map s.block := List.map_congr_left fun a member => by
        rw [Builder.block,Builder.block,(old a (List.mem_cons_of_mem _ member)).2.1]
      rw [List.map_append,List.map_singleton,added,same]
      exact (perm.cons _).trans (List.perm_append_singleton _ _).symm
  · rw [calls,List.length_append,List.length_cons]
    exact Nat.succ_le_succ holds.turns
  · simp only [(old a member).2.2,List.prefix_refl]
  · rw [calls]
    exact List.suffix_cons _ _
  · have empty : (s'.buffers fresh).bytes = [] := by rw [at_fresh]; rfl
    rw [← List.cons_append,contents_append,contents_single,empty,kept]

-- An expand adds an empty buffer with room, or says it was refused.
theorem Holds.expand (holds : Holds heap s chain) : ∃ expanded s' chain',expand heap s = (expanded,s') ∧
    Grows heap s chain [] s' chain' ∧ (expanded = true → 0 < s'.room (get_current_buffer heap s')) ∧
      (expanded = false → ¬ Granted s') := by
  have positive : 0 < (if 0 < s.subsequent_buffer_size then s.subsequent_buffer_size else INITIAL_DATA_SIZE) := by
    split
    · assumption
    · decide
  obtain ⟨allocated,subsequent⟩ : ∃ n : Nat,(if 0 < s.subsequent_buffer_size then s.subsequent_buffer_size
      else INITIAL_DATA_SIZE) = n := ⟨_,(Int.toNat_of_nonneg (Int.le_of_lt positive)).symm⟩
  rw [subsequent] at positive
  rw [StringBuilder.expand,subsequent]
  dsimp only
  by_cases refused : alloc heap s.calls (toS64 (BUFFER_SIZE + allocated)) = 0
  · rw [if_pos refused]
    refine ⟨false,_,chain,rfl,?_,fun wrong => Bool.noConfusion wrong,fun _ granted => granted _ List.mem_cons_self⟩
    exact ⟨⟨holds.links,holds.apart,holds.current,holds.inside,holds.books,Nat.le_succ_of_le holds.turns⟩,
      List.prefix_refl _,fun a _ => List.prefix_refl _,List.suffix_cons _ _,fun _ => (List.append_nil _).symm⟩
  · rw [if_neg refused]
    have unused := holds.unused _ refused
    obtain ⟨front,split⟩ := holds.last
    have different : get_current_buffer heap s ≠ alloc heap s.calls (toS64 (BUFFER_SIZE + allocated)) := fun same =>
      unused (by rw [← same,split]; simp)
    exact ⟨true,_,_,rfl,holds.extended refused unused allocated,
      fun _ => extended_room s refused different _ (by omega),fun wrong => Bool.noConfusion wrong⟩

-- Before a copy there is room, or none was granted.
theorem Holds.ready (holds : Holds heap s chain) : ∃ expanded s' chain',
    (if s.room (get_current_buffer heap s) = 0 then StringBuilder.expand heap s else (true,s)) = (expanded,s') ∧
      Grows heap s chain [] s' chain' ∧ (expanded = true → 0 < s'.room (get_current_buffer heap s')) ∧
        (expanded = false → ¬ Granted s') := by
  by_cases full : s.room (get_current_buffer heap s) = 0
  · rw [if_pos full]
    exact holds.expand
  · rw [if_neg full]
    exact ⟨true,s,chain,rfl,.refl holds,fun _ => Nat.pos_of_ne_zero full,fun wrong => Bool.noConfusion wrong⟩

theorem Holds.append_loop (holds : Holds heap s chain) (turns : Nat) (bytes : List UInt8) (enough : bytes.length ≤ turns) :
    ∃ s' chain',append_loop heap turns bytes s = some s' ∧ Grows heap s chain bytes s' chain' := by
  induction turns generalizing s chain bytes with
  | zero =>
      obtain rfl := List.eq_nil_of_length_eq_zero (Nat.le_zero.mp enough)
      exact ⟨s,chain,rfl,.refl holds⟩
  | succ turns ih =>
      cases bytes with
      | nil => exact ⟨s,chain,rfl,.refl holds⟩
      | cons byte bytes =>
          obtain ⟨expanded,s1,chain1,step,grows,room,refused⟩ := holds.ready
          rw [StringBuilder.append_loop,step]
          case x_3 => exact List.cons_ne_nil _ _
          cases expanded with
          | false =>
              have held := grows.holds
              refine ⟨_,chain1,rfl,⟨held.links,held.apart,held.current,held.inside,held.books,held.turns⟩,
                grows.longer,grows.keeps,grows.calls,fun granted => absurd granted (refused rfl)⟩
          | true =>
              have some := room rfl
              dsimp only
              rw [if_neg (fun wrong => Bool.noConfusion wrong),if_neg (Nat.pos_iff_ne_zero.mp some)]
              generalize copied : (if (byte :: bytes).length < s1.room (get_current_buffer heap s1) then (byte :: bytes).length
                else s1.room (get_current_buffer heap s1)) = to_copy
              have bounds : 0 < to_copy ∧ to_copy ≤ s1.room (get_current_buffer heap s1) := by
                rw [← copied,List.length_cons]
                split <;> omega
              have filled := grows.holds.fill ((byte :: bytes).take to_copy) (by rw [List.length_take]; omega)
              obtain ⟨s2,chain2,rest,more⟩ := ih filled.holds ((byte :: bytes).drop to_copy)
                (by rw [List.length_drop]; omega)
              refine ⟨s2,chain2,rest,?_⟩
              have all := (grows.trans filled).trans more
              rw [List.nil_append,List.take_append_drop] at all
              exact all

theorem Holds.append (holds : Holds heap s chain) (bytes : List UInt8) :
    ∃ s' chain',append heap bytes s = some s' ∧ Grows heap s chain bytes s' chain' :=
  holds.append_loop bytes.length bytes (Nat.le_refl _)

end Steps

section Resets
variable {heap : Heap} {s : Builder} {chain : List Nat}

theorem freed_buffers (chain : List Nat) (s : Builder) : (chain.foldl free_buffer s).buffers = s.buffers := by
  induction chain generalizing s with
  | nil => rfl
  | cons a chain ih => exact ih _

-- Each block goes back once, with the size it came with.
theorem freed_books (s : Builder) (books : ledger s.calls = some blocks) (perm : blocks.Perm (chain.map s.block)) :
    ledger (chain.foldl free_buffer s).calls = some [] := by
  induction chain generalizing s blocks with
  | nil =>
      rw [List.foldl_nil,books]
      exact congrArg some perm.eq_nil
  | cons a chain ih =>
      have member : s.block a ∈ blocks := perm.mem_iff.mpr List.mem_cons_self
      have rest := perm.erase (s.block a)
      rw [List.map_cons,List.erase_cons_head] at rest
      refine ih (free_buffer s a) ?_ rest
      show (ledger s.calls).bind _ = _
      rw [books,Option.bind_some]
      exact if_pos member

theorem freed_granted (s : Builder) (size : Int) :
    .refused size ∈ (chain.foldl free_buffer s).calls ↔ .refused size ∈ s.calls := by
  induction chain generalizing s with
  | nil => rfl
  | cons a chain ih =>
      rw [List.foldl_cons,ih]
      exact List.mem_cons.trans (or_iff_right fun same => HeapCall.noConfusion same)

theorem Holds.free_buffers (holds : Holds heap s chain) : ∃ s',free_buffers heap s = some s' ∧
    ledger s'.calls = some [] ∧ s'.next heap.base = 0 ∧ (Granted s' ↔ Granted s) ∧
      (s'.buffers heap.base).allocated = (s.buffers heap.base).allocated := by
  obtain ⟨_,_,rest⟩ := holds.links
  obtain ⟨blocks,books,perm⟩ := holds.books
  have visited : s.chain (s.next heap.base) = some chain :=
    chase_links rest _ (Nat.le_succ_of_le holds.turns)
  rw [StringBuilder.free_buffers,visited,Option.map_some]
  refine ⟨_,rfl,freed_books s books perm,congrArg Buffer.next (set_same ..),
    forall_congr' fun size => not_congr (freed_granted s size),?_⟩
  rw [set_same,freed_buffers]

-- A reset leaves the empty builder: no chain, and the base as at first.
theorem Holds.reset (holds : Holds heap s chain) : ∃ s',reset heap s = some s' ∧ Holds heap s' [] ∧
    contents s' [heap.base] = [] ∧ (Granted s' ↔ Granted s) := by
  obtain ⟨s1,freed,books,closed,granted,allocated⟩ := holds.free_buffers
  rw [StringBuilder.reset,freed,Option.map_some]
  refine ⟨_,rfl,⟨⟨rfl,heap.base_some,?_⟩,List.pairwise_singleton _ _,rfl,fun a member => ?_,⟨[],books,.refl _⟩,
    Nat.zero_le _⟩,?_,granted⟩
  · exact (congrArg Buffer.next (set_same ..)).trans closed
  · rw [List.mem_singleton.mp member]
    show Buffer.count ((s1.set _ _).buffers _) ≤ _
    rw [set_same]
    exact Nat.zero_le _
  · rw [contents_single]
    show Buffer.bytes ((s1.set _ _).buffers _) = _
    rw [set_same]
    rfl

theorem construct_holds (heap : Heap) (buffer_size : S64) (buffers : Nat → Buffer) :
    Holds heap (construct heap buffer_size buffers) [] ∧ contents (construct heap buffer_size buffers) [heap.base] = [] ∧
      Granted (construct heap buffer_size buffers) := by
  have base : (construct heap buffer_size buffers).buffers heap.base =
      {buffers heap.base with count := 0, allocated := INITIAL_DATA_SIZE, next := 0} := set_same ..
  refine ⟨⟨⟨rfl,heap.base_some,congrArg Buffer.next base⟩,List.pairwise_singleton _ _,rfl,fun a member => ?_,
    ⟨[],rfl,.refl _⟩,Nat.zero_le _⟩,?_,fun size member => (List.not_mem_nil member).elim⟩
  · rw [List.mem_singleton.mp member,base]
    exact Nat.zero_le _
  · rw [contents_single,base]
    rfl

end Resets

end StringBuilder
