import Gameos.AllocatorContract
import Gameos.TransitionRuns
import Mathlib.Data.List.Nodup

-- Debug_Allocator_State: what it records of the allocations it passes on.
namespace DebugAllocator
open AllocatorTypes AllocatorCalls AllocatorContract TransitionRuns

def features : AllocatorFeatures :=
  AllocatorFeatures.isThisYours ||| AllocatorFeatures.info ||| AllocatorFeatures.debugAllocator

-- An Allocation_Record and where it lies.
structure AllocationRecord where
  address : Nat
  pointer : Nat
  size : Int
  alignment : Int
deriving DecidableEq, Repr

def recordSize : Int := 32
def recordAlignment : Int := 8

-- The list from live_head on. The guard is left out: one caller at a time.
structure State (σ : Type) where
  backing : σ
  records : List AllocationRecord
  liveCount : Int

def init (backing : σ) : State σ := ⟨backing,[],0⟩

-- ~Debug_Allocator_State: "Leaked allocations."
def State.leaked (state : State σ) : Bool := state.liveCount != 0 || !state.records.isEmpty

def State.find (state : State σ) (pointer : Nat) : Option AllocationRecord :=
  state.records.find? (fun record => record.pointer = pointer)

def unlink (pointer : Nat) (records : List AllocationRecord) : List AllocationRecord :=
  records.eraseP (fun record => record.pointer = pointer)

-- The record of a block that has moved or changed its size.
def update (pointer memory : Nat) (size alignment : Int) : List AllocationRecord → List AllocationRecord
  | [] => []
  | record :: records =>
    if record.pointer = pointer then ⟨record.address,memory,size,alignment⟩ :: records
    else record :: update pointer memory size alignment records

section Dispatch
variable (allocator : Allocator σ)

def dispatchAllocate (size alignment : Int) (state : State σ) : Option (AllocatorResult × State σ) :=
  match allocator.procAllocate size alignment state.backing with
  | none => none
  | some (allocation,backing) =>
    if allocation.error ≠ .none ∨ allocation.memory = 0 then some (allocation,{state with backing := backing})
    else
      match allocator.alloc recordSize recordAlignment backing with
      | none => none
      | some (record,backing) =>
        if record.memory = 0 then
          (allocator.free allocation.memory size alignment backing).map fun (_,backing) =>
            (failure .outOfMemory,{state with backing := backing})
        else
          some (allocation,{
            backing := backing
            records := ⟨record.memory,allocation.memory,size,alignment⟩ :: state.records
            liveCount := state.liveCount + 1 })

def dispatchResize (size alignment oldSize : Int) (oldMemory : Nat) (state : State σ) :
    Option (AllocatorResult × State σ) :=
  match allocator.realloc oldMemory oldSize size alignment state.backing with
  | none => none
  | some (allocation,backing) =>
    if allocation.error ≠ .none then some (allocation,{state with backing := backing})
    else if oldMemory = 0 then
      if allocation.memory = 0 then some (allocation,{state with backing := backing})
      else
        match allocator.alloc recordSize recordAlignment backing with
        | none => none
        | some (record,backing) =>
          -- the allocation itself is not given back
          if record.memory = 0 then some (failure .outOfMemory,{state with backing := backing})
          else
            some (allocation,{
              backing := backing
              records := ⟨record.memory,allocation.memory,size,alignment⟩ :: state.records
              liveCount := state.liveCount + 1 })
    else
      match state.find oldMemory with
      | none => none
      | some record =>
        if size = 0 then
          (allocator.free record.address recordSize recordAlignment backing).map fun (_,backing) =>
            (allocation,{
              backing := backing
              records := unlink oldMemory state.records
              liveCount := state.liveCount - 1 })
        else
          some (allocation,{
            backing := backing
            records := update oldMemory allocation.memory size alignment state.records
            liveCount := state.liveCount })

-- No record is "Double free.", another size "Debug allocator free size mismatch".
def dispatchFree (oldSize : Int) (oldMemory : Nat) (state : State σ) : Option (AllocatorResult × State σ) :=
  if oldMemory = 0 then some (success 0,state)
  else
    match state.find oldMemory with
    | none => none
    | some record =>
      if oldSize ≠ 0 ∧ record.size ≠ oldSize then none
      else
        match allocator.free record.pointer record.size record.alignment state.backing with
        | none => none
        | some (error,backing) =>
          (allocator.free record.address recordSize recordAlignment backing).map fun (_,backing) =>
            (⟨0,error⟩,{
              backing := backing
              records := unlink oldMemory state.records
              liveCount := state.liveCount - 1 })

end Dispatch

def isThisYours (oldMemory : Nat) (state : State σ) : AllocatorResult :=
  if (state.find oldMemory).isSome then success oldMemory else success 0

-- INFO fills the record of the caller with the requested size and alignment.
def info (pointer : Nat) (state : State σ) : Except AllocatorError (Int × Int) :=
  match state.find pointer with
  | some record => .ok (record.size,record.alignment)
  | none => .error .invalidPointer

-- The debug allocator as an allocator.
def debug (allocator : Allocator σ) : Allocator (State σ) where
  procAllocate := dispatchAllocate allocator
  procResize := dispatchResize allocator
  procFree := fun _ => dispatchFree allocator
  features := allocator.features ||| features
  memcpy := fun destination source length state =>
    {state with backing := allocator.memcpy destination source length state.backing}

section Lists

theorem update_behind (front : List AllocationRecord) (before : ∀ other ∈ front, other.pointer ≠ pointer)
    {record : AllocationRecord} (same : record.pointer = pointer) : update pointer memory size alignment (front ++ record :: back) =
      front ++ ⟨record.address,memory,size,alignment⟩ :: back := by
  induction front with
  | nil =>
      rw [List.nil_append,update,if_pos same]
      rfl
  | cons other front ih =>
      rw [List.cons_append,update,if_neg (before other (List.mem_cons_self ..)),
        ih fun another here => before another (List.mem_cons_of_mem _ here)]
      rfl

-- The first record of a pointer, and the list without it or with another in its place.
theorem find_split {state : State σ} (found : state.find pointer = some record) :
    record.pointer = pointer ∧ ∃ front back, state.records = front ++ record :: back ∧
      unlink pointer state.records = front ++ back ∧
      ∀ memory size alignment, update pointer memory size alignment state.records =
        front ++ ⟨record.address,memory,size,alignment⟩ :: back := by
  obtain ⟨here,front,back,split,before⟩ := List.find?_eq_some_iff_append.mp found
  have same : record.pointer = pointer := of_decide_eq_true here
  have others : ∀ other ∈ front, other.pointer ≠ pointer := fun other among => by simpa using before other among
  refine ⟨same,front,back,split,?_,?_⟩
  · rw [split,unlink,List.eraseP_append_right _ (by simpa using others)]
    exact congrArg (front ++ ·) (List.eraseP_cons_of_pos (p:=fun record : AllocationRecord => decide (record.pointer = pointer)) here)
  · intro memory size alignment
    rw [split]
    exact update_behind front others same

end Lists

-- What a caller owns: an allocation that was returned and not yet released.
structure Allocation where
  pointer : Nat
  size : Int
  alignment : Int
deriving DecidableEq, Repr

structure System (σ : Type) where
  debug : State σ
  allocations : List Allocation

inductive Call where
  | allocate (size alignment : Int)
  | resize (pointer : Nat) (oldSize size alignment : Int)
  | free (pointer : Nat) (oldSize : Int)

-- A result that gives the caller a block.
def gained (result : AllocatorResult) (size alignment : Int) (allocations : List Allocation) : List Allocation :=
  if result.error = .none ∧ result.memory ≠ 0 then ⟨result.memory,size,alignment⟩ :: allocations else allocations

-- Callers pass what they own with its size, or null; to `free` the size may be
-- left out.
inductive Step (allocator : Allocator σ) : System σ → Call → System σ → Prop where
  | allocated : dispatchAllocate allocator size alignment sys.debug = some (result,after) →
      Step allocator sys (.allocate size alignment) ⟨after,gained result size alignment sys.allocations⟩
  | resized : a ∈ sys.allocations → dispatchResize allocator size alignment a.size a.pointer sys.debug = some (result,after) →
      Step allocator sys (.resize a.pointer a.size size alignment)
        ⟨after,if result.error = .none then gained result size alignment (sys.allocations.erase a) else sys.allocations⟩
  | resizedNull : dispatchResize allocator size alignment oldSize 0 sys.debug = some (result,after) →
      Step allocator sys (.resize 0 oldSize size alignment) ⟨after,gained result size alignment sys.allocations⟩
  | freed : a ∈ sys.allocations → oldSize = a.size ∨ oldSize = 0 →
      dispatchFree allocator oldSize a.pointer sys.debug = some (result,after) →
      Step allocator sys (.free a.pointer oldSize)
        ⟨after,if result.error = .none then sys.allocations.erase a else sys.allocations⟩

-- The record of a block that RESIZE gave out of nothing finds its place.
def Recorded (allocator : Allocator σ) (sys : System σ) : Call → Prop
  | .resize 0 oldSize size alignment => ∀ allocation s record s', 0 < size →
      allocator.realloc 0 oldSize size alignment sys.debug.backing = some (allocation,s) → allocation.error = .none →
      allocator.alloc recordSize recordAlignment s = some (record,s') → record.memory ≠ 0
  | _ => True

def given (record : AllocationRecord) : Allocation := ⟨record.pointer,record.size,record.alignment⟩

-- The blocks behind the records: what was asked for, and the record itself.
def payload (record : AllocationRecord) : Block := ⟨record.pointer,record.size⟩
def home (record : AllocationRecord) : Block := ⟨record.address,recordSize⟩
def owned (records : List AllocationRecord) : List Block := records.flatMap fun record => [payload record,home record]

structure Tracks (live : σ → List Block) (others : List Block) (sys : System σ) : Prop where
  records : (sys.debug.records.map given).Perm sys.allocations
  count : sys.debug.liveCount = sys.debug.records.length
  backing : (live sys.debug.backing).Perm (owned sys.debug.records ++ others)
  aligned : ∀ record ∈ sys.debug.records, 0 < record.alignment

section Records
variable {allocator : Allocator σ} {live : σ → List Block} {others : List Block} {sys : System σ}

theorem owned_behind (front : List AllocationRecord) (record : AllocationRecord) (back : List AllocationRecord)
    (others : List Block) : (owned (front ++ record :: back) ++ others).Perm
      (payload record :: home record :: (owned (front ++ back) ++ others)) := by
  have moved : (front ++ record :: back).Perm (record :: (front ++ back)) := List.perm_middle
  exact (moved.flatMap_right _).append_right others

theorem payload_sublist (records : List AllocationRecord) : (records.map payload).Sublist (owned records) := by
  induction records with
  | nil => exact List.Sublist.refl _
  | cons record records ih => exact (ih.cons (home record)).cons_cons (payload record)

theorem Tracks.distinct (tracks : Tracks live others sys) (contract : Contract allocator live) :
    (sys.debug.records.map (·.pointer)).Nodup := by
  have apart : (owned sys.debug.records ++ others).Pairwise Apart :=
    (tracks.backing.pairwise_iff fun either => Or.symm either).mp (contract.apart _)
  have positive : ∀ record ∈ sys.debug.records, 0 < record.size := fun record here =>
    (contract.positive _ _ (tracks.backing.symm.subset (List.mem_append_left _
      (List.mem_flatMap.mpr ⟨record,here,List.mem_cons_self ..⟩)))).2
  have payloads := (List.pairwise_append.mp apart).1.sublist (payload_sublist _)
  rw [List.pairwise_map] at payloads
  rw [List.Nodup,List.pairwise_map]
  exact payloads.imp_of_mem fun first second away => apart_pointers away (positive _ first) (positive _ second)

-- What the caller owns has a record, and the block behind it is live.
theorem Tracks.found (tracks : Tracks live others sys) (contract : Contract allocator live) (here : a ∈ sys.allocations) :
    ∃ record, sys.debug.find a.pointer = some record ∧ given record = a ∧ a.pointer ≠ 0 := by
  obtain ⟨record,among,rfl⟩ := List.mem_map.mp (tracks.records.symm.subset here)
  have held : payload record ∈ live sys.debug.backing :=
    tracks.backing.symm.subset (List.mem_append_left _ (List.mem_flatMap.mpr ⟨record,among,List.mem_cons_self ..⟩))
  have notNull := (contract.positive _ _ held).1
  cases found : sys.debug.find (given record).pointer with
  | none =>
      have absent := List.find?_eq_none.mp found record among
      exact absurd (decide_eq_true rfl) absent
  | some other =>
      obtain ⟨same,front,back,split,_⟩ := find_split found
      have there : other ∈ sys.debug.records := by
        rw [split]
        exact List.mem_append_right _ (List.mem_cons_self ..)
      have one := List.inj_on_of_nodup_map (tracks.distinct contract) there among same
      exact ⟨other,rfl,by rw [one],notNull⟩

theorem Tracks.same {backing : σ} (tracks : Tracks live others sys) (kept : (live backing).Perm (live sys.debug.backing)) :
    Tracks live others ⟨{sys.debug with backing := backing},sys.allocations⟩ :=
  ⟨tracks.records,tracks.count,kept.trans tracks.backing,tracks.aligned⟩

theorem Tracks.pushed {backing : σ} (tracks : Tracks live others sys) (record : AllocationRecord)
    (aligned : 0 < record.alignment) (more : (live backing).Perm (home record :: payload record :: live sys.debug.backing)) :
    Tracks live others ⟨⟨backing,record :: sys.debug.records,sys.debug.liveCount + 1⟩,given record :: sys.allocations⟩ := by
  refine ⟨tracks.records.cons _,?_,?_,List.forall_mem_cons.mpr ⟨aligned,tracks.aligned⟩⟩
  · show sys.debug.liveCount + 1 = ((record :: sys.debug.records).length : Int)
    rw [tracks.count,List.length_cons,Int.natCast_succ]
  · exact (more.trans (.swap ..)).trans ((tracks.backing.cons _).cons _)

theorem gained_null (none : result.memory = 0) (size alignment : Int) (allocations : List Allocation) :
    gained result size alignment allocations = allocations := by
  rw [gained,if_neg fun both => both.2 none]

theorem gained_block (fine : result.error = .none) (notNull : result.memory ≠ 0) (size alignment : Int)
    (allocations : List Allocation) :
    gained result size alignment allocations = ⟨result.memory,size,alignment⟩ :: allocations := by
  rw [gained,if_pos ⟨fine,notNull⟩]

theorem allocate_tracks (contract : Contract allocator live) (frees : Frees allocator live)
    (tracks : Tracks live others sys) (size alignment : Int) :
    ∃ result after, dispatchAllocate allocator size alignment sys.debug = some (result,after) ∧
      Tracks live others ⟨after,gained result size alignment sys.allocations⟩ := by
  obtain ⟨allocation,s₁,allocated,granted⟩ := contract.allocate size alignment sys.debug.backing
  rw [dispatchAllocate,allocated]
  dsimp only
  obtain ⟨none,_,same⟩ | ⟨fine,fresh,more⟩ := granted
  · rw [if_pos (.inr none)]
    refine ⟨_,_,rfl,?_⟩
    rw [gained_null none]
    exact tracks.same same
  · rw [if_neg (by simp [fine,fresh.notNull])]
    obtain ⟨place,s₂,recorded,granted'⟩ := alloc_granted contract recordSize recordAlignment s₁
    rw [recorded]
    dsimp only
    obtain ⟨none,_,same⟩ | ⟨_,fresh',more'⟩ := granted'
    · rw [if_pos none]
      have usable := power_positive fresh.power
      have both := same.trans more
      obtain ⟨s₃,freed,fewer⟩ := free_exact contract frees ⟨allocation.memory,size⟩ (Int.le_of_lt usable)
        (both.symm.subset (List.mem_cons_self ..))
      have left := fewer.trans (both.erase _)
      rw [List.erase_cons_head] at left
      rw [freed]
      refine ⟨_,_,rfl,?_⟩
      rw [gained_null rfl]
      exact tracks.same left
    · rw [if_neg fresh'.notNull]
      refine ⟨_,_,rfl,?_⟩
      rw [gained_block fine fresh.notNull]
      exact tracks.pushed ⟨place.memory,allocation.memory,size,alignment⟩ (power_positive fresh.power) (more'.trans (more.cons _))

-- No block, or a fresh one without an error.
theorem allocate_outcome (contract : Contract allocator live) {state after : State σ} {size alignment : Int}
    (allocated : dispatchAllocate allocator size alignment state = some (result,after)) :
    (result.memory = 0 ∧ (0 < size → result.error ≠ .none)) ∨
      (result.error = .none ∧ Fresh ⟨result.memory,size⟩ alignment (live state.backing)) := by
  obtain ⟨allocation,s₁,passed,granted⟩ := contract.allocate size alignment state.backing
  rw [dispatchAllocate,passed] at allocated
  dsimp only at allocated
  obtain ⟨none,fails,_⟩ | ⟨fine,fresh,_⟩ := granted
  · rw [if_pos (.inr none)] at allocated
    cases allocated
    exact .inl ⟨none,fails⟩
  · rw [if_neg (by simp [fine,fresh.notNull])] at allocated
    split at allocated
    · cases allocated
    · split at allocated
      · obtain ⟨_,_,same⟩ := Option.map_eq_some_iff.mp allocated
        cases same
        exact .inl ⟨rfl,fun _ wrong => nomatch wrong⟩
      · cases allocated
        exact .inr ⟨fine,fresh⟩

theorem allocate_fine (contract : Contract allocator live) {state after : State σ} {size alignment : Int}
    (allocated : dispatchAllocate allocator size alignment state = some (result,after)) (notNull : result.memory ≠ 0) :
    result.error = .none :=
  (allocate_outcome contract allocated).elim (fun none => absurd none.1 notNull) And.left

-- The record of what the caller owns, and the other records around it.
theorem Tracks.split (tracks : Tracks live others sys) (contract : Contract allocator live) (here : a ∈ sys.allocations) :
    ∃ record front back, sys.debug.find a.pointer = some record ∧ given record = a ∧ a.pointer ≠ 0 ∧
      unlink a.pointer sys.debug.records = front ++ back ∧
      (∀ memory size alignment, update a.pointer memory size alignment sys.debug.records =
        front ++ ⟨record.address,memory,size,alignment⟩ :: back) ∧
      sys.debug.records = front ++ record :: back ∧
      ((front ++ back).map given).Perm (sys.allocations.erase a) ∧
      (live sys.debug.backing).Perm (payload record :: home record :: (owned (front ++ back) ++ others)) := by
  obtain ⟨record,found,rfl,notNull⟩ := tracks.found contract here
  obtain ⟨_,front,back,split,unlinked,updated⟩ := find_split found
  have records := tracks.records
  have backing := tracks.backing
  rw [split] at records backing
  have moved : ((front ++ record :: back).map given).Perm (given record :: (front ++ back).map given) :=
    List.perm_middle.map given
  have fewer := (moved.symm.trans records).erase (given record)
  rw [List.erase_cons_head] at fewer
  exact ⟨record,front,back,found,rfl,notNull,unlinked,updated,split,fewer,backing.trans (owned_behind ..)⟩

-- One record less, and neither of its blocks.
theorem Tracks.unlinked {backing : σ} {front back : List AllocationRecord} (tracks : Tracks live others sys)
    (split : sys.debug.records = front ++ record :: back) (fewer : ((front ++ back).map given).Perm allocations)
    (left : (live backing).Perm (owned (front ++ back) ++ others)) :
    Tracks live others ⟨⟨backing,front ++ back,sys.debug.liveCount - 1⟩,allocations⟩ := by
  refine ⟨fewer,?_,left,?_⟩
  · show sys.debug.liveCount - 1 = ((front ++ back).length : Int)
    rw [tracks.count,split]
    simp only [List.length_append,List.length_cons]
    omega
  · intro other here
    refine tracks.aligned other ?_
    rw [split]
    rcases List.mem_append.mp here with here | here
    · exact List.mem_append_left _ here
    · exact List.mem_append_right _ (List.mem_cons_of_mem _ here)

theorem free_taken (contract : Contract allocator live) (frees : Frees allocator live) (tracks : Tracks live others sys)
    (here : a ∈ sys.allocations) (known : oldSize = a.size ∨ oldSize = 0) :
    ∃ after, dispatchFree allocator oldSize a.pointer sys.debug = some (success 0,after) ∧
      Tracks live others ⟨after,sys.allocations.erase a⟩ := by
  obtain ⟨record,front,back,found,rfl,notNull,unlinked,_,split,fewer,blocks⟩ := tracks.split contract here
  have right : ¬ (oldSize ≠ 0 ∧ record.size ≠ oldSize) := by
    rintro ⟨some,other⟩
    rcases known with rfl | rfl
    · exact other rfl
    · exact some rfl
  have aligned := tracks.aligned record (by rw [split]; exact List.mem_append_right _ (List.mem_cons_self ..))
  obtain ⟨s₁,freed,left⟩ := free_exact contract frees (payload record) (Int.le_of_lt aligned)
    (blocks.symm.subset (List.mem_cons_self ..))
  have homes := left.trans (blocks.erase _)
  rw [List.erase_cons_head] at homes
  obtain ⟨s₂,freed',left'⟩ := free_exact contract frees (home record) (show 0 ≤ recordAlignment by decide)
    (homes.symm.subset (List.mem_cons_self ..))
  have rest := left'.trans (homes.erase _)
  rw [List.erase_cons_head] at rest
  have freedPayload : allocator.free record.pointer record.size record.alignment sys.debug.backing = some (.none,s₁) := freed
  have freedHome : allocator.free record.address recordSize recordAlignment s₁ = some (.none,s₂) := freed'
  rw [dispatchFree,if_neg notNull,found]
  dsimp only
  rw [if_neg right,freedPayload]
  dsimp only
  rw [freedHome,unlinked]
  exact ⟨_,rfl,tracks.unlinked split fewer rest⟩

theorem free_tracks (contract : Contract allocator live) (frees : Frees allocator live) (tracks : Tracks live others sys)
    (here : a ∈ sys.allocations) (known : oldSize = a.size ∨ oldSize = 0) :
    ∃ result after, dispatchFree allocator oldSize a.pointer sys.debug = some (result,after) ∧
      Tracks live others ⟨after,if result.error = .none then sys.allocations.erase a else sys.allocations⟩ := by
  obtain ⟨after,freed,left⟩ := free_taken contract frees tracks here known
  exact ⟨_,after,freed,left⟩

-- The record of a block that now lies elsewhere.
theorem Tracks.updated {backing : σ} {front back : List AllocationRecord} (tracks : Tracks live others sys)
    (split : sys.debug.records = front ++ record :: back) (fewer : ((front ++ back).map given).Perm rest)
    (next : AllocationRecord) (place : next.address = record.address) (aligned : 0 < next.alignment)
    (left : (live backing).Perm (payload next :: home record :: (owned (front ++ back) ++ others))) :
    Tracks live others ⟨⟨backing,front ++ next :: back,sys.debug.liveCount⟩,given next :: rest⟩ := by
  have moved : ((front ++ next :: back).map given).Perm (given next :: (front ++ back).map given) :=
    List.perm_middle.map given
  have homes : home record = home next := by rw [home,home,place]
  rw [homes] at left
  refine ⟨moved.trans (fewer.cons _),?_,left.trans (owned_behind ..).symm,?_⟩
  · show sys.debug.liveCount = ((front ++ next :: back).length : Int)
    rw [tracks.count,split]
    simp only [List.length_append,List.length_cons]
  · intro other here
    rcases List.mem_append.mp here with here | here
    · exact tracks.aligned other (by rw [split]; exact List.mem_append_left _ here)
    · rcases List.mem_cons.mp here with rfl | here
      · exact aligned
      · exact tracks.aligned other (by rw [split]; exact List.mem_append_right _ (List.mem_cons_of_mem _ here))

theorem resize_tracks (contract : Contract allocator live) (frees : Frees allocator live) (tracks : Tracks live others sys)
    (here : a ∈ sys.allocations) (size alignment : Int) :
    ∃ result after, dispatchResize allocator size alignment a.size a.pointer sys.debug = some (result,after) ∧
      Tracks live others
        ⟨after,if result.error = .none then gained result size alignment (sys.allocations.erase a) else sys.allocations⟩ := by
  obtain ⟨record,front,back,found,same,notNull,unlinked,updated,split,fewer,blocks⟩ := tracks.split contract here
  have block : payload record = ⟨a.pointer,a.size⟩ := by
    rw [← same]
    rfl
  rw [block] at blocks
  obtain ⟨result,s₁,resized,spec⟩ := realloc_resized contract frees ⟨a.pointer,a.size⟩
    (.inr (blocks.symm.subset (List.mem_cons_self ..))) size alignment
  have homes := blocks.erase ⟨a.pointer,a.size⟩
  rw [List.erase_cons_head] at homes
  dsimp only at resized
  rw [dispatchResize,resized]
  dsimp only
  cases spec with
  | refused failed kept =>
      rw [if_pos failed]
      refine ⟨_,_,rfl,?_⟩
      rw [if_neg failed]
      exact tracks.same kept
  | granted null => exact absurd null notNull
  | returned _ nothing fine left =>
      subst fine
      have rest := left.trans homes
      obtain ⟨s₂,freed,left'⟩ := free_exact contract frees (home record) (show 0 ≤ recordAlignment by decide)
        (rest.symm.subset (List.mem_cons_self ..))
      have last := left'.trans (rest.erase _)
      rw [List.erase_cons_head] at last
      have freedHome : allocator.free record.address recordSize recordAlignment s₁ = some (.none,s₂) := freed
      rw [if_neg (fun failed => failed rfl),if_neg notNull,found]
      dsimp only
      rw [if_pos nothing,freedHome,unlinked]
      refine ⟨_,_,rfl,?_⟩
      rw [if_pos (show (success 0).error = .none from rfl),gained_null rfl]
      exact tracks.unlinked split fewer last
  | replaced _ fine fresh more =>
      have positive := fresh.positive
      rw [if_neg (fun failed => failed fine),if_neg notNull,found]
      dsimp only at positive ⊢
      rw [if_neg (by omega),updated]
      refine ⟨_,_,rfl,?_⟩
      rw [if_pos fine,gained_block fine fresh.notNull]
      exact tracks.updated split fewer ⟨record.address,result.memory,size,alignment⟩ rfl (power_positive fresh.power)
        (more.trans (homes.cons _))

theorem resizeNull_tracks (contract : Contract allocator live) (frees : Frees allocator live)
    (tracks : Tracks live others sys) (oldSize size alignment : Int)
    (recorded : Recorded allocator sys (.resize 0 oldSize size alignment)) :
    ∃ result after, dispatchResize allocator size alignment oldSize 0 sys.debug = some (result,after) ∧
      Tracks live others ⟨after,gained result size alignment sys.allocations⟩ := by
  obtain ⟨result,s₁,resized,spec⟩ := realloc_resized contract frees (s:=sys.debug.backing) ⟨0,oldSize⟩ (.inl rfl) size alignment
  dsimp only at resized
  rw [dispatchResize,resized]
  dsimp only
  cases spec with
  | refused failed kept =>
      rw [if_pos failed]
      refine ⟨_,_,rfl,?_⟩
      rw [gained,if_neg fun both => failed both.1]
      exact tracks.same kept
  | granted _ granted =>
      obtain ⟨none,_,kept⟩ | ⟨fine,fresh,more⟩ := granted
      · rw [if_pos none]
        by_cases failed : result.error ≠ .none
        · rw [if_pos failed]
          refine ⟨_,_,rfl,?_⟩
          rw [gained_null none]
          exact tracks.same kept
        · rw [if_neg failed,if_pos rfl]
          refine ⟨_,_,rfl,?_⟩
          rw [gained_null none]
          exact tracks.same kept
      · rw [if_neg (fun failed => failed fine),if_pos rfl,if_neg fresh.notNull]
        obtain ⟨place,s₂,placed,granted'⟩ := alloc_granted contract recordSize recordAlignment s₁
        rw [placed]
        dsimp only
        have notNull := recorded result s₁ place s₂ fresh.positive resized fine placed
        rw [if_neg notNull]
        obtain ⟨none,_⟩ | ⟨_,_,more'⟩ := granted'
        · exact absurd none notNull
        · refine ⟨_,_,rfl,?_⟩
          rw [gained_block fine fresh.notNull]
          exact tracks.pushed ⟨place.memory,result.memory,size,alignment⟩ (power_positive fresh.power)
            (more'.trans (more.cons _))
  | returned notNull => exact absurd rfl notNull
  | replaced notNull => exact absurd rfl notNull

theorem step_tracks (contract : Contract allocator live) (frees : Frees allocator live) (tracks : Tracks live others sys)
    (recorded : Recorded allocator sys call) (step : Step allocator sys call sys') : Tracks live others sys' := by
  cases step with
  | allocated done =>
      obtain ⟨result,after,done',tracks'⟩ := allocate_tracks contract frees tracks _ _
      rw [done] at done'
      cases done'
      exact tracks'
  | resized here done =>
      obtain ⟨result,after,done',tracks'⟩ := resize_tracks contract frees tracks here _ _
      rw [done] at done'
      cases done'
      exact tracks'
  | resizedNull done =>
      obtain ⟨result,after,done',tracks'⟩ := resizeNull_tracks contract frees tracks _ _ _ recorded
      rw [done] at done'
      cases done'
      exact tracks'
  | freed here known done =>
      obtain ⟨result,after,done',tracks'⟩ := free_tracks contract frees tracks here known
      rw [done] at done'
      cases done'
      exact tracks'

-- The calls that pass what the caller owns.
def Legal (sys : System σ) : Call → Prop
  | .allocate _ _ => True
  | .resize pointer oldSize _ _ => pointer = 0 ∨ ∃ a ∈ sys.allocations, a.pointer = pointer ∧ a.size = oldSize
  | .free pointer oldSize => ∃ a ∈ sys.allocations, a.pointer = pointer ∧ (oldSize = a.size ∨ oldSize = 0)

-- No assertion stops them.
theorem legal_step (contract : Contract allocator live) (frees : Frees allocator live) (tracks : Tracks live others sys)
    (recorded : Recorded allocator sys call) (legal : Legal sys call) : ∃ sys', Step allocator sys call sys' := by
  cases call with
  | allocate size alignment =>
      obtain ⟨result,after,done,_⟩ := allocate_tracks contract frees tracks size alignment
      exact ⟨_,.allocated done⟩
  | resize pointer oldSize size alignment =>
      obtain rfl | ⟨a,here,rfl,rfl⟩ := legal
      · obtain ⟨result,after,done,_⟩ := resizeNull_tracks contract frees tracks oldSize size alignment recorded
        exact ⟨_,.resizedNull done⟩
      · obtain ⟨result,after,done,_⟩ := resize_tracks contract frees tracks here size alignment
        exact ⟨_,.resized here done⟩
  | free pointer oldSize =>
      obtain ⟨a,here,rfl,known⟩ := legal
      obtain ⟨result,after,done,_⟩ := free_tracks contract frees tracks here known
      exact ⟨_,.freed here known done⟩

theorem Tracks.known (tracks : Tracks live others sys) (found : sys.debug.find pointer = some record) :
    pointer ∈ sys.allocations.map (·.pointer) := by
  obtain ⟨same,front,back,split,_⟩ := find_split found
  have among : record ∈ sys.debug.records := by
    rw [split]
    exact List.mem_append_right _ (List.mem_cons_self ..)
  exact List.mem_map.mpr ⟨given record,tracks.records.subset (List.mem_map.mpr ⟨record,among,rfl⟩),same⟩

theorem isThisYours_exact (contract : Contract allocator live) (tracks : Tracks live others sys) (pointer : Nat) :
    isThisYours pointer sys.debug = success (if pointer ∈ sys.allocations.map (·.pointer) then pointer else 0) := by
  unfold isThisYours
  by_cases owned : pointer ∈ sys.allocations.map (·.pointer)
  · obtain ⟨a,here,rfl⟩ := List.mem_map.mp owned
    obtain ⟨record,found,_⟩ := tracks.found contract here
    rw [if_pos owned,found]
    rfl
  · cases found : sys.debug.find pointer with
    | none =>
        rw [if_neg owned]
        rfl
    | some record => exact absurd (tracks.known found) owned

theorem info_exact (contract : Contract allocator live) (tracks : Tracks live others sys) :
    (∀ a ∈ sys.allocations, info a.pointer sys.debug = .ok (a.size,a.alignment)) ∧
    ∀ pointer, pointer ∉ sys.allocations.map (·.pointer) → info pointer sys.debug = .error .invalidPointer := by
  refine ⟨?_,?_⟩
  · intro a here
    obtain ⟨record,found,rfl,_⟩ := tracks.found contract here
    rw [info,found]
    rfl
  · intro pointer absent
    unfold info
    cases found : sys.debug.find pointer with
    | none => rfl
    | some record => exact absurd (tracks.known found) absent

theorem owned_parts (records : List AllocationRecord) :
    (owned records).Perm (records.map payload ++ records.map home) := by
  induction records with
  | nil => exact .refl _
  | cons record records ih =>
      have moved : (records.map payload ++ home record :: records.map home).Perm
        (home record :: (records.map payload ++ records.map home)) := List.perm_middle
      exact ((ih.cons _).trans moved.symm).cons _

end Records

end DebugAllocator
