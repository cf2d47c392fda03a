import Gameos.BuddyResize

-- What RESIZE leaves behind, where it succeeds and where it fails.
namespace BuddyAllocator
open MachineWords ByteMemory AllocatorTypes DyadicBlocks TransitionRuns

-- A RESIZE that did what its caller may expect. In the header: the block, grown by buddies
-- that were free, each taken once.
structure Resized (heap : Heap) (a : Live) (size alignment q : Nat) (after : State) : Prop where
  aligned : alignment ∣ q
  header : ∃ c buddies,headerOf after.memory ⟨q,size,alignment⟩ = ⟨c.base,c.order,live,size,alignment⟩ ∧
    c.base + headerSize ≤ q ∧ q + size ≤ c.base + 2^c.order ∧ Merges (blockOf heap.state.memory a) buddies c ∧
      (freeBlocks heap.state.freeLists).Perm (buddies ++ freeBlocks after.freeLists)
  bytes : ∀ i < a.size,i < size → after.memory (q + i) = heap.state.memory (a.pointer + i)
  others : ∀ d ∈ heap.allocations.erase a,headerOf after.memory d = headerOf heap.state.memory d ∧
    ∀ i < d.size,after.memory (d.pointer + i) = heap.state.memory (d.pointer + i)
  later : ∀ operations last,Run Operates (fun _ operation => operation.pointer ≠ some q)
      ⟨after,⟨q,size,alignment⟩ :: heap.allocations.erase a⟩ operations last →
    free last.state q ≠ none ∧ info last.state q = .ok ((size : Int),(alignment : Int))

-- In place, the header must not be marked yet. Where the block grows, its base has to go
-- down; at the same base the mark on the old header falls on the new one, or on a byte of
-- the payload.
def Survives (state : State) (a : Live) (size alignment : Nat) : Prop :=
  if a.pointer + size ≤ (blockOf state.memory a).base + 2^(blockOf state.memory a).order ∧
      alignment = (headerOf state.memory a).requestedAlignment then (headerOf state.memory a).state = live
  else ¬ 2^targetOrderFor (requiredSizeFor size alignment) ∣ (blockOf state.memory a).base ∨
    (max headerSize alignment < max headerSize a.alignment ∧ ∀ i < a.size,i < size →
      max headerSize alignment + i + 23 = max headerSize a.alignment → state.memory (a.pointer + i) = UInt8.ofNat freed)

section Success
variable {heap : Heap} {lost buddies : List Block} {cells : Set Nat} {after : State} {a : Live} {c : Block} {size alignment : S64} {n k : Nat}

theorem Seated.multiple (seated : Seated memory a) (aligned : (blockOf memory a).Aligned) : a.alignment ∣ a.pointer := by
  obtain ⟨k,_,power⟩ := seated.power
  have anchored := seated.anchored
  have payload := seated.payload
  have positive := seated.positive.1
  rw [power] at anchored ⊢
  have fewer : (2:Nat)^k < 2^(blockOf memory a).order := by omega
  have narrow : k < (blockOf memory a).order := (Nat.pow_lt_pow_iff_right (by decide)).mp fewer
  rw [anchored]
  refine Nat.dvd_add (Nat.dvd_trans (Nat.pow_dvd_pow 2 (Nat.le_of_lt narrow)) aligned) ?_
  rcases Nat.le_total headerSize (2^k) with above | below
  · rw [Nat.max_eq_right above]
  · have short : (2:Nat)^k ≤ 2^5 := below
    rw [Nat.max_eq_left below]
    exact Nat.pow_dvd_pow 2 ((Nat.pow_le_pow_iff_right (by decide)).mp short)

theorem spared_payload {before memory : Memory} {allocations : List Live}
    (spared : Spared before memory (allocations.map (blockOf before))) (seated : Seated before a)
    (present : a ∈ allocations) : ∀ i < a.size,memory (a.pointer + i) = before (a.pointer + i) := by
  intro i less
  have anchored := seated.anchored
  have payload := seated.payload
  exact spared _ (List.mem_map_of_mem present) _ ⟨by omega,by omega⟩

-- A header that says live is accepted for as long as no call names its pointer.
theorem Booked.later (booked : Booked heap lost cells) (present : a ∈ heap.allocations)
    (isLive : (headerOf heap.state.memory a).state = live)
    (run : Run Operates (fun _ operation => operation.pointer ≠ some a.pointer) heap operations last) :
    free last.state a.pointer ≠ none ∧ info last.state a.pointer = .ok ((a.size : Int),(a.alignment : Int)) := by
  obtain ⟨⟨_,books⟩,here,same⟩ := run_stays booked present run
  have seated := books.seated a here
  have size := seated.size
  have alignment := seated.alignment
  have bound := seated.positive.2
  obtain ⟨k,small,power⟩ := seated.power
  have below : (2:Nat)^k < 2^63 := Nat.pow_lt_pow_right (by decide) small
  have state : (headerOf last.state.memory a).state = live := by rw [same,isLive]
  rw [headerOf] at state size alignment
  constructor
  · simp only [free,if_neg (books.nonzero here),state,ne_eq,not_true_eq_false,if_false,reduceCtorEq,not_false_eq_true]
  · simp only [info,if_neg (books.nonzero here),state,ne_eq,not_true_eq_false,if_false,size,alignment]
    rw [toS64_of_range (by omega) (by omega),toS64_of_range (by omega) (by omega)]

theorem in_place_exact (booked : Booked heap lost cells) (present : a ∈ heap.allocations) (request : Request size alignment n k)
    (same : 2^k = a.alignment) (room : a.pointer + n ≤ (blockOf heap.state.memory a).base + 2^(blockOf heap.state.memory a).order) :
    Resized heap a n (2^k) a.pointer {heap.state with memory := write heap.state.memory (headerFromPointer a.pointer + 16) 8 n} ↔
      Survives heap.state a n (2^k) := by
  have seated := booked.seated a present
  obtain ⟨_,above⟩ := seated.header (booked.range present)
  obtain ⟨books,header,behind,spared,headers⟩ := grown_in_place booked present request same room
  unfold Survives
  rw [if_pos ⟨room,by rw [seated.alignment,same]⟩]
  constructor
  · rintro ⟨_,⟨c,_,marked,_⟩,_,_,_⟩
    rw [header] at marked
    exact congrArg AllocationHeader.state marked
  · intro isLive
    refine ⟨by rw [same]; exact seated.multiple (booked.aligned present),
      ⟨blockOf heap.state.memory a,[],?_,above,room,.whole,.refl _⟩,fun i _ _ => behind _ (Nat.le_add_right _ _),
      fun d other => ⟨headers d other,spared_payload spared (booked.seated_erase a d other) other⟩,fun operations last run => ?_⟩
    · rw [header,← isLive,same,← seated.alignment]
      rfl
    · refine books.later List.mem_cons_self ?_ run
      rw [header]
      exact isLive

theorem moved_exact (booked : Booked heap lost cells) (present : a ∈ heap.allocations) (request : Request size alignment n k)
    (grown : Grown heap a lost cells n k c buddies after) (room : movedPointer c k + n ≤ c.base + 2^c.order) :
    Resized heap a n (2^k) (movedPointer c k) ⟨after.freeLists,movedMemory after.memory c n k a⟩ ↔ Survives heap.state a n (2^k) := by
  have seated := booked.seated a present
  have anchored := seated.anchored
  have aligned := booked.aligned present
  obtain ⟨header,_,bytes⟩ := grown.moves booked present request room
  obtain ⟨books,spared,headers⟩ := grown.kept booked present request room
  obtain ⟨below,_,lower,inner⟩ := grown.geometry booked present
  have base := grown.merges.base aligned
  have wider := grown.wider
  have size : headerSize = 32 := rfl
  have place : movedPointer c k = c.base + max headerSize (2^k) := rfl
  have small := grown.small
  rw [← seated.alignment] at small
  unfold Survives
  rw [if_neg small,requiredSizeFor_small request.bound request.small,← grown.target,← grown.lowered booked present]
  constructor
  · rintro ⟨_,⟨_,_,marked,_⟩,copied,_,_⟩
    by_cases down : c.base < (blockOf heap.state.memory a).base
    · exact .inl down
    · have still : c.base = (blockOf heap.state.memory a).base := by omega
      have moved : movedPointer c k ≠ a.pointer := by
        intro same
        rw [header,if_pos same] at marked
        have state : freed = live := congrArg AllocationHeader.state marked
        exact absurd state (by decide)
      refine .inr ⟨by omega,fun i less shorter hit => ?_⟩
      have byte := copied i less shorter
      dsimp only at byte
      rw [bytes i less shorter,if_pos ⟨moved,by omega⟩] at byte
      exact byte.symm
  · intro survives
    have moved : movedPointer c k ≠ a.pointer ∧ ∀ i < a.size,i < n → movedPointer c k + i + 23 = a.pointer →
        heap.state.memory (a.pointer + i) = UInt8.ofNat freed := by
      rcases survives with down | ⟨less,marks⟩
      · have far := lower (Nat.ne_of_lt down)
        exact ⟨by omega,fun i less _ hit => absurd hit (by omega)⟩
      · by_cases still : c.base = (blockOf heap.state.memory a).base
        · exact ⟨by omega,fun i inside shorter hit => marks i inside shorter (by omega)⟩
        · have far := lower still
          exact ⟨by omega,fun i less _ hit => absurd hit (by omega)⟩
    rw [if_neg moved.1] at header
    have multiple : 2^k ∣ movedPointer c k := by
      have new := (books.seated _ List.mem_cons_self).multiple (books.aligned List.mem_cons_self)
      exact new
    refine ⟨multiple,⟨c,buddies,header,Nat.add_le_add_left (Nat.le_max_left _ _) _,room,grown.merges,grown.free⟩,
      fun i less shorter => ?_,fun d other => ⟨headers d other,spared_payload spared (booked.seated_erase a d other) other⟩,
      fun operations last run => ?_⟩
    · dsimp only
      rw [bytes i less shorter]
      split
      case isTrue hit => exact (moved.2 i less shorter hit.2).symm
      case isFalse => rfl
    · refine books.later List.mem_cons_self ?_ run
      rw [header]

end Success

theorem resize_exact (regions : List Region) (bootable : Bootable regions) (memory : Memory) (operations : List Operation) (heap : Heap)
    (run : Run Operates (fun _ _ => True) (booted memory regions) operations heap) (a : Live) (present : a ∈ heap.allocations)
    (size alignment : S64) (positive : 0 < size.val) (q : Nat) (after : State)
    (done : resize heap.state size.val alignment.val a.size a.pointer = (success q,after)) :
    Resized heap a size.val.toNat alignment.val.toNat q after ↔ Survives heap.state a size.val.toNat alignment.val.toNat := by
  obtain ⟨lost,cells,booked⟩ := run_booked bootable memory run
  have resizes := resize_resizes booked present size alignment
  generalize resize heap.state size.val alignment.val a.size a.pointer = outcome at resizes done
  cases resizes with
  | refused error _ => exact absurd (congrArg (fun outcome => outcome.1.error) done) error
  | nothing zero => omega
  | inPlace request same room =>
      rw [request.sizeExact,request.alignmentExact,Int.toNat_natCast,Int.toNat_natCast]
      cases done
      exact in_place_exact booked present request same room
  | stranded _ _ _ =>
      have error : AllocatorError.modeNotImplemented = .none := congrArg (fun outcome => outcome.1.error) done
      cases error
  | moved request grown room =>
      rw [request.sizeExact,request.alignmentExact,Int.toNat_natCast,Int.toNat_natCast]
      cases done
      exact moved_exact booked present request grown room

-- 100 bytes in the low region, at the start of its one block.
def lowPayload : Live := ⟨2^20+64,100,64⟩
def lowOperations : List Operation := [.call (.allocate ⟨100,by decide⟩ ⟨64,by decide⟩)]
def lowHolder : Heap := lowHeap.allocated ⟨100,by decide⟩ ⟨64,by decide⟩
def lowResize (size : S64) : AllocatorResult × State :=
  resize lowHolder.state size.val 64 lowPayload.size lowPayload.pointer

theorem lowHolder_values : headerOf lowHolder.state.memory lowPayload = ⟨2^20,12,live,100,64⟩ ∧
    (lowResize ⟨200,by decide⟩).1 = success lowPayload.pointer ∧ (lowResize ⟨8000,by decide⟩).1 = success lowPayload.pointer ∧
    free (lowResize ⟨8000,by decide⟩).2 lowPayload.pointer = none ∧ (lowResize ⟨2^20,by decide⟩).1.error ≠ .none := by
  decide +kernel

theorem lowHolder_run : Run Operates (fun _ _ => True) (booted (fun _ => 0) [lowRegion]) lowOperations lowHolder := by
  show Run Operates (fun _ _ => True) lowHeap lowOperations (lowHeap.allocated ⟨100,by decide⟩ ⟨64,by decide⟩)
  exact .single trivial (.called .allocated)

theorem lowPayload_live : lowPayload ∈ lowHolder.allocations := by
  have live : lowHolder.allocations = [lowPayload] := lowHeap_values.2.2.2.2.1
  rw [live]
  exact List.mem_cons_self

theorem lowPayload_resized :
    Resized lowHolder lowPayload 200 64 lowPayload.pointer (lowResize ⟨200,by decide⟩).2 := by
  have done : lowResize ⟨200,by decide⟩ = (success lowPayload.pointer,(lowResize ⟨200,by decide⟩).2) :=
    Prod.fst_eq_iff.mp lowHolder_values.2.1
  refine (resize_exact [lowRegion] lowRegion_bootable (fun _ => 0) lowOperations lowHolder lowHolder_run lowPayload lowPayload_live
    ⟨200,by decide⟩ ⟨64,by decide⟩ (by decide) lowPayload.pointer _ done).mpr ?_
  have header := lowHolder_values.1
  have block : blockOf lowHolder.state.memory lowPayload = ⟨2^20,12⟩ := by rw [blockOf,header]
  unfold Survives
  rw [block,header,if_pos (by decide)]

-- 8000 bytes fit once the upper buddy is taken. The pointer stays the same, and the mark
-- meant for the old header retires the new one.
theorem grown_pointer_refused : Bootable [lowRegion] ∧
    Run Operates (fun _ _ => True) (booted (fun _ => 0) [lowRegion]) lowOperations lowHolder ∧ lowPayload ∈ lowHolder.allocations ∧
      ∃ after,resize lowHolder.state 8000 64 lowPayload.size lowPayload.pointer = (success lowPayload.pointer,after) ∧
        free after lowPayload.pointer = none ∧ ¬ Resized lowHolder lowPayload 8000 64 lowPayload.pointer after := by
  have done : lowResize ⟨8000,by decide⟩ = (success lowPayload.pointer,(lowResize ⟨8000,by decide⟩).2) :=
    Prod.fst_eq_iff.mp lowHolder_values.2.2.1
  have refused := lowHolder_values.2.2.2.1
  generalize (lowResize ⟨8000,by decide⟩).2 = after at done refused
  refine ⟨lowRegion_bootable,lowHolder_run,lowPayload_live,after,done,refused,fun resized => ?_⟩
  exact (resized.later [] _ .nil).1 refused

-- The free lists, and the header and payload of every live allocation.
structure Untouched (heap : Heap) (after : State) : Prop where
  lists : after.freeLists = heap.state.freeLists
  headers : ∀ a ∈ heap.allocations,headerOf after.memory a = headerOf heap.state.memory a
  payloads : ∀ a ∈ heap.allocations,∀ i < a.size,after.memory (a.pointer + i) = heap.state.memory (a.pointer + i)

def freeCells (lists : Nat → List Nat) : Set Nat := {x | ∃ b ∈ freeBlocks lists,b.Contains x}

-- ALLOCATE has cut a larger block down to 2 GiB, and that is too small.
structure Cuts (state : State) (size alignment : Int) : Prop where
  positive : 0 < size
  power : isPowerOfTwo alignment = true
  found : state.freeLists 31 = [] ∧ ∃ order,31 < order ∧ order ≤ maxOrder ∧ state.freeLists order ≠ []
  large : 2^31 < toU64 size + max headerSize (toU64 alignment)

-- The request fails with the lists already changed.
def Tears (state : State) (size alignment : Int) (pointer : Nat) : Prop :=
  if pointer = 0 then Cuts state size alignment else Strands state size alignment pointer

section Failure
variable {heap : Heap} {lost buddies : List Block} {cells : Set Nat} {state after : State} {a : Live} {c : Block} {size alignment : S64} {n k : Nat}

theorem untouched_same (heap : Heap) : Untouched heap heap.state := ⟨rfl,fun _ _ => rfl,fun _ _ _ _ => rfl⟩

theorem Grown.takes (grown : Grown heap a lost cells n k c buddies after) : after.freeLists ≠ heap.state.freeLists := by
  intro same
  have lengths := grown.free.length_eq
  rw [same,List.length_append] at lengths
  have none : buddies = [] := List.eq_nil_of_length_eq_zero (by omega)
  have merges := grown.merges
  rw [none] at merges
  have wider := grown.wider
  cases merges
  omega

theorem resize_untouched (booked : Booked heap lost cells) (present : a ∈ heap.allocations)
    (failed : (resize heap.state size.val alignment.val a.size a.pointer).1.error ≠ .none) :
    Untouched heap (resize heap.state size.val alignment.val a.size a.pointer).2 ↔ ¬ Strands heap.state size.val alignment.val a.pointer := by
  have resizes := resize_resizes booked present size alignment
  generalize resize heap.state size.val alignment.val a.size a.pointer = outcome at resizes failed ⊢
  cases resizes with
  | refused _ passes => exact iff_of_true (untouched_same heap) passes
  | nothing => exact absurd rfl failed
  | inPlace => exact absurd rfl failed
  | stranded _ grown strands => exact iff_of_false (fun untouched => grown.takes untouched.lists) fun passes => passes strands
  | moved => exact absurd rfl failed

-- The size of the old payload is used by the copy only.
theorem moveInto_old {b : Block} {size alignment : Nat} (failed : (moveInto state b size alignment old pointer).1.error ≠ .none) (other : Nat) :
    moveInto state b size alignment other pointer = moveInto state b size alignment old pointer := by
  simp only [moveInto] at failed ⊢
  split at failed
  case isTrue late => rw [if_pos late,if_pos late]
  case isFalse => exact absurd rfl failed

theorem resize_old {size alignment old : Int} (failed : (resize state size alignment old pointer).1.error ≠ .none) (other : Int) :
    resize state size alignment other pointer = resize state size alignment old pointer := by
  simp only [resize] at failed ⊢
  by_cases invalid : size < 0 ∨ isPowerOfTwo alignment = false
  · rw [if_pos invalid,if_pos invalid]
  simp only [if_neg invalid] at failed ⊢
  by_cases zero : size = 0
  · rw [if_pos zero,if_pos zero]
  simp only [if_neg zero] at failed ⊢
  by_cases null : pointer = 0
  · rw [if_pos null,if_pos null]
  simp only [if_neg null] at failed ⊢
  by_cases misplaced : pointer % toU64 alignment ≠ 0
  · rw [if_pos misplaced,if_pos misplaced]
  simp only [if_neg misplaced] at failed ⊢
  split at failed
  case isTrue fits => exact absurd rfl failed
  case isFalse fits =>
    rw [if_neg fits,if_neg fits]
    split at failed
    case isTrue wraps => rw [if_pos wraps,if_pos wraps]
    case isFalse kept =>
      rw [if_neg kept,if_neg kept]
      split at failed
      case isTrue narrow => rw [if_pos narrow,if_pos narrow]
      case isFalse wide =>
        rw [if_neg wide,if_neg wide]
        generalize checkBuddies state _ _ = found at failed ⊢
        cases found with
        | none => rfl
        | some base => exact moveInto_old failed _

theorem resize_null (state : State) (size alignment old : Int) : resize state size alignment old 0 = allocate state size alignment := by
  unfold resize
  by_cases invalid : size < 0 ∨ isPowerOfTwo alignment = false
  · unfold allocate
    rw [if_pos invalid,if_pos invalid]
  · rw [if_neg invalid]
    by_cases zero : size = 0
    · unfold allocate
      rw [if_pos zero,if_neg invalid,if_pos zero]
    · rw [if_neg zero,if_pos rfl]

theorem splitDown_above (base : Nat) (state : State) (above : order ≤ o) :
    (splitDown base target order state).2.freeLists o = state.freeLists o := by
  induction order, state using splitDown.induct base target with
  | case1 order state more ih =>
    rw [splitDown,if_pos more,ih (by omega)]
    exact setList_other (by omega)
  | case2 order state stop => rw [splitDown,if_neg stop]

-- A block that is cut and pushed back leaves the lists as they were only if it was not cut.
theorem takeBlock_lists (taken : takeBlock state target = some (b,after)) (nonzero : b.base ≠ 0) (order : b.order = target) :
    (pushFreeBlock after b.base b.order).freeLists = state.freeLists ↔ firstNonEmpty state.freeLists target = target := by
  obtain ⟨above,present,_⟩ := firstNonEmpty_spec state.freeLists target
  simp only [takeBlock] at taken
  by_cases exhausted : maxOrder < firstNonEmpty state.freeLists target
  · simp [exhausted] at taken
  · rw [if_neg exhausted] at taken
    cases list : state.freeLists (firstNonEmpty state.freeLists target) with
    | nil => exact absurd list (present (by omega))
    | cons base next =>
      simp only [list,Option.some.injEq,Prod.mk.injEq] at taken
      obtain ⟨rfl,rfl⟩ := taken
      dsimp only at nonzero order ⊢
      rw [order]
      unfold pushFreeBlock
      dsimp only
      rw [if_neg nonzero]
      generalize firstNonEmpty state.freeLists target = first at above list order ⊢
      constructor
      · intro same
        by_contra cut
        have shorter := congrFun same first
        rw [setList_other (by omega),splitDown_above base _ (Nat.le_refl first),list] at shorter
        dsimp only at shorter
        rw [setList_same] at shorter
        exact List.cons_ne_self base next shorter.symm
      · intro whole
        subst whole
        rw [splitDown,if_neg (Nat.lt_irrefl _)]
        dsimp only
        rw [setList_same]
        funext o
        by_cases here : o = first
        · rw [here,setList_same,list]
        · rw [setList_other here,setList_other here]

theorem takeBlock_none (none : takeBlock state target = none) : maxOrder < firstNonEmpty state.freeLists target := by
  obtain ⟨_,present,_⟩ := firstNonEmpty_spec state.freeLists target
  by_contra bound
  simp only [takeBlock,if_neg bound] at none
  cases list : state.freeLists (firstNonEmpty state.freeLists target) with
  | nil => exact absurd list (present (by omega))
  | cons base next => simp [list] at none

theorem firstNonEmpty_above (lists : Nat → List Nat) (target : Nat) :
    (lists target = [] ∧ ∃ order,target < order ∧ order ≤ maxOrder ∧ lists order ≠ []) ↔
      target < firstNonEmpty lists target ∧ firstNonEmpty lists target ≤ maxOrder := by
  obtain ⟨above,present,empty⟩ := firstNonEmpty_spec lists target
  constructor
  · rintro ⟨here,order,higher,bound,filled⟩
    have reached : firstNonEmpty lists target ≤ order := by
      by_contra beyond
      exact filled (empty order (by omega) (by omega))
    refine ⟨Nat.lt_of_le_of_ne above fun same => ?_,reached.trans bound⟩
    have first := present (reached.trans bound)
    rw [← same] at first
    exact first here
  · rintro ⟨higher,bound⟩
    exact ⟨empty target (Nat.le_refl _) higher,_,higher,bound,present bound⟩

theorem Cuts.target (cuts : Cuts state size.val alignment.val) (request : Request size alignment n k) :
    targetOrderFor (n + 2^k + headerSize) = 31 := by
  have large := cuts.large
  have one : 0 < 2^k := Nat.two_pow_pos k
  rw [request.sizeWord,request.alignmentWord] at large
  exact (targetOrderFor_cases _).2 (by omega)

-- What is in no block in hand is free.
theorem Holding.free_cells {hand : List Block} (holding : Holding hand state [] cells) :
    freeCells state.freeLists = cells \ {x | ∃ b ∈ hand,b.Contains x} := by
  ext x
  constructor
  · rintro ⟨b,present,here⟩
    have listed : b ∈ allBlocks state [] := List.mem_append_left _ present
    exact ⟨(holding.tiling.exact x).mpr ⟨b,List.mem_append_right _ listed,here⟩,fun ⟨c,held,there⟩ =>
      (List.pairwise_append.mp holding.tiling.apart).2.2 c held b listed x there here⟩
  · rintro ⟨inside,away⟩
    obtain ⟨b,present,here⟩ := (holding.tiling.exact x).mp inside
    rcases List.mem_append.mp present with held | listed
    · exact absurd ⟨b,held,here⟩ away
    · rcases List.mem_append.mp listed with free | none
      · exact ⟨b,free,here⟩
      · cases none

theorem allocate_failed (booked : Booked heap lost cells) (size alignment : S64)
    (failed : (allocate heap.state size.val alignment.val).1.error ≠ .none) :
    (Untouched heap (allocate heap.state size.val alignment.val).2 ↔ ¬ Cuts heap.state size.val alignment.val) ∧
      freeCells (allocate heap.state size.val alignment.val).2.freeLists = freeCells heap.state.freeLists := by
  rcases allocate_cases heap.state size alignment with ⟨invalid,same⟩ | ⟨_,same⟩ | ⟨n,k,request,⟨none,same⟩ | ⟨b,mid,taken,same⟩⟩
  · rw [same]
    refine ⟨iff_of_true (untouched_same heap) fun cuts => ?_,rfl⟩
    have positive := cuts.positive
    have power := cuts.power
    rcases invalid with negative | odd
    · omega
    · rw [odd] at power
      cases power
  · rw [same] at failed
    exact absurd rfl failed
  · rw [same]
    refine ⟨iff_of_true (untouched_same heap) fun cuts => ?_,rfl⟩
    rw [requiredSizeFor_small request.bound request.small,cuts.target request] at none
    exact absurd ((firstNonEmpty_above _ _).mp cuts.found).2 (Nat.not_le.mpr (takeBlock_none none))
  · obtain ⟨order,held⟩ := booked.holding.takeBlock (targetOrderFor_bounds _).1 taken
    have spared := booked.holding.takeBlock_spared (targetOrderFor_bounds _).1 taken
    rw [requiredSizeFor_small request.bound request.small] at order taken
    have places := placeBlock_places held request.small request.positive request.bound order
    rw [same] at failed ⊢
    generalize placeBlock mid b n (2^k) = outcome at places failed ⊢
    cases places with
    | wrapped => exact absurd rfl failed
    | placed => exact absurd rfl failed
    | refused top large =>
        have range := held.range (b:=b) (by simp)
        have nonzero : b.base ≠ 0 := by
          simp only [pageSize] at range
          omega
        have whole : (freeCells (pushFreeBlock mid b.base b.order).freeLists) = freeCells heap.state.freeLists := by
          rw [held.push.free_cells,booked.holding.free_cells]
        refine ⟨?_,whole⟩
        have kept : Spared heap.state.memory (pushFreeBlock mid b.base b.order).memory (heap.allocations.map (blockOf heap.state.memory)) :=
          (spared.trans held.push_spared).mono fun _ => List.mem_append_left _
        obtain ⟨_,headers⟩ := booked_of_spared held.push booked.seated kept
        have lists := takeBlock_lists taken nonzero order
        rw [← order,top] at lists
        obtain ⟨above,_,_⟩ := firstNonEmpty_spec heap.state.freeLists 31
        have bound : firstNonEmpty heap.state.freeLists 31 ≤ maxOrder := by
          by_contra exhausted
          rw [← order,top] at taken
          simp [takeBlock,Nat.lt_of_not_le exhausted] at taken
        constructor
        · intro untouched cuts
          have first := lists.mp (top ▸ untouched.lists)
          have found := ((firstNonEmpty_above _ _).mp cuts.found).1
          omega
        · intro uncut
          have first : firstNonEmpty heap.state.freeLists 31 = 31 := by
            by_contra other
            refine uncut ⟨by rw [request.sizeExact]; exact Int.natCast_pos.mpr request.positive,request.power,
              (firstNonEmpty_above _ _).mpr ⟨by omega,bound⟩,?_⟩
            rw [request.sizeWord,request.alignmentWord]
            exact large
          have same := lists.mpr first
          rw [← top] at same
          exact ⟨same,headers,fun a present => spared_payload kept (booked.seated a present) present⟩

end Failure

-- A RESIZE that fails changes nothing, unless it had found its way to 2 GiB. Whatever an
-- ALLOCATE that fails does to the lists, the same memory is free.
theorem failures_exact (regions : List Region) (bootable : Bootable regions) (memory : Memory) (operations : List Operation) (heap : Heap)
    (run : Run Operates (fun _ _ => True) (booted memory regions) operations heap) (size alignment : S64) :
    (∀ (oldSize : Int) (pointer : Nat),(pointer = 0 ∨ ∃ a ∈ heap.allocations,a.pointer = pointer) →
        (resize heap.state size.val alignment.val oldSize pointer).1.error ≠ .none →
          (Untouched heap (resize heap.state size.val alignment.val oldSize pointer).2 ↔
            ¬ Tears heap.state size.val alignment.val pointer)) ∧
      ((allocate heap.state size.val alignment.val).1.error ≠ .none →
        freeCells (allocate heap.state size.val alignment.val).2.freeLists = freeCells heap.state.freeLists) := by
  obtain ⟨lost,cells,booked⟩ := run_booked bootable memory run
  refine ⟨fun oldSize pointer given failed => ?_,fun failed => (allocate_failed booked size alignment failed).2⟩
  unfold Tears
  rcases given with rfl | ⟨a,present,rfl⟩
  · rw [resize_null] at failed ⊢
    rw [if_pos rfl]
    exact (allocate_failed booked size alignment failed).1
  · rw [if_neg (booked.nonzero present)]
    have same := resize_old failed a.size
    rw [← same] at failed ⊢
    exact resize_untouched booked present failed

-- A megabyte is more than the low region has.
theorem lowPayload_untouched : Untouched lowHolder (lowResize ⟨2^20,by decide⟩).2 := by
  refine ((failures_exact [lowRegion] lowRegion_bootable (fun _ => 0) lowOperations lowHolder lowHolder_run
    ⟨2^20,by decide⟩ ⟨64,by decide⟩).1 lowPayload.size lowPayload.pointer (.inr ⟨lowPayload,lowPayload_live,rfl⟩)
      lowHolder_values.2.2.2.2).mpr ?_
  unfold Tears
  rw [if_neg (by decide)]
  exact fun strands => absurd strands.large (by decide)

-- 2 GiB at 2 GiB, all of it one block.
def wideRegion : Region := ⟨2^31,2^31⟩
def wideOperations : List Operation := [.call (.allocate ⟨1,by decide⟩ ⟨1,by decide⟩)]
def wideHolder : Heap := (booted (fun _ => 0) [wideRegion]).allocated ⟨1,by decide⟩ ⟨1,by decide⟩

theorem wideRegion_bootable : Bootable [wideRegion] where
  apart := List.pairwise_singleton _ _
  nonzero := by simp [wideRegion,Region.Contains]
  unwrapped := by simp [wideRegion]
  page := by simp [wideRegion,pageSize]

theorem wideHolder_values : wideHolder.allocations = [⟨2^31+32,1,1⟩] ∧ wideHolder.state.freeLists 30 = [2^31+2^30] ∧
    (resize wideHolder.state (2^31) 1 1 (2^31+32)).1.error = .modeNotImplemented ∧
    (resize wideHolder.state (2^31) 1 1 (2^31+32)).2.freeLists 30 = [] := by
  decide +kernel

-- One byte, and the rest of the region is free. A RESIZE to 2 GiB is refused only after
-- all of it has left the lists.
theorem free_memory_stranded : Bootable [wideRegion] ∧
    Run Operates (fun _ _ => True) (booted (fun _ => 0) [wideRegion]) wideOperations wideHolder ∧
      (∃ a ∈ wideHolder.allocations,a.pointer = 2^31+32) ∧
      (resize wideHolder.state (2^31) 1 1 (2^31+32)).1.error ≠ .none ∧
      ¬ Untouched wideHolder (resize wideHolder.state (2^31) 1 1 (2^31+32)).2 := by
  obtain ⟨live,before,error,emptied⟩ := wideHolder_values
  refine ⟨wideRegion_bootable,.single trivial (.called .allocated),?_,?_,fun untouched => ?_⟩
  · rw [live]
    exact ⟨_,List.mem_cons_self,rfl⟩
  · rw [error]
    decide
  · rw [untouched.lists,before] at emptied
    cases emptied

end BuddyAllocator
