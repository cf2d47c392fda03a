import Gameos.BuddyRuns

namespace BuddyAllocator
open MachineWords ByteMemory AllocatorTypes DyadicBlocks TransitionRuns

theorem unlink_subset (got : unlink base link list memory = some (list',memory')) :
    ∀ x ∈ list', x ∈ list := by
  induction list generalizing link list' memory' with
  | nil => simp [unlink] at got
  | cons block rest ih =>
    rw [unlink.eq_def] at got
    simp only [] at got
    by_cases here : block = base
    · rw [if_pos here] at got
      intro x present
      cases link <;>
        · obtain ⟨rfl,_⟩ := by simpa using got
          exact List.mem_cons.mpr (.inr present)
    · rw [if_neg here] at got
      cases tail : unlink base (some block) rest memory with
      | none => simp [tail] at got
      | some result =>
        obtain ⟨rest',after⟩ := result
        obtain ⟨rfl,_⟩ := by simpa [tail] using got
        intro x present
        rcases List.mem_cons.mp present with rfl | later
        · simp
        · exact List.mem_cons.mpr (.inr (ih tail x later))

theorem remove_subset (got : removeFreeBlock state order base = some after) :
    ∀ b ∈ freeBlocks after.freeLists, b ∈ freeBlocks state.freeLists := by
  intro b present
  obtain ⟨bound,here⟩ := mem_freeBlocks.mp present
  refine mem_freeBlocks.mpr ⟨bound,?_⟩
  unfold removeFreeBlock at got
  cases walked : unlink base none (state.freeLists order) state.memory with
  | none => simp [walked] at got
  | some result =>
    obtain ⟨list,memory⟩ := result
    simp only [walked] at got
    cases Option.some.inj got
    simp only at here
    by_cases same : b.order = order
    · rw [same,setList_same] at here
      rw [same]
      exact unlink_subset walked _ here
    · rwa [setList_other same] at here

theorem coalesced_subset (coalesced : Coalesced before) (fewer : ∀ b ∈ after, b ∈ before) : Coalesced after :=
  fun b present beside => coalesced b (fewer b present) (fewer _ beside)

theorem mergeUp_coalesced (coalesced : Coalesced (freeBlocks state.freeLists)) :
    Coalesced (freeBlocks (mergeUp b state).2.freeLists) := by
  induction b, state using mergeUp.induct with
  | case1 b state below absent =>
    rw [mergeUp,if_pos below,absent]
    exact coalesced
  | case2 b state below after removed ih =>
    rw [mergeUp,if_pos below,removed]
    exact ih (coalesced_subset coalesced (remove_subset removed))
  | case3 b state top =>
    rw [mergeUp,if_neg top]
    exact coalesced

section Holding
variable {hand : List Block} {state : State} {allocations : List Live} {cells : Set Nat} {b : Block}

-- A block may join the free lists when its buddy is not there.
theorem Holding.push_coalesced (holding : Holding (b :: hand) state allocations cells)
    (coalesced : Coalesced (freeBlocks state.freeLists)) (alone : b.buddy ∉ freeBlocks state.freeLists) :
    Coalesced (freeBlocks (pushFreeBlock state b.base b.order).freeLists) := by
  have range := holding.range (b:=b) (by simp)
  have bound := (holding.orders b (by simp)).2
  have nonzero : b.base ≠ 0 := by simp only [pageSize] at range; omega
  have members : ∀ c, c ∈ freeBlocks (pushFreeBlock state b.base b.order).freeLists ↔
      c = b ∨ c ∈ freeBlocks state.freeLists := by
    intro c
    simp only [pushFreeBlock,if_neg nonzero]
    rw [(freeBlocks_update _ _ _ bound (List.Perm.refl (b.base :: state.freeLists b.order))).mem_iff,List.mem_cons]
  have apart := buddy_apart (holding.tiling.aligned b (by simp))
  intro c here there
  rw [members] at here there
  rcases here with rfl | here <;> rcases there with same | there
  · exact apart_ne apart same.symm
  · exact alone there
  · rw [← same,buddy_buddy] at alone
    exact alone here
  · exact coalesced c here there

-- The block in hand covers the buddy of every upper half that is given away.
theorem splitDown_coalesced (holding : Holding (⟨base,order⟩ :: hand) state allocations cells)
    (small : minOrder ≤ target) (bound : target ≤ order) (coalesced : Coalesced (freeBlocks state.freeLists)) :
    Coalesced (freeBlocks (splitDown base target order state).2.freeLists) := by
  induction order, state using splitDown.induct base target with
  | case1 order state more ih =>
    rw [splitDown,if_pos more]
    have range : pageSize ≤ base ∧ base + 2^order ≤ 2^64 - pageSize := holding.range (b:=⟨base,order⟩) (by simp)
    have aligned := holding.tiling.aligned ⟨base,order⟩ (by simp)
    have swapped := (holding.split (by show minOrder < order; omega)).hand_perm (List.Perm.swap _ _ _)
    have double : 2^order = 2^(order-1) + 2^(order-1) := by
      rw [← Nat.two_mul,← Nat.pow_succ',Nat.succ_eq_add_one,Nat.sub_add_cancel (by omega)]
    have half : 0 < 2^(order-1) := Nat.two_pow_pos _
    have address : add64 base (blockSizeForOrder (order-1)) = base + 2^(order-1) := by
      apply add64_of_lt
      simp only [pageSize,blockSizeForOrder] at range ⊢
      omega
    rw [address] at ih ⊢
    refine ih swapped.push (by omega) (swapped.push_coalesced coalesced ?_)
    rw [← upper_buddy aligned (by show order ≠ 0; omega),buddy_buddy]
    intro free
    have apart := (List.pairwise_append.mp swapped.tiling.apart).2.2 (Block.lower ⟨base,order⟩) (by simp)
      _ (List.mem_append_left _ free)
    exact apart_ne apart rfl
  | case2 order state stop =>
    rw [splitDown,if_neg stop]
    exact coalesced

theorem takeBlock_coalesced (holding : Holding hand state allocations cells) (small : minOrder ≤ target)
    (taken : takeBlock state target = some (block,after)) (coalesced : Coalesced (freeBlocks state.freeLists)) :
    Coalesced (freeBlocks after.freeLists) := by
  obtain ⟨above,present,_⟩ := firstNonEmpty_spec state.freeLists target
  simp only [takeBlock] at taken
  by_cases exhausted : maxOrder < firstNonEmpty state.freeLists target
  · simp [exhausted] at taken
  · rw [if_neg exhausted] at taken
    have bound : firstNonEmpty state.freeLists target ≤ maxOrder := by omega
    cases list : state.freeLists (firstNonEmpty state.freeLists target) with
    | nil => exact absurd list (present bound)
    | cons base next =>
      simp only [list,Option.some.injEq,Prod.mk.injEq] at taken
      obtain ⟨_,rfl⟩ := taken
      refine splitDown_coalesced (holding.pop bound list) small above (coalesced_subset coalesced ?_)
      intro b free
      obtain ⟨limit,here⟩ := mem_freeBlocks.mp free
      refine mem_freeBlocks.mpr ⟨limit,?_⟩
      by_cases same : b.order = firstNonEmpty state.freeLists target
      · simp only [same,setList_same] at here
        rw [same,list]
        exact List.mem_cons.mpr (.inr here)
      · simpa only [setList_other same] using here

-- At the top order a block and its buddy would fill the address space, null
-- page included.
theorem Holding.below_top (holding : Holding (b :: hand) state allocations cells) : b.order < maxOrder := by
  have range := holding.range (b:=b) (by simp)
  have bound := (holding.orders b (by simp)).2
  obtain ⟨q,exact⟩ := holding.tiling.aligned b (by simp)
  by_contra top
  have order : b.order = 63 := by simp only [maxOrder] at *; omega
  rw [order] at range exact
  simp only [pageSize] at range
  rcases Nat.lt_or_ge q 1 with zero | positive
  · omega
  · have large : 2^63 * 1 ≤ 2^63 * q := Nat.mul_le_mul_left _ positive
    omega

end Holding

-- An ALLOCATE counts as successful by its error code, as for its callers.
def Succeeds (heap : Heap) : Call → Prop
  | .allocate size alignment => (allocate heap.state size.val alignment.val).1.error = .none
  | _ => True

def Merged (heap : Heap) : Prop := Coalesced (freeBlocks heap.state.freeLists)

theorem step_merged (partition : Partition heap.state heap.allocations cells) (merged : Merged heap)
    (admits : Admits heap call) (succeeds : Succeeds heap call) (step : Step heap call next) : Merged next := by
  cases step with
  | @allocated _ size alignment =>
      simp only [Merged,Heap.allocated]
      rcases allocate_cases heap.state size alignment with ⟨_,same⟩ | ⟨_,same⟩ |
        ⟨n,k,request,⟨_,same⟩ | ⟨block,mid,taken,same⟩⟩
      · rwa [same]
      · rwa [same]
      · rwa [same]
      · have fits := admits (by rw [request.sizeExact]; exact Int.natCast_pos.mpr request.positive)
          request.power block.base (by rw [request.sizeWord,request.alignmentWord]; exact takeBlock_found taken)
        rw [request.alignmentWord] at fits
        obtain ⟨_,held⟩ := Holding.takeBlock partition (targetOrderFor_bounds _).1 taken
        have kept := takeBlock_coalesced partition (targetOrderFor_bounds _).1 taken merged
        simp only [Succeeds,same] at succeeds
        rcases held.placeBlock request.small request.positive request.bound fits with
          refused | ⟨pointer,final,placed,_,lists,_⟩
        · rw [refused] at succeeds
          cases succeeds
        · rw [same,placed]
          simpa only [lists] using kept
  | @freed a _ _ _ _ present pointer result =>
      subst pointer
      obtain ⟨mid,whole,last,exact,up,written,held⟩ := Holding.free partition present
      rw [exact] at result
      obtain ⟨rfl,rfl⟩ := Prod.mk.inj (Option.some.inj result)
      have start : Coalesced (freeBlocks mid.freeLists) := by
        rw [written]
        exact merged
      obtain ⟨final,alone⟩ := held.mergeUp
      have kept := mergeUp_coalesced (b:=blockOf heap.state.memory a) start
      rw [up] at final alone kept
      refine final.push_coalesced kept ?_
      intro beside
      exact alone final.below_top (mem_freeBlocks.mp beside).2
  | stored => exact merged

def Orderly (heap : Heap) (call : Call) : Prop := Admits heap call ∧ Succeeds heap call

theorem pointer_unique (partition : Partition state allocations cells) (one : a ∈ allocations)
    (two : b ∈ allocations) (same : a.pointer = b.pointer) : a = b := by
  by_contra different
  have : Std.Symm fun (a b : Live) => a.pointer + a.size ≤ b.pointer ∨ b.pointer + b.size ≤ a.pointer :=
    ⟨fun _ _ h => h.symm⟩
  have apart := (payload_apart partition).forall one two different
  have positiveA := (partition.placed a one).positive.1
  have positiveB := (partition.placed b two).positive.1
  omega

-- Freeing every live allocation, in whatever order, can always be carried out
-- and leaves none.
theorem frees_run {frees : List Live} (partition : Partition heap.state heap.allocations cells)
    (every : frees.Perm heap.allocations) :
    (∃ last, Run Step Orderly heap (frees.map fun a => Call.free a.pointer) last) ∧
      ∀ last, Run Step Orderly heap (frees.map fun a => Call.free a.pointer) last → last.allocations = [] := by
  induction frees generalizing heap with
  | nil =>
    refine ⟨⟨heap,.nil⟩,?_⟩
    intro last run
    cases run
    exact List.nil_perm.mp every
  | cons a rest ih =>
    have present : a ∈ heap.allocations := every.mem_iff.mp (by simp)
    have remaining : rest.Perm (heap.allocations.erase a) := by
      have erased := every.erase a
      rwa [List.erase_cons_head] at erased
    constructor
    · obtain ⟨mid,merged,final,exact,_⟩ := Holding.free partition present
      have step : Step heap (.free a.pointer) ⟨_,heap.allocations.erase a⟩ := .freed present rfl exact
      have admits : Admits heap (.free a.pointer) := trivial
      obtain ⟨last,run⟩ := (ih (step_partition partition admits step) remaining).1
      exact ⟨last,.cons ⟨trivial,trivial⟩ step run⟩
    · intro last run
      cases run with
      | cons _ step run =>
        have admits : Admits heap (.free a.pointer) := trivial
        have kept := step_partition partition admits step
        cases step with
        | freed owned pointer result =>
          cases pointer_unique partition owned present pointer
          exact (ih kept remaining).2 last run

theorem orderly_run (run : Run Step Orderly start calls heap)
    (partition : Partition start.state start.allocations cells) (merged : Merged start) :
    Partition heap.state heap.allocations cells ∧ Merged heap :=
  run.keeps (fun h => Partition h.state h.allocations cells ∧ Merged h)
    (fun _ _ _ kept orderly step => ⟨step_partition kept.1 orderly.1 step,
      step_merged kept.1 kept.2 orderly.1 orderly.2 step⟩) ⟨partition,merged⟩

theorem coalescing_order_independent {frees : List Live} (admissible : Admissible regions) (memory : Memory)
    (merged : Merged (booted memory regions)) (run : Run Step Orderly (booted memory regions) calls heap)
    (every : frees.Perm heap.allocations) :
    Merged heap ∧ (∃ last, Run Step Orderly heap (frees.map fun a => Call.free a.pointer) last) ∧
      ∀ last, Run Step Orderly heap (frees.map fun a => Call.free a.pointer) last →
        Merged last ∧ ∀ order ≤ maxOrder, ∀ base,
          base ∈ last.state.freeLists order ↔ base ∈ (booted memory regions).state.freeLists order := by
  have start : Partition (booted memory regions).state (booted memory regions).allocations
      (regionCells regions) := booted_partition admissible memory
  obtain ⟨partition,kept⟩ := orderly_run run start merged
  obtain ⟨possible,none⟩ := frees_run partition every
  refine ⟨kept,possible,?_⟩
  intro last more
  obtain ⟨final,finalMerged⟩ := orderly_run more partition kept
  refine ⟨finalMerged,?_⟩
  intro order bound base
  have all : ∀ h : Heap, h.allocations = [] → allBlocks h.state h.allocations = freeBlocks h.state.freeLists := by
    intro h empty
    rw [allBlocks,empty,List.map_nil,List.append_nil]
  have tilingLast := final.tiling
  have tilingStart := start.tiling
  rw [List.nil_append,all last (none last more)] at tilingLast
  rw [List.nil_append,all (booted memory regions) rfl] at tilingStart
  have unique := coalesced_unique tilingLast tilingStart finalMerged merged ⟨base,order⟩
  rw [mem_freeBlocks,mem_freeBlocks] at unique
  simpa [bound] using unique

theorem lowHeap_merged : Merged lowHeap := by
  show ∀ b ∈ freeBlocks lowHeap.state.freeLists, b.buddy ∉ freeBlocks lowHeap.state.freeLists
  exact lowHeap_values.2.2.1

-- Splitting 64 KiB down to one page and freeing it restores the one free block.
theorem coalescing_order_independent_low :
    let heap := lowHeap.allocated ⟨100,by decide⟩ ⟨64,by decide⟩
    heap.state.freeLists 16 = [] ∧ ∃ last, Run Step Orderly heap [.free (2^20+64)] last ∧
      ∀ base, base ∈ last.state.freeLists 16 ↔ base ∈ lowHeap.state.freeLists 16 := by
  have live : [⟨2^20+64,100,64⟩] = (lowHeap.allocated ⟨100,by decide⟩ ⟨64,by decide⟩).allocations :=
    lowHeap_values.2.2.2.2.1.symm
  have succeeds : Succeeds lowHeap (.allocate ⟨100,by decide⟩ ⟨64,by decide⟩) := by
    show (allocate lowHeap.state 100 64).1.error = .none
    exact lowHeap_values.2.2.2.1
  obtain ⟨_,⟨last,run⟩,restored⟩ := coalescing_order_independent
    lowRegion_admissible (fun _ => 0) lowHeap_merged (.single ⟨lowHeap_admits,succeeds⟩ .allocated)
    (List.Perm.of_eq live)
  exact ⟨lowHeap_values.2.2.2.2.2,last,run,(restored last run).2 16 (by decide)⟩

theorem wrapped_run_breaks_round_trip : Admissible [highRegion] ∧ Merged (booted (fun _ => 0) [highRegion]) ∧
    ∃ calls heap, Run Step Succeeds (booted (fun _ => 0) [highRegion]) calls heap ∧ heap.allocations = [] ∧
      ¬ ∀ order ≤ maxOrder, ∀ base, base ∈ heap.state.freeLists order ↔
        base ∈ (booted (fun _ => 0) [highRegion]).state.freeLists order := by
  refine ⟨highRegion_admissible,?_,[.allocate ⟨1,by decide⟩ ⟨2^32,by decide⟩],_,
    .single ?_ .allocated,highHeap_unowned,?_⟩
  · show ∀ b ∈ freeBlocks highHeap.state.freeLists, b.buddy ∉ freeBlocks highHeap.state.freeLists
    exact highHeap_values.2.1
  · show (allocate highHeap.state 1 (2^32)).1.error = .none
    exact highHeap_values.2.2.2.1
  · intro same
    have start : 2^64-2^32 ∈ highHeap.state.freeLists 31 := highHeap_values.2.2.1
    have final := (same 31 (by decide) (2^64-2^32)).mpr start
    have nothing := highHeap_lists 31 (by decide)
    rw [show booted (fun _ => 0) [highRegion] = highHeap from rfl,nothing] at final
    cases final

end BuddyAllocator
